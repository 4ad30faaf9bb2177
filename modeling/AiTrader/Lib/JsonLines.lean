import AiTrader.Lib.JsonLexer
import AiTrader.Lib.JsonText

/-!
# A journal of objects, one a line

Each value is appended as a line of its own. A write can end early, when the disk is full or the program is killed: then
only the first characters of the line are in the file, and the next line begins right behind them. Reading takes the
lines that are values, and skips the others.

`Journal` says what is left of the values: those whose line is in the file in full, and begins where a line begins.
Reading finds precisely these (`readLines_writes`): no value is found that was not written, and what is cut off is
never read as a part of something else, whatever stands behind it.
-/

namespace Lib

open Lexer

def newline : Char := Char.ofNat 10

/-- What ends a line when a file is read as text. -/
def lineEnd (ch : Char) : Bool := decide (ch = newline ∨ ch = Char.ofNat 13)

def readLine (line : List Char) : Option Json :=
  let text := strip line
  if text.isEmpty then none else loads text

def readLines (file : List Char) : List Json := (file.splitOnP lineEnd).filterMap readLine

/-- A write: the first `taken` characters of the value's line reach the file. -/
structure LineWrite where
  value : Json
  taken : ℕ

def LineWrite.text (w : LineWrite) : List Char := (dumpsText w.value ++ [newline]).take w.taken

/-- What the line that is not finished is. -/
inductive LastLine
  | empty
  | whole (v : Json)
  | broken

/-- A line that has begun is cut off, before its end at the latest. -/
def LastLine.cut (l : LastLine) (w : LineWrite) : LastLine :=
  match l with
  | .empty => if w.taken = (dumpsText w.value).length then .whole w.value else .broken
  | .whole _ | .broken => .broken

/-- The value of the line, when another one comes to its end. -/
def LastLine.ended (l : LastLine) (v : Json) : Option Json :=
  match l with
  | .empty => some v
  | .whole _ | .broken => none

structure Journal where
  entries : List Json := []
  last : LastLine := .empty

namespace Journal

def next (j : Journal) (w : LineWrite) : Journal :=
  if w.taken = 0 then j
  else if w.taken ≤ (dumpsText w.value).length then { j with last := j.last.cut w }
  else { entries := j.entries ++ (j.last.ended w.value).toList, last := .empty }

/-- The values that can be read. -/
def readable (j : Journal) : List Json :=
  match j.last with
  | .whole v => j.entries ++ [v]
  | .empty | .broken => j.entries

def run (writes : List LineWrite) : Journal := writes.foldl next {}

end Journal

/-- An object whose first key begins with a letter. -/
structure Entry (v : Json) : Prop where
  distinct : v.Distinct
  first : ∃ key value ms ch rest, v = .object ((key, value) :: ms) ∧ key.toList = ch :: rest ∧ 'a' ≤ ch ∧ ch ≤ 'z'

/-! ### One line -/

/-- No line ends in the text. -/
def OneLine (cs : List Char) : Prop := ∀ ch ∈ cs, lineEnd ch = false

theorem oneLine_append {cs ds : List Char} : OneLine (cs ++ ds) ↔ OneLine cs ∧ OneLine ds := by
  simp [OneLine, or_imp, forall_and]

theorem oneLine_cons {ch : Char} {cs : List Char} : OneLine (ch :: cs) ↔ lineEnd ch = false ∧ OneLine cs := by
  simp [OneLine]

theorem oneLine_nil : OneLine [] := by simp [OneLine]

theorem jsonSpace_of_lineEnd {ch : Char} (h : lineEnd ch = true) : jsonSpace ch = true := by
  rcases of_decide_eq_true h with rfl | rfl <;> rfl

theorem takeNumber_eq_none {cs rest : List Char} (hrest : Ends rest) (h : takeNumber cs = none) :
    takeNumber (cs ++ rest) = none := by
  have hinteger : takeInteger (takeSign cs).2 = none := Option.map_eq_none_iff.mp h
  refine Option.map_eq_none_iff.mpr ?_
  rw [stops_sign hrest cs]
  dsimp only
  cases htail : (takeSign cs).2 with
  | nil =>
    cases hhead : rest with
    | nil => rfl
    | cons ch tail =>
      have hdigit := hrest.not_digit hhead
      have hzero : ch ≠ '0' := by
        rintro rfl
        simp [isDigit] at hdigit
      simp [takeInteger, hzero, hdigit]
  | cons ch tail =>
    rw [htail, takeInteger] at hinteger
    split_ifs at hinteger with hzero hdigit
    simp [takeInteger, hzero, hdigit]

theorem oneLine_number (n : Number) : OneLine n.literal := by
  intro ch hmem
  by_contra hend
  obtain ⟨before, after, hsplit⟩ := List.append_of_mem hmem
  have hends : Ends (ch :: after) := fun c hc => by
    obtain rfl : ch = c := by simpa using hc
    simp [jsonSpace_of_lineEnd (by simpa using hend)]
  have hvalid := n.valid
  rw [hsplit] at hvalid
  cases hbefore : takeNumber before with
  | some piece => simp [stops_number hends hbefore] at hvalid
  | none => simp [takeNumber_eq_none hends hbefore] at hvalid

theorem lineEnd_of_toNat {ch : Char} (h : 32 ≤ ch.toNat) : lineEnd ch = false := by
  refine decide_eq_false ?_
  rintro (rfl | rfl) <;> exact absurd h (by decide)

theorem oneLine_unicodeEscape (n : ℕ) : OneLine (unicodeEscape n) := by
  have hall : ∀ n < 16, lineEnd (hexDigit n) = false := by decide
  have hdigit : ∀ m : ℕ, lineEnd (hexDigit (m % 16)) = false := fun m => hall _ (Nat.mod_lt m (by omega))
  simp only [unicodeEscape, oneLine_cons, hdigit, oneLine_nil, and_true]
  decide

theorem oneLine_escapeText (ch : Char) : OneLine (escapeText ch) := by
  unfold escapeText
  cases hshort : shortEscape ch with
  | some short =>
    have hmeans : lineEnd short = false := by
      unfold shortEscape at hshort
      split_ifs at hshort with hself
      all_goals obtain rfl := Option.some.inj hshort
      · rcases hself with rfl | rfl <;> decide
      all_goals decide
    simp only [oneLine_cons, hmeans, oneLine_nil, and_true]
    decide
  | none =>
    dsimp only
    split_ifs with hcontrol
    · exact oneLine_unicodeEscape _
    · simp [oneLine_cons, oneLine_nil, lineEnd_of_toNat (Nat.le_of_not_lt hcontrol)]

theorem oneLine_textString (s : String) : OneLine (textString s) := by
  have hquote : lineEnd quotationMark = false := by decide
  have htext : OneLine (s.toList.flatMap escapeText) := by
    intro ch hmem
    obtain ⟨c, -, hc⟩ := List.mem_flatMap.mp hmem
    exact oneLine_escapeText c ch hc
  simp [textString, oneLine_cons, oneLine_append, oneLine_nil, hquote, htext]

theorem oneLine_of_all {cs : List Char} (h : cs.all (fun ch => !lineEnd ch) = true) : OneLine cs := by
  simpa [OneLine] using h

theorem oneLine_comma (more : Bool) : OneLine (if more then [] else [',', ' ']) := by
  cases more <;> exact oneLine_of_all (by decide)

mutual

/-- **A value is written on one line.** -/
theorem oneLine_dumpsText : ∀ v : Json, OneLine (dumpsText v)
  | .null | .bool true | .bool false | .nan | .infinity true | .infinity false => by
    simp only [dumpsText, dumps]
    exact oneLine_of_all (by decide)
  | .number n => by
    simp only [dumpsText, dumps]
    exact oneLine_number n
  | .string s => by
    rw [dumpsText]
    exact oneLine_textString s
  | .array vs => by
    rw [dumpsText, oneLine_cons, oneLine_append]
    exact ⟨by decide, oneLine_textElements vs, oneLine_of_all (by decide)⟩
  | .object ms => by
    rw [dumpsText, oneLine_cons, oneLine_append]
    exact ⟨by decide, oneLine_textMembers ms, oneLine_of_all (by decide)⟩

theorem oneLine_textElements : ∀ vs : List Json, OneLine (textElements vs)
  | [] => oneLine_nil
  | v :: vs => by
    rw [textElements, oneLine_append, oneLine_append]
    exact ⟨⟨oneLine_dumpsText v, oneLine_comma _⟩, oneLine_textElements vs⟩

theorem oneLine_textMembers : ∀ ms : List (String × Json), OneLine (textMembers ms)
  | [] => oneLine_nil
  | (key, v) :: ms => by
    rw [textMembers]
    simp only [oneLine_append]
    exact ⟨⟨⟨⟨oneLine_textString key, oneLine_of_all (by decide)⟩, oneLine_dumpsText v⟩, oneLine_comma _⟩,
      oneLine_textMembers ms⟩

end

/-! ### Entries -/

theorem letter_spec {ch : Char} (hlow : 'a' ≤ ch) (hhigh : ch ≤ 'z') :
    escapeText ch = [ch] ∧ delimiter ch = false ∧ isSpace ch = false := by
  have hlow' : 97 ≤ ch.toNat := hlow
  have hhigh' : ch.toNat ≤ 122 := hhigh
  have hne : ∀ c : Char, c.toNat < 97 → ch ≠ c := by
    rintro c hc rfl
    omega
  refine ⟨?_, ?_, ?_⟩
  · have hshort : shortEscape ch = none := by
      simp [shortEscape, hne quotationMark (by decide), hne backslash (by decide), hne (Char.ofNat 8) (by decide),
        hne (Char.ofNat 9) (by decide), hne (Char.ofNat 10) (by decide), hne (Char.ofNat 12) (by decide),
        hne (Char.ofNat 13) (by decide)]
    rw [escapeText, hshort]
    exact if_neg (by omega)
  · have hbrace : ch ≠ '}' := by
      rintro rfl
      exact absurd hhigh (by decide)
    simp [delimiter, jsonSpace, hne ' ' (by decide), hne (Char.ofNat 9) (by decide), hne (Char.ofNat 10) (by decide),
      hne (Char.ofNat 13) (by decide), hne ',' (by decide), hne ':' (by decide), hne ']' (by decide), hbrace]
  · exact decide_eq_false (by omega)

theorem Entry.text {v : Json} (h : Entry v) :
    ∃ ch body, dumpsText v = '{' :: quotationMark :: ch :: (body ++ ['}']) ∧ delimiter ch = false ∧
      isSpace ch = false := by
  obtain ⟨key, value, ms, ch, rest, rfl, hkey, hlow, hhigh⟩ := h.first
  obtain ⟨hescape, hdelimiter, hspace⟩ := letter_spec hlow hhigh
  obtain ⟨body, hbody⟩ : ∃ body, textMembers ((key, value) :: ms) = quotationMark :: ch :: body := by
    rw [textMembers, textString, hkey, List.flatMap_cons, hescape]
    simp only [List.cons_append, List.append_assoc, List.nil_append]
    exact ⟨_, rfl⟩
  refine ⟨ch, body, ?_, hdelimiter, hspace⟩
  rw [dumpsText, hbody]
  rfl

section

variable {v w : Json} {cs p : List Char}

theorem Entry.after (h : Entry v) (depth : ℕ) : (code depth).after (dumpsText v) = code depth := by
  obtain ⟨ch, body, htext, -⟩ := h.text
  have hdumps : dumpsText v = ('{' :: quotationMark :: ch :: body) ++ ['}'] := by
    rw [htext]
    rfl
  have hnext : ∀ (s : Lexer) (depth : ℕ), s.next '}' ≠ closed depth := by
    intro s depth
    cases s with
    | code n | closed n => cases n <;> simp [Lexer.next, delimiter, nextCode, close, quotationMark]
    | quoted n => simp [Lexer.next, backslash, quotationMark]
    | escaped n | dead => simp [Lexer.next]
    | finished => simp [Lexer.next, jsonSpace]
  rcases after_text (text_dumpsText v h.distinct) depth with heq | heq
  · exact heq
  · rw [hdumps, after_append] at heq
    exact absurd heq (hnext _ _)

/-- A line that no write can make a value again: an object is open at its end, or something stands where it cannot. -/
def Broken (cs : List Char) : Prop :=
  ((code 0).after cs).live = true ∨
    ∃ pre ch, pre ++ [ch] <+: cs ∧ isSpace ch = false ∧ (code 0).after (pre ++ [ch]) = dead

theorem broken_append (h : Broken cs) (hv : Entry v) (hp : p <+: dumpsText v) (hne : p ≠ []) : Broken (cs ++ p) := by
  obtain ⟨ch, body, htext, hdelimiter, hspace⟩ := hv.text
  rcases h with hlive | ⟨pre, c, hpre, hc, hdead⟩
  · have hopen : ∃ q, p = '{' :: q ∧ q <+: quotationMark :: ch :: (body ++ ['}']) := by
      rw [htext] at hp
      exact (List.prefix_cons_iff.mp hp).resolve_left hne
    obtain ⟨q, rfl, hq⟩ := hopen
    cases hstate : (code 0).after cs with
    | code depth =>
      -- the piece is read as a value inside what is open
      left
      obtain ⟨rest, hrest⟩ := hp
      refine @live_of_after _ rest ?_
      rw [← after_append, List.append_assoc, hrest, after_append, hstate, hv.after]
      rfl
    | closed depth =>
      right
      refine ⟨cs, '{', ?_, by decide, by rw [after_append, hstate]; rfl⟩
      simp
    | quoted depth | escaped depth =>
      -- its first quotation mark ends the string that is open
      rcases List.prefix_cons_iff.mp hq with rfl | ⟨q', rfl, hq'⟩
      · left
        rw [after_append, hstate]
        rfl
      · rcases List.prefix_cons_iff.mp hq' with rfl | ⟨q'', rfl, -⟩
        · left
          rw [after_append, hstate]
          rfl
        · right
          refine ⟨cs ++ ['{', quotationMark], ch, by simp, hspace, ?_⟩
          rw [after_append, after_append, hstate]
          show (closed depth).next ch = dead
          simp [Lexer.next, hdelimiter]
    | finished | dead => simp [hstate, live] at hlive
  · exact Or.inr ⟨pre, c, hpre.trans (List.prefix_append _ _), hc, hdead⟩

theorem broken_cut (hv : Entry v) (hp : p <+: dumpsText v) (hnil : p ≠ []) (hne : p ≠ dumpsText v) :
    ∃ q, p = '{' :: q ∧ Broken q := by
  obtain ⟨ch, body, htext, -⟩ := hv.text
  rw [htext] at hp hne
  obtain ⟨q, rfl, hq⟩ := (List.prefix_cons_iff.mp hp).resolve_left hnil
  refine ⟨q, rfl, Or.inl ?_⟩
  have hover : (code 0).after ((quotationMark :: ch :: body) ++ ['}']) = finished :=
    after_object (text_dumpsText v hv.distinct) htext
  have hlive : ((code 0).after (quotationMark :: ch :: body)).live = true := by
    rw [after_append] at hover
    exact live_of_finished hover
  have hinner : q <+: quotationMark :: ch :: body := by
    have hq' : q <+: (quotationMark :: ch :: body) ++ ['}'] := hq
    rcases List.prefix_concat_iff.mp hq' with rfl | hinner
    · exact absurd rfl hne
    · exact hinner
  obtain ⟨rest, hrest⟩ := hinner
  rw [← hrest, after_append] at hlive
  exact live_of_after hlive

theorem broken_behind (hv : Entry v) (hw : Entry w) (hp : p <+: dumpsText w) (hnil : p ≠ []) :
    ∃ q, dumpsText v ++ p = '{' :: q ∧ Broken q := by
  obtain ⟨ch, body, htext, -⟩ := hv.text
  obtain ⟨c, tail, htail, -⟩ := hw.text
  rw [htail] at hp
  obtain ⟨q, rfl, -⟩ := (List.prefix_cons_iff.mp hp).resolve_left hnil
  refine ⟨quotationMark :: ch :: (body ++ ['}']) ++ '{' :: q, by rw [htext]; rfl, Or.inr ?_⟩
  refine ⟨quotationMark :: ch :: (body ++ ['}']), '{', by simp, by decide, ?_⟩
  rw [after_append, after_object (text_dumpsText v hv.distinct) htext]
  rfl

theorem readLine_entry (hv : Entry v) : readLine (dumpsText v) = some v := by
  obtain ⟨ch, body, htext, -⟩ := hv.text
  have hstrip : strip (dumpsText v) = dumpsText v := by
    have hconcat : quotationMark :: ch :: (body ++ ['}']) = (quotationMark :: ch :: body) ++ ['}'] := rfl
    rw [htext, strip_cons (by decide), hconcat, rstrip, List.rdropWhile_concat_neg isSpace _ '}' (by decide)]
  have hfilled : (dumpsText v).isEmpty = false := by
    rw [htext]
    rfl
  rw [readLine, hstrip, hfilled]
  exact loads_dumpsText hv.distinct

theorem readLine_broken (h : Broken cs) : readLine ('{' :: cs) = none := by
  have hnone : loads ('{' :: rstrip cs) = none := by
    by_contra hsome
    obtain ⟨v, hv⟩ := Option.ne_none_iff_exists'.mp hsome
    have hover := finished_of_loads hv
    rcases h with hlive | ⟨pre, ch, hpre, hch, hdead⟩
    · obtain ⟨rest, hrest⟩ := rstrip_isPrefix cs
      rw [← hrest, after_append, hover] at hlive
      simpa [live] using live_of_after hlive
    · obtain ⟨rest, hrest⟩ := prefix_rstrip hch hpre
      rw [← hrest, after_append, hdead, after_dead] at hover
      simp at hover
  rw [readLine, strip_cons (by decide)]
  simpa using hnone

/-! ### The file -/

theorem readLines_line (h : OneLine cs) (rest : List Char) :
    readLines (cs ++ newline :: rest) = (readLine cs).toList ++ readLines rest := by
  unfold readLines
  rw [List.splitOnP_append_cons_of_forall_mem h newline (by decide), List.filterMap_cons]
  cases readLine cs <;> rfl

theorem readLines_last (h : OneLine cs) : readLines cs = (readLine cs).toList := by
  unfold readLines
  rw [List.splitOnP_eq_singleton h, List.filterMap_cons]
  cases readLine cs <;> rfl

/-- What the journal says of the last line. -/
def LastLine.Holds : LastLine → List Char → Prop
  | .empty, cs => cs = []
  | .whole v, cs => Entry v ∧ cs = dumpsText v
  | .broken, cs => ∃ tail, cs = '{' :: tail ∧ Broken tail

/-- The file is as the journal says. -/
def Journal.Holds (j : Journal) (file : List Char) : Prop :=
  ∃ finished last, file = finished ++ last ∧ OneLine last ∧
    (∀ rest, readLines (finished ++ rest) = j.entries ++ readLines rest) ∧ j.last.Holds last

variable {j : Journal} {file : List Char} {l : LastLine}

theorem LastLine.Holds.readLine_append (h : l.Holds cs) (hw : Entry w) :
    readLine (cs ++ dumpsText w) = l.ended w := by
  have hnil : dumpsText w ≠ [] := by
    obtain ⟨ch, body, htext, -⟩ := hw.text
    simp [htext]
  cases l with
  | empty =>
    obtain rfl : cs = [] := h
    exact readLine_entry hw
  | whole v =>
    obtain ⟨hv, rfl⟩ := h
    obtain ⟨q, hq, hbroken⟩ := broken_behind hv hw (List.prefix_refl _) hnil
    rw [hq]
    exact readLine_broken hbroken
  | broken =>
    obtain ⟨tail, rfl, hbroken⟩ := h
    exact readLine_broken (broken_append hbroken hw (List.prefix_refl _) hnil)

theorem LastLine.Holds.cut (h : l.Holds cs) {taken : ℕ} (hw : Entry w) (hcut : taken ≤ (dumpsText w).length)
    (hnil : (dumpsText w).take taken ≠ []) : (l.cut ⟨w, taken⟩).Holds (cs ++ (dumpsText w).take taken) := by
  have hpre : (dumpsText w).take taken <+: dumpsText w := List.take_prefix taken _
  cases l with
  | empty =>
    obtain rfl : cs = [] := h
    unfold LastLine.cut
    dsimp only
    split_ifs with hlength
    · exact ⟨hw, by rw [hlength, List.take_length]; rfl⟩
    · refine broken_cut hw hpre hnil fun heq => ?_
      have hsame := congrArg List.length heq
      rw [List.nil_append, List.length_take] at hsame
      omega
  | whole v =>
    obtain ⟨hv, rfl⟩ := h
    exact broken_behind hv hw hpre hnil
  | broken =>
    obtain ⟨tail, rfl, hbroken⟩ := h
    exact ⟨tail ++ (dumpsText w).take taken, rfl, broken_append hbroken hw hpre hnil⟩

/-- **One write.** -/
theorem Journal.Holds.next (h : j.Holds file) {write : LineWrite} (hentry : Entry write.value) :
    (j.next write).Holds (file ++ write.text) := by
  obtain ⟨finished, last, rfl, hone, hread, hlast⟩ := h
  obtain ⟨w, taken⟩ := write
  have hline := oneLine_dumpsText w
  unfold Journal.next LineWrite.text
  dsimp only at hentry ⊢
  by_cases hzero : taken = 0
  · -- nothing is written
    rw [if_pos hzero, hzero, List.take_zero, List.append_nil]
    exact ⟨finished, last, rfl, hone, hread, hlast⟩
  rw [if_neg hzero]
  split_ifs with hcut
  · -- the line is cut off, before its end at the latest
    have htake : (dumpsText w ++ [newline]).take taken = (dumpsText w).take taken :=
      List.take_append_of_le_length hcut
    have hnil : (dumpsText w).take taken ≠ [] := by
      intro hnil
      have hlength := congrArg List.length hnil
      rw [List.length_take, List.length_nil] at hlength
      omega
    have hone' : OneLine (last ++ (dumpsText w).take taken) :=
      oneLine_append.mpr ⟨hone, fun ch hch => hline ch (List.mem_of_mem_take hch)⟩
    refine ⟨finished, last ++ (dumpsText w).take taken, by simp [htake], hone', hread, ?_⟩
    exact hlast.cut hentry hcut hnil
  · -- the line is written in full, and ended
    have htake : (dumpsText w ++ [newline]).take taken = dumpsText w ++ [newline] :=
      List.take_of_length_le (by simp; omega)
    refine ⟨finished ++ (last ++ (dumpsText w ++ [newline])), [], by simp [htake], oneLine_nil, ?_, rfl⟩
    intro rest
    have hsame : finished ++ (last ++ (dumpsText w ++ [newline])) ++ rest =
        finished ++ ((last ++ dumpsText w) ++ newline :: rest) := by simp
    rw [hsame, hread, readLines_line (oneLine_append.mpr ⟨hone, hline⟩), hlast.readLine_append hentry,
      List.append_assoc]

theorem Journal.holds_run (writes : List LineWrite) (h : ∀ write ∈ writes, Entry write.value) :
    (Journal.run writes).Holds (writes.flatMap LineWrite.text) := by
  induction writes using List.reverseRecOn with
  | nil => exact ⟨[], [], rfl, oneLine_nil, fun rest => rfl, rfl⟩
  | append_singleton writes write ih =>
    rw [Journal.run, List.foldl_append, List.flatMap_append, List.flatMap_singleton]
    exact (ih fun w hw => h w (List.mem_append_left _ hw)).next (h write (by simp))

theorem Journal.Holds.readLines_eq (h : j.Holds file) : readLines file = j.readable := by
  obtain ⟨finished, last, rfl, hone, hread, hlast⟩ := h
  rw [hread, readLines_last hone, Journal.readable]
  cases hkind : j.last with
  | empty =>
    rw [hkind] at hlast
    obtain rfl : last = [] := hlast
    exact List.append_nil _
  | whole v =>
    rw [hkind] at hlast
    obtain ⟨hv, rfl⟩ := hlast
    rw [readLine_entry hv]
    rfl
  | broken =>
    rw [hkind] at hlast
    obtain ⟨tail, rfl, hbroken⟩ := hlast
    rw [readLine_broken hbroken]
    exact List.append_nil _

/-- **What can be read of a journal**: whatever writes have ended early. -/
theorem readLines_writes (writes : List LineWrite) (h : ∀ write ∈ writes, Entry write.value) :
    readLines (writes.flatMap LineWrite.text) = (Journal.run writes).readable :=
  (Journal.holds_run writes h).readLines_eq

end

/-! ### What a journal keeps -/

/-- The line is written in full, and ended. -/
def LineWrite.Full (w : LineWrite) : Prop := (dumpsText w.value).length < w.taken

namespace Journal

theorem run_concat (writes : List LineWrite) (w : LineWrite) : run (writes ++ [w]) = (run writes).next w := by
  simp [run]

theorem readable_sublist (writes : List LineWrite) :
    (run writes).readable.Sublist (writes.map fun w => w.value) := by
  induction writes using List.reverseRecOn with
  | nil => exact List.Sublist.refl _
  | append_singleton writes w ih =>
    rw [run_concat, List.map_append, List.map_singleton]
    have hentries : (run writes).entries.Sublist (writes.map fun w => w.value) := by
      refine List.Sublist.trans ?_ ih
      unfold readable
      split
      · exact List.sublist_append_left _ _
      · exact List.Sublist.refl _
      · exact List.Sublist.refl _
    have hmore : (run writes).entries.Sublist (writes.map (fun w => w.value) ++ [w.value]) :=
      hentries.trans (List.sublist_append_left _ _)
    unfold next
    split_ifs with hzero hcut
    · exact ih.trans (List.sublist_append_left _ _)
    · unfold LastLine.cut readable
      cases (run writes).last with
      | empty =>
        dsimp only
        split_ifs
        · exact hentries.append (List.Sublist.refl _)
        · exact hmore
      | whole v | broken => exact hmore
    · cases (run writes).last with
      | empty => exact hentries.append (List.Sublist.refl _)
      | whole v | broken => simpa [LastLine.ended, readable] using hmore

theorem last_eq_empty_iff (writes : List LineWrite) :
    (run writes).last = .empty ↔ ∀ w ∈ (writes.filter fun w => decide (w.taken ≠ 0)).getLast?, w.Full := by
  induction writes using List.reverseRecOn with
  | nil => simp [run]
  | append_singleton writes w ih =>
    rw [run_concat, List.filter_append, next]
    split_ifs with hzero hcut
    · simpa [hzero] using ih
    · have hnot : ¬ w.Full := not_lt.mpr hcut
      have hne : (run writes).last.cut w ≠ .empty := by
        unfold LastLine.cut
        split
        · split_ifs <;> simp
        · simp
        · simp
      simp [hzero, hnot, hne]
    · have hfull : w.Full := not_le.mp hcut
      simp [hzero, hfull]

theorem entries_next (j : Journal) (w : LineWrite) : j.entries <+: (j.next w).entries := by
  unfold next
  split_ifs
  · exact List.prefix_refl _
  · exact List.prefix_refl _
  · exact List.prefix_append _ _

theorem entries_run (before after : List LineWrite) :
    (run before).entries <+: (run (before ++ after)).entries := by
  induction after using List.reverseRecOn with
  | nil => simp
  | append_singleton after w ih =>
    rw [← List.append_assoc, run_concat]
    exact ih.trans (entries_next _ w)

/-- **Which values are kept**: a line that is written in full where a line begins. -/
theorem mem_entries (before after : List LineWrite) {w : LineWrite} (hfull : w.Full)
    (hempty : (run before).last = .empty) : w.value ∈ (run (before ++ w :: after)).entries := by
  have hnext : ((run before).next w).entries = (run before).entries ++ [w.value] := by
    have hzero : w.taken ≠ 0 := by
      have := hfull
      unfold LineWrite.Full at this
      omega
    rw [next, if_neg hzero, if_neg (not_le.mpr hfull), hempty]
    rfl
  have hkept := entries_run (before ++ [w]) after
  rw [run_concat, hnext, List.append_assoc] at hkept
  exact hkept.subset (by simp)

theorem run_full {writes : List LineWrite} (h : ∀ w ∈ writes, w.Full) :
    run writes = { entries := writes.map fun w => w.value } := by
  induction writes using List.reverseRecOn with
  | nil => rfl
  | append_singleton writes w ih =>
    have hw : w.Full := h w (by simp)
    have hzero : w.taken ≠ 0 := by
      unfold LineWrite.Full at hw
      omega
    rw [run_concat, ih fun w' hw' => h w' (by simp [hw']), next, if_neg hzero, if_neg (not_le.mpr hw)]
    simp [LastLine.ended]

theorem readable_of_entries {j : Journal} {v : Json} (h : v ∈ j.entries) : v ∈ j.readable := by
  unfold readable
  split
  · exact List.mem_append_left _ h
  · exact h
  · exact h

end Journal

end Lib
