import AiTrader.Lib.JsonRoundTrip

/-!
# The grammar of JSON

`ValueText v cs`: `cs` is a text of the value `v`, in whatever way its strings are escaped and blanks are set.

The reader reads these texts and no others: what it reads is one (`read_text`), each is read up to what stands behind it
(`read_of_text`), and `loads` takes a text of a value with blanks around it (`loads_iff`).

Both directions are inductions. Reading follows the calls of the reader, with one case for each kind of value, and
collects the blanks it skips. Being read follows the derivation of the text; the reader is told what stands behind the
value, which for a number has to be a delimiter. Fuel never runs out, since each call leaves a shorter text.
-/

namespace Lib

/-- Nothing but blanks. -/
def Blank (cs : List Char) : Prop := ∀ ch ∈ cs, jsonSpace ch = true

/-- A punctuation mark with blanks around it. -/
def Mark (ch : Char) (cs : List Char) : Prop :=
  ∃ before after, cs = before ++ ch :: after ∧ Blank before ∧ Blank after

/-- A closing bracket with blanks before it. -/
def Closing (ch : Char) (cs : List Char) : Prop := ∃ before, cs = before ++ [ch] ∧ Blank before

/-- What stands between the quotation marks of a string. -/
inductive RawText : List Char → Prop
  | nil : RawText []
  | escape (ch : Char) {cs : List Char} : RawText cs → RawText (backslash :: ch :: cs)
  | char {ch : Char} {cs : List Char} : ch ≠ quotationMark → ch ≠ backslash → RawText cs → RawText (ch :: cs)

/-- A string in its quotation marks. -/
def StringText (s : String) (cs : List Char) : Prop :=
  ∃ raw units, cs = quotationMark :: (raw ++ [quotationMark]) ∧ RawText raw ∧ stringUnits raw = some units ∧
    s = String.ofList (joinUnits units)

mutual

inductive ValueText : Json → List Char → Prop
  | word {word : List Char} {v : Json} : (word, v) ∈ valueWords → ValueText v word
  | number (n : Number) : ValueText (.number n) n.literal
  | string {s : String} {cs : List Char} : StringText s cs → ValueText (.string s) cs
  | emptyArray {close : List Char} : Closing ']' close → ValueText (.array []) ('[' :: close)
  | array {ws cs : List Char} {vs : List Json} :
      Blank ws → ElementsText vs cs → ValueText (.array vs) ('[' :: (ws ++ cs))
  | emptyObject {close : List Char} : Closing '}' close → ValueText (.object []) ('{' :: close)
  | object {ws cs : List Char} {ms : List (String × Json)} :
      Blank ws → MembersText ms cs → ValueText (.object (dictOf ms)) ('{' :: (ws ++ cs))

/-- Elements, up to and with the closing bracket of their array. -/
inductive ElementsText : List Json → List Char → Prop
  | last {v : Json} {cs close : List Char} : ValueText v cs → Closing ']' close → ElementsText [v] (cs ++ close)
  | cons {v : Json} {cs comma more : List Char} {vs : List Json} :
      ValueText v cs → Mark ',' comma → ElementsText vs more → ElementsText (v :: vs) (cs ++ (comma ++ more))

/-- Members, up to and with the closing brace of their object. -/
inductive MembersText : List (String × Json) → List Char → Prop
  | last {key : String} {v : Json} {name colon cs close : List Char} :
      StringText key name → Mark ':' colon → ValueText v cs → Closing '}' close →
        MembersText [(key, v)] (name ++ (colon ++ (cs ++ close)))
  | cons {key : String} {v : Json} {name colon cs comma more : List Char} {ms : List (String × Json)} :
      StringText key name → Mark ':' colon → ValueText v cs → Mark ',' comma → MembersText ms more →
        MembersText ((key, v) :: ms) (name ++ (colon ++ (cs ++ (comma ++ more))))

end

/-! ### What is read is a text -/

theorem skipSpace_blank (cs : List Char) : ∃ ws, cs = ws ++ skipSpace cs ∧ Blank ws :=
  ⟨cs.takeWhile jsonSpace, List.takeWhile_append_dropWhile.symm, fun _ hmem => List.mem_takeWhile_imp hmem⟩

theorem closing_of_expect {ch : Char} {cs rest : List Char} (h : expect ch cs = some rest) :
    ∃ close, cs = close ++ rest ∧ Closing ch close := by
  obtain ⟨ws, hcs, hws⟩ := skipSpace_blank cs
  unfold expect at h
  split at h
  · rename_i c rest' hskip
    split_ifs at h with hch
    obtain rfl := Option.some.inj h
    subst hch
    exact ⟨ws ++ [c], by rw [hskip] at hcs; simpa using hcs, ws, rfl, hws⟩
  · simp at h

theorem mark_of_expect {ch : Char} {cs next : List Char} (h : expect ch cs = some next) :
    ∃ mark, cs = mark ++ skipSpace next ∧ Mark ch mark := by
  obtain ⟨close, hcs, before, rfl, hbefore⟩ := closing_of_expect h
  obtain ⟨after, hnext, hafter⟩ := skipSpace_blank next
  refine ⟨before ++ ch :: after, ?_, before, after, rfl, hbefore, hafter⟩
  rw [hcs]
  nth_rewrite 1 [hnext]
  simp

theorem takeRaw_text (cs : List Char) : ∀ raw, takeRaw cs = some raw →
    cs = raw.1 ++ quotationMark :: raw.2 ∧ RawText raw.1 := by
  fun_induction takeRaw cs with
  | case1 => simp
  | case2 rest =>
    rintro raw ⟨⟩
    exact ⟨rfl, .nil⟩
  | case3 => simp
  | case4 escaped rest hquote ih =>
    intro raw h
    obtain ⟨raw', hraw', rfl⟩ := Option.map_eq_some_iff.mp h
    obtain ⟨hrest, htext⟩ := ih raw' hraw'
    exact ⟨by rw [hrest]; rfl, .escape escaped htext⟩
  | case5 ch rest hquote hback ih =>
    intro raw h
    obtain ⟨raw', hraw', rfl⟩ := Option.map_eq_some_iff.mp h
    obtain ⟨hrest, htext⟩ := ih raw' hraw'
    exact ⟨by rw [hrest]; rfl, .char hquote hback htext⟩

theorem takeString_text {rest : List Char} {s : String × List Char} (h : takeString rest = some s) :
    ∃ cs, quotationMark :: rest = cs ++ s.2 ∧ StringText s.1 cs := by
  obtain ⟨raw, hraw, hread⟩ := Option.bind_eq_some_iff.mp h
  obtain ⟨units, hunits, rfl⟩ := Option.map_eq_some_iff.mp hread
  obtain ⟨hrest, htext⟩ := takeRaw_text rest raw hraw
  exact ⟨_, by rw [hrest]; simp, raw.1, units, rfl, htext, hunits, rfl⟩

theorem takeScalar_text {cs : List Char} {v : Json × List Char} (h : takeScalar cs = some v) :
    ∃ used, cs = used ++ v.2 ∧ ValueText v.1 used := by
  unfold takeScalar at h
  split at h
  · rename_i v' hfind
    obtain rfl := Option.some.inj h
    obtain ⟨word, hmem, hdrop⟩ := List.exists_of_findSome?_eq_some hfind
    obtain ⟨rest, hrest, rfl⟩ := Option.map_eq_some_iff.mp hdrop
    exact ⟨word.1, dropWord_spec hrest, .word hmem⟩
  · obtain ⟨n, hn, hvalid⟩ := Option.bind_eq_some_iff.mp h
    split_ifs at hvalid with hliteral
    obtain rfl := Option.some.inj hvalid
    exact ⟨n.1, (takes_number hn).1.symm, .number ⟨n.1, hliteral⟩⟩

/-- What is to be shown of the three readers, with the fuel they have. -/
structure ReadText (fuel : ℕ) : Prop where
  value : ∀ cs v, value fuel cs = some v → ∃ used, cs = used ++ v.2 ∧ ValueText v.1 used
  elements : ∀ cs vs, elements fuel cs = some vs → ∃ used, cs = used ++ vs.2 ∧ ElementsText vs.1 used
  members : ∀ cs ms, members fuel cs = some ms → ∃ used, cs = used ++ ms.2 ∧ MembersText ms.1 used

section Step

variable {fuel : ℕ}

theorem ReadText.value_succ (ih : ReadText fuel) (cs : List Char) (v : Json × List Char)
    (h : Lib.value (fuel + 1) cs = some v) : ∃ used, cs = used ++ v.2 ∧ ValueText v.1 used := by
  cases cs with
  | nil => simp [Lib.value] at h
  | cons ch rest =>
    obtain ⟨ws, hrest, hws⟩ := skipSpace_blank rest
    rw [Lib.value] at h
    split_ifs at h with hquote hbrace hbracket
    · obtain ⟨s, hs, rfl⟩ := Option.map_eq_some_iff.mp h
      obtain ⟨used, hused, htext⟩ := takeString_text hs
      exact ⟨used, by rw [hquote]; exact hused, .string htext⟩
    · subst hbrace
      split at h
      · rename_i after hclose
        obtain rfl := Option.some.inj h
        obtain ⟨close, rfl, htext⟩ := closing_of_expect hclose
        exact ⟨'{' :: close, rfl, .emptyObject htext⟩
      · obtain ⟨pairs, hpairs, rfl⟩ := Option.map_eq_some_iff.mp h
        obtain ⟨used, hused, htext⟩ := ih.members _ _ hpairs
        refine ⟨'{' :: (ws ++ used), ?_, .object hws htext⟩
        rw [List.cons_append, List.append_assoc, ← hused, ← hrest]
    · subst hbracket
      split at h
      · rename_i after hclose
        obtain rfl := Option.some.inj h
        obtain ⟨close, rfl, htext⟩ := closing_of_expect hclose
        exact ⟨'[' :: close, rfl, .emptyArray htext⟩
      · obtain ⟨vs, hvs, rfl⟩ := Option.map_eq_some_iff.mp h
        obtain ⟨used, hused, htext⟩ := ih.elements _ _ hvs
        refine ⟨'[' :: (ws ++ used), ?_, .array hws htext⟩
        rw [List.cons_append, List.append_assoc, ← hused, ← hrest]
    · exact takeScalar_text h

theorem ReadText.elements_succ (ih : ReadText fuel) (cs : List Char) (vs : List Json × List Char)
    (h : Lib.elements (fuel + 1) cs = some vs) : ∃ used, cs = used ++ vs.2 ∧ ElementsText vs.1 used := by
  rw [Lib.elements] at h
  obtain ⟨v, hv, h⟩ := Option.bind_eq_some_iff.mp h
  obtain ⟨used, hused, htext⟩ := ih.value _ _ hv
  split at h
  · rename_i last hlast
    obtain rfl := Option.some.inj h
    obtain ⟨close, hclose, hclosing⟩ := closing_of_expect hlast
    exact ⟨used ++ close, by rw [hused, hclose, List.append_assoc], .last htext hclosing⟩
  · obtain ⟨next, hcomma, h⟩ := Option.bind_eq_some_iff.mp h
    obtain ⟨vs', hvs, rfl⟩ := Option.map_eq_some_iff.mp h
    obtain ⟨comma, hnext, hmark⟩ := mark_of_expect hcomma
    obtain ⟨more, hmore, hrest⟩ := ih.elements _ _ hvs
    refine ⟨used ++ (comma ++ more), ?_, .cons htext hmark hrest⟩
    rw [hused, hnext, hmore, List.append_assoc, List.append_assoc]

theorem ReadText.members_succ (ih : ReadText fuel) (cs : List Char) (ms : List (String × Json) × List Char)
    (h : Lib.members (fuel + 1) cs = some ms) : ∃ used, cs = used ++ ms.2 ∧ MembersText ms.1 used := by
  rw [Lib.members] at h
  obtain ⟨rest, hquote, h⟩ := Option.bind_eq_some_iff.mp h
  obtain ⟨key, hkey, h⟩ := Option.bind_eq_some_iff.mp h
  obtain ⟨after, hcolon, h⟩ := Option.bind_eq_some_iff.mp h
  obtain ⟨v, hv, h⟩ := Option.bind_eq_some_iff.mp h
  obtain ⟨name, hname, hnameText⟩ := takeString_text hkey
  obtain ⟨colon, hafter, hcolonMark⟩ := mark_of_expect hcolon
  obtain ⟨used, hused, htext⟩ := ih.value _ _ hv
  have hcs : cs = name ++ (colon ++ (used ++ v.2)) := by
    rw [← hused, ← hafter, ← hname]
    exact dropWord_spec hquote
  split at h
  · rename_i last hlast
    obtain rfl := Option.some.inj h
    obtain ⟨close, hclose, hclosing⟩ := closing_of_expect hlast
    refine ⟨name ++ (colon ++ (used ++ close)), ?_, .last hnameText hcolonMark htext hclosing⟩
    rw [hcs, hclose]
    simp
  · obtain ⟨next, hcomma, h⟩ := Option.bind_eq_some_iff.mp h
    obtain ⟨pairs, hpairs, rfl⟩ := Option.map_eq_some_iff.mp h
    obtain ⟨comma, hnext, hmark⟩ := mark_of_expect hcomma
    obtain ⟨more, hmore, hrest⟩ := ih.members _ _ hpairs
    refine ⟨name ++ (colon ++ (used ++ (comma ++ more))), ?_, .cons hnameText hcolonMark htext hmark hrest⟩
    rw [hcs, hnext, hmore]
    simp

end Step

/-- **What is read is a text of the value.** -/
theorem read_text (fuel : ℕ) : ReadText fuel := by
  induction fuel with
  | zero => constructor <;> simp [value, elements, members]
  | succ fuel ih => exact ⟨ih.value_succ, ih.elements_succ, ih.members_succ⟩

/-! ### Every text is read -/

theorem skipSpace_append {ws : List Char} (h : Blank ws) (cs : List Char) : skipSpace (ws ++ cs) = skipSpace cs :=
  List.dropWhile_append_of_pos h

theorem skipSpace_eq_nil {ws : List Char} (h : Blank ws) : skipSpace ws = [] :=
  List.dropWhile_eq_nil_iff.mpr h

theorem expect_closing {ch : Char} {close : List Char} (hch : jsonSpace ch = false) (h : Closing ch close)
    (rest : List Char) : expect ch (close ++ rest) = some rest := by
  obtain ⟨before, rfl, hbefore⟩ := h
  rw [expect, List.append_assoc, skipSpace_append hbefore, List.singleton_append, skipSpace_cons hch]
  simp

theorem expect_mark {ch : Char} {mark : List Char} (hch : jsonSpace ch = false) (h : Mark ch mark)
    (rest : List Char) : ∃ next, expect ch (mark ++ rest) = some next ∧ skipSpace next = skipSpace rest := by
  obtain ⟨before, after, rfl, hbefore, hafter⟩ := h
  refine ⟨after ++ rest, ?_, skipSpace_append hafter rest⟩
  rw [expect, List.append_assoc, skipSpace_append hbefore, List.cons_append, skipSpace_cons hch]
  simp

theorem expect_mark_ne {ch c : Char} {mark : List Char} (hch : jsonSpace ch = false) (hne : ch ≠ c)
    (h : Mark ch mark) (rest : List Char) : expect c (mark ++ rest) = none := by
  obtain ⟨before, after, rfl, hbefore, -⟩ := h
  rw [expect, List.append_assoc, skipSpace_append hbefore, List.cons_append, skipSpace_cons hch]
  simp [hne]

theorem ends_blank {ws : List Char} (h : Blank ws) {ch : Char} (hch : ch = ',' ∨ ch = ']' ∨ ch = '}')
    (rest : List Char) : Ends (ws ++ ch :: rest) := by
  cases ws with
  | nil =>
    intro c hc
    obtain rfl : ch = c := by simpa using hc
    tauto
  | cons w ws =>
    intro c hc
    obtain rfl : w = c := by simpa using hc
    simp [h w]

theorem Closing.ends {ch : Char} {close : List Char} (h : Closing ch close) (hch : ch = ',' ∨ ch = ']' ∨ ch = '}')
    (rest : List Char) : Ends (close ++ rest) := by
  obtain ⟨before, rfl, hbefore⟩ := h
  simpa using ends_blank hbefore hch rest

theorem Mark.ends {ch : Char} {mark : List Char} (h : Mark ch mark) (hch : ch = ',' ∨ ch = ']' ∨ ch = '}')
    (rest : List Char) : Ends (mark ++ rest) := by
  obtain ⟨before, after, rfl, hbefore, -⟩ := h
  simpa using ends_blank hbefore hch (after ++ rest)

theorem takeRaw_of_text {raw : List Char} (h : RawText raw) (rest : List Char) :
    takeRaw (raw ++ quotationMark :: rest) = some (raw, rest) := by
  induction h with
  | nil =>
    rw [List.nil_append, takeRaw.eq_def]
    simp
  | escape ch h ih => simp [takeRaw_escape, ih]
  | char hquote hback h ih => simp [takeRaw_cons hquote hback, ih]

theorem takeString_of_text {s : String} {cs : List Char} (h : StringText s cs) (rest : List Char) :
    ∃ tail, cs = quotationMark :: tail ∧ takeString (tail ++ rest) = some (s, rest) := by
  obtain ⟨raw, units, rfl, htext, hunits, rfl⟩ := h
  refine ⟨raw ++ [quotationMark], rfl, ?_⟩
  simp [takeString, takeRaw_of_text htext, hunits]

theorem takeScalar_word {word : List Char} {v : Json} (h : (word, v) ∈ valueWords) (rest : List Char) :
    takeScalar (word ++ rest) = some (v, rest) := by
  simp only [valueWords, List.mem_cons, Prod.mk.injEq, List.not_mem_nil, or_false] at h
  rcases h with ⟨rfl, rfl⟩ | ⟨rfl, rfl⟩ | ⟨rfl, rfl⟩ | ⟨rfl, rfl⟩ | ⟨rfl, rfl⟩ | ⟨rfl, rfl⟩ <;>
    simp [takeScalar, valueWords, dropWord]

theorem ValueText.head {v : Json} {cs : List Char} (h : ValueText v cs) :
    ∃ ch tail, cs = ch :: tail ∧ jsonSpace ch = false ∧ ch ≠ ']' := by
  cases h with
  | word h =>
    simp only [valueWords, List.mem_cons, Prod.mk.injEq, List.not_mem_nil, or_false] at h
    rcases h with ⟨rfl, -⟩ | ⟨rfl, -⟩ | ⟨rfl, -⟩ | ⟨rfl, -⟩ | ⟨rfl, -⟩ | ⟨rfl, -⟩ <;>
      exact ⟨_, _, rfl, by decide, by decide⟩
  | number n => exact dumps_head (.number n)
  | string h =>
    obtain ⟨raw, units, rfl, -⟩ := h
    exact ⟨_, _, rfl, by decide, by decide⟩
  | emptyArray h => exact ⟨_, _, rfl, by decide, by decide⟩
  | array hws h => exact ⟨_, _, rfl, by decide, by decide⟩
  | emptyObject h => exact ⟨_, _, rfl, by decide, by decide⟩
  | object hws h => exact ⟨_, _, rfl, by decide, by decide⟩

theorem ValueText.skipSpace {v : Json} {cs : List Char} (h : ValueText v cs) (rest : List Char) :
    Lib.skipSpace (cs ++ rest) = cs ++ rest := by
  obtain ⟨ch, tail, rfl, hspace, -⟩ := h.head
  rw [List.cons_append, skipSpace_cons hspace]

theorem ElementsText.head {vs : List Json} {cs : List Char} (h : ElementsText vs cs) :
    ∃ ch tail, cs = ch :: tail ∧ jsonSpace ch = false ∧ ch ≠ ']' := by
  cases h with
  | last h hclose =>
    obtain ⟨ch, tail, rfl, hch⟩ := h.head
    exact ⟨ch, _, rfl, hch⟩
  | cons h hcomma hmore =>
    obtain ⟨ch, tail, rfl, hch⟩ := h.head
    exact ⟨ch, _, rfl, hch⟩

theorem MembersText.head {ms : List (String × Json)} {cs : List Char} (h : MembersText ms cs) :
    ∃ tail, cs = quotationMark :: tail := by
  cases h with
  | last hname hcolon h hclose =>
    obtain ⟨raw, units, rfl, -⟩ := hname
    exact ⟨_, rfl⟩
  | cons hname hcolon h hcomma hmore =>
    obtain ⟨raw, units, rfl, -⟩ := hname
    exact ⟨_, rfl⟩

/-- The text is read, with fuel for its length, up to what stands behind it. -/
def Reads (v : Json) (cs : List Char) : Prop :=
  ∀ fuel rest, Ends rest → 2 * cs.length ≤ fuel → value fuel (cs ++ rest) = some (v, rest)

def ElementsRead (vs : List Json) (cs : List Char) : Prop :=
  ∀ fuel rest, 2 * cs.length ≤ fuel → elements fuel (cs ++ rest) = some (vs, rest)

def MembersRead (ms : List (String × Json)) (cs : List Char) : Prop :=
  ∀ fuel rest, 2 * cs.length ≤ fuel → members fuel (cs ++ rest) = some (ms, rest)

theorem reads_scalar {v : Json} {ch : Char} {cs : List Char}
    (hscalar : ∀ rest, Ends rest → takeScalar (ch :: cs ++ rest) = some (v, rest))
    (hch : ch ≠ quotationMark ∧ ch ≠ '{' ∧ ch ≠ '[') : Reads v (ch :: cs) := by
  intro fuel rest hrest hfuel
  cases fuel with
  | zero => simp at hfuel
  | succ fuel => rw [List.cons_append, value, if_neg hch.1, if_neg hch.2.1, if_neg hch.2.2, ← List.cons_append,
      hscalar rest hrest]

theorem reads_word {word : List Char} {v : Json} (h : (word, v) ∈ valueWords) : Reads v word := by
  have hscalar := takeScalar_word h
  simp only [valueWords, List.mem_cons, Prod.mk.injEq, List.not_mem_nil, or_false] at h
  rcases h with ⟨rfl, rfl⟩ | ⟨rfl, rfl⟩ | ⟨rfl, rfl⟩ | ⟨rfl, rfl⟩ | ⟨rfl, rfl⟩ | ⟨rfl, rfl⟩ <;>
    exact reads_scalar (fun rest _ => hscalar rest) (by decide)

theorem reads_number (n : Number) : Reads (.number n) n.literal := by
  have hscalar : ∀ rest, Ends rest → takeScalar (n.literal ++ rest) = some (.number n, rest) :=
    fun rest hrest => takeScalar_number n hrest
  obtain ⟨d, tail, hdigit, hcs | hcs⟩ := n.head
  · rw [hcs] at hscalar ⊢
    exact reads_scalar hscalar ⟨ne_of_isDigit hdigit (by decide), ne_of_isDigit hdigit (by decide),
      ne_of_isDigit hdigit (by decide)⟩
  · rw [hcs] at hscalar ⊢
    exact reads_scalar hscalar (by decide)

theorem reads_string {s : String} {cs : List Char} (h : StringText s cs) : Reads (.string s) cs := by
  intro fuel rest hrest hfuel
  obtain ⟨tail, rfl, htail⟩ := takeString_of_text h rest
  cases fuel with
  | zero => simp at hfuel
  | succ fuel =>
    rw [List.cons_append, value, if_pos rfl, htail]
    rfl

theorem reads_emptyArray {close : List Char} (h : Closing ']' close) : Reads (.array []) ('[' :: close) := by
  intro fuel rest hrest hfuel
  cases fuel with
  | zero => simp at hfuel
  | succ fuel =>
    rw [List.cons_append, value, if_neg (by decide), if_neg (by decide), if_pos rfl, expect_closing (by decide) h]

theorem reads_array {ws cs : List Char} {vs : List Json} (hws : Blank ws) (htext : ElementsText vs cs)
    (h : ElementsRead vs cs) : Reads (.array vs) ('[' :: (ws ++ cs)) := by
  intro fuel rest hrest hfuel
  obtain ⟨ch, tail, hcs, hspace, hch⟩ := htext.head
  have hopen : expect ']' (ws ++ (cs ++ rest)) = none := by
    rw [expect, skipSpace_append hws, hcs, List.cons_append, skipSpace_cons hspace]
    simp [hch]
  have hskip : skipSpace (ws ++ (cs ++ rest)) = cs ++ rest := by
    rw [skipSpace_append hws, hcs, List.cons_append, skipSpace_cons hspace]
  cases fuel with
  | zero => simp at hfuel
  | succ fuel =>
    simp only [List.length_cons, List.length_append] at hfuel
    rw [List.cons_append, List.append_assoc, value, if_neg (by decide), if_neg (by decide), if_pos rfl, hopen, hskip,
      h fuel rest (by omega)]
    rfl

theorem reads_emptyObject {close : List Char} (h : Closing '}' close) : Reads (.object []) ('{' :: close) := by
  intro fuel rest hrest hfuel
  cases fuel with
  | zero => simp at hfuel
  | succ fuel => rw [List.cons_append, value, if_neg (by decide), if_pos rfl, expect_closing (by decide) h]

theorem reads_object {ws cs : List Char} {ms : List (String × Json)} (hws : Blank ws) (htext : MembersText ms cs)
    (h : MembersRead ms cs) : Reads (.object (dictOf ms)) ('{' :: (ws ++ cs)) := by
  intro fuel rest hrest hfuel
  obtain ⟨tail, hcs⟩ := htext.head
  have hopen : expect '}' (ws ++ (cs ++ rest)) = none := by
    rw [expect, skipSpace_append hws, hcs, List.cons_append, skipSpace_cons (by decide)]
    rfl
  have hskip : skipSpace (ws ++ (cs ++ rest)) = cs ++ rest := by
    rw [skipSpace_append hws, hcs, List.cons_append, skipSpace_cons (by decide)]
  cases fuel with
  | zero => simp at hfuel
  | succ fuel =>
    simp only [List.length_cons, List.length_append] at hfuel
    rw [List.cons_append, List.append_assoc, value, if_neg (by decide), if_pos rfl, hopen, hskip,
      h fuel rest (by omega)]
    rfl

theorem Closing.length_pos {ch : Char} {close : List Char} (h : Closing ch close) : 0 < close.length := by
  obtain ⟨before, rfl, -⟩ := h
  simp

theorem Mark.length_pos {ch : Char} {mark : List Char} (h : Mark ch mark) : 0 < mark.length := by
  obtain ⟨before, after, rfl, -⟩ := h
  simp only [List.length_append, List.length_cons]
  omega

theorem elementsRead_last {v : Json} {cs close : List Char} (h : Reads v cs) (hclose : Closing ']' close) :
    ElementsRead [v] (cs ++ close) := by
  intro fuel rest hfuel
  have hpos := hclose.length_pos
  rw [List.length_append] at hfuel
  cases fuel with
  | zero => omega
  | succ fuel =>
    rw [List.append_assoc, elements, h fuel _ (hclose.ends (by decide) rest) (by omega), Option.bind_some]
    simp [expect_closing (show jsonSpace ']' = false by decide) hclose]

theorem elementsRead_cons {v : Json} {cs comma more : List Char} {vs : List Json} (h : Reads v cs)
    (hcomma : Mark ',' comma) (htext : ElementsText vs more) (hmore : ElementsRead vs more) :
    ElementsRead (v :: vs) (cs ++ (comma ++ more)) := by
  intro fuel rest hfuel
  have hpos := hcomma.length_pos
  simp only [List.length_append] at hfuel
  cases fuel with
  | zero => omega
  | succ fuel =>
    obtain ⟨next, hnext, hskip⟩ := expect_mark (by decide) hcomma (more ++ rest)
    obtain ⟨ch, tail, hhead, hspace, -⟩ := htext.head
    have hblank : skipSpace (more ++ rest) = more ++ rest := by
      rw [hhead, List.cons_append, skipSpace_cons hspace]
    rw [List.append_assoc, List.append_assoc, elements, h fuel _ (hcomma.ends (by decide) _) (by omega),
      Option.bind_some]
    simp only [expect_mark_ne (show jsonSpace ',' = false by decide) (show ',' ≠ ']' by decide) hcomma, hnext,
      Option.bind_some, hskip, hblank, hmore fuel rest (by omega), Option.map_some]

theorem members_of_member {key : String} {v : Json} {name colon cs behind : List Char} {fuel : ℕ}
    (hname : StringText key name) (hcolon : Mark ':' colon) (htext : ValueText v cs) (h : Reads v cs)
    (hends : Ends behind) (hfuel : 2 * cs.length ≤ fuel) :
    members (fuel + 1) (name ++ (colon ++ (cs ++ behind))) =
      match expect '}' behind with
      | some rest => some ([(key, v)], rest)
      | none => (expect ',' behind).bind fun rest =>
          (members fuel (skipSpace rest)).map fun pairs => ((key, v) :: pairs.1, pairs.2) := by
  obtain ⟨tail, rfl, htail⟩ := takeString_of_text hname (colon ++ (cs ++ behind))
  obtain ⟨next, hnext, hskip⟩ := expect_mark (by decide) hcolon (cs ++ behind)
  have hquote : dropWord [quotationMark] (quotationMark :: tail ++ (colon ++ (cs ++ behind))) =
      some (tail ++ (colon ++ (cs ++ behind))) := by simp [dropWord]
  rw [members, hquote, Option.bind_some, htail, Option.bind_some, hnext, Option.bind_some, hskip,
    htext.skipSpace, h fuel behind hends hfuel]
  cases hclose : expect '}' behind <;> simp only [Option.bind_some, hclose]

theorem membersRead_last {key : String} {v : Json} {name colon cs close : List Char} (hname : StringText key name)
    (hcolon : Mark ':' colon) (htext : ValueText v cs) (h : Reads v cs) (hclose : Closing '}' close) :
    MembersRead [(key, v)] (name ++ (colon ++ (cs ++ close))) := by
  intro fuel rest hfuel
  have hpos := hclose.length_pos
  simp only [List.length_append] at hfuel
  cases fuel with
  | zero => omega
  | succ fuel =>
    simp only [List.append_assoc]
    rw [members_of_member hname hcolon htext h (hclose.ends (by decide) rest) (by omega),
      expect_closing (by decide) hclose]

theorem membersRead_cons {key : String} {v : Json} {name colon cs comma more : List Char}
    {ms : List (String × Json)} (hname : StringText key name) (hcolon : Mark ':' colon) (htext : ValueText v cs)
    (h : Reads v cs) (hcomma : Mark ',' comma) (hmoreText : MembersText ms more) (hmore : MembersRead ms more) :
    MembersRead ((key, v) :: ms) (name ++ (colon ++ (cs ++ (comma ++ more)))) := by
  intro fuel rest hfuel
  have hpos := hcomma.length_pos
  simp only [List.length_append] at hfuel
  cases fuel with
  | zero => omega
  | succ fuel =>
    obtain ⟨next, hnext, hskip⟩ := expect_mark (by decide) hcomma (more ++ rest)
    have hblank : skipSpace (more ++ rest) = more ++ rest := by
      obtain ⟨tail, rfl⟩ := hmoreText.head
      exact skipSpace_cons (by decide) _
    simp only [List.append_assoc]
    rw [members_of_member hname hcolon htext h (hcomma.ends (by decide) _) (by omega),
      expect_mark_ne (by decide) (by decide) hcomma, hnext, Option.bind_some, hskip, hblank, hmore fuel rest (by omega)]
    rfl

mutual

/-- **A text of a value is read.** -/
theorem read_of_text : ∀ {v : Json} {cs : List Char}, ValueText v cs → Reads v cs
  | _, _, .word h => reads_word h
  | _, _, .number n => reads_number n
  | _, _, .string h => reads_string h
  | _, _, .emptyArray h => reads_emptyArray h
  | _, _, .array hws h => reads_array hws h (elements_of_text h)
  | _, _, .emptyObject h => reads_emptyObject h
  | _, _, .object hws h => reads_object hws h (members_of_text h)

theorem elements_of_text : ∀ {vs : List Json} {cs : List Char}, ElementsText vs cs → ElementsRead vs cs
  | _, _, .last h hclose => elementsRead_last (read_of_text h) hclose
  | _, _, .cons h hcomma hmore => elementsRead_cons (read_of_text h) hcomma hmore (elements_of_text hmore)

theorem members_of_text : ∀ {ms : List (String × Json)} {cs : List Char}, MembersText ms cs → MembersRead ms cs
  | _, _, .last hname hcolon h hclose => membersRead_last hname hcolon h (read_of_text h) hclose
  | _, _, .cons hname hcolon h hcomma hmore =>
    membersRead_cons hname hcolon h (read_of_text h) hcomma hmore (members_of_text hmore)

end

/-- **What `loads` takes**: a text of the value, with blanks around it. -/
theorem loads_iff {cs : List Char} {v : Json} :
    loads cs = some v ↔ ∃ before used after, cs = before ++ (used ++ after) ∧ Blank before ∧ Blank after ∧
      ValueText v used := by
  constructor
  · intro h
    obtain ⟨before, hcs, hbefore⟩ := skipSpace_blank cs
    unfold loads at h
    split at h
    · rename_i w rest hvalue
      split_ifs at h with hrest
      obtain rfl := Option.some.inj h
      obtain ⟨used, hused, htext⟩ := (read_text _).value _ _ hvalue
      obtain ⟨after, hafter, hblank⟩ := skipSpace_blank rest
      have hnil : skipSpace rest = [] := by simpa using hrest
      refine ⟨before, used, rest, ?_, hbefore, ?_, htext⟩
      · rw [← hused]
        exact hcs
      · rwa [hafter, hnil, List.append_nil]
    · simp at h
  · rintro ⟨before, used, after, rfl, hbefore, hafter, htext⟩
    have hends : Ends after := fun ch hch => by simp [hafter ch (List.mem_of_mem_head? hch)]
    have hvalue := read_of_text htext (2 * (before ++ (used ++ after)).length + 1) after hends (by simp; omega)
    unfold loads
    rw [skipSpace_append hbefore, htext.skipSpace, hvalue]
    simp [skipSpace_eq_nil hafter]

end Lib
