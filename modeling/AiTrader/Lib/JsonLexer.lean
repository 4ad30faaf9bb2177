import AiTrader.Lib.JsonGrammar
import AiTrader.Lib.Trace

/-!
# How far the text of an object has come

`Lexer` reads the text of an object from behind its first brace. It counts braces outside strings, and dies where a
string is followed by something that cannot follow one, or the object by something that is no blank.

The text of an object brings it to `finished` (`after_object`), and no other state leads there again: so a text that is cut
off, or that goes wrong on the way, is none that `loads` takes (`finished_of_loads`).
-/

namespace Lib

inductive Lexer
  /-- Outside strings, with so many objects open besides the outermost. -/
  | code (depth : ℕ)
  /-- Behind the closing quotation mark of a string. -/
  | closed (depth : ℕ)
  | quoted (depth : ℕ)
  | escaped (depth : ℕ)
  /-- Behind the last brace. -/
  | finished
  | dead
  deriving DecidableEq

namespace Lexer

/-- What may follow a string. -/
def delimiter (ch : Char) : Bool := jsonSpace ch || decide (ch = ',' ∨ ch = ':' ∨ ch = ']' ∨ ch = '}')

/-- Behind a closing brace. -/
def close : ℕ → Lexer
  | 0 => finished
  | depth + 1 => code depth

def nextCode (depth : ℕ) (ch : Char) : Lexer :=
  if ch = quotationMark then quoted depth
  else if ch = '{' then code (depth + 1)
  else if ch = '}' then close depth
  else code depth

def next : Lexer → Char → Lexer
  | code depth, ch => nextCode depth ch
  | closed depth, ch => if delimiter ch then nextCode depth ch else dead
  | quoted depth, ch =>
    if ch = backslash then escaped depth else if ch = quotationMark then closed depth else quoted depth
  | escaped depth, _ => quoted depth
  | finished, ch => if jsonSpace ch then finished else dead
  | dead, _ => dead

def after (s : Lexer) (cs : List Char) : Lexer := Trace.run next s cs

@[simp] theorem after_nil (s : Lexer) : s.after [] = s := rfl

@[simp] theorem after_cons (s : Lexer) (ch : Char) (cs : List Char) : s.after (ch :: cs) = (s.next ch).after cs := rfl

@[simp] theorem after_append (s : Lexer) (cs ds : List Char) : s.after (cs ++ ds) = (s.after cs).after ds :=
  Trace.run_append s cs ds

/-- The object is not at its end, and nothing has gone wrong. -/
def live : Lexer → Bool
  | code _ | closed _ | quoted _ | escaped _ => true
  | finished | dead => false

theorem live_of_next {s : Lexer} {ch : Char} (h : (s.next ch).live = true) : s.live = true := by
  cases s with
  | finished =>
    rw [next] at h
    split_ifs at h <;> simp [live] at h
  | dead => simp [next, live] at h
  | code | closed | quoted | escaped => rfl

theorem live_of_after {s : Lexer} {cs : List Char} (h : (s.after cs).live = true) : s.live = true := by
  induction cs generalizing s with
  | nil => exact h
  | cons ch cs ih => exact live_of_next (ih h)

theorem after_dead (cs : List Char) : dead.after cs = dead := by
  induction cs with
  | nil => rfl
  | cons ch cs ih => exact ih

theorem live_of_finished {s : Lexer} (h : s.next '}' = finished) : s.live = true := by
  cases s with
  | finished => simp [next, jsonSpace] at h
  | dead => simp [next] at h
  | code | closed | quoted | escaped => rfl

/-! ### The grammar -/

/-- At a depth, perhaps just behind a string. -/
def At (depth : ℕ) (s : Lexer) : Prop := s = code depth ∨ s = closed depth

theorem next_delimiter {depth : ℕ} {s : Lexer} (h : At depth s) {ch : Char} (hch : delimiter ch = true) :
    s.next ch = nextCode depth ch := by
  rcases h with rfl | rfl
  · rfl
  · simp [next, hch]

theorem nextCode_blank (depth : ℕ) {ch : Char} (h : jsonSpace ch = true) : nextCode depth ch = code depth := by
  rcases of_decide_eq_true h with rfl | rfl | rfl | rfl <;> simp [nextCode, quotationMark]

theorem next_blank {depth : ℕ} {s : Lexer} (h : At depth s) {ch : Char} (hch : jsonSpace ch = true) :
    s.next ch = code depth := by
  rw [next_delimiter h (by simp [delimiter, hch]), nextCode_blank depth hch]

theorem after_blank {depth : ℕ} {s : Lexer} (h : At depth s) {ws : List Char} (hws : Blank ws) :
    At depth (s.after ws) := by
  induction ws generalizing s with
  | nil => exact h
  | cons ch ws ih =>
    rw [after_cons, next_blank h (hws ch List.mem_cons_self)]
    exact ih (Or.inl rfl) fun c hc => hws c (List.mem_cons_of_mem _ hc)

theorem code_after_blank (depth : ℕ) {ws : List Char} (hws : Blank ws) : (code depth).after ws = code depth := by
  induction ws with
  | nil => rfl
  | cons ch ws ih =>
    rw [after_cons, next_blank (Or.inl rfl) (hws ch List.mem_cons_self)]
    exact ih fun c hc => hws c (List.mem_cons_of_mem _ hc)

theorem finished_after_blank {ws : List Char} (hws : Blank ws) : finished.after ws = finished := by
  induction ws with
  | nil => rfl
  | cons ch ws ih =>
    rw [after_cons, next, if_pos (hws ch List.mem_cons_self)]
    exact ih fun c hc => hws c (List.mem_cons_of_mem _ hc)

theorem after_closing {depth : ℕ} {s : Lexer} (h : At depth s) {ch : Char} {close : List Char}
    (hclose : Closing ch close) (hch : delimiter ch = true) : s.after close = nextCode depth ch := by
  obtain ⟨before, rfl, hbefore⟩ := hclose
  rw [after_append, after_cons, next_delimiter (after_blank h hbefore) hch]
  rfl

theorem after_mark {depth : ℕ} {s : Lexer} (h : At depth s) {ch : Char} {mark : List Char} (hmark : Mark ch mark)
    (hch : ch = ',' ∨ ch = ':') : s.after mark = code depth := by
  obtain ⟨before, after, rfl, hbefore, hafter⟩ := hmark
  have hnext : (s.after before).next ch = code depth := by
    rcases hch with rfl | rfl <;> exact next_delimiter (after_blank h hbefore) rfl
  rw [after_append, after_cons, hnext, code_after_blank depth hafter]

theorem quoted_after_raw (depth : ℕ) {cs : List Char} (h : RawText cs) : (quoted depth).after cs = quoted depth := by
  induction h with
  | nil => rfl
  | escape ch _ ih => exact ih
  | char hquote hback _ ih => simpa [next, hquote, hback] using ih

theorem after_string (depth : ℕ) {s : String} {cs : List Char} (h : StringText s cs) :
    (code depth).after cs = closed depth := by
  obtain ⟨raw, units, rfl, hraw, -⟩ := h
  rw [after_cons]
  show (quoted depth).after (raw ++ [quotationMark]) = _
  rw [after_append, quoted_after_raw depth hraw]
  rfl

theorem code_after_plain (depth : ℕ) {cs : List Char} (h : ∀ ch ∈ cs, Scan.plain ch = true) :
    (code depth).after cs = code depth := by
  induction cs with
  | nil => rfl
  | cons ch cs ih =>
    obtain ⟨-, hquote, hopen, hclose⟩ := of_decide_eq_true (h ch List.mem_cons_self)
    rw [after_cons, show (code depth).next ch = code depth by simp [next, nextCode, hquote, hopen, hclose]]
    exact ih fun c hc => h c (List.mem_cons_of_mem _ hc)

mutual

/-- **The text of a value keeps the depth.** -/
theorem after_text : ∀ {v : Json} {cs : List Char}, ValueText v cs → ∀ depth, At depth ((code depth).after cs)
  | _, _, .word h, depth => Or.inl (code_after_plain depth (List.all_eq_true.mp (valueWords_spec _ h).1))
  | _, _, .number n, depth => Or.inl (code_after_plain depth (takes_number n.valid).2)
  | _, _, .string h, depth => Or.inr (after_string depth h)
  | _, _, .emptyArray h, depth => Or.inl (after_closing (Or.inl rfl) h rfl)
  | _, _, .array hws h, depth => by
    refine Or.inl ?_
    rw [after_cons, after_append, show (code depth).next '[' = code depth from rfl, code_after_blank depth hws]
    exact after_elements h depth
  | _, _, .emptyObject h, depth => Or.inl (after_closing (Or.inl rfl) h rfl)
  | _, _, .object hws h, depth => by
    refine Or.inl ?_
    rw [after_cons, after_append, show (code depth).next '{' = code (depth + 1) from rfl,
      code_after_blank (depth + 1) hws]
    exact after_members h (depth + 1)

theorem after_elements : ∀ {vs : List Json} {cs : List Char}, ElementsText vs cs → ∀ depth,
    (code depth).after cs = code depth
  | _, _, .last h hclose, depth => by
    rw [after_append]
    exact after_closing (after_text h depth) hclose rfl
  | _, _, .cons h hcomma hmore, depth => by
    rw [after_append, after_append, after_mark (after_text h depth) hcomma (Or.inl rfl)]
    exact after_elements hmore depth

theorem after_members : ∀ {ms : List (String × Json)} {cs : List Char}, MembersText ms cs → ∀ depth,
    (code depth).after cs = close depth
  | _, _, .last hname hcolon h hclose, depth => by
    rw [after_append, after_append, after_append, after_string depth hname,
      after_mark (Or.inr rfl) hcolon (Or.inr rfl)]
    exact after_closing (after_text h depth) hclose rfl
  | _, _, .cons hname hcolon h hcomma hmore, depth => by
    rw [after_append, after_append, after_append, after_append, after_string depth hname,
      after_mark (Or.inr rfl) hcolon (Or.inr rfl), after_mark (after_text h depth) hcomma (Or.inl rfl)]
    exact after_members hmore depth

end

/-- **The text of an object ends with its last brace.** -/
theorem after_object {v : Json} {text cs : List Char} (h : ValueText v text) (htext : text = '{' :: cs) :
    (code 0).after cs = finished := by
  have hplain : ∀ word : List Char, (∀ ch ∈ word, Scan.plain ch = true) → word ≠ '{' :: cs := by
    rintro word hword rfl
    exact absurd (hword '{' List.mem_cons_self) (by decide)
  cases h with
  | word h => exact absurd htext (hplain _ (List.all_eq_true.mp (valueWords_spec _ h).1))
  | number n => exact absurd htext (hplain _ (takes_number n.valid).2)
  | string h =>
    obtain ⟨raw, units, rfl, -⟩ := h
    simp [quotationMark] at htext
  | emptyArray h | array hws h => simp at htext
  | emptyObject h =>
    obtain rfl : _ = cs := List.tail_eq_of_cons_eq htext
    exact after_closing (Or.inl rfl) h rfl
  | object hws h =>
    obtain rfl : _ = cs := List.tail_eq_of_cons_eq htext
    rw [after_append, code_after_blank 0 hws]
    exact after_members h 0

theorem finished_of_loads {cs : List Char} {v : Json} (h : loads ('{' :: cs) = some v) : (code 0).after cs = finished := by
  obtain ⟨before, used, after, hcs, hbefore, hafter, htext⟩ := loads_iff.mp h
  cases before with
  | nil =>
    obtain ⟨ch, tail, rfl, -⟩ := htext.head
    obtain ⟨rfl, hrest⟩ : '{' = ch ∧ cs = tail ++ after := by simpa using hcs
    rw [hrest, after_append, after_object htext rfl, finished_after_blank hafter]
  | cons w before =>
    obtain ⟨rfl, -⟩ : '{' = w ∧ _ := by simpa using hcs
    exact absurd (hbefore '{' List.mem_cons_self) (by decide)

end Lexer

end Lib
