import AiTrader.Lib.Text
import AiTrader.Lib.Trace
import Mathlib.Data.Int.Notation

/-!
# Balanced braces

A scanner that counts braces and skips what stands in strings, where a backslash takes away the meaning of the
character after it. It knows nothing else of the syntax.

`Neutral cs`: read outside strings, `cs` leaves the depth as it was and never goes below it. Pieces of text put
one after another, and put in braces, are neutral when the pieces are; so the scanner finds the end of a braced
neutral text precisely at its last brace (`balanced_braced`), and no end in a text that is cut off before
(`balanced_cut`).
-/

namespace Lib

structure Scan where
  depth : ℤ := 0
  inString : Bool := false
  escaped : Bool := false
  deriving DecidableEq

namespace Scan

def next (s : Scan) (ch : Char) : Scan :=
  if s.escaped then { s with escaped := false }
  else if ch = backslash then { s with escaped := true }
  else if ch = quotationMark then { s with inString := !s.inString }
  else if s.inString then s
  else if ch = '{' then { s with depth := s.depth + 1 }
  else if ch = '}' then { s with depth := s.depth - 1 }
  else s

def after (s : Scan) (cs : List Char) : Scan := Trace.run next s cs

/-- The character is a brace that brings the depth back to zero. -/
def closes (s : Scan) (ch : Char) : Bool :=
  !s.escaped && !s.inString && decide (ch = '}') && decide (s.depth - 1 = 0)

/-- The text up to and with the brace that brings the depth back to zero. -/
def balanced (s : Scan) : List Char → Option (List Char)
  | [] => none
  | ch :: rest => if s.closes ch then some [ch] else ((s.next ch).balanced rest).map (ch :: ·)

@[simp] theorem after_nil (s : Scan) : s.after [] = s := rfl

@[simp] theorem after_cons (s : Scan) (ch : Char) (cs : List Char) :
    s.after (ch :: cs) = (s.next ch).after cs := rfl

theorem after_append (s : Scan) (cs ds : List Char) : s.after (cs ++ ds) = (s.after cs).after ds :=
  Trace.run_append s cs ds

/-- Outside strings, at a depth. -/
def level (k : ℤ) : Scan := { depth := k }

/-- In a string, at a depth. -/
def quoted (k : ℤ) : Scan := { depth := k, inString := true }

/-- A character that means nothing to the scanner outside strings. -/
def plain (ch : Char) : Bool :=
  decide (ch ≠ backslash ∧ ch ≠ quotationMark ∧ ch ≠ '{' ∧ ch ≠ '}')

@[simp] theorem next_level_open (k : ℤ) : (level k).next '{' = level (k + 1) := rfl

@[simp] theorem next_level_close (k : ℤ) : (level k).next '}' = level (k - 1) := rfl

@[simp] theorem next_level_quote (k : ℤ) : (level k).next quotationMark = quoted k := rfl

@[simp] theorem next_quoted_quote (k : ℤ) : (quoted k).next quotationMark = level k := rfl

theorem next_level_plain (k : ℤ) {ch : Char} (h : plain ch = true) : (level k).next ch = level k := by
  obtain ⟨hback, hquote, hopen, hclose⟩ := of_decide_eq_true h
  simp [next, level, hback, hquote, hopen, hclose]

theorem next_quoted {k : ℤ} {ch : Char} (hback : ch ≠ backslash) (hquote : ch ≠ quotationMark) :
    (quoted k).next ch = quoted k := by
  simp [next, quoted, hback, hquote]

theorem after_quoted_escape (k : ℤ) (ch : Char) : (quoted k).after [backslash, ch] = quoted k := rfl

/-! ### The end of a balanced text -/

theorem closes_iff {s : Scan} {ch : Char} :
    s.closes ch = true ↔ s.escaped = false ∧ s.inString = false ∧ ch = '}' ∧ s.depth = 1 := by
  have hdepth : s.depth - 1 = 0 ↔ s.depth = 1 := by omega
  rw [closes]
  simp only [Bool.and_eq_true, Bool.not_eq_true', decide_eq_true_eq, and_assoc, hdepth]

theorem depth_next_of_closes {s : Scan} {ch : Char} (h : s.closes ch = true) : (s.next ch).depth = 0 := by
  obtain ⟨hescaped, hstring, rfl, hdepth⟩ := closes_iff.mp h
  have hback : '}' ≠ backslash := by decide
  have hquote : '}' ≠ quotationMark := by decide
  simp [next, hescaped, hstring, hdepth, hback, hquote]

/-- Every character of the text leaves the depth at `k` or above. -/
def Above (k : ℤ) (s : Scan) (cs : List Char) : Prop := Trace.Each next (fun s ch => k ≤ (s.next ch).depth) s cs

theorem not_closes_of_above {k : ℤ} (hk : 0 < k) {s : Scan} {ch : Char} {cs : List Char}
    (h : Above k s (ch :: cs)) : s.closes ch = false := by
  by_contra hcloses
  have hdepth := depth_next_of_closes (by simpa using hcloses)
  have habove : k ≤ (s.next ch).depth := h.1
  omega

theorem balanced_append {k : ℤ} (hk : 0 < k) {s : Scan} {cs : List Char} (h : Above k s cs)
    (rest : List Char) : s.balanced (cs ++ rest) = ((s.after cs).balanced rest).map (cs ++ ·) := by
  induction cs generalizing s with
  | nil => simp
  | cons ch cs ih =>
    rw [List.cons_append, balanced, not_closes_of_above hk h, if_neg Bool.false_ne_true, ih h.2, after_cons,
      Option.map_map]
    rfl

theorem balanced_eq_none {k : ℤ} (hk : 0 < k) {s : Scan} {cs : List Char} (h : Above k s cs) :
    s.balanced cs = none := by
  have happend := balanced_append hk h []
  rw [List.append_nil, balanced, Option.map_none] at happend
  exact happend

/-! ### Neutral texts -/

/-- Outside strings the text does not change the state, and nowhere goes below its depth. -/
structure Neutral (cs : List Char) : Prop where
  back : ∀ k, (level k).after cs = level k
  above : ∀ k, Above k (level k) cs

/-- In a string the text does not change the state, and so not the depth. -/
structure Inert (cs : List Char) : Prop where
  back : ∀ k, (quoted k).after cs = quoted k
  above : ∀ k, Above k (quoted k) cs

theorem neutral_nil : Neutral [] := ⟨fun _ => rfl, fun _ => trivial⟩

theorem Neutral.append {cs ds : List Char} (hc : Neutral cs) (hd : Neutral ds) : Neutral (cs ++ ds) where
  back := fun k => by rw [after_append, hc.back, hd.back]
  above := by
    intro k
    refine Trace.each_append.mpr ⟨hc.above k, ?_⟩
    show Above k ((level k).after cs) ds
    rw [hc.back]
    exact hd.above k

theorem neutral_plain {ch : Char} (h : plain ch = true) : Neutral [ch] where
  back := fun k => next_level_plain k h
  above := by
    intro k
    refine ⟨?_, trivial⟩
    show k ≤ ((level k).next ch).depth
    rw [next_level_plain k h]
    exact Int.le_refl k

theorem Neutral.cons {ch : Char} {cs : List Char} (h : plain ch = true) (hcs : Neutral cs) :
    Neutral (ch :: cs) :=
  (neutral_plain h).append hcs

theorem neutral_of_plain {cs : List Char} (h : ∀ ch ∈ cs, plain ch = true) : Neutral cs := by
  induction cs with
  | nil => exact neutral_nil
  | cons ch cs ih =>
    exact Neutral.cons (h ch List.mem_cons_self) (ih fun ch' hmem => h ch' (List.mem_cons_of_mem _ hmem))

theorem neutral_of_all {cs : List Char} (h : cs.all plain = true) : Neutral cs :=
  neutral_of_plain (List.all_eq_true.mp h)

theorem inert_nil : Inert [] := ⟨fun _ => rfl, fun _ => trivial⟩

theorem Inert.append {cs ds : List Char} (hc : Inert cs) (hd : Inert ds) : Inert (cs ++ ds) where
  back := fun k => by rw [after_append, hc.back, hd.back]
  above := by
    intro k
    refine Trace.each_append.mpr ⟨hc.above k, ?_⟩
    show Above k ((quoted k).after cs) ds
    rw [hc.back]
    exact hd.above k

theorem inert_char {ch : Char} (hback : ch ≠ backslash) (hquote : ch ≠ quotationMark) : Inert [ch] where
  back := fun k => next_quoted hback hquote
  above := by
    intro k
    refine ⟨?_, trivial⟩
    show k ≤ ((quoted k).next ch).depth
    rw [next_quoted hback hquote]
    exact Int.le_refl k

theorem inert_escape (ch : Char) : Inert [backslash, ch] where
  back := fun k => after_quoted_escape k ch
  above := fun k => ⟨Int.le_refl k, Int.le_refl k, trivial⟩

theorem Inert.neutral {cs : List Char} (h : Inert cs) :
    Neutral (quotationMark :: (cs ++ [quotationMark])) where
  back := by
    intro k
    rw [after_cons, next_level_quote, after_append, h.back]
    rfl
  above := by
    intro k
    refine ⟨Int.le_refl k, Trace.each_append.mpr ⟨h.above k, ?_⟩⟩
    show Above k ((quoted k).after cs) [quotationMark]
    rw [h.back]
    exact ⟨Int.le_refl k, trivial⟩

theorem Neutral.above_open {cs : List Char} (h : Neutral cs) (k : ℤ) :
    Above (k + 1) (level k) ('{' :: cs) :=
  ⟨Int.le_refl _, h.above (k + 1)⟩

theorem Neutral.after_open {cs : List Char} (h : Neutral cs) (k : ℤ) :
    (level k).after ('{' :: cs) = level (k + 1) := by
  rw [after_cons, next_level_open, h.back]

theorem Neutral.braced {cs : List Char} (h : Neutral cs) : Neutral ('{' :: (cs ++ ['}'])) where
  back := by
    intro k
    rw [← List.cons_append, after_append, h.after_open]
    show level (k + 1 - 1) = level k
    rw [Int.add_sub_cancel]
  above := by
    intro k
    rw [← List.cons_append]
    refine Trace.each_append.mpr ⟨?_, ?_⟩
    · exact (h.above_open k).mono fun s ch hle => by omega
    · show Above k ((level k).after ('{' :: cs)) ['}']
      rw [h.after_open]
      refine ⟨?_, trivial⟩
      show k ≤ k + 1 - 1
      omega

/-! ### Braced texts -/

/-- **The scanner ends a braced neutral text at its last brace**, whatever comes after it. -/
theorem balanced_braced {cs : List Char} (h : Neutral cs) (rest : List Char) :
    (level 0).balanced ('{' :: (cs ++ '}' :: rest)) = some ('{' :: (cs ++ ['}'])) := by
  rw [← List.cons_append, balanced_append (by omega) (h.above_open 0), h.after_open, balanced]
  rfl

theorem balanced_prefix {s : Scan} {cs ds found : List Char} (hpre : cs <+: ds) (h : s.balanced cs = some found) :
    s.balanced ds = some found := by
  induction cs generalizing s ds found with
  | nil => cases h
  | cons ch cs ih =>
    obtain ⟨rest, rfl⟩ := hpre
    rw [balanced] at h
    rw [List.cons_append, balanced]
    split_ifs at h ⊢ with hcloses
    · exact h
    · obtain ⟨later, hlater, rfl⟩ := Option.map_eq_some_iff.mp h
      rw [ih (List.prefix_append cs rest) hlater, Option.map_some]

/-- **It finds no end in a text that is cut off before.** -/
theorem balanced_cut {cs pre : List Char} (h : Neutral cs) (hpre : pre <+: '{' :: cs) :
    (level 0).balanced pre = none := by
  have habove : Above 1 (level 0) pre := (h.above_open 0).cut hpre
  exact balanced_eq_none Int.one_pos habove

end Scan

end Lib
