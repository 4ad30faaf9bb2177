import Mathlib.Data.List.Basic

/-!
# Separator-joined text

A text split at every occurrence of a separator, as in colon-separated references. Splitting what was
joined from separator-free parts gives the parts back (`splitAt_append_cons`, `splitAt_eq_singleton`),
and joining what was split gives the text back (`joinWith_splitAt`).
-/

namespace Lib.Fields

variable {α : Type} [DecidableEq α]

/-- The maximal separator-free parts, in order; never the empty list. -/
def splitAt (sep : α) : List α → List (List α)
  | [] => [[]]
  | c :: cs =>
    if c = sep then [] :: splitAt sep cs
    else match splitAt sep cs with
      | [] => [[c]]
      | part :: parts => (c :: part) :: parts

def joinWith (sep : α) : List (List α) → List α
  | [] => []
  | [part] => part
  | part :: parts => part ++ sep :: joinWith sep parts

theorem splitAt_ne_nil (sep : α) (cs : List α) : splitAt sep cs ≠ [] := by
  cases cs with
  | nil => simp [splitAt]
  | cons c cs =>
    rw [splitAt]
    split_ifs
    · simp
    · split <;> simp

theorem splitAt_eq_singleton {sep : α} {cs : List α} (h : sep ∉ cs) : splitAt sep cs = [cs] := by
  induction cs with
  | nil => rfl
  | cons c cs ih =>
    have hc : c ≠ sep := fun hc => h (by simp [hc])
    rw [splitAt, if_neg hc, ih fun hmem => h (List.mem_cons_of_mem _ hmem)]

theorem splitAt_append_cons {sep : α} {part : List α} (h : sep ∉ part) (rest : List α) :
    splitAt sep (part ++ sep :: rest) = part :: splitAt sep rest := by
  induction part with
  | nil => simp [splitAt]
  | cons c part ih =>
    have hc : c ≠ sep := fun hc => h (by simp [hc])
    rw [List.cons_append, splitAt, if_neg hc, ih fun hmem => h (List.mem_cons_of_mem _ hmem)]

theorem joinWith_splitAt (sep : α) (cs : List α) : joinWith sep (splitAt sep cs) = cs := by
  induction cs with
  | nil => rfl
  | cons c cs ih =>
    rw [splitAt]
    obtain ⟨part, parts, hsplit⟩ := List.exists_cons_of_ne_nil (splitAt_ne_nil sep cs)
    rw [hsplit] at ih
    split_ifs with hc
    · rw [hsplit, joinWith, ih, hc, List.nil_append]
      exact List.cons_ne_nil _ _
    · rw [hsplit]
      cases parts with
      | nil => simpa [joinWith] using ih
      | cons next parts => simpa [joinWith] using ih

theorem append_cons_inj {sep : α} {a b r t : List α} (ha : sep ∉ a) (hb : sep ∉ b)
    (h : a ++ sep :: r = b ++ sep :: t) : a = b ∧ r = t := by
  have hsplit := congrArg (splitAt sep) h
  rw [splitAt_append_cons ha, splitAt_append_cons hb, List.cons.injEq] at hsplit
  obtain ⟨rfl, _⟩ := hsplit
  exact ⟨rfl, by simpa using h⟩

end Lib.Fields
