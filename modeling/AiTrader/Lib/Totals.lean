import Mathlib.Algebra.BigOperators.Group.List.Basic
import Mathlib.Algebra.Order.BigOperators.Group.List

/-!
# Totals over a list

`total f l` adds up the measure `f` over the items of `l`. When one item is replaced the total changes by
the new measure minus the old one (`total_set`), so a conserved quantity needs to be checked on the one item
that a step touches.
-/

namespace Lib

variable {α M : Type} [AddCommGroup M]

def total (f : α → M) (l : List α) : M := (l.map f).sum

@[simp] theorem total_nil (f : α → M) : total f [] = 0 := rfl

theorem total_concat (f : α → M) (l : List α) (x : α) : total f (l ++ [x]) = total f l + f x := by
  rw [total, List.map_append, List.sum_append]
  simp [total]

theorem total_perm (f : α → M) {l l' : List α} (h : l.Perm l') : total f l = total f l' := (h.map f).sum_eq

theorem total_flatMap {κ : Type} (f : α → M) (ks : List κ) (items : κ → List α) :
    total f (ks.flatMap items) = total (fun k => total f (items k)) ks := by
  rw [total, List.map_flatMap, List.flatMap_def, List.sum_flatten, List.map_map]
  rfl

theorem total_set (f : α → M) {l : List α} {i : ℕ} {x : α} (hx : l[i]? = some x) (y : α) :
    total f (l.set i y) = total f l - f x + f y := by
  obtain ⟨hlt, rfl⟩ := List.getElem?_eq_some_iff.mp hx
  rw [total, List.map_set, List.sum_set', dif_pos (by simpa using hlt), List.getElem_map]
  rw [total, sub_eq_add_neg, add_assoc]

theorem total_set_of_eq (f : α → M) {l : List α} {i : ℕ} {x y : α} (hx : l[i]? = some x)
    (h : f y = f x) : total f (l.set i y) = total f l := by
  rw [total_set f hx, h, sub_add_cancel]

theorem total_nonneg [Preorder M] [AddLeftMono M] {f : α → M} {l : List α}
    (h : ∀ x ∈ l, 0 ≤ f x) : 0 ≤ total f l := by
  refine List.sum_nonneg fun m hm => ?_
  obtain ⟨x, hx, rfl⟩ := List.mem_map.mp hm
  exact h x hx

theorem total_le [PartialOrder M] [IsOrderedAddMonoid M] {f : α → M} {l : List α} {b : M}
    (h : ∀ x ∈ l, f x ≤ b) : total f l ≤ l.length • b := by
  have hsum := List.sum_le_card_nsmul (l.map f) b fun m hm => by
    obtain ⟨x, hx, rfl⟩ := List.mem_map.mp hm
    exact h x hx
  rwa [List.length_map] at hsum

end Lib
