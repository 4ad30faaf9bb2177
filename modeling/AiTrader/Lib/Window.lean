import Mathlib.Algebra.Order.Group.Defs
import Mathlib.Data.List.Basic
import Mathlib.Algebra.Order.Sub.Basic

/-!
# Events in a sliding window

`inWindow width t times` are the events in the half-open window `(t - width, t]`, and `Bounded width cap
times` says that no such window holds more than `cap` of them. Events come in the order of time, so a bound
is kept by an event that finds the window ending at its own time with room to spare (`Bounded.concat`).

A limiter remembers less than the whole past: it drops what has left the window. Dropping changes no window that ends
now or later (`inWindow_append_of_le`), as long as the times are sorted; counting from a moment on is the other view
of a window that ends now (`length_inWindow`), and the one that adds up over several lists.
-/

namespace Lib.Window

variable {T : Type} [AddCommGroup T] [LinearOrder T] [IsOrderedAddMonoid T]

def inWindow (width t : T) (times : List T) : List T := times.filter fun x => t - width < x ∧ x ≤ t

def Bounded (width : T) (cap : ℤ) (times : List T) : Prop :=
  ∀ t, ((inWindow width t times).length : ℤ) ≤ cap

omit [IsOrderedAddMonoid T] in
theorem bounded_nil {width : T} {cap : ℤ} (h : 0 ≤ cap) : Bounded width cap [] := fun _ => h

theorem length_inWindow_le {width now t : T} {times : List T} (hpast : ∀ x ∈ times, x ≤ now) (h : now ≤ t) :
    (inWindow width t times).length ≤ (inWindow width now times).length := by
  have heq : inWindow width t times = (inWindow width now times).filter fun x => t - width < x ∧ x ≤ t := by
    unfold inWindow
    rw [List.filter_filter]
    apply List.filter_congr
    intro x hx
    have hlow : t - width < x → now - width < x := fun hlt => (sub_le_sub_right h width).trans_lt hlt
    rw [Bool.eq_iff_iff, Bool.and_eq_true, decide_eq_true_eq, decide_eq_true_eq]
    exact ⟨fun hin => ⟨hin, hlow hin.1, hpast x hx⟩, fun hin => hin.1⟩
  rw [heq]
  exact List.length_filter_le _ _

theorem Bounded.concat {width : T} {cap : ℤ} {times : List T} (h : Bounded width cap times) {now : T}
    (hpast : ∀ x ∈ times, x ≤ now) (hroom : ((inWindow width now times).length : ℤ) < cap) :
    Bounded width cap (times ++ [now]) := by
  intro t
  have happend : inWindow width t (times ++ [now]) = inWindow width t times ++ inWindow width t [now] :=
    List.filter_append _ _
  rw [happend, List.length_append]
  by_cases hnow : now ≤ t
  · have hone : (inWindow width t [now]).length ≤ 1 := List.length_filter_le _ _
    have hle := @length_inWindow_le T _ _ _ width now t times hpast hnow
    omega
  · have hnone : inWindow width t [now] = [] := by
      apply List.filter_eq_nil_iff.mpr
      intro x hx
      obtain rfl := List.mem_singleton.mp hx
      simp [hnow]
    rw [hnone]
    exact h t

/-! ### Forgetting what has left the window -/

omit [AddCommGroup T] [IsOrderedAddMonoid T] in
theorem lt_of_mem_dropWhile {cutoff x : T} {times : List T} (hsorted : times.Pairwise (· ≤ ·))
    (hmem : x ∈ times.dropWhile fun t => t ≤ cutoff) : cutoff < x := by
  induction times with
  | nil => cases hmem
  | cons first rest ih =>
    rw [List.pairwise_cons] at hsorted
    rw [List.dropWhile_cons] at hmem
    split_ifs at hmem with hfirst
    · exact ih hsorted.2 hmem
    · have hlt : cutoff < first := by simpa using hfirst
      rcases List.mem_cons.mp hmem with rfl | hmem
      · exact hlt
      · exact hlt.trans_le (hsorted.1 x hmem)

omit [IsOrderedAddMonoid T] in
theorem inWindow_append_of_le {width t : T} {gone times : List T} (h : ∀ x ∈ gone, x ≤ t - width) :
    inWindow width t (gone ++ times) = inWindow width t times := by
  unfold inWindow
  have hnone : (gone.filter fun x => decide (t - width < x ∧ x ≤ t)) = [] := by
    apply List.filter_eq_nil_iff.mpr
    intro x hmem hin
    exact absurd (h x hmem) (not_le.mpr (of_decide_eq_true hin).1)
  rw [List.filter_append, hnone, List.nil_append]

/-! ### Counting from a moment on -/

omit [AddCommGroup T] [IsOrderedAddMonoid T] in
/-- The number of events after `t`. -/
def after (t : T) (times : List T) : ℕ := times.countP fun x => t < x

omit [AddCommGroup T] [IsOrderedAddMonoid T] in
theorem after_append (t : T) (first second : List T) : after t (first ++ second) = after t first + after t second :=
  List.countP_append

omit [AddCommGroup T] [IsOrderedAddMonoid T] in
theorem after_singleton (t x : T) : after t [x] = if t < x then 1 else 0 := by
  simp [after, List.countP_singleton]

omit [AddCommGroup T] [IsOrderedAddMonoid T] in
theorem after_eq_zero {t : T} {times : List T} (h : ∀ x ∈ times, x ≤ t) : after t times = 0 :=
  List.countP_eq_zero.mpr fun x hx => by simpa using h x hx

omit [IsOrderedAddMonoid T] in
theorem length_inWindow {width now : T} {times : List T} (hpast : ∀ x ∈ times, x ≤ now) :
    (inWindow width now times).length = after (now - width) times := by
  rw [inWindow, after, ← List.countP_eq_length_filter]
  refine List.countP_congr fun x hx => ?_
  simp [hpast x hx]

omit [AddCommGroup T] [IsOrderedAddMonoid T] in
theorem after_dropWhile {cutoff t : T} (hcutoff : cutoff ≤ t) (times : List T) :
    after t (times.dropWhile fun x => x ≤ cutoff) = after t times := by
  induction times with
  | nil => rfl
  | cons x times ih =>
    rw [List.dropWhile_cons]
    split_ifs with hx
    · have hle : x ≤ t := (of_decide_eq_true hx).trans hcutoff
      rw [ih, after, after, List.countP_cons_of_neg (by simpa using hle)]
    · rfl

end Lib.Window
