import AiTrader.Lib.Dict
import Mathlib.Data.List.DropRight
import Mathlib.Data.List.Perm.Basic
import Mathlib.Data.List.Sort

/-!
# Buckets

A loop that appends every member of a list to the list under its key leaves the members of each key in their order
(`Dict.groupBy`), and the buckets together hold each member once (`perm_flatMap_filter`).

Where no two members have the same time, a list in order of time is determined by its members
(`Chronological.ext`). So sorting commutes with grouping: when the key follows the time, the sorted list is the
sorted buckets, one after the other (`sortBy_eq_flatMap`). And a member is among the last `n` exactly when fewer
than `n` are later (`Chronological.mem_rtake`).
-/

namespace Lib

variable {α K T : Type}

/-! ### Grouping -/

namespace Dict

variable [DecidableEq K]

/-- Append `a` to the list under `k`, which is empty at first. -/
def push (d : Dict K (List α)) (k : K) (a : α) : Dict K (List α) := d.set k ((d.get? k).getD [] ++ [a])

def groupBy (key : α → K) (as : List α) : Dict K (List α) :=
  as.foldl (fun d a => d.push (key a) a) Dict.empty

theorem groupBy_concat (key : α → K) (as : List α) (a : α) :
    groupBy key (as ++ [a]) = (groupBy key as).push (key a) a := by
  rw [groupBy, List.foldl_append]
  rfl

theorem get?_groupBy (key : α → K) (as : List α) (k : K) :
    ((groupBy key as).get? k).getD [] = as.filter fun a => key a = k := by
  induction as using List.reverseRecOn with
  | nil => rfl
  | append_singleton as a ih =>
    rw [groupBy_concat, push, List.filter_append]
    by_cases hk : k = key a
    · subst hk
      rw [get?_set_self, Option.getD_some, ih]
      simp
    · rw [get?_set_ne _ _ hk, ih]
      simp [Ne.symm hk]

theorem mem_keys_groupBy {key : α → K} {as : List α} {k : K} :
    k ∈ (groupBy key as).keys ↔ ∃ a ∈ as, key a = k := by
  induction as using List.reverseRecOn with
  | nil =>
    rw [mem_keys]
    simp [groupBy]
  | append_singleton as a ih =>
    rw [groupBy_concat, push, mem_keys_set, ih]
    simp only [List.mem_append, List.mem_singleton, or_and_right, exists_or, exists_eq_left]
    rw [or_comm, eq_comm]

end Dict

theorem perm_flatMap_filter [DecidableEq K] {key : α → K} {ks : List K} (hks : ks.Nodup) {as : List α}
    (h : ∀ a ∈ as, key a ∈ ks) : (ks.flatMap fun k => as.filter fun a => key a = k).Perm as := by
  induction ks generalizing as with
  | nil =>
    have hnone : as = [] := List.eq_nil_iff_forall_not_mem.mpr fun a ha => nomatch h a ha
    rw [hnone]
    exact List.Perm.refl _
  | cons k ks ih =>
    obtain ⟨hk, hks⟩ := List.nodup_cons.mp hks
    -- the buckets of the other keys are those of what is left without this one
    let others := as.filter fun a => !decide (key a = k)
    have hothers : (ks.flatMap fun k' => others.filter fun a => key a = k').Perm others := by
      apply ih hks
      intro a ha
      simp only [others, List.mem_filter, Bool.not_eq_true', decide_eq_false_iff_not] at ha
      exact (List.mem_cons.mp (h a ha.1)).resolve_left ha.2
    have hsame : (ks.flatMap fun k' => others.filter fun a => key a = k') =
        ks.flatMap fun k' => as.filter fun a => key a = k' := by
      refine List.flatMap_congr fun k' hk' => ?_
      rw [List.filter_filter]
      refine List.filter_congr fun a _ => ?_
      by_cases ha : key a = k'
      · have hne : key a ≠ k := fun heq => hk (heq ▸ ha ▸ hk')
        simp [ha, ha ▸ hne]
      · simp [ha]
    rw [List.flatMap_cons, ← hsame]
    exact (hothers.append_left _).trans (List.filter_append_perm _ _)

/-! ### In order of time -/

section Time

variable [LinearOrder T]

/-- The members by their times; those of one time stay in their order. -/
def sortBy (time : α → T) (as : List α) : List α := as.insertionSort fun a b => time a ≤ time b

/-- Each member is later than those before it. -/
def Chronological (time : α → T) (as : List α) : Prop := as.Pairwise fun a b => time a < time b

variable {time : α → T}

theorem mem_sortBy {as : List α} {a : α} : a ∈ sortBy time as ↔ a ∈ as := List.mem_insertionSort _

theorem perm_sortBy (as : List α) : (sortBy time as).Perm as := List.perm_insertionSort _ _

theorem Chronological.nodup {as : List α} (h : Chronological time as) : (as.map time).Nodup := by
  rw [List.Nodup, List.pairwise_map]
  exact h.imp fun hlt => ne_of_lt hlt

theorem Chronological.concat {as : List α} {a : α} (h : Chronological time as)
    (hlater : ∀ b ∈ as, time b < time a) : Chronological time (as ++ [a]) :=
  List.pairwise_append.mpr ⟨h, List.pairwise_singleton _ _, by simpa using hlater⟩

theorem chronological_sortBy {as : List α} (h : (as.map time).Nodup) : Chronological time (sortBy time as) := by
  have hnodup : ((sortBy time as).map time).Nodup := ((perm_sortBy as).map time).nodup_iff.mpr h
  have htotal : Std.Total fun a b : α => time a ≤ time b := ⟨fun a b => le_total _ _⟩
  have htrans : IsTrans α fun a b => time a ≤ time b := ⟨fun _ _ _ => le_trans⟩
  have hsorted : (sortBy time as).Pairwise fun a b => time a ≤ time b := List.pairwise_insertionSort _ as
  rw [List.Nodup, List.pairwise_map] at hnodup
  exact (hsorted.and hnodup).imp fun h => lt_of_le_of_ne h.1 h.2

theorem Chronological.sortBy_eq {as : List α} (h : Chronological time as) : sortBy time as = as :=
  List.Pairwise.insertionSort_eq (h.imp le_of_lt)

theorem Chronological.ext {as bs : List α} (has : Chronological time as) (hbs : Chronological time bs)
    (h : ∀ a, a ∈ as ↔ a ∈ bs) : as = bs := by
  have hperm : as.Perm bs := (List.perm_ext_iff_of_nodup has.nodup.of_map hbs.nodup.of_map).mpr h
  exact hperm.eq_of_pairwise (fun a b _ _ hab hba => absurd hab hba.not_gt) has hbs

/-- Sorting commutes with grouping, when the key follows the time. -/
theorem sortBy_eq_flatMap [LinearOrder K] {key : α → K} (hkey : ∀ a b, time a ≤ time b → key a ≤ key b)
    {ks : List K} (hks : ks.Pairwise (· < ·)) {as : List α} (hmem : ∀ a ∈ as, key a ∈ ks)
    (hdistinct : (as.map time).Nodup) :
    sortBy time as = ks.flatMap fun k => sortBy time (as.filter fun a => key a = k) := by
  refine Chronological.ext (chronological_sortBy hdistinct) ?_ fun a => ?_
  · refine List.pairwise_flatMap.mpr ⟨fun k _ => ?_, hks.imp fun {k k'} hlt a ha b hb => ?_⟩
    · exact chronological_sortBy (hdistinct.sublist (List.filter_sublist.map time))
    · have ha : key a = k := by simpa using (List.mem_filter.mp (mem_sortBy.mp ha)).2
      have hb : key b = k' := by simpa using (List.mem_filter.mp (mem_sortBy.mp hb)).2
      by_contra hnot
      exact absurd (hkey b a (not_lt.mp hnot)) (by rw [ha, hb]; exact hlt.not_ge)
  · simp only [List.mem_flatMap, mem_sortBy, List.mem_filter, decide_eq_true_eq]
    exact ⟨fun ha => ⟨key a, hmem a ha, ha, rfl⟩, fun ⟨_, _, ha, _⟩ => ha⟩

/-! ### The last members -/

theorem rtake_append_of_notMem {as bs : List α} {n : ℕ} {a : α} (ha : a ∉ as) :
    a ∈ (as ++ bs).rtake n ↔ a ∈ bs.rtake n := by
  have hrest : as.length + bs.length - n - as.length = bs.length - n := by omega
  rw [List.rtake, List.rtake, List.length_append, List.drop_append, List.mem_append, hrest]
  exact or_iff_right fun hmem => ha (List.mem_of_mem_drop hmem)

theorem Chronological.mem_rtake {as : List α} (h : Chronological time as) {a : α} {n : ℕ} :
    a ∈ as.rtake n ↔ a ∈ as ∧ (as.filter fun b => time a < time b).length < n := by
  induction as with
  | nil => simp
  | cons x as ih =>
    obtain ⟨hfirst, hrest⟩ := List.pairwise_cons.mp h
    by_cases hn : n ≤ as.length
    · have htake : (x :: as).rtake n = as.rtake n := by
        rw [List.rtake, List.rtake, List.length_cons, Nat.succ_sub hn, List.drop_succ_cons]
      rw [htake, ih hrest]
      constructor
      · rintro ⟨ha, hlater⟩
        refine ⟨List.mem_cons_of_mem _ ha, ?_⟩
        rw [List.filter_cons_of_neg (by simpa using (hfirst a ha).le)]
        exact hlater
      · rintro ⟨ha, hlater⟩
        rcases List.mem_cons.mp ha with rfl | ha
        · -- all the others are later than the first
          rw [List.filter_cons_of_neg (by simp), List.filter_eq_self.mpr (by simpa using hfirst)] at hlater
          omega
        · rw [List.filter_cons_of_neg (by simpa using (hfirst a ha).le)] at hlater
          exact ⟨ha, hlater⟩
    · have htake : (x :: as).rtake n = x :: as := by
        rw [List.rtake, List.length_cons, Nat.sub_eq_zero_of_le (by omega), List.drop_zero]
      rw [htake]
      refine (and_iff_left_of_imp fun ha => ?_).symm
      rcases List.mem_cons.mp ha with rfl | ha
      · rw [List.filter_cons_of_neg (by simp)]
        exact (List.length_filter_le _ _).trans_lt (by omega)
      · rw [List.filter_cons_of_neg (by simpa using (hfirst a ha).le)]
        exact (List.length_filter_le _ _).trans_lt (by omega)

end Time

end Lib
