import Mathlib.Data.List.Basic

/-!
# Runs of a deterministic machine

A machine is a step function `σ → ι → σ`; all nondeterminism (which party moves next, what the outside
world answers) sits in the inputs `ι`, so a run is a list of inputs and "every interleaving" is "every
list". An input that is not enabled in a state leaves the state as it is.

* `Always P s is`: `P` in every state the run visits, the first included.
* `Each C s is`: every step of the run, taken from state `t` by input `i`, satisfies `C t i`.

`always_of_inductive` is the invariant rule: an invariant kept by the steps that satisfy `C` holds along
every run whose steps all do. `always_iff_each` is its exact form: if a step outside `C` lands in a state
without `P`, then `P` holds along a run precisely when all of its steps satisfy `C`.
-/

namespace Lib.Trace

variable {σ ι : Type} (step : σ → ι → σ)

def run (s : σ) (inputs : List ι) : σ := inputs.foldl step s

/-- `P` holds in every state the run visits. -/
def Always (P : σ → Prop) : σ → List ι → Prop
  | s, [] => P s
  | s, i :: inputs => P s ∧ Always P (step s i) inputs

/-- Every step of the run satisfies `C`. -/
def Each (C : σ → ι → Prop) : σ → List ι → Prop
  | _, [] => True
  | s, i :: inputs => C s i ∧ Each C (step s i) inputs

instance decidableAlways (P : σ → Prop) [DecidablePred P] :
    ∀ (s : σ) (inputs : List ι), Decidable (Always step P s inputs)
  | s, [] => inferInstanceAs (Decidable (P s))
  | s, i :: inputs =>
    have := decidableAlways P (step s i) inputs
    inferInstanceAs (Decidable (P s ∧ Always step P (step s i) inputs))

instance decidableEach (C : σ → ι → Prop) [∀ s i, Decidable (C s i)] :
    ∀ (s : σ) (inputs : List ι), Decidable (Each step C s inputs)
  | _, [] => inferInstanceAs (Decidable True)
  | s, i :: inputs =>
    have := decidableEach C (step s i) inputs
    inferInstanceAs (Decidable (C s i ∧ Each step C (step s i) inputs))

variable {step} {P Q I : σ → Prop} {C D : σ → ι → Prop}

@[simp] theorem run_nil (s : σ) : run step s [] = s := rfl

@[simp] theorem run_cons (s : σ) (i : ι) (inputs : List ι) :
    run step s (i :: inputs) = run step (step s i) inputs := rfl

theorem run_append (s : σ) (first second : List ι) :
    run step s (first ++ second) = run step (run step s first) second :=
  List.foldl_append

theorem Always.head {s : σ} {inputs : List ι} (h : Always step P s inputs) : P s := by
  cases inputs with
  | nil => exact h
  | cons i inputs => exact h.1

theorem always_iff_prefixes (s : σ) (inputs : List ι) :
    Always step P s inputs ↔ ∀ pre, pre <+: inputs → P (run step s pre) := by
  induction inputs generalizing s with
  | nil =>
    constructor
    · intro h pre hpre
      rw [List.prefix_nil.mp hpre]
      exact h
    · exact fun h => h [] (List.prefix_refl _)
  | cons i inputs ih =>
    constructor
    · rintro ⟨hhead, htail⟩ pre hpre
      cases pre with
      | nil => exact hhead
      | cons j pre =>
        obtain ⟨rfl, htl⟩ := List.cons_prefix_cons.mp hpre
        exact (ih _).mp htail pre htl
    · intro h
      refine ⟨h [] List.nil_prefix, (ih _).mpr fun pre hpre => ?_⟩
      exact h (i :: pre) (List.cons_prefix_cons.mpr ⟨rfl, hpre⟩)

theorem Always.last {s : σ} {inputs : List ι} (h : Always step P s inputs) :
    P (run step s inputs) :=
  (always_iff_prefixes s inputs).mp h inputs (List.prefix_refl _)

theorem Always.mono {s : σ} {inputs : List ι} (h : Always step P s inputs) (hPQ : ∀ s, P s → Q s) :
    Always step Q s inputs :=
  (always_iff_prefixes s inputs).mpr fun pre hpre => hPQ _ ((always_iff_prefixes s inputs).mp h pre hpre)

theorem each_append {s : σ} {first second : List ι} :
    Each step C s (first ++ second) ↔
      Each step C s first ∧ Each step C (run step s first) second := by
  induction first generalizing s with
  | nil => exact ⟨fun h => ⟨trivial, h⟩, fun h => h.2⟩
  | cons i first ih => exact (and_congr_right fun _ => ih).trans and_assoc.symm

theorem each_and {s : σ} {inputs : List ι} (hC : Each step C s inputs) (hD : Each step D s inputs) :
    Each step (fun s i => C s i ∧ D s i) s inputs := by
  induction inputs generalizing s with
  | nil => trivial
  | cons i inputs ih => exact ⟨⟨hC.1, hD.1⟩, ih hC.2 hD.2⟩

theorem Each.mono {s : σ} {inputs : List ι} (h : Each step C s inputs) (hCD : ∀ s i, C s i → D s i) :
    Each step D s inputs := by
  induction inputs generalizing s with
  | nil => trivial
  | cons i inputs ih => exact ⟨hCD s i h.1, ih h.2⟩

theorem each_of_forall {s : σ} {inputs : List ι} (h : ∀ i ∈ inputs, ∀ s, C s i) : Each step C s inputs := by
  induction inputs generalizing s with
  | nil => trivial
  | cons i inputs ih =>
    exact ⟨h i List.mem_cons_self s, ih fun j hmem => h j (List.mem_cons_of_mem _ hmem)⟩

theorem Each.cut {s : σ} {pre inputs : List ι} (h : Each step C s inputs) (hpre : pre <+: inputs) :
    Each step C s pre := by
  obtain ⟨rest, rfl⟩ := hpre
  exact (each_append.mp h).1

theorem each_congr (h : ∀ s i, C s i ↔ D s i) {s : σ} {inputs : List ι} :
    Each step C s inputs ↔ Each step D s inputs := by
  induction inputs generalizing s with
  | nil => exact Iff.rfl
  | cons i inputs ih => exact and_congr (h s i) ih

/-- A reflexive and transitive relation that every step keeps relates the ends of the run. -/
theorem rel_run {R : σ → σ → Prop} (hrefl : ∀ s, R s s) (htrans : ∀ a b c, R a b → R b c → R a c) {s : σ}
    {inputs : List ι} (h : Each step (fun s i => R s (step s i)) s inputs) : R s (run step s inputs) := by
  induction inputs generalizing s with
  | nil => exact hrefl s
  | cons i inputs ih => exact htrans _ _ _ h.1 (ih h.2)

/-- Every step keeps the relation precisely when it holds between any two states of the run, the earlier
first. -/
theorem each_rel_iff {R : σ → σ → Prop} (hrefl : ∀ s, R s s)
    (htrans : ∀ a b c, R a b → R b c → R a c) {s : σ} {inputs : List ι} :
    Each step (fun s i => R s (step s i)) s inputs ↔
      ∀ pre mid, pre ++ mid <+: inputs → R (run step s pre) (run step s (pre ++ mid)) := by
  constructor
  · rintro h pre mid ⟨rest, rfl⟩
    rw [each_append, each_append] at h
    rw [run_append]
    exact rel_run hrefl htrans h.1.2
  · intro h
    induction inputs generalizing s with
    | nil => trivial
    | cons i inputs ih =>
      refine ⟨h [] [i] ⟨inputs, rfl⟩, ih fun pre mid hpre => ?_⟩
      exact h (i :: pre) mid (List.cons_prefix_cons.mpr ⟨rfl, hpre⟩)

/-- The invariant rule: kept by every step that satisfies `C`, so kept along runs of such steps. -/
theorem always_of_inductive (hstep : ∀ s i, I s → C s i → I (step s i)) (hP : ∀ s, I s → P s)
    {s : σ} {inputs : List ι} (hI : I s) (hC : Each step C s inputs) : Always step P s inputs := by
  induction inputs generalizing s with
  | nil => exact hP s hI
  | cons i inputs ih => exact ⟨hP s hI, ih (hstep s i hI hC.1) hC.2⟩

/-- The invariant rule, for an invariant that every step keeps. -/
theorem always_of_invariant (hstep : ∀ s i, I s → I (step s i)) (hP : ∀ s, I s → P s) {s : σ}
    {inputs : List ι} (hI : I s) : Always step P s inputs := by
  induction inputs generalizing s with
  | nil => exact hP s hI
  | cons i inputs ih => exact ⟨hP s hI, ih (hstep s i hI)⟩

theorem each_of_invariant (hstep : ∀ s i, I s → I (step s i)) (hD : ∀ s i, I s → D s i) {s : σ}
    {inputs : List ι} (hI : I s) : Each step D s inputs := by
  induction inputs generalizing s with
  | nil => trivial
  | cons i inputs ih => exact ⟨hD s i hI, ih (hstep s i hI)⟩

/-- The same rule, for an invariant that the steps within `C` keep. -/
theorem each_of_inductive (hstep : ∀ s i, I s → C s i → I (step s i)) (hD : ∀ s i, I s → C s i → D s i) {s : σ}
    {inputs : List ι} (hI : I s) (hC : Each step C s inputs) : Each step D s inputs := by
  induction inputs generalizing s with
  | nil => trivial
  | cons i inputs ih => exact ⟨hD s i hI hC.1, ih (hstep s i hI hC.1) hC.2⟩

/-- Two properties of steps that agree wherever an invariant holds agree along the run. -/
theorem each_iff_of_invariant (hstep : ∀ s i, I s → I (step s i)) (h : ∀ s i, I s → (C s i ↔ D s i)) {s : σ}
    {inputs : List ι} (hI : I s) : Each step C s inputs ↔ Each step D s inputs := by
  induction inputs generalizing s with
  | nil => exact Iff.rfl
  | cons i inputs ih => exact and_congr (h s i hI) (ih (hstep s i hI))

/-- The exact form of the invariant rule: a step outside `C` breaks `P` at once. -/
theorem always_iff_each (hstep : ∀ s i, I s → C s i → I (step s i)) (hP : ∀ s, I s → P s)
    (hbad : ∀ s i, I s → ¬ C s i → ¬ P (step s i)) {s : σ} {inputs : List ι} (hI : I s) :
    Always step P s inputs ↔ Each step C s inputs := by
  refine ⟨fun h => ?_, always_of_inductive hstep hP hI⟩
  induction inputs generalizing s with
  | nil => trivial
  | cons i inputs ih =>
    have hC : C s i := by
      by_contra hC
      exact hbad s i hI hC h.2.head
    exact ⟨hC, ih (hstep s i hI hC) h.2⟩

/-- A property that a step outside `C` loses for good holds at the end of a run precisely when all of its steps
satisfy `C`. -/
theorem run_iff_each (hstep : ∀ s i, I s → D s i → I (step s i))
    (hkeep : ∀ s i, I s → D s i → P s → (P (step s i) ↔ C s i))
    (hlost : ∀ s i, I s → D s i → ¬ P s → ¬ P (step s i)) {s : σ} {inputs : List ι} (hI : I s)
    (hD : Each step D s inputs) (hP : P s) : P (run step s inputs) ↔ Each step C s inputs := by
  have hgone : ∀ (inputs : List ι) (s : σ), I s → Each step D s inputs → ¬ P s → ¬ P (run step s inputs) := by
    intro inputs
    induction inputs with
    | nil => exact fun s _ _ hnot => hnot
    | cons i inputs ih =>
      exact fun s hI hD hnot => ih _ (hstep s i hI hD.1) hD.2 (hlost s i hI hD.1 hnot)
  induction inputs generalizing s with
  | nil => exact ⟨fun _ => trivial, fun _ => hP⟩
  | cons i inputs ih =>
    by_cases hnext : P (step s i)
    · have hrest := ih (hstep s i hI hD.1) hD.2 hnext
      exact ⟨fun h => ⟨(hkeep s i hI hD.1 hP).mp hnext, hrest.mp h⟩, fun h => hrest.mpr h.2⟩
    · refine ⟨fun h => absurd h (hgone inputs _ (hstep s i hI hD.1) hD.2 hnext), fun h => ?_⟩
      exact absurd ((hkeep s i hI hD.1 hP).mpr h.1) hnext

/-! ### Histories -/

/-- A state with the steps that have led to it, the last one first. -/
structure Chronicle (σ ι : Type) where
  state : σ
  past : List (σ × ι)

/-- The machine that keeps its own history. -/
def Chronicle.next (step : σ → ι → σ) (h : Chronicle σ ι) (i : ι) : Chronicle σ ι :=
  ⟨step h.state i, (h.state, i) :: h.past⟩

/-- There are `n` last steps, and all of them satisfy `P`. -/
def LastSteps (P : σ → ι → Prop) : ℕ → List (σ × ι) → Prop
  | 0, _ => True
  | _ + 1, [] => False
  | n + 1, (s, i) :: past => P s i ∧ LastSteps P n past

instance decidableLastSteps (P : σ → ι → Prop) [∀ s i, Decidable (P s i)] :
    ∀ (n : ℕ) (past : List (σ × ι)), Decidable (LastSteps P n past)
  | 0, _ => inferInstanceAs (Decidable True)
  | _ + 1, [] => inferInstanceAs (Decidable False)
  | n + 1, (s, i) :: past =>
    have := decidableLastSteps P n past
    inferInstanceAs (Decidable (P s i ∧ LastSteps P n past))

theorem LastSteps.of_le {P : σ → ι → Prop} {n k : ℕ} {past : List (σ × ι)} (h : LastSteps P n past)
    (hle : k ≤ n) : LastSteps P k past := by
  induction k generalizing n past with
  | zero => trivial
  | succ k ih =>
    cases n with
    | zero => exact absurd hle (Nat.not_succ_le_zero k)
    | succ n =>
      cases past with
      | nil => exact h.elim
      | cons call past => exact ⟨h.1, ih h.2 (Nat.le_of_succ_le_succ hle)⟩

theorem each_chronicle {s : σ} {past : List (σ × ι)} {inputs : List ι} :
    Each (Chronicle.next step) (fun h i => C h.state i) ⟨s, past⟩ inputs ↔ Each step C s inputs := by
  induction inputs generalizing s past with
  | nil => exact Iff.rfl
  | cons i inputs ih => exact and_congr Iff.rfl ih

theorem always_chronicle {s : σ} {past : List (σ × ι)} {inputs : List ι} :
    Always (Chronicle.next step) (fun h => P h.state) ⟨s, past⟩ inputs ↔ Always step P s inputs := by
  induction inputs generalizing s past with
  | nil => exact Iff.rfl
  | cons i inputs ih => exact and_congr Iff.rfl ih

/-! ### Keyed state -/

/-- When every input acts on the entry at one key, the entry at `k` after a run is what the inputs about
`k` make of it. -/
theorem run_pointwise {κ ν : Type} [DecidableEq κ] {look : σ → κ → ν} {key : ι → κ} {act : ι → ν → ν}
    (h : ∀ s i k, look (step s i) k = if k = key i then act i (look s k) else look s k) (s : σ)
    (inputs : List ι) (k : κ) :
    look (run step s inputs) k
      = (inputs.filter fun i => key i = k).foldl (fun v i => act i v) (look s k) := by
  induction inputs generalizing s with
  | nil => rfl
  | cons i inputs ih =>
    rw [run_cons, ih, h]
    by_cases hk : key i = k
    · rw [if_pos hk.symm, List.filter_cons_of_pos (by simpa using hk), List.foldl_cons]
    · rw [if_neg fun h => hk h.symm, List.filter_cons_of_neg (by simpa using hk)]

theorem run_pointwise_idle {κ ν : Type} [DecidableEq κ] {look : σ → κ → ν} {key : ι → κ}
    {act : ι → ν → ν}
    (h : ∀ s i k, look (step s i) k = if k = key i then act i (look s k) else look s k) {s : σ}
    {inputs : List ι} {k : κ} (hidle : ∀ i ∈ inputs, key i = k → ∀ v, act i v = v) :
    look (run step s inputs) k = look s k := by
  induction inputs generalizing s with
  | nil => rfl
  | cons i inputs ih =>
    rw [run_cons, ih fun j hj => hidle j (List.mem_cons_of_mem _ hj), h]
    split_ifs with hk
    · exact hidle i List.mem_cons_self hk.symm _
    · rfl

theorem run_pointwise_settled {κ ν : Type} [DecidableEq κ] {look : σ → κ → ν} {key : ι → κ}
    {act : ι → ν → ν}
    (h : ∀ s i k, look (step s i) k = if k = key i then act i (look s k) else look s k) {s : σ}
    {inputs : List ι} {k : κ} {w : ν} (hset : ∀ i ∈ inputs, key i = k → ∀ v, act i v = w)
    (hsome : look s k = w ∨ ∃ i ∈ inputs, key i = k) : look (run step s inputs) k = w := by
  induction inputs generalizing s with
  | nil =>
    rcases hsome with heq | ⟨i, hmem, _⟩
    · exact heq
    · cases hmem
  | cons i inputs ih =>
    rw [run_cons]
    refine ih (fun j hj => hset j (List.mem_cons_of_mem _ hj)) ?_
    rw [h]
    by_cases hk : k = key i
    · rw [if_pos hk]
      exact Or.inl (hset i List.mem_cons_self hk.symm _)
    · rw [if_neg hk]
      rcases hsome with heq | ⟨j, hmem, hj⟩
      · exact Or.inl heq
      · rcases List.mem_cons.mp hmem with rfl | hmem
        · exact absurd hj.symm hk
        · exact Or.inr ⟨j, hmem, hj⟩

end Lib.Trace
