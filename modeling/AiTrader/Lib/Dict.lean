import Mathlib.Data.List.Nodup
import Mathlib.Data.Finset.Basic

/-!
# Insertion-ordered finite maps

`Dict κ ν` is a finite map that remembers the order in which its keys were first set, as the built-in
dictionary of a scripting language does: setting a key that is present overwrites its value in place,
setting a fresh key appends. The keys are pairwise distinct by construction.

Every operation is characterized by its entries (`mem_entries_set`, `mem_entries_filter`), and
lookup is membership (`get?_eq_some_iff`), so a proof about a map is a proof about the pairs in it.
-/

namespace Lib

theorem filter_of_nodup {α κ : Type} [DecidableEq κ] {f : α → κ} {as : List α} (h : (as.map f).Nodup) {a : α}
    (hmem : a ∈ as) : (as.filter fun b => f b = f a) = [a] := by
  induction as with
  | nil => cases hmem
  | cons b as ih =>
    rw [List.map_cons, List.nodup_cons] at h
    rcases List.mem_cons.mp hmem with rfl | hmem
    · rw [List.filter_cons_of_pos (by simp), List.filter_eq_nil_iff.mpr]
      intro c hc hcb
      exact h.1 (List.mem_map.mpr ⟨c, hc, by simpa using hcb⟩)
    · have hne : f b ≠ f a := fun heq => h.1 (heq ▸ List.mem_map_of_mem hmem)
      rw [List.filter_cons_of_neg (by simpa using hne)]
      exact ih h.2 hmem

/-- A finite map with its keys in insertion order. -/
structure Dict (κ ν : Type) where
  entries : List (κ × ν)
  nodup : (entries.map Prod.fst).Nodup
  deriving DecidableEq

namespace Dict

variable {κ ν : Type}

def empty : Dict κ ν := ⟨[], List.nodup_nil⟩

def keys (d : Dict κ ν) : List κ := d.entries.map Prod.fst

def values (d : Dict κ ν) : List ν := d.entries.map Prod.snd

/-- Rewrite every value, keys and order unchanged. -/
def mapValues (f : κ → ν → ν) (d : Dict κ ν) : Dict κ ν where
  entries := d.entries.map fun e => (e.1, f e.1 e.2)
  nodup := by
    rw [List.map_map]
    exact d.nodup

/-- Keep the entries that satisfy `p`. -/
def filter (p : κ → ν → Bool) (d : Dict κ ν) : Dict κ ν where
  entries := d.entries.filter fun e => p e.1 e.2
  nodup := d.nodup.sublist (List.filter_sublist.map _)

@[simp] theorem entries_empty : (empty : Dict κ ν).entries = [] := rfl

theorem mem_values {d : Dict κ ν} {v : ν} : v ∈ d.values ↔ ∃ k, (k, v) ∈ d.entries := by
  simp [values]

theorem mem_keys {d : Dict κ ν} {k : κ} : k ∈ d.keys ↔ ∃ v, (k, v) ∈ d.entries := by
  simp [keys]

theorem entries_unique {d : Dict κ ν} {k : κ} {v w : ν} (hv : (k, v) ∈ d.entries)
    (hw : (k, w) ∈ d.entries) : v = w := by
  have h := List.inj_on_of_nodup_map d.nodup hv hw rfl
  exact congrArg Prod.snd h

@[simp] theorem mem_entries_filter {p : κ → ν → Bool} {d : Dict κ ν} {k : κ} {v : ν} :
    (k, v) ∈ (d.filter p).entries ↔ (k, v) ∈ d.entries ∧ p k v = true := by
  simp [filter]

variable [DecidableEq κ]

def get? (d : Dict κ ν) (k : κ) : Option ν := (d.entries.find? fun e => e.1 = k).map Prod.snd

def contains (d : Dict κ ν) (k : κ) : Bool := (d.get? k).isSome

/-- Overwrite in place when the key is present, append otherwise. -/
def set (d : Dict κ ν) (k : κ) (v : ν) : Dict κ ν where
  entries := if k ∈ d.keys then d.entries.map fun e => if e.1 = k then (k, v) else e
    else d.entries ++ [(k, v)]
  nodup := by
    split_ifs with hk
    · have hkeys : (d.entries.map fun e => if e.1 = k then (k, v) else e).map Prod.fst
          = d.entries.map Prod.fst := by
        rw [List.map_map]
        refine List.map_congr_left fun e _ => ?_
        by_cases he : e.1 = k <;> simp [he]
      rw [hkeys]
      exact d.nodup
    · rw [List.map_append, List.nodup_append]
      refine ⟨d.nodup, by simp, fun a ha b hb hab => hk ?_⟩
      simp only [List.map_cons, List.map_nil, List.mem_singleton] at hb
      rw [keys, ← hb, ← hab]
      exact ha

def erase (d : Dict κ ν) (k : κ) : Dict κ ν := d.filter fun k' _ => k' ≠ k

theorem get?_eq_some_iff {d : Dict κ ν} {k : κ} {v : ν} :
    d.get? k = some v ↔ (k, v) ∈ d.entries := by
  constructor
  · intro h
    simp only [get?, Option.map_eq_some_iff] at h
    obtain ⟨⟨k', w⟩, hfind, rfl⟩ := h
    have hk : k' = k := by simpa using List.find?_some hfind
    exact hk ▸ List.mem_of_find?_eq_some hfind
  · intro hmem
    cases hfind : d.entries.find? fun e => e.1 = k with
    | none =>
      rw [List.find?_eq_none] at hfind
      exact absurd (hfind (k, v) hmem) (by simp)
    | some e =>
      obtain ⟨k', w⟩ := e
      have hk : k' = k := by simpa using List.find?_some hfind
      subst hk
      have hw : v = w := d.entries_unique hmem (List.mem_of_find?_eq_some hfind)
      simp [get?, hfind, hw]

theorem get?_eq_none_iff {d : Dict κ ν} {k : κ} : d.get? k = none ↔ k ∉ d.keys := by
  rw [Option.eq_none_iff_forall_not_mem]
  simp only [Option.mem_def, get?_eq_some_iff, mem_keys, not_exists]

theorem contains_iff {d : Dict κ ν} {k : κ} : d.contains k = true ↔ k ∈ d.keys := by
  rw [contains, Option.isSome_iff_exists, mem_keys]
  simp only [get?_eq_some_iff]

theorem mem_entries_set {d : Dict κ ν} {k k' : κ} {v w : ν} :
    (k', w) ∈ (d.set k v).entries ↔ (k' = k ∧ w = v) ∨ (k' ≠ k ∧ (k', w) ∈ d.entries) := by
  by_cases hk : k ∈ d.keys
  · simp only [set, if_pos hk, List.mem_map]
    constructor
    · rintro ⟨⟨a, b⟩, hmem, hab⟩
      by_cases ha : a = k
      · rw [if_pos ha, Prod.mk.injEq] at hab
        exact Or.inl ⟨hab.1.symm, hab.2.symm⟩
      · rw [if_neg ha, Prod.mk.injEq] at hab
        obtain ⟨rfl, rfl⟩ := hab
        exact Or.inr ⟨ha, hmem⟩
    · rintro (⟨rfl, rfl⟩ | ⟨hne, hmem⟩)
      · obtain ⟨u, hu⟩ := mem_keys.mp hk
        exact ⟨_, hu, by simp⟩
      · exact ⟨_, hmem, by simp [hne]⟩
  · simp only [set, if_neg hk, List.mem_append, List.mem_singleton, Prod.mk.injEq]
    constructor
    · rintro (hmem | h)
      · refine Or.inr ⟨?_, hmem⟩
        rintro rfl
        exact hk (mem_keys.mpr ⟨w, hmem⟩)
      · exact Or.inl h
    · rintro (h | ⟨_, hmem⟩)
      · exact Or.inr h
      · exact Or.inl hmem

theorem mem_keys_set {d : Dict κ ν} {k k' : κ} {v : ν} :
    k' ∈ (d.set k v).keys ↔ k' = k ∨ k' ∈ d.keys := by
  simp only [mem_keys, mem_entries_set]
  constructor
  · rintro ⟨w, ⟨h, _⟩ | ⟨_, h⟩⟩
    · exact Or.inl h
    · exact Or.inr ⟨w, h⟩
  · rintro (rfl | ⟨w, h⟩)
    · exact ⟨v, Or.inl ⟨rfl, rfl⟩⟩
    · by_cases hk : k' = k
      · exact ⟨v, Or.inl ⟨hk, rfl⟩⟩
      · exact ⟨w, Or.inr ⟨hk, h⟩⟩

@[simp] theorem get?_set_self (d : Dict κ ν) (k : κ) (v : ν) : (d.set k v).get? k = some v :=
  get?_eq_some_iff.mpr (mem_entries_set.mpr (Or.inl ⟨rfl, rfl⟩))

theorem get?_set_ne (d : Dict κ ν) {k k' : κ} (v : ν) (h : k' ≠ k) :
    (d.set k v).get? k' = d.get? k' := by
  refine Option.ext fun w => ?_
  rw [get?_eq_some_iff, get?_eq_some_iff, mem_entries_set]
  constructor
  · rintro (⟨hk, _⟩ | ⟨_, hmem⟩)
    · exact absurd hk h
    · exact hmem
  · exact fun hmem => Or.inr ⟨h, hmem⟩

theorem mem_get?_filter {d : Dict κ ν} {p : κ → ν → Bool} {k : κ} {v : ν} :
    v ∈ (d.filter p).get? k ↔ v ∈ d.get? k ∧ p k v = true := by
  rw [Option.mem_def, Option.mem_def, get?_eq_some_iff, get?_eq_some_iff, mem_entries_filter]

@[simp] theorem get?_erase_self (d : Dict κ ν) (k : κ) : (d.erase k).get? k = none := by
  rw [Option.eq_none_iff_forall_not_mem]
  intro v hmem
  exact (of_decide_eq_true (mem_get?_filter.mp hmem).2) rfl

theorem get?_erase_ne (d : Dict κ ν) {k k' : κ} (h : k' ≠ k) : (d.erase k).get? k' = d.get? k' := by
  refine Option.ext fun v => mem_get?_filter.trans ?_
  rw [decide_eq_true_eq]
  exact and_iff_left h

end Dict

end Lib
