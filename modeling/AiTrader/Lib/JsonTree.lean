import AiTrader.Lib.JsonRoundTrip

/-!
# The objects in a JSON value

`AllObjects P v`: every object in `v`, at any depth, has members that satisfy `P`. It is read off the value kind by
kind (`allObjects_array`, `allObjects_object`). So is whether the objects of a value have distinct keys, as those that
are made of dictionaries do (`distinct_dictOf`).
-/

namespace Lib

namespace Json

/-- `node` stands somewhere in the value. -/
inductive Occurs (node : Json) : Json → Prop
  | here : Occurs node node
  | element {v : Json} {elements : List Json} : v ∈ elements → Occurs node v → Occurs node (.array elements)
  | member {m : String × Json} {members : List (String × Json)} :
      m ∈ members → Occurs node m.2 → Occurs node (.object members)

def AllObjects (P : List (String × Json) → Prop) (v : Json) : Prop :=
  ∀ members, Occurs (.object members) v → P members

/-- Neither an array nor an object. -/
def IsScalar : Json → Prop
  | .array _ | .object _ => False
  | _ => True

theorem kinds (v : Json) :
    v.IsScalar ∨ (∃ elements, v = .array elements) ∨ ∃ members, v = .object members := by
  cases v <;> simp [IsScalar]

variable {P : List (String × Json) → Prop} {v : Json}

theorem allObjects_scalar (h : v.IsScalar) : AllObjects P v := by
  intro members hoccurs
  cases hoccurs <;> exact h.elim

theorem allObjects_array {elements : List Json} :
    AllObjects P (.array elements) ↔ ∀ v ∈ elements, AllObjects P v := by
  constructor
  · exact fun h v hv members hoccurs => h members (.element hv hoccurs)
  · intro h members hoccurs
    cases hoccurs with
    | element hv hin => exact h _ hv members hin

theorem allObjects_object {members : List (String × Json)} :
    AllObjects P (.object members) ↔ P members ∧ ∀ m ∈ members, AllObjects P m.2 := by
  constructor
  · exact fun h => ⟨h members .here, fun m hm inner hoccurs => h inner (.member hm hoccurs)⟩
  · rintro ⟨hhere, hmembers⟩ inner hoccurs
    cases hoccurs with
    | here => exact hhere
    | member hm hin => exact hmembers _ hm inner hin

end Json

theorem mem_of_mem_dictOf {pairs : List (String × Json)} {m : String × Json} (h : m ∈ dictOf pairs) :
    m ∈ pairs := by
  have hfold : ∀ (pairs : List (String × Json)) (d : Dict String Json),
      m ∈ (pairs.foldl (fun d pair => d.set pair.1 pair.2) d).entries → m ∈ d.entries ∨ m ∈ pairs := by
    intro pairs
    induction pairs with
    | nil => exact fun d hm => Or.inl hm
    | cons pair pairs ih =>
      intro d hm
      rcases ih _ hm with hset | hlater
      · rcases Dict.mem_entries_set.mp hset with ⟨hkey, hvalue⟩ | ⟨-, hold⟩
        · right
          rw [show m = pair from Prod.ext hkey hvalue]
          exact List.mem_cons_self
        · exact Or.inl hold
      · exact Or.inr (List.mem_cons_of_mem _ hlater)
  rcases hfold pairs Dict.empty h with hnone | hmem
  · simp at hnone
  · exact hmem

theorem elementsDistinct_iff {vs : List Json} : ElementsDistinct vs ↔ ∀ v ∈ vs, v.Distinct := by
  induction vs with
  | nil => simp [ElementsDistinct]
  | cons v vs ih => rw [ElementsDistinct, ih, List.forall_mem_cons]

theorem membersDistinct_iff {ms : List (String × Json)} : MembersDistinct ms ↔ ∀ m ∈ ms, m.2.Distinct := by
  induction ms with
  | nil => simp [MembersDistinct]
  | cons m ms ih => rw [MembersDistinct, ih, List.forall_mem_cons]

theorem distinct_dictOf {pairs : List (String × Json)} (h : ∀ m ∈ pairs, m.2.Distinct) :
    (Json.object (dictOf pairs)).Distinct :=
  ⟨Dict.nodup _, membersDistinct_iff.mpr fun m hm => h m (mem_of_mem_dictOf hm)⟩

end Lib
