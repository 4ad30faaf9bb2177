import AiTrader.Lib.JsonText
import AiTrader.Lib.JsonTree
import AiTrader.Llm.Structured

/-!
# Schemas for a model

`flatten_schema` puts the definitions of a JSON schema where they are referred to, and cuts off what lies deeper than
twelve levels, so that definitions that refer to each other come to an end. A reference whose value is not a text is
not modelled.

What comes out refers to nothing, whatever the definitions are, as long as only numbers, texts and the like stand beside
a reference. Where nothing is cut off (`Uncut`) the guard makes no difference, and flattening again changes nothing
(`flattenSchema_spec`). The schema of a model that refers to itself has its definitions beside the reference, and keeps
them.

Every prompt carries the flat schema as a text, and reading that text gives the flat schema back
(`loads_describeSchema`).
-/

namespace AiTrader

open Lib Json

/-- `schema.get("$defs") or schema.get("definitions") or {}`. -/
def schemaDefs (schema : Payload) : Payload :=
  match schema.get? "$defs", schema.get? "definitions" with
  | some (.object (d :: ds)), _ => d :: ds
  | _, some (.object ds) => ds
  | _, _ => []

/-- `ref.split("/")[-1]`. -/
def refKey : Json → Option String
  | .string ref => some (String.ofList (ref.toList.reverse.takeWhile fun ch => ch ≠ '/').reverse)
  | _ => none

/-- What a reference refers to. -/
def refTarget (defs : Payload) (ref : Json) : Option Json :=
  match (refKey ref).bind defs.get? with
  | some .null | none => none
  | some target => some target

/-- A key under which definitions stand. -/
def isDefsKey (key : String) : Bool := decide (key = "$defs") || decide (key = "definitions")

/-- `{**merged, **extra}`, where the node that refers has more members than its reference. -/
def mergeExtra (members : Payload) : Json → Json
  | .object merged => .object (dictOf (merged ++ members.filter fun m => m.1 ≠ "$ref"))
  | merged => merged

/-- `resolve`, with the levels that are left before the guard cuts off. -/
def resolve (defs : Payload) : ℕ → Json → Json
  | 0, _ => .object []
  | left + 1, .object members =>
    match Payload.get? members "$ref" with
    | some ref =>
      match refTarget defs ref with
      | some target => mergeExtra members (resolve defs left target)
      | none => .object []
    | none => .object ((members.filter fun m => !isDefsKey m.1).map fun m => (m.1, resolve defs left m.2))
  | left + 1, .array elements => .array (elements.map (resolve defs left))
  | _ + 1, v => v

/-- The guard lets depths up to twelve pass. -/
def schemaLevels : ℕ := 13

def flattenSchema (schema : Payload) : Payload :=
  match resolve (schemaDefs schema) schemaLevels (.object schema) with
  | .object out => out
  | _ => schema

def describeSchema (schema : Payload) : List Char := pretty 0 (.object (flattenSchema schema))

/-! ### No references are left -/

/-- No reference, and no definitions to refer to. -/
def NoRefs (members : Payload) : Prop := ∀ m ∈ members, m.1 ≠ "$ref" ∧ isDefsKey m.1 = false

def ReferenceFree (v : Json) : Prop := AllObjects NoRefs v

/-- What stands beside a reference refers to nothing itself. -/
def PlainExtra (members : Payload) : Prop :=
  Payload.get? members "$ref" ≠ none → ∀ m ∈ members, m.1 ≠ "$ref" → isDefsKey m.1 = false ∧ ReferenceFree m.2

def PlainSiblings (v : Json) : Prop := AllObjects PlainExtra v

theorem Payload.get?_eq_none {payload : Payload} {key : String} :
    payload.get? key = none ↔ ∀ m ∈ payload, m.1 ≠ key := by
  simp [Payload.get?]

theorem Payload.mem_of_get? {payload : Payload} {key : String} {v : Json} (h : payload.get? key = some v) :
    (key, v) ∈ payload := by
  obtain ⟨m, hfind, rfl⟩ := Option.map_eq_some_iff.mp h
  have hkey : m.1 = key := by simpa using List.find?_some hfind
  exact hkey ▸ List.mem_of_find?_eq_some hfind

theorem refTarget_mem {defs : Payload} {ref target : Json} (h : refTarget defs ref = some target) :
    ∃ key, (key, target) ∈ defs := by
  unfold refTarget at h
  split at h
  · cases h
  · cases h
  · rename_i found _ hfound
    obtain rfl := Option.some.inj h
    obtain ⟨key, -, hget⟩ := Option.bind_eq_some_iff.mp hfound
    exact ⟨key, Payload.mem_of_get? hget⟩

theorem referenceFree_mergeExtra {members : Payload} {merged : Json} (hplain : PlainExtra members)
    (href : Payload.get? members "$ref" ≠ none) (h : ReferenceFree merged) :
    ReferenceFree (mergeExtra members merged) := by
  unfold mergeExtra
  split
  · rename_i ms
    obtain ⟨hhere, hinner⟩ := allObjects_object.mp h
    have hextra : ∀ m ∈ members.filter fun m => m.1 ≠ "$ref", m.1 ≠ "$ref" ∧ isDefsKey m.1 = false ∧
        ReferenceFree m.2 := by
      intro m hm
      obtain ⟨hmem, hkey⟩ := List.mem_filter.mp hm
      have hne : m.1 ≠ "$ref" := by simpa using hkey
      exact ⟨hne, hplain href m hmem hne⟩
    refine allObjects_object.mpr ⟨fun m hm => ?_, fun m hm => ?_⟩
    · rcases List.mem_append.mp (mem_of_mem_dictOf hm) with hm | hm
      · exact hhere m hm
      · exact ⟨(hextra m hm).1, (hextra m hm).2.1⟩
    · rcases List.mem_append.mp (mem_of_mem_dictOf hm) with hm | hm
      · exact hinner m hm
      · exact (hextra m hm).2.2
  · exact h

theorem resolve_scalar {defs : Payload} {left : ℕ} {v : Json} (h : v.IsScalar) :
    resolve defs (left + 1) v = v := by
  cases v with
  | object | array => exact h.elim
  | null | bool _ | number _ | nan | infinity _ | string _ =>
    rw [resolve]
    all_goals simp

theorem referenceFree_resolve {defs : Payload} (hdefs : ∀ d ∈ defs, PlainSiblings d.2) (left : ℕ) {v : Json}
    (h : PlainSiblings v) : ReferenceFree (resolve defs left v) := by
  have hempty : ReferenceFree (.object []) := allObjects_object.mpr ⟨by simp [NoRefs], by simp⟩
  induction left generalizing v with
  | zero => exact hempty
  | succ left ih =>
    rcases v.kinds with hscalar | ⟨elements, rfl⟩ | ⟨members, rfl⟩
    · rw [resolve_scalar hscalar]
      exact allObjects_scalar hscalar
    · rw [resolve, ReferenceFree, allObjects_array]
      intro v hv
      obtain ⟨w, hw, rfl⟩ := List.mem_map.mp hv
      exact ih (allObjects_array.mp h w hw)
    · obtain ⟨hhere, hinner⟩ := allObjects_object.mp h
      rw [resolve]
      cases href : Payload.get? members "$ref" with
      | some ref =>
        simp only
        cases htarget : refTarget defs ref with
        | none => exact hempty
        | some target =>
          obtain ⟨key, hmem⟩ := refTarget_mem htarget
          exact referenceFree_mergeExtra hhere (by simp [href]) (ih (hdefs _ hmem))
      | none =>
        refine allObjects_object.mpr ⟨fun m hm => ?_, fun m hm => ?_⟩
        · obtain ⟨m, hkept, rfl⟩ := List.mem_map.mp hm
          obtain ⟨hmem, hkey⟩ := List.mem_filter.mp hkept
          exact ⟨Payload.get?_eq_none.mp href m hmem, by simpa using hkey⟩
        · obtain ⟨m, hkept, rfl⟩ := List.mem_map.mp hm
          exact ih (hinner m (List.mem_filter.mp hkept).1)

/-! ### Nothing is cut off -/

/-- The guard cuts off nothing of the value. -/
def Uncut (defs : Payload) : ℕ → Json → Prop
  | 0, _ => False
  | left + 1, .object members =>
    match Payload.get? members "$ref" with
    | some ref => ∀ target, refTarget defs ref = some target → Uncut defs left target
    | none => ∀ m ∈ members, isDefsKey m.1 = false → Uncut defs left m.2
  | left + 1, .array elements => ∀ v ∈ elements, Uncut defs left v
  | _ + 1, _ => True

/-- What stands beside a reference is a number, a text or the like. -/
def ScalarExtra (members : Payload) : Prop :=
  Payload.get? members "$ref" ≠ none → ∀ m ∈ members, m.1 ≠ "$ref" → isDefsKey m.1 = false ∧ m.2.IsScalar

def ScalarSiblings (v : Json) : Prop := AllObjects ScalarExtra v

theorem ScalarSiblings.plain {v : Json} (h : ScalarSiblings v) : PlainSiblings v := by
  intro members hoccurs href m hm hne
  obtain ⟨hkey, hscalar⟩ := h members hoccurs href m hm hne
  exact ⟨hkey, allObjects_scalar hscalar⟩

section Levels

variable {defs : Payload} {left : ℕ} {v : Json}

theorem uncut_scalar (h : v.IsScalar) : Uncut defs (left + 1) v := by
  cases v with
  | object | array => exact h.elim
  | null | bool _ | number _ | nan | infinity _ | string _ =>
    rw [Uncut]
    all_goals simp

theorem Uncut.succ (h : Uncut defs left v) : Uncut defs (left + 1) v := by
  induction left generalizing v with
  | zero => exact h.elim
  | succ left ih =>
    rcases v.kinds with hscalar | ⟨elements, rfl⟩ | ⟨members, rfl⟩
    · exact uncut_scalar hscalar
    · rw [Uncut] at h ⊢
      exact fun v hv => ih (h v hv)
    · rw [Uncut] at h ⊢
      cases href : Payload.get? members "$ref" with
      | some ref =>
        rw [href] at h
        exact fun target htarget => ih (h target htarget)
      | none =>
        rw [href] at h
        exact fun m hm hkey => ih (h m hm hkey)

theorem resolve_succ (h : Uncut defs left v) : resolve defs (left + 1) v = resolve defs left v := by
  induction left generalizing v with
  | zero => exact h.elim
  | succ left ih =>
    rcases v.kinds with hscalar | ⟨elements, rfl⟩ | ⟨members, rfl⟩
    · rw [resolve_scalar hscalar, resolve_scalar hscalar]
    · rw [Uncut] at h
      rw [resolve, resolve, array.injEq]
      exact List.map_congr_left fun v hv => ih (h v hv)
    · rw [Uncut] at h
      rw [resolve, resolve]
      cases href : Payload.get? members "$ref" with
      | some ref =>
        rw [href] at h
        simp only
        cases htarget : refTarget defs ref with
        | none => rfl
        | some target => simp only [ih (h target htarget)]
      | none =>
        rw [href] at h
        simp only [object.injEq]
        refine List.map_congr_left fun m hm => ?_
        obtain ⟨hmem, hkey⟩ := List.mem_filter.mp hm
        rw [ih (h m hmem (by simpa using hkey))]

theorem resolve_add (h : Uncut defs left v) (more : ℕ) : resolve defs (left + more) v = resolve defs left v := by
  have huncut : ∀ more, Uncut defs (left + more) v := by
    intro more
    induction more with
    | zero => exact h
    | succ more ih => exact ih.succ
  induction more with
  | zero => rfl
  | succ more ih => rw [← Nat.add_assoc, resolve_succ (huncut more), ih]

theorem resolve_eq_self (hfree : ReferenceFree v) (h : Uncut defs left v) : resolve defs left v = v := by
  induction left generalizing v with
  | zero => exact h.elim
  | succ left ih =>
    rcases v.kinds with hscalar | ⟨elements, rfl⟩ | ⟨members, rfl⟩
    · exact resolve_scalar hscalar
    · rw [Uncut] at h
      have hsame : ∀ v ∈ elements, resolve defs left v = v := fun v hv =>
        ih (allObjects_array.mp hfree v hv) (h v hv)
      rw [resolve, List.map_congr_left hsame, List.map_id']
    · obtain ⟨hhere, hinner⟩ := allObjects_object.mp hfree
      have href : Payload.get? members "$ref" = none := Payload.get?_eq_none.mpr fun m hm => (hhere m hm).1
      rw [Uncut, href] at h
      have hkept : (members.filter fun m => !isDefsKey m.1) = members :=
        List.filter_eq_self.mpr fun m hm => by simp [(hhere m hm).2]
      have hsame : ∀ m ∈ members, (m.1, resolve defs left m.2) = m := fun m hm => by
        rw [ih (hinner m hm) (h m hm (hhere m hm).2)]
      rw [resolve, href]
      simp only
      rw [hkept, List.map_congr_left hsame, List.map_id']

theorem uncut_object {members : Payload} (hfree : NoRefs members)
    (h : ∀ m ∈ members, Uncut defs left m.2) : Uncut defs (left + 1) (.object members) := by
  rw [Uncut, Payload.get?_eq_none.mpr fun m hm => (hfree m hm).1]
  exact fun m hm _ => h m hm

theorem uncut_mergeExtra {members : Payload} (hscalar : ScalarExtra members)
    (href : Payload.get? members "$ref" ≠ none) (hfree : ReferenceFree v) (h : Uncut defs (left + 1) v) :
    Uncut defs (left + 2) (mergeExtra members v) := by
  have hplain : PlainExtra members := fun href m hm hne =>
    ⟨(hscalar href m hm hne).1, allObjects_scalar (hscalar href m hm hne).2⟩
  have hout := referenceFree_mergeExtra hplain href hfree
  rcases v.kinds with hv | ⟨elements, rfl⟩ | ⟨merged, rfl⟩
  · unfold mergeExtra
    split
    · exact hv.elim
    · exact h.succ
  · exact h.succ
  · have hhere := (allObjects_object.mp hfree).1
    rw [Uncut, Payload.get?_eq_none.mpr fun m hm => (hhere m hm).1] at h
    refine uncut_object (allObjects_object.mp hout).1 fun m hm => ?_
    rcases List.mem_append.mp (mem_of_mem_dictOf hm) with hmem | hmem
    · exact (h m hmem (hhere m hmem).2).succ
    · obtain ⟨hmem, hkey⟩ := List.mem_filter.mp hmem
      exact uncut_scalar (hscalar href m hmem (by simpa using hkey)).2

theorem uncut_resolve (hdefs : ∀ d ∈ defs, ScalarSiblings d.2) (others : Payload) (hv : ScalarSiblings v)
    (h : Uncut defs left v) : Uncut others left (resolve defs left v) := by
  have hplain : ∀ d ∈ defs, PlainSiblings d.2 := fun d hd => (hdefs d hd).plain
  induction left generalizing v with
  | zero => exact h.elim
  | succ left ih =>
    rcases v.kinds with hscalar | ⟨elements, rfl⟩ | ⟨members, rfl⟩
    · rw [resolve_scalar hscalar]
      exact uncut_scalar hscalar
    · rw [Uncut] at h
      rw [resolve, Uncut]
      intro v hv'
      obtain ⟨w, hw, rfl⟩ := List.mem_map.mp hv'
      exact ih (allObjects_array.mp hv w hw) (h w hw)
    · have hfree := referenceFree_resolve hplain (left + 1) hv.plain
      obtain ⟨hhere, hinner⟩ := allObjects_object.mp hv
      rw [Uncut] at h
      rw [resolve] at hfree ⊢
      cases href : Payload.get? members "$ref" with
      | some ref =>
        rw [href] at h
        simp only
        cases htarget : refTarget defs ref with
        | none => exact uncut_object (by simp [NoRefs]) (by simp)
        | some target =>
          obtain ⟨key, hmem⟩ := refTarget_mem htarget
          have hout := ih (hdefs _ hmem) (h target htarget)
          have hclean := referenceFree_resolve hplain left (hdefs _ hmem).plain
          cases left with
          | zero => exact (h target htarget).elim
          | succ left => exact uncut_mergeExtra hhere (by simp [href]) hclean hout
      | none =>
        rw [href] at h hfree
        refine uncut_object (allObjects_object.mp hfree).1 fun m hm => ?_
        obtain ⟨m, hkept, rfl⟩ := List.mem_map.mp hm
        obtain ⟨hmem, hkey⟩ := List.mem_filter.mp hkept
        exact ih (hinner m hmem) (h m hmem (by simpa using hkey))

end Levels

/-! ### The schema as a whole -/

section Schema

variable {schema : Payload} {P : Payload → Prop}

theorem allObjects_schemaDefs (h : AllObjects P (.object schema)) : ∀ d ∈ schemaDefs schema, AllObjects P d.2 := by
  have hunder : ∀ {key : String} {ds : Payload}, schema.get? key = some (.object ds) →
      ∀ d ∈ ds, AllObjects P d.2 := by
    intro key ds hget
    exact (allObjects_object.mp ((allObjects_object.mp h).2 _ (Payload.mem_of_get? hget))).2
  unfold schemaDefs
  split
  · rename_i hdefs
    exact hunder hdefs
  · rename_i hdefinitions _
    exact hunder hdefinitions
  · simp

theorem schemaDefs_eq_nil (h : ∀ m ∈ schema, isDefsKey m.1 = false) : schemaDefs schema = [] := by
  have hnone : ∀ key, isDefsKey key = true → schema.get? key = none := by
    intro key hkey
    refine Payload.get?_eq_none.mpr fun m hm heq => ?_
    rw [← heq, h m hm] at hkey
    cases hkey
  rw [schemaDefs, hnone "$defs" (by decide), hnone "definitions" (by decide)]

theorem resolve_schema (h : PlainSiblings (.object schema)) :
    resolve (schemaDefs schema) schemaLevels (.object schema) = .object (flattenSchema schema) := by
  have hobject : ∃ out, resolve (schemaDefs schema) schemaLevels (.object schema) = .object out := by
    unfold schemaLevels
    rw [resolve]
    cases href : schema.get? "$ref" with
    | none => exact ⟨_, rfl⟩
    | some ref =>
      have hhere := (allObjects_object.mp h).1 (by simp [href])
      have hnil : schemaDefs schema = [] := schemaDefs_eq_nil fun m hm => by
        by_cases hkey : m.1 = "$ref"
        · rw [hkey]
          decide
        · exact (hhere m hm hkey).1
      have htarget : refTarget [] ref = none := by
        unfold refTarget
        cases refKey ref <;> simp [Payload.get?]
      simp only [hnil, htarget]
      exact ⟨_, rfl⟩
  obtain ⟨out, hout⟩ := hobject
  rw [flattenSchema, hout]

/-- **Flattening**: nothing that comes out refers to anything, also where definitions refer to each other. A
schema that the guard does not cut comes out the same under any larger guard, and is flat: flattening it again
changes nothing. -/
theorem flattenSchema_spec (schema : Payload) (h : ScalarSiblings (.object schema)) :
    ReferenceFree (.object (flattenSchema schema)) ∧
      (Uncut (schemaDefs schema) schemaLevels (.object schema) →
        (∀ more, resolve (schemaDefs schema) (schemaLevels + more) (.object schema) =
            .object (flattenSchema schema)) ∧
          flattenSchema (flattenSchema schema) = flattenSchema schema) := by
  have hdefs := allObjects_schemaDefs h
  have hresolved := resolve_schema h.plain
  have hfree : ReferenceFree (.object (flattenSchema schema)) := by
    rw [← hresolved]
    exact referenceFree_resolve (fun d hd => ScalarSiblings.plain (hdefs d hd)) _ h.plain
  refine ⟨hfree, fun huncut => ⟨fun more => ?_, ?_⟩⟩
  · rw [resolve_add huncut, hresolved]
  · have hkeys := (allObjects_object.mp hfree).1
    have hnil : schemaDefs (flattenSchema schema) = [] := schemaDefs_eq_nil fun m hm => (hkeys m hm).2
    have hout := uncut_resolve hdefs [] h huncut
    rw [hresolved] at hout
    have hagain := resolve_eq_self hfree hout
    rw [flattenSchema, hnil, hagain]

theorem distinct_mergeExtra {members : Payload} {merged : Json} (hmembers : ∀ m ∈ members, m.2.Distinct)
    (h : merged.Distinct) : (mergeExtra members merged).Distinct := by
  unfold mergeExtra
  split
  · rename_i ms
    refine distinct_dictOf fun m hm => ?_
    rcases List.mem_append.mp hm with hm | hm
    · exact membersDistinct_iff.mp h.2 m hm
    · exact hmembers m (List.mem_filter.mp hm).1
  · exact h

theorem distinct_resolve {defs : Payload} (hdefs : ∀ d ∈ defs, d.2.Distinct) (left : ℕ) {v : Json} (h : v.Distinct) :
    (resolve defs left v).Distinct := by
  have hempty : (Json.object []).Distinct := ⟨List.nodup_nil, trivial⟩
  induction left generalizing v with
  | zero => exact hempty
  | succ left ih =>
    rcases v.kinds with hscalar | ⟨elements, rfl⟩ | ⟨members, rfl⟩
    · rwa [resolve_scalar hscalar]
    · rw [resolve]
      refine elementsDistinct_iff.mpr fun v hv => ?_
      obtain ⟨w, hw, rfl⟩ := List.mem_map.mp hv
      exact ih (elementsDistinct_iff.mp h w hw)
    · have hmembers := membersDistinct_iff.mp h.2
      rw [resolve]
      cases href : Payload.get? members "$ref" with
      | some ref =>
        simp only
        cases htarget : refTarget defs ref with
        | none => exact hempty
        | some target =>
          obtain ⟨key, hmem⟩ := refTarget_mem htarget
          exact distinct_mergeExtra hmembers (ih (hdefs _ hmem))
      | none =>
        refine ⟨?_, membersDistinct_iff.mpr fun m hm => ?_⟩
        · rw [List.map_map]
          exact h.1.sublist (List.filter_sublist.map Prod.fst)
        · obtain ⟨m, hkept, rfl⟩ := List.mem_map.mp hm
          exact ih (hmembers m (List.mem_filter.mp hkept).1)

theorem distinct_schemaDefs (h : (Json.object schema).Distinct) : ∀ d ∈ schemaDefs schema, d.2.Distinct := by
  have hunder : ∀ {key : String} {ds : Payload}, schema.get? key = some (.object ds) → ∀ d ∈ ds, d.2.Distinct := by
    intro key ds hget
    have hdefs := membersDistinct_iff.mp h.2 _ (Payload.mem_of_get? hget)
    exact membersDistinct_iff.mp hdefs.2
  unfold schemaDefs
  split
  · rename_i hdefs
    exact hunder hdefs
  · rename_i hdefinitions _
    exact hunder hdefinitions
  · simp

/-- **The schema in a prompt reads back as the flat schema.** -/
theorem loads_describeSchema (schema : Payload) (h : (Json.object schema).Distinct) :
    loads (describeSchema schema) = some (.object (flattenSchema schema)) := by
  have hresolved := distinct_resolve (distinct_schemaDefs h) schemaLevels h
  have hflat : (Json.object (flattenSchema schema)).Distinct := by
    unfold flattenSchema
    split
    · rename_i out hout
      rwa [hout] at hresolved
    · exact h
  exact loads_pretty hflat

end Schema

/-- The definition of a leg. -/
def legSchema : Json := .object [("properties", .object [("symbol", .object [("type", .string "string")])])]

/-- A plan of legs, one of them with a description beside its reference. -/
def planSchema : Payload :=
  [("$defs", .object [("Leg", legSchema)]),
    ("properties", .object
      [("first", .object [("$ref", .string "#/$defs/Leg"), ("description", .string "the first leg")]),
        ("rest", .object [("items", .object [("$ref", .string "#/$defs/Leg")])])])]

theorem flattenSchema_planSchema : ReferenceFree (.object (flattenSchema planSchema)) ∧
    (∀ more, resolve (schemaDefs planSchema) (schemaLevels + more) (.object planSchema) =
        .object (flattenSchema planSchema)) ∧
      flattenSchema (flattenSchema planSchema) = flattenSchema planSchema := by
  have htext : ∀ s, AllObjects ScalarExtra (.string s) := fun s => allObjects_scalar trivial
  have hplan : ScalarSiblings (.object planSchema) := by
    simp [ScalarSiblings, planSchema, legSchema, allObjects_object, ScalarExtra, Payload.get?, htext, isDefsKey,
      IsScalar]
  have hleg : refTarget (schemaDefs planSchema) (.string "#/$defs/Leg") = some legSchema := rfl
  have huncut : Uncut (schemaDefs planSchema) schemaLevels (.object planSchema) := by
    generalize schemaDefs planSchema = defs at hleg
    simp [schemaLevels, planSchema, legSchema, Uncut, Payload.get?, isDefsKey, hleg]
  obtain ⟨hfree, hflat⟩ := flattenSchema_spec planSchema hplan
  exact ⟨hfree, hflat huncut⟩

theorem loads_describeSchema_planSchema :
    loads (describeSchema planSchema) = some (.object (flattenSchema planSchema)) :=
  loads_describeSchema planSchema (by simp [planSchema, legSchema, Json.Distinct, MembersDistinct])

/-- A node that has a list of nodes. -/
def nodeSchema : Payload :=
  [("$defs", .object
      [("Node", .object [("properties", .object [("next", .object [("$ref", .string "#/$defs/Node")])])])]),
    ("$ref", .string "#/$defs/Node")]

-- its definitions stand beside its reference, and stay
example : (flattenSchema nodeSchema).map Prod.fst = ["properties", "$defs"] := by decide +kernel

end AiTrader
