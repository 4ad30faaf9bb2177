import AiTrader.Lib.Json

/-!
# Validation by a schema

What a validator makes of a JSON value: the value of the declared type, or everything that is wrong with it, each
problem with its path. A required field must be there, an optional one takes its default when it is not, and
a field that is there is taken from the payload.

For every combinator one lemma says when it succeeds (`apply_eq_ok`, `required_eq_ok`, ...), so that what
a schema accepts is read off its definition. `β` is the type of the constraints on a value.
-/

namespace Lib

/-- What can be wrong with a value. -/
inductive Problem (β : Type)
  | missing
  | invalid
  | outOfRange (bound : β)
  | tooLong (limit : ℕ)
  | valueError (message : String)
  deriving DecidableEq

structure SchemaError (β : Type) where
  loc : List String
  problem : Problem β
  deriving DecidableEq

/-- A validated value, or everything that is wrong with it. -/
abbrev Validated (β α : Type) := Except (List (SchemaError β)) α

namespace Validated

variable {α α' β : Type}

/-! ### The combinators -/

def accept (a : α) : Validated β α := .ok a

/-- The errors of both sides are reported. -/
def apply (f : Validated β (α → α')) (x : Validated β α) : Validated β α' :=
  match f, x with
  | .ok f, .ok a => .ok (f a)
  | .ok _, .error errors => .error errors
  | .error errors, .ok _ => .error errors
  | .error errors, .error errors' => .error (errors ++ errors')

def fail (problem : Problem β) : Validated β α := .error [{ loc := [], problem }]

/-- Under a key: the path of the errors is one step longer. -/
def under (key : String) (x : Validated β α) : Validated β α :=
  x.mapError fun errors => errors.map fun e => { e with loc := key :: e.loc }

def required (get : String → Option Json) (key : String) (validate : Json → Validated β α) : Validated β α :=
  match get key with
  | none => .error [{ loc := [key], problem := .missing }]
  | some v => (validate v).under key

def optional (get : String → Option Json) (key : String) (default : α) (validate : Json → Validated β α) :
    Validated β α :=
  match get key with
  | none => .ok default
  | some v => (validate v).under key

/-- The elements of a list, each under its index. -/
def elements (validate : Json → Validated β α) : ℕ → List Json → Validated β (List α)
  | _, [] => .ok []
  | i, v :: rest =>
    apply (((validate v).under (toString i)).map List.cons) (elements validate (i + 1) rest)

def listOf (validate : Json → Validated β α) : Json → Validated β (List α)
  | .array vs => elements validate 0 vs
  | _ => fail .invalid

/-- What a reader makes of the value. -/
def ofReader (reader : Json → Option α) (v : Json) : Validated β α :=
  match reader v with
  | some a => .ok a
  | none => fail .invalid

/-- The first constraint that is missed is reported. -/
def bounded (bounds : List β) (holds : β → Bool) (a : α) : Validated β α :=
  match bounds.find? fun b => !holds b with
  | some b => fail (.outOfRange b)
  | none => .ok a

def text : Json → Validated β String
  | .string s => .ok s
  | _ => fail .invalid

def shortText (limit : ℕ) (v : Json) : Validated β String :=
  (text v).bind fun s => if s.length ≤ limit then .ok s else fail (.tooLong limit)

/-! ### When they succeed -/

variable {get : String → Option Json} {key : String} {validate : Json → Validated β α} {a : α}

theorem accept_eq_ok {a' : α} : (accept a : Validated β α) = .ok a' ↔ a = a' := by
  simp [accept]

theorem apply_eq_ok {f : Validated β (α → α')} {x : Validated β α} {b : α'} :
    f.apply x = .ok b ↔ ∃ g a, f = .ok g ∧ x = .ok a ∧ g a = b := by
  rcases f with errors | g <;> rcases x with errors' | a <;> simp [apply]

theorem bind_eq_ok {x : Validated β α} {f : α → Validated β α'} {b : α'} :
    x.bind f = .ok b ↔ ∃ a, x = .ok a ∧ f a = .ok b := by
  rcases x with errors | a <;> simp [Except.bind]

theorem map_eq_ok {x : Validated β α} {f : α → α'} {b : α'} : x.map f = .ok b ↔ ∃ a, x = .ok a ∧ f a = b := by
  rcases x with errors | a <;> simp [Except.map]

theorem mapError_eq_ok {ε ε' : Type} {x : Except ε α} {f : ε → ε'} : x.mapError f = .ok a ↔ x = .ok a := by
  rcases x with error | a' <;> simp [Except.mapError]

theorem under_eq_ok {x : Validated β α} : x.under key = .ok a ↔ x = .ok a := mapError_eq_ok

theorem required_eq_ok : required get key validate = .ok a ↔ ∃ v, get key = some v ∧ validate v = .ok a := by
  unfold required
  cases get key with
  | none => simp
  | some v => simp [under_eq_ok]

theorem optional_eq_ok {default : α} : optional get key default validate = .ok a ↔
    get key = none ∧ a = default ∨ ∃ v, get key = some v ∧ validate v = .ok a := by
  unfold optional
  cases get key with
  | none => simp [eq_comm]
  | some v => simp [under_eq_ok]

theorem bounded_eq_ok {bounds : List β} {holds : β → Bool} {a' : α} :
    bounded bounds holds a = .ok a' ↔ a = a' ∧ ∀ b ∈ bounds, holds b = true := by
  unfold bounded
  cases hfind : bounds.find? fun b => !holds b with
  | none =>
    rw [List.find?_eq_none] at hfind
    simpa using fun _ => hfind
  | some b =>
    have hmem := List.mem_of_find?_eq_some hfind
    have hmissed : holds b = false := by simpa using List.find?_some hfind
    simp only [fail, reduceCtorEq, false_iff, not_and, not_forall]
    exact fun _ => ⟨b, hmem, by simp [hmissed]⟩

theorem elements_eq_ok {vs : List Json} {i : ℕ} {as : List α} :
    elements validate i vs = .ok as ↔ List.Forall₂ (fun v a => validate v = .ok a) vs as := by
  induction vs generalizing i as with
  | nil =>
    rw [elements, List.forall₂_nil_left_iff]
    simp [eq_comm]
  | cons v vs ih =>
    rw [elements, apply_eq_ok, List.forall₂_cons_left_iff]
    simp only [map_eq_ok, under_eq_ok, ih]
    constructor
    · rintro ⟨-, rest, ⟨a, ha, rfl⟩, hrest, rfl⟩
      exact ⟨a, rest, ha, hrest, rfl⟩
    · rintro ⟨a, rest, ha, hrest, rfl⟩
      exact ⟨List.cons a, rest, ⟨a, ha, rfl⟩, hrest, rfl⟩

theorem listOf_eq_ok {v : Json} {as : List α} : listOf validate v = .ok as ↔
    ∃ vs, v = .array vs ∧ List.Forall₂ (fun v a => validate v = .ok a) vs as := by
  unfold listOf
  cases v <;> simp [fail, elements_eq_ok]

theorem listOf_text (values : List String) :
    (listOf text (.array (values.map Json.string)) : Validated β (List String)) = .ok values := by
  refine listOf_eq_ok.mpr ⟨_, rfl, ?_⟩
  rw [List.forall₂_map_left_iff]
  exact List.forall₂_same.mpr fun _ _ => rfl

theorem exists_of_mem_right {vs : List Json} {as : List α}
    (h : List.Forall₂ (fun v a => validate v = .ok a) vs as) :
    ∀ a ∈ as, ∃ v ∈ vs, validate v = .ok a := by
  induction h with
  | nil => exact fun a ha => (nomatch ha)
  | cons hfirst _ ih =>
    intro a ha
    rcases List.mem_cons.mp ha with rfl | ha
    · exact ⟨_, List.mem_cons_self, hfirst⟩
    · obtain ⟨v, hv, hvalid⟩ := ih a ha
      exact ⟨v, List.mem_cons_of_mem _ hv, hvalid⟩

end Validated

end Lib
