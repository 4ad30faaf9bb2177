import AiTrader.Config
import AiTrader.Domain.Proposals
import AiTrader.Lib.Schema
import AiTrader.Llm.Structured

/-!
# The model's decision

What becomes of the payload of a reply: the schema of a `CycleDecision` with its field validators, and
`AgentRunner.decide`. What the validation library reads as a number or a time is a parameter (`Pydantic`), and so
are its words for a problem.

`decided_at` is a field of the schema like the others. It says when the decision was made, and a reply that has
the field may say so itself (`decidedAt_of_validate`); `decide` stamps the cycle's id over what the reply says,
and the time it leaves alone.

A validator of the schema is a chain of fields, each of which is a value or an error with the path of the field. A
decision that is validated tells, field by field, what the payload said (`CycleDecision.fields_of_validate`): the
proposals are those of its list, in its order, without the HOLDs and without a second one for a symbol
(`proposals_of_validate`).
-/

namespace AiTrader

open Lib Validated

/-- A time: with an offset, in seconds since the epoch, or without one. -/
inductive Stamp
  | aware (epoch : ℚ)
  | naive
  deriving DecidableEq

/-- The library's readers and its words for a problem. -/
structure Pydantic where
  number : Json → Option ℚ
  integer : Json → Option ℤ
  datetime : Json → Option Stamp
  message : Problem Bound → String

/-- `compact_errors`. -/
def compactErrors (py : Pydantic) (errors : List (SchemaError Bound)) (limit : ℕ := 8) : String :=
  "\n".intercalate ((errors.take limit).map fun e =>
    let loc := ".".intercalate e.loc
    "- " ++ (if loc = "" then "(root)" else loc) ++ ": " ++ py.message e.problem)

/-! ### Proposals -/

def Action.ofJson : Json → Option Action
  | .string s => [buy, sell, hold, close].find? fun action => action.value = s
  | _ => none

namespace TradeProposal

def isEntry (p : TradeProposal) : Bool := decide (p.action = .buy ∨ p.action = .sell)

/-- `_known_symbol`. -/
def knownSymbol (allowed : Option (List String)) (v : String) : Validated Bound String :=
  let sym := upper (String.ofList (strip v.toList))
  match allowed with
  | some symbols =>
    if sym ∈ symbols then .ok sym
    else fail (.valueError (pyRepr sym ++ " was not in the focus list supplied to the model"))
  | none => .ok sym

/-- `_cap_evidence`. -/
def capEvidence (v : List String) : List String := (v.take 6).map (takeText 200)

/-- A number within its declared range. -/
def numberIn (py : Pydantic) (low high : ℚ) (v : Json) : Validated Bound ℚ :=
  (ofReader py.number v).bind fun value => bounded [.le high, .ge low] (Bound.holds value) value

def integerIn (py : Pydantic) (low high : ℚ) (v : Json) : Validated Bound ℤ :=
  (ofReader py.integer v).bind fun value => bounded [.le high, .ge low] (Bound.holds value) value

/-- `TradeProposal.model_validate`. -/
def validate (py : Pydantic) (allowed : Option (List String)) : Json → Validated Bound TradeProposal
  | .object members =>
    let get := Payload.get? members
    accept TradeProposal.mk
      |>.apply (required get "symbol" fun v => (text v).bind (knownSymbol allowed))
      |>.apply (required get "action" (ofReader Action.ofJson))
      |>.apply (required get "conviction" (numberIn py 0 1))
      |>.apply (required get "horizon_minutes" (integerIn py 5 390))
      |>.apply (optional get "stop_atr_multiple" (3 / 2) (numberIn py (1 / 2) 5))
      |>.apply (optional get "target_r_multiple" 2 (numberIn py (1 / 2) 10))
      |>.apply (optional get "rationale" "" (shortText 600))
      |>.apply (optional get "evidence" [] fun v => (listOf text v).map capEvidence)
  | _ => fail .invalid

/-- The declared ranges. -/
structure Admissible (p : TradeProposal) : Prop where
  conviction : 0 ≤ p.conviction ∧ p.conviction ≤ 1
  stopAtrMultiple : 1 / 2 ≤ p.stopAtrMultiple ∧ p.stopAtrMultiple ≤ 5
  targetRMultiple : 1 / 2 ≤ p.targetRMultiple ∧ p.targetRMultiple ≤ 10

theorem mem_of_numberIn {py : Pydantic} {low high value : ℚ} {v : Json}
    (h : numberIn py low high v = .ok value) : low ≤ value ∧ value ≤ high := by
  obtain ⟨number, -, hbounded⟩ := bind_eq_ok.mp h
  obtain ⟨rfl, hholds⟩ := bounded_eq_ok.mp hbounded
  simp only [List.forall_mem_cons, Bound.holds, decide_eq_true_eq] at hholds
  exact ⟨hholds.2.1, hholds.1⟩

theorem mem_of_optional_numberIn {py : Pydantic} {get : String → Option Json} {key : String}
    {default low high value : ℚ} (hdefault : low ≤ default ∧ default ≤ high)
    (h : optional get key default (numberIn py low high) = .ok value) : low ≤ value ∧ value ≤ high := by
  rcases optional_eq_ok.mp h with ⟨-, rfl⟩ | ⟨v, -, hv⟩
  · exact hdefault
  · exact mem_of_numberIn hv

theorem fields_of_validate {py : Pydantic} {allowed : Option (List String)} {v : Json} {p : TradeProposal}
    (h : validate py allowed v = .ok p) : ∃ members, v = .object members ∧
      required (Payload.get? members) "symbol" (fun v => (text v).bind (knownSymbol allowed)) = .ok p.symbol ∧
      required (Payload.get? members) "conviction" (numberIn py 0 1) = .ok p.conviction ∧
      optional (Payload.get? members) "stop_atr_multiple" (3 / 2) (numberIn py (1 / 2) 5) =
        .ok p.stopAtrMultiple ∧
      optional (Payload.get? members) "target_r_multiple" 2 (numberIn py (1 / 2) 10) =
        .ok p.targetRMultiple := by
  unfold validate at h
  split at h
  · simp only [apply_eq_ok, accept_eq_ok] at h
    obtain ⟨_, _, ⟨_, _, ⟨_, target, ⟨_, stop, ⟨_, _, ⟨_, conviction, ⟨_, _, ⟨_, symbol, rfl, hsymbol, rfl⟩, -,
      rfl⟩, hconviction, rfl⟩, -, rfl⟩, hstop, rfl⟩, htarget, rfl⟩, -, rfl⟩, -, rfl⟩ := h
    exact ⟨_, rfl, hsymbol, hconviction, hstop, htarget⟩
  · cases h

theorem mem_of_knownSymbol {symbols : List String} {v sym : String}
    (h : knownSymbol (some symbols) v = .ok sym) : sym ∈ symbols := by
  unfold knownSymbol at h
  dsimp only at h
  split_ifs at h with hmem
  · rw [← Except.ok.inj h]
    exact hmem
  · exact nomatch h

theorem symbol_mem_of_validate {py : Pydantic} {symbols : List String} {v : Json} {p : TradeProposal}
    (h : validate py (some symbols) v = .ok p) : p.symbol ∈ symbols := by
  obtain ⟨members, -, hsymbol, -⟩ := fields_of_validate h
  obtain ⟨v, -, hv⟩ := required_eq_ok.mp hsymbol
  obtain ⟨name, -, hknown⟩ := bind_eq_ok.mp hv
  exact mem_of_knownSymbol hknown

theorem admissible_of_validate {py : Pydantic} {allowed : Option (List String)} {v : Json} {p : TradeProposal}
    (h : validate py allowed v = .ok p) : p.Admissible := by
  obtain ⟨members, -, -, hconviction, hstop, htarget⟩ := fields_of_validate h
  obtain ⟨v, -, hv⟩ := required_eq_ok.mp hconviction
  exact
    { conviction := mem_of_numberIn hv
      stopAtrMultiple := mem_of_optional_numberIn (by norm_num) hstop
      targetRMultiple := mem_of_optional_numberIn (by norm_num) htarget }

end TradeProposal

/-! ### Decisions -/

/-- The Trader agent's full output for one decision cycle. -/
structure CycleDecision where
  marketRead : String := ""
  proposals : List TradeProposal := []
  watching : List String := []
  notesForNextCycle : String := ""
  decidedAt : Stamp
  cycleId : String := ""
  deriving DecidableEq

namespace CycleDecision

/-- `_drop_holds`. -/
def dropHolds (v : List TradeProposal) : List TradeProposal := v.filter fun p => p.action ≠ .hold

/-- The loop of `_dedupe_symbols`, with the symbols it has seen. -/
def dedupeFrom (seen : List String) : List TradeProposal → List TradeProposal
  | [] => []
  | p :: rest => if p.symbol ∈ seen then dedupeFrom seen rest else p :: dedupeFrom (p.symbol :: seen) rest

/-- `_dedupe_symbols`. -/
def dedupeSymbols (v : List TradeProposal) : List TradeProposal := dedupeFrom [] v

/-- The time a payload gives for its decision: its own, or that of its validation. -/
def stampOf (py : Pydantic) (received : ℚ) (payload : Payload) : Validated Bound Stamp :=
  optional payload.get? "decided_at" (.aware received) (ofReader py.datetime)

/-- `CycleDecision.model_validate`, at the time `received`. -/
def validate (py : Pydantic) (allowed : Option (List String)) (received : ℚ) (payload : Payload) :
    Validated Bound CycleDecision :=
  let get := payload.get?
  accept CycleDecision.mk
    |>.apply (optional get "market_read" "" (shortText 800))
    |>.apply (optional get "proposals" [] fun v =>
      (listOf (TradeProposal.validate py allowed) v).map fun ps => dedupeSymbols (dropHolds ps))
    |>.apply (optional get "watching" [] (listOf text))
    |>.apply (optional get "notes_for_next_cycle" "" (shortText 400))
    |>.apply (stampOf py received payload)
    |>.apply (optional get "cycle_id" "" text)

/-- `age_seconds`. The difference of a time with an offset and one without raises. -/
def ageSeconds (d : CycleDecision) (now : ℚ) : Except String ℚ :=
  match d.decidedAt with
  | .aware epoch => .ok (now - epoch)
  | .naive => .error "can't subtract offset-naive and offset-aware datetimes"

/-- `safe_default`, at the time `now`. -/
def safeDefault (reason : String) (now : ℚ) : CycleDecision where
  marketRead := if reason = "" then "No decision produced." else "No decision produced (" ++ reason ++ ")."
  decidedAt := .aware now

theorem dedupeFrom_sublist (seen : List String) (v : List TradeProposal) : (dedupeFrom seen v).Sublist v := by
  induction v generalizing seen with
  | nil => exact List.Sublist.refl _
  | cons p rest ih =>
    rw [dedupeFrom]
    split_ifs
    · exact (ih seen).cons p
    · exact (ih _).cons_cons p

theorem nodup_dedupeFrom (seen : List String) (v : List TradeProposal) :
    ((dedupeFrom seen v).map TradeProposal.symbol).Nodup ∧ ∀ p ∈ dedupeFrom seen v, p.symbol ∉ seen := by
  induction v generalizing seen with
  | nil => exact ⟨List.nodup_nil, fun p hp => (nomatch hp)⟩
  | cons p rest ih =>
    rw [dedupeFrom]
    by_cases hseen : p.symbol ∈ seen
    · rw [if_pos hseen]
      exact ih seen
    · obtain ⟨hnodup, hunseen⟩ := ih (p.symbol :: seen)
      rw [if_neg hseen]
      refine ⟨List.nodup_cons.mpr ⟨fun hmem => ?_, hnodup⟩, fun q hq => ?_⟩
      · obtain ⟨q, hq, hsame⟩ := List.mem_map.mp hmem
        exact hunseen q hq (by rw [hsame]; exact List.mem_cons_self)
      · rcases List.mem_cons.mp hq with rfl | hlater
        · exact hseen
        · exact fun hmem => hunseen q hlater (List.mem_cons_of_mem _ hmem)

variable {py : Pydantic} {allowed : Option (List String)} {received : ℚ} {payload : Payload} {d : CycleDecision}

theorem proposals_of_validate (h : validate py allowed received payload = .ok d) :
    d.proposals = [] ∨ ∃ vs ps, payload.get? "proposals" = some (.array vs) ∧
      List.Forall₂ (fun v p => TradeProposal.validate py allowed v = .ok p) vs ps ∧
      d.proposals = dedupeSymbols (dropHolds ps) := by
  unfold validate at h
  simp only [apply_eq_ok, accept_eq_ok] at h
  obtain ⟨_, _, ⟨_, _, ⟨_, _, ⟨_, _, ⟨_, proposals, ⟨_, _, rfl, -, rfl⟩, hproposals, rfl⟩, -, rfl⟩, -, rfl⟩,
    -, rfl⟩, -, rfl⟩ := h
  rcases optional_eq_ok.mp hproposals with ⟨-, rfl⟩ | ⟨v, hget, hv⟩
  · exact Or.inl rfl
  · obtain ⟨ps, hps, rfl⟩ := map_eq_ok.mp hv
    obtain ⟨vs, rfl, hvalid⟩ := listOf_eq_ok.mp hps
    exact Or.inr ⟨vs, ps, hget, hvalid, rfl⟩

theorem stampOf_of_validate (h : validate py allowed received payload = .ok d) :
    stampOf py received payload = .ok d.decidedAt := by
  unfold validate at h
  simp only [apply_eq_ok, accept_eq_ok] at h
  obtain ⟨_, _, ⟨_, stamp, ⟨_, _, ⟨_, _, ⟨_, _, ⟨_, _, rfl, -, rfl⟩, -, rfl⟩, -, rfl⟩, -, rfl⟩, hstamp, rfl⟩,
    -, rfl⟩ := h
  exact hstamp

theorem mem_of_mem_dedupeSymbols {ps : List TradeProposal} {p : TradeProposal}
    (h : p ∈ dedupeSymbols (dropHolds ps)) : p ∈ ps ∧ p.action ≠ .hold := by
  have hmem := (dedupeFrom_sublist _ _).subset h
  simpa [dropHolds] using hmem

theorem fields_of_validate (h : validate py allowed received payload = .ok d) :
    (∀ p ∈ d.proposals, p.Admissible) ∧ (d.proposals.map TradeProposal.symbol).Nodup ∧
      stampOf py received payload = .ok d.decidedAt := by
  rw [← and_assoc]
  refine ⟨?_, stampOf_of_validate h⟩
  rcases proposals_of_validate h with hnone | ⟨vs, ps, -, hvalid, hproposals⟩
  · rw [hnone]
    exact ⟨fun p hp => (nomatch hp), List.nodup_nil⟩
  · rw [hproposals]
    refine ⟨fun p hp => ?_, (nodup_dedupeFrom _ _).1⟩
    obtain ⟨v, -, hv⟩ := exists_of_mem_right hvalid p (mem_of_mem_dedupeSymbols hp).1
    exact TradeProposal.admissible_of_validate hv

end CycleDecision

namespace AgentRunner

/-- The call of the Trader agent, whose replies are validated at the time `received`. The model may name the
symbols of the focus list and those that are held. -/
def ask (py : Pydantic) (focus held : List String) (received : ℚ) (chat : List Message → LLMResponse)
    (messages : List Message) : Called CycleDecision :=
  StructuredCaller.call
    (fun payload => (CycleDecision.validate py (some (focus ++ held)) received payload).mapError fun errors =>
      compactErrors py errors)
    chat messages true

/-- `decide`, from the gateway's answer on. -/
def decide (cycleId : String) (now : ℚ) (answer : Option CycleDecision) : CycleDecision :=
  match answer with
  | none => CycleDecision.safeDefault "model unavailable or invalid output" now
  | some decision => { decision with cycleId }

end AgentRunner

theorem StructuredCaller.payload_of_call {α : Type} {modelValidate : Payload → Except String α}
    {chat : List Message → LLMResponse} {messages : List Message} {allowRepair : Bool} {a : α}
    (h : (StructuredCaller.call modelValidate chat messages allowRepair).parsed = some a) :
    ∃ payload, extractJson (StructuredCaller.call modelValidate chat messages allowRepair).response =
      some payload ∧ modelValidate payload = .ok a := by
  have hvalidated : ∀ response, validateResponse modelValidate response = .ok a →
      ∃ payload, extractJson response = some payload ∧ modelValidate payload = .ok a := by
    intro response hvalid
    unfold validateResponse at hvalid
    split at hvalid
    · cases hvalid
    · exact ⟨_, ‹_›, hvalid⟩
  unfold StructuredCaller.call at h ⊢
  dsimp only at h ⊢
  split at h
  · rename_i parsed hfirst
    obtain rfl := Option.some.inj h
    exact hvalidated _ hfirst
  · split_ifs at h ⊢
    split at h
    · rename_i parsed hrepaired
      obtain rfl := Option.some.inj h
      exact hvalidated _ hrepaired
    · cases h

theorem AgentRunner.proposals_of_decide (py : Pydantic) (focus held : List String) (received now : ℚ)
    (chat : List Message → LLMResponse) (messages : List Message) (cycleId : String) :
    let decision := AgentRunner.decide cycleId now (AgentRunner.ask py focus held received chat messages).parsed
    (∀ p ∈ decision.proposals, p.Admissible) ∧ (decision.proposals.map TradeProposal.symbol).Nodup := by
  unfold AgentRunner.decide
  split
  · exact ⟨fun p hp => (nomatch hp), List.nodup_nil⟩
  · rename_i decision hparsed
    obtain ⟨payload, -, hvalid⟩ := StructuredCaller.payload_of_call hparsed
    obtain ⟨hadmissible, hnodup, -⟩ := CycleDecision.fields_of_validate (mapError_eq_ok.mp hvalid)
    exact ⟨hadmissible, hnodup⟩

end AiTrader
