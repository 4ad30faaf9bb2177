import AiTrader.Agents.Decision
import AiTrader.Domain.Models

/-!
# The boundary

`AgentRunner.decide` as a whole: `LLMGateway.complete` makes attempt after attempt until the provider answers, the
answer and, if need be, that of the repair go through the schema, and what is left of the proposals is handed to
the engine. Whatever the provider does, the engine sees admissible proposals only.

The gateway reads no cached answers here: `cache_read_enabled` stays off in paper and live trading.

What is returned was parsed in one of the attempts, whichever it was (`parsed_of_complete`), and what is parsed has
passed the schema, with or without the repair. From there on the reply matters no more: the schema checks each
proposal and the answer as a whole, and what the runner leaves out it leaves out of a list that was admissible.
-/

namespace AiTrader

open Lib

namespace LLMGateway

/-- What becomes of an attempt: the provider answers every message of it, it fails or times out, or the quota is
used up. -/
inductive Attempt
  | answered (chat : List Message → LLMResponse)
  | failed
  | quotaExhausted

/-- The loop of `complete`: the attempt that is answered, of those that are left. -/
def answerFrom (provider : ℕ → Attempt) (attempt : ℕ) : ℕ → Option (List Message → LLMResponse)
  | 0 => none
  | left + 1 =>
    match provider attempt with
    | .answered chat => some chat
    | .failed => answerFrom provider (attempt + 1) left
    | .quotaExhausted => none

/-- `complete`, with the call of the structured caller. -/
def complete {α : Type} (deterministicOnly : Bool) (maxRetries : ℕ) (provider : ℕ → Attempt)
    (call : (List Message → LLMResponse) → Called α) : Option α :=
  if deterministicOnly then none
  else (answerFrom provider 0 (maxRetries + 1)).bind fun chat => (call chat).parsed

theorem provider_of_answerFrom {provider : ℕ → Attempt} {chat : List Message → LLMResponse} {attempt left : ℕ}
    (h : answerFrom provider attempt left = some chat) : ∃ n, provider n = .answered chat := by
  induction left generalizing attempt with
  | zero => cases h
  | succ left ih =>
    unfold answerFrom at h
    split at h
    · rename_i answer hanswered
      cases h
      exact ⟨attempt, hanswered⟩
    · exact ih h
    · cases h

/-- What is returned was parsed in the answer to one attempt. -/
theorem parsed_of_complete {α : Type} {deterministicOnly : Bool} {maxRetries : ℕ} {provider : ℕ → Attempt}
    {call : (List Message → LLMResponse) → Called α} {a : α}
    (h : complete deterministicOnly maxRetries provider call = some a) :
    ∃ n chat, provider n = .answered chat ∧ (call chat).parsed = some a := by
  unfold complete at h
  split_ifs at h
  obtain ⟨chat, hchat, hparsed⟩ := Option.bind_eq_some_iff.mp h
  obtain ⟨n, hn⟩ := provider_of_answerFrom hchat
  exact ⟨n, chat, hn, hparsed⟩

end LLMGateway

/-- The proposals are those of the reply, in its order, less some that were left out. -/
def InReplyOrder (py : Pydantic) (allowed : List String) (response : LLMResponse)
    (proposals : List TradeProposal) : Prop :=
  ∃ payload vs ps, extractJson response = some payload ∧ payload.get? "proposals" = some (.array vs) ∧
    List.Forall₂ (fun v p => TradeProposal.validate py (some allowed) v = .ok p) vs ps ∧ proposals.Sublist ps

/-- What may cross the boundary. -/
structure OnlyAdmissible (allowed : List String) (proposals : List TradeProposal) : Prop where
  noHold : ∀ p ∈ proposals, p.action ≠ .hold
  onePerSymbol : (proposals.map TradeProposal.symbol).Nodup
  known : ∀ p ∈ proposals, p.symbol ∈ allowed
  inRange : ∀ p ∈ proposals, p.Admissible

theorem OnlyAdmissible.nil (allowed : List String) : OnlyAdmissible allowed [] where
  noHold _ hp := nomatch hp
  onePerSymbol := List.nodup_nil
  known _ hp := nomatch hp
  inRange _ hp := nomatch hp

theorem CycleDecision.onlyAdmissible_of_validate {py : Pydantic} {allowed : List String} {received : ℚ}
    {payload : Payload} {d : CycleDecision} (h : validate py (some allowed) received payload = .ok d) :
    OnlyAdmissible allowed d.proposals := by
  obtain ⟨hrange, hnodup, -⟩ := fields_of_validate h
  rcases proposals_of_validate h with hnone | ⟨vs, ps, -, hvalid, hproposals⟩
  · rw [hnone]
    exact OnlyAdmissible.nil allowed
  · have hsource : ∀ p ∈ d.proposals, p ∈ ps ∧ p.action ≠ .hold := by
      rw [hproposals]
      intro p hp
      exact mem_of_mem_dedupeSymbols hp
    refine ⟨fun p hp => (hsource p hp).2, hnodup, fun p hp => ?_, hrange⟩
    obtain ⟨v, -, hv⟩ := Validated.exists_of_mem_right hvalid p (hsource p hp).1
    exact TradeProposal.symbol_mem_of_validate hv

theorem CycleDecision.inReplyOrder_of_validate {py : Pydantic} {allowed : List String} {received : ℚ}
    {payload : Payload} {d : CycleDecision} {response : LLMResponse}
    (hpayload : extractJson response = some payload)
    (h : validate py (some allowed) received payload = .ok d) :
    d.proposals = [] ∨ InReplyOrder py allowed response d.proposals := by
  rcases proposals_of_validate h with hnone | ⟨vs, ps, hget, hvalid, hproposals⟩
  · exact Or.inl hnone
  · refine Or.inr ⟨payload, vs, ps, hpayload, hget, hvalid, ?_⟩
    rw [hproposals]
    exact (dedupeFrom_sublist _ _).trans List.filter_sublist

/-- **Only admissible proposals cross the boundary**: whatever the provider replies, to the first question or to
the repair and after any failed attempts. -/
theorem AgentRunner.onlyAdmissible_of_decide (py : Pydantic) (focus : List String) (account : AccountSnapshot)
    (received now : ℚ) (deterministicOnly : Bool) (maxRetries : ℕ)
    (provider : ℕ → LLMGateway.Attempt) (messages : List Message) (cycleId : String) :
    let allowed := focus ++ account.openPositions.keys
    let call := fun chat => AgentRunner.ask py focus account.openPositions.keys received chat messages
    let decision := AgentRunner.decide cycleId now
      (LLMGateway.complete deterministicOnly maxRetries provider call)
    OnlyAdmissible allowed decision.proposals ∧
      (decision.proposals = [] ∨ ∃ n chat, provider n = .answered chat ∧
        InReplyOrder py allowed (call chat).response decision.proposals) := by
  intro allowed call decision
  have hdecision : decision = AgentRunner.decide cycleId now
    (LLMGateway.complete deterministicOnly maxRetries provider call) := rfl
  cases hanswer : LLMGateway.complete deterministicOnly maxRetries provider call with
  | none =>
    rw [hanswer] at hdecision
    rw [hdecision]
    exact ⟨OnlyAdmissible.nil allowed, Or.inl rfl⟩
  | some d =>
    -- the cycle's id is all that is stamped over the answer
    have hproposals : decision.proposals = d.proposals := by
      rw [hdecision, hanswer]
      rfl
    rw [hproposals]
    obtain ⟨n, chat, hn, hparsed⟩ := LLMGateway.parsed_of_complete hanswer
    obtain ⟨payload, hpayload, hvalid⟩ := StructuredCaller.payload_of_call hparsed
    have hd := Validated.mapError_eq_ok.mp hvalid
    refine ⟨CycleDecision.onlyAdmissible_of_validate hd, ?_⟩
    rcases CycleDecision.inReplyOrder_of_validate hpayload hd with hnone | horder
    · exact Or.inl hnone
    · exact Or.inr ⟨n, chat, hn, horder⟩

end AiTrader
