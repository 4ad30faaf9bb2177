import AiTrader.Llm.Flatten

/-!
# Requests

What is asked of a model: the request, under one of the strategies for structured output, and the key under which its
answer is cached. `negotiate_strategy` tries the strategies in order, until one of them yields an object.

Two requests have the same cache key only where model, messages, options and strategy agree, or the hash collides
(`cacheKey_eq`).
-/

namespace AiTrader

open Lib

inductive StructuredStrategy
  | nativeSchema
  | jsonMode
  | singleTool
  | textExtract
  deriving DecidableEq

namespace StructuredStrategy

def value : StructuredStrategy → String
  | nativeSchema => "native_schema"
  | jsonMode => "json_mode"
  | singleTool => "single_tool"
  | textExtract => "text_extract"

/-- `STRATEGY_ORDER`. -/
def order : List StructuredStrategy := [nativeSchema, jsonMode, singleTool, textExtract]

/-- `StructuredStrategy(value)`. -/
def ofValue (text : String) : Option StructuredStrategy := order.find? fun s => s.value = text

theorem ofValue_value (s : StructuredStrategy) : ofValue s.value = some s := by
  cases s <;> decide

theorem value_injective : Function.Injective value := by
  intro s t h
  have hs := ofValue_value s
  rw [h, ofValue_value] at hs
  exact (Option.some.inj hs).symm

end StructuredStrategy

/-- `negotiate_strategy`: `probe` is what the model replies to a probe, if the call does not fail. -/
def negotiateFrom (supportsTools : Bool) (probe : StructuredStrategy → Option LLMResponse) :
    List StructuredStrategy → StructuredStrategy
  | [] => .textExtract
  | strategy :: rest =>
    if strategy = .singleTool ∧ supportsTools = false then negotiateFrom supportsTools probe rest
    else
      match probe strategy with
      | none => negotiateFrom supportsTools probe rest
      | some response =>
        if (extractJson response).isSome then strategy else negotiateFrom supportsTools probe rest

def negotiateStrategy (capabilities : List String) (probe : StructuredStrategy → Option LLMResponse) :
    StructuredStrategy :=
  negotiateFrom (decide ("tools" ∈ capabilities)) probe StructuredStrategy.order

/-- The numbers of a request are the texts that stand for them. -/
structure LLMRequest where
  model : String
  messages : List Message
  schema : Payload
  strategy : StructuredStrategy
  temperature : Number
  numCtx : Number
  numPredict : Number
  seed : Option Number
  keepAlive : String
  think : Option Json
  timeout : Number

namespace LLMRequest

def options (req : LLMRequest) : Payload :=
  [("temperature", .number req.temperature), ("num_ctx", .number req.numCtx),
    ("num_predict", .number req.numPredict)] ++ (req.seed.map fun seed => ("seed", .number seed)).toList

def messageJson (m : Message) : Json := .object [("role", .string m.role), ("content", .string m.content)]

/-- What the cache key is made of, every object with its keys in order, as `sort_keys` has them. -/
def cachePayload (req : LLMRequest) : Json :=
  .object
    [("messages", .array (req.messages.map fun m =>
        .object [("content", .string m.content), ("role", .string m.role)])),
      ("model", .string req.model),
      ("options", .object
        ([("num_ctx", .number req.numCtx), ("num_predict", .number req.numPredict)] ++
          (req.seed.map fun seed => ("seed", .number seed)).toList ++ [("temperature", .number req.temperature)])),
      ("strategy", .string req.strategy.value)]

/-- `_cache_key`, with the hash of a text as it is given. -/
def cacheKey (sha256 : List Char → String) (req : LLMRequest) : String := sha256 (dumps req.cachePayload)

/-- What the key speaks of. -/
structure SameQuestion (req other : LLMRequest) : Prop where
  model : req.model = other.model
  messages : req.messages = other.messages
  options : req.options = other.options
  strategy : req.strategy = other.strategy

theorem distinct_cachePayload (req : LLMRequest) : req.cachePayload.Distinct := by
  have hmessages : ElementsDistinct (req.messages.map fun m =>
      .object [("content", .string m.content), ("role", .string m.role)]) := by
    refine elementsDistinct_iff.mpr fun v hv => ?_
    obtain ⟨m, -, rfl⟩ := List.mem_map.mp hv
    simp [Json.Distinct, MembersDistinct]
  cases hseed : req.seed <;>
    simp [cachePayload, Json.Distinct, MembersDistinct, hmessages, hseed]

theorem sameQuestion_of_cachePayload {req other : LLMRequest} (h : req.cachePayload = other.cachePayload) :
    req.SameQuestion other := by
  simp only [cachePayload, Json.object.injEq, List.cons.injEq, Prod.mk.injEq, Json.array.injEq,
    Json.string.injEq, true_and, and_true] at h
  obtain ⟨hmessages, hmodel, hoptions, hstrategy⟩ := h
  have hinjective : Function.Injective fun m : Message =>
      Json.object [("content", .string m.content), ("role", .string m.role)] := by
    intro m m' hm
    simp only [Json.object.injEq, List.cons.injEq, Prod.mk.injEq, Json.string.injEq, true_and, and_true] at hm
    cases m
    cases m'
    simp_all
  refine ⟨hmodel, hinjective.list_map hmessages, ?_, StructuredStrategy.value_injective hstrategy⟩
  unfold options
  cases hseed : req.seed <;> cases hother : other.seed <;>
    simp_all

/-- **Requests with one key** ask the same, unless the hash collides. -/
theorem cacheKey_eq {sha256 : List Char → String} {req other : LLMRequest}
    (h : req.cacheKey sha256 = other.cacheKey sha256) :
    req.SameQuestion other ∨ dumps req.cachePayload ≠ dumps other.cachePayload ∧
      sha256 (dumps req.cachePayload) = sha256 (dumps other.cachePayload) := by
  by_cases heq : dumps req.cachePayload = dumps other.cachePayload
  · left
    have hread := loads_dumps req.distinct_cachePayload
    rw [heq, loads_dumps other.distinct_cachePayload] at hread
    exact sameQuestion_of_cachePayload (Option.some.inj hread).symm
  · exact Or.inr ⟨heq, h⟩

end LLMRequest

end AiTrader
