import AiTrader.Lib.Json

/-!
# Objects out of replies

`extract_json` looks for a JSON object in a reply: in its tool calls, and, when the reasoning has been taken
out, in the text as a whole, in a tagged tool call, in a fenced block, and last anywhere in the text. The
regular expressions are modelled by what they match.

`StructuredCaller` validates what is found. Nothing found is no answer: the model is told so and asked once more
(`call_repairs`).
-/

namespace AiTrader

open Lib Scan

/-! ### Reasoning -/

def openThink : List Char := "<think>".toList

def closeThink : List Char := "</think>".toList

/-- A character of a lower-case pattern, whatever the case of the text: `İ`, `ı` and the Kelvin sign fold to
letters of the pattern. -/
def matchesLetter (p ch : Char) : Bool :=
  decide (ch = p) || decide (ch.toLower = p) ||
    (decide (p = 'i') && (decide (ch.toNat = 304) || decide (ch.toNat = 305))) ||
      (decide (p = 'k') && decide (ch.toNat = 8490))

/-- What comes after a tag that stands at the front. -/
def dropTag : List Char → List Char → Option (List Char)
  | [], cs => some cs
  | p :: tag, ch :: cs => if matchesLetter p ch then dropTag tag cs else none
  | _ :: _, [] => none

/-- What comes after the first occurrence of a tag. -/
def afterTag (tag : List Char) : List Char → Option (List Char)
  | [] => none
  | ch :: cs =>
    match dropTag tag (ch :: cs) with
    | some rest => some rest
    | none => afterTag tag cs

/-- `_THINK_RE.sub`: every block from an opening tag to the next closing one. -/
def removeThink : ℕ → List Char → List Char
  | 0, cs => cs
  | _, [] => []
  | fuel + 1, ch :: cs =>
    match (dropTag openThink (ch :: cs)).bind (afterTag closeThink) with
    | some rest => removeThink fuel rest
    | none => ch :: removeThink fuel cs

/-- `_UNCLOSED_THINK_RE.sub`: everything from an opening tag on. -/
def cutThink : List Char → List Char
  | [] => []
  | ch :: cs => if (dropTag openThink (ch :: cs)).isSome then [] else ch :: cutThink cs

def stripThinking (text : List Char) : List Char := strip (cutThink (removeThink text.length text))

/-! ### The places to look in -/

/-- `find_balanced_json`. -/
def findBalancedJson : List Char → Option (List Char)
  | [] => none
  | ch :: cs =>
    if ch = '{' then
      match (level 0).balanced (ch :: cs) with
      | some object => some object
      | none => findBalancedJson cs
    else findBalancedJson cs

/-- The text before the first occurrence of a word, and the text after it. -/
def splitAtWord (word : List Char) : List Char → Option (List Char × List Char)
  | [] => none
  | ch :: cs =>
    match dropWord word (ch :: cs) with
    | some rest => some ([], rest)
    | none => (splitAtWord word cs).map fun split => (ch :: split.1, split.2)

/-- Up to and with the first brace after which the tag of a tool call closes. -/
def upToToolCallEnd : List Char → Option (List Char)
  | [] => none
  | ch :: cs =>
    if ch = '}' ∧ (dropWord "</tool_call>".toList (cs.dropWhile isSpace)).isSome then some [ch]
    else (upToToolCallEnd cs).map (ch :: ·)

/-- `_TOOL_CALL_RE.match`, the first group. -/
def toolCallAt (cs : List Char) : Option (List Char) :=
  (dropWord "<tool_call>".toList cs).bind fun rest =>
    match rest.dropWhile isSpace with
    | ch :: body => if ch = '{' then (upToToolCallEnd body).map (ch :: ·) else none
    | [] => none

/-- `_TOOL_CALL_RE.search`, the first group. -/
def toolCall : List Char → Option (List Char)
  | [] => none
  | ch :: cs =>
    match toolCallAt (ch :: cs) with
    | some group => some group
    | none => toolCall cs

def fence : List Char := "```".toList

/-- The optional name of the language. -/
def dropLanguage (cs : List Char) : List Char :=
  ((dropWord "json".toList cs).orElse fun _ => dropWord "JSON".toList cs).getD cs

/-- `_FENCE_RE.findall`. -/
def fencedBlocks : ℕ → List Char → List (List Char)
  | 0, _ => []
  | _, [] => []
  | fuel + 1, ch :: cs =>
    match (dropWord fence (ch :: cs)).bind fun rest =>
        splitAtWord fence ((dropLanguage rest).dropWhile isSpace) with
    | some (block, rest) => block :: fencedBlocks fuel rest
    | none => fencedBlocks fuel cs

/-! ### `extract_json` -/

/-- The members of an object. -/
abbrev Payload := List (String × Json)

def Payload.get? (payload : Payload) (key : String) : Option Json :=
  (payload.find? fun pair => pair.1 = key).map Prod.snd

/-- A reply of the model. Of a tool call only the arguments are read. -/
structure LLMResponse where
  content : String := ""
  toolCalls : List (Option Json) := []

/-- A text that is one JSON object. -/
def loadsObject (cs : List Char) : Option Payload :=
  match loads cs with
  | some (.object payload) => some payload
  | _ => none

/-- 1. The arguments of a native tool call. -/
def nativePayload (arguments : Option Json) : Option Payload :=
  match arguments with
  | some (.object payload) => if payload.isEmpty then none else some payload
  | some (.string s) => loadsObject s.toList
  | _ => none

/-- 3. A tool call in tags. Its payload may be wrapped. -/
def taggedPayload (text : List Char) : Option Payload :=
  ((toolCall text).bind loadsObject).map fun parsed =>
    match parsed.get? "arguments" with
    | some (.object inner) => inner
    | _ => parsed

/-- 4. A fenced block. It is searched only where it is no JSON as a whole. -/
def fencedPayload (block : List Char) : Option Payload :=
  match loads (strip block) with
  | some (.object payload) => some payload
  | some _ => none
  | none => (findBalancedJson block).bind loadsObject

/-- Steps 2 to 5, on the text without the reasoning. -/
def textPayload (text : List Char) : Option Payload :=
  if text.isEmpty then none
  else
    ((((loadsObject text).or (taggedPayload text)).or
      ((fencedBlocks text.length text).findSome? fencedPayload)).or
        ((findBalancedJson text).bind loadsObject))

def extractJson (response : LLMResponse) : Option Payload :=
  (response.toolCalls.findSome? nativePayload).or (textPayload (stripThinking response.content.toList))

/-! ### `StructuredCaller` -/

structure Message where
  role : String
  content : String
  deriving DecidableEq

/-- The first `n` characters. -/
def takeText (n : ℕ) (s : String) : String := String.ofList (s.toList.take n)

def noObjectError (content : String) : String :=
  let preview := (content.toList.take 200).map fun ch => if ch = Char.ofNat 10 then ' ' else ch
  "no JSON object found in response (starts with: " ++ pyRepr (String.ofList preview) ++ ")"

/-- How a call ends, and the messages of its repair attempt if it made one. -/
structure Called (α : Type) where
  parsed : Option α
  response : LLMResponse
  error : String
  repair : Option (List Message) := none

section Caller

variable {α : Type} (modelValidate : Payload → Except String α)

/-- `_validate`. `modelValidate` is the schema's validation, its errors rendered. -/
def validateResponse (response : LLMResponse) : Except String α :=
  match extractJson response with
  | none => .error (noObjectError response.content)
  | some payload => modelValidate payload

/-- The messages of the repair attempt. -/
def repairMessages (messages : List Message) (content error : String) : List Message :=
  messages ++
    [{ role := "assistant", content := takeText 4000 content },
      { role := "user"
        content := "Your previous reply did not match the required schema.\n\n" ++
          "Problems:\n" ++ error ++ "\n\n" ++ "Reply again with ONLY the corrected JSON object. " ++
          "No prose, no markdown fences." }]

/-- `StructuredCaller.call`, with a provider that answers. -/
def StructuredCaller.call (chat : List Message → LLMResponse) (messages : List Message)
    (allowRepair : Bool) : Called α :=
  let response := chat messages
  match validateResponse modelValidate response with
  | .ok parsed => { parsed := some parsed, response, error := "" }
  | .error error =>
    if !allowRepair then { parsed := none, response, error }
    else
      let repair := repairMessages messages response.content error
      let repaired := chat repair
      match validateResponse modelValidate repaired with
      | .ok parsed => { parsed := some parsed, response := repaired, error := "", repair }
      | .error error' =>
        { parsed := none, response := repaired, error := error ++ " | after repair: " ++ error', repair }

theorem StructuredCaller.call_repairs {chat : List Message → LLMResponse} {messages : List Message}
    (h : extractJson (chat messages) = none) :
    (StructuredCaller.call modelValidate chat messages true).repair =
      some (repairMessages messages (chat messages).content (noObjectError (chat messages).content)) := by
  have hinvalid : validateResponse modelValidate (chat messages) =
      .error (noObjectError (chat messages).content) := by
    rw [validateResponse, h]
  unfold StructuredCaller.call
  dsimp only
  rw [hinvalid]
  dsimp only
  rw [Bool.not_true, if_neg Bool.false_ne_true]
  split <;> rfl

end Caller

/-! ### A text without reasoning -/

def hasThink (cs : List Char) : Bool := (afterTag openThink cs).isSome

theorem no_reasoning {cs : List Char} (h : hasThink cs = false) :
    (∀ fuel, removeThink fuel cs = cs) ∧ cutThink cs = cs := by
  induction cs with
  | nil => exact ⟨fun fuel => by cases fuel <;> rfl, rfl⟩
  | cons ch cs ih =>
    unfold hasThink afterTag at h
    cases hdrop : dropTag openThink (ch :: cs) with
    | some rest =>
      rw [hdrop] at h
      cases h
    | none =>
      rw [hdrop] at h
      obtain ⟨hremove, hcut⟩ := ih h
      refine ⟨fun fuel => ?_, ?_⟩
      · cases fuel with
        | zero => rfl
        | succ fuel => rw [removeThink, hdrop, Option.bind_none, hremove]
      · rw [cutThink, hdrop, Option.isSome_none, if_neg Bool.false_ne_true, hcut]

theorem stripThinking_of_not_hasThink {cs : List Char} (h : hasThink cs = false) :
    stripThinking cs = strip cs := by
  rw [stripThinking, (no_reasoning h).1, (no_reasoning h).2]

theorem eq_of_matchesLetter {p ch : Char} (hp : p.val.toNat < 97) (h : matchesLetter p ch = true) : ch = p := by
  simp only [matchesLetter, Bool.or_eq_true, Bool.and_eq_true, decide_eq_true_eq] at h
  obtain ((h | h) | ⟨rfl, -⟩) | ⟨rfl, -⟩ := h
  · exact h
  · unfold Char.toLower at h
    split at h
    · rename_i hupper
      -- what is folded is a letter afterwards
      have hval : (ch.val + ('a'.val - 'A'.val)).toNat = p.val.toNat := congrArg (fun c => c.val.toNat) h
      have hlow : 65 ≤ ch.val.toNat := hupper.1
      have hhigh : ch.val.toNat ≤ 90 := hupper.2
      rw [UInt32.toNat_add] at hval
      have hshift : ('a'.val - 'A'.val).toNat = 32 := rfl
      omega
    · exact h
  · exact absurd hp (by decide)
  · exact absurd hp (by decide)

end AiTrader
