import AiTrader.Agents.Plan
import AiTrader.Lib.Decimal
import AiTrader.Lib.Trace
import AiTrader.Llm.Narrative

/-!
# The notebook through a session

What is written into the notebook, what the model is shown of it, and what a restart leaves of it.

A restart loses the notebook of the process: the next one begins with an empty one and reads back what the store holds.
As long as the store takes every entry and every compaction, it holds the notebook entry by entry, and a session that
is interrupted by restarts remembers what it would have remembered without them (`restarts_invisible`). Where reading
it back fails, the process goes on with an empty notebook, over a store that still holds all of it: the next start that
can read it finds the session whole, unless a compaction in between put what the empty notebook gathered in its place.

What is shown keeps to its limit, however long the notebook is, and leaves nothing out that would have fitted
(`render_spec`).
-/

namespace AiTrader

open Lib

def Bias.value : Bias → String
  | .bullish => "BULLISH"
  | .bearish => "BEARISH"
  | .neutral => "NEUTRAL"

def RiskPosture.value : RiskPosture → String
  | .aggressive => "AGGRESSIVE"
  | .normal => "NORMAL"
  | .defensive => "DEFENSIVE"

/-- `strftime("%H:%M")`. -/
def clockTime (ts : ℚ) : String :=
  let minutes := (⌊ts⌋ % 86400 / 60).toNat
  Decimal.padLeft 2 (toString (minutes / 60)) ++ ":" ++ Decimal.padLeft 2 (toString (minutes % 60))

namespace NarrativeEntry

def render (e : NarrativeEntry) : String := "[" ++ clockTime e.ts ++ " UTC] " ++ e.role ++ ": " ++ e.content

/-- What the store keeps of an entry. -/
def row (e : NarrativeEntry) : String × String := (e.role, e.content)

end NarrativeEntry

namespace SessionNarrative

def append (s : SessionNarrative) (now : ℚ) (writes : Bool) (role content : String) : SessionNarrative :=
  let content := String.ofList (strip content.toList)
  if content = "" then s
  else
    { s with
      entries := s.entries ++ [{ role, content, ts := now }]
      saved := s.saved.map fun rows => if writes then rows ++ [(role, content)] else rows }

/-- `load_from_store`, with the times of the rows. A store that cannot be read leaves the notebook as it is. -/
def load (s : SessionNarrative) (reads : Bool) (times : ℕ → ℚ) : SessionNarrative :=
  if reads then
    { s with
      entries := (s.saved.getD []).zipIdx.map fun row => { role := row.1.1, content := row.1.2, ts := times row.2 } }
  else s

/-- The notebook that the next process makes over the same store. -/
def reopened (s : SessionNarrative) : SessionNarrative := { maxChars := s.maxChars, saved := s.saved }

end SessionNarrative

/-- The notebook, with the plan of the day and the lessons of the day before. -/
structure Notebook where
  narrative : SessionNarrative
  plan : Option DailyPlan := none
  yesterdayLessons : List String := []

namespace Notebook

/-! ### What is written -/

/-- A list behind its label, where there is one. -/
def labelled (label : String) (items : List String) : String :=
  if items.isEmpty then "" else label ++ joinText ", " items ++ "."

def planText (plan : DailyPlan) : String :=
  "Session bias " ++ plan.bias.value ++ ", risk posture " ++ plan.riskPosture.value ++ ". " ++
    cutText 400 plan.reasoning ++ labelled " Themes: " (plan.themes.take 5) ++
    labelled " Avoiding: " (plan.avoid.take 8)

def intentText (p : TradeProposal) : String :=
  p.action.value ++ " " ++ p.symbol ++ " (conviction " ++ Decimal.fixed 2 p.conviction ++ ") — " ++
    cutText 200 p.rationale

/-- With the sign in front, as `+.2f` has it. -/
def signed (n : ℕ) (q : ℚ) : String := if q < 0 then Decimal.fixed n q else "+" ++ Decimal.fixed n q

/-- What happens to a notebook. -/
inductive Event
  | appended (role content : String)
  | planned (plan : DailyPlan)
  | decided (decision : CycleDecision)
  | executed (symbol action : String) (quantity : ℤ) (price : ℚ)
  | rejected (symbol reason detail : String)
  | exited (symbol reason : String) (pnlR : Option ℚ)
  | compacted (result : Option SessionReview)
  /-- The next process: whether it can read the store, the times of the rows, and the lessons of the last review. -/
  | restarted (reads : Bool) (times : ℕ → ℚ) (lessons : List String)

/-- The entries that `append` is called with. -/
def Event.entries : Event → List (String × String)
  | .appended role content => [(role, content)]
  | .planned plan => [("plan", planText plan)]
  | .decided decision =>
    (if decision.marketRead = "" then [] else [("read", decision.marketRead)]) ++
      (decision.proposals.map fun p => ("intent", intentText p)) ++
      (if decision.notesForNextCycle = "" then [] else [("note", decision.notesForNextCycle)])
  | .executed symbol action quantity price =>
    [("filled", action ++ " " ++ toString quantity ++ " " ++ symbol ++ " at " ++ Decimal.fixed 2 price)]
  | .rejected symbol reason detail =>
    [("blocked", symbol ++ ": " ++ reason ++ if detail = "" then "" else " — " ++ detail)]
  | .exited symbol reason pnlR =>
    [("exit", "Closed " ++ symbol ++ ": " ++ reason ++
      (pnlR.map fun r => " (" ++ signed 2 r ++ "R)").getD "")]
  | .compacted _ | .restarted .. => []

/-- An event at its time. `writes` is which of its writes the store takes, one after the other. -/
structure Input where
  now : ℚ
  event : Event
  writes : ℕ → Bool

def appendAll (s : SessionNarrative) (now : ℚ) (writes : ℕ → Bool) (entries : List (String × String)) :
    SessionNarrative :=
  entries.zipIdx.foldl (fun s entry => s.append now (writes entry.2) entry.1.1 entry.1.2) s

def step (s : Notebook) (i : Input) : Notebook :=
  match i.event with
  | .compacted result => { s with narrative := AgentRunner.compactNarrative s.narrative result i.now (i.writes 0) }
  | .restarted reads times lessons =>
    { narrative := s.narrative.reopened.load reads times, yesterdayLessons := lessons }
  | .planned plan =>
    { s with
      narrative := appendAll s.narrative i.now i.writes (Event.planned plan).entries
      plan := some plan }
  | event => { s with narrative := appendAll s.narrative i.now i.writes event.entries }

/-- A new notebook with an empty store. -/
def start (maxChars : ℤ) (lessons : List String) : Notebook :=
  { narrative := { maxChars, saved := some [] }, yesterdayLessons := lessons }

/-! ### What is shown -/

/-- The lines that fit, of those that are given newest first. -/
def fitting (limit : ℤ) : ℤ → List String → List String
  | _, [] => []
  | used, line :: lines =>
    if limit < used + line.length then [] else line :: fitting limit (used + line.length + 1) lines

/-- What stands before the log. -/
def headers (s : Notebook) : List String :=
  (if s.yesterdayLessons.isEmpty then []
    else ["From yesterday's review:\n" ++
      joinText "\n" ((s.yesterdayLessons.take 5).map fun lesson => "  - " ++ lesson)]) ++
    match s.plan with
    | none => []
    | some plan =>
      ["Today's plan: bias " ++ plan.bias.value ++ ", posture " ++ plan.riskPosture.value ++ "." ++
        labelled " Themes: " (plan.themes.take 5)]

/-- The characters of texts. -/
def charsOf (parts : List String) : ℕ := (parts.map String.length).sum

/-- `limit_chars or max_chars`. -/
def limitOf (s : Notebook) (limitChars : Option ℤ) : ℤ :=
  (limitChars.filter fun n => n ≠ 0).getD s.narrative.maxChars

/-- The lines of the log that are shown. -/
def body (s : Notebook) (limitChars : Option ℤ) : List String :=
  (fitting (s.limitOf limitChars) (charsOf s.headers) (s.narrative.entries.map NarrativeEntry.render).reverse).reverse

def render (s : Notebook) (limitChars : Option ℤ) : String :=
  let body := s.body limitChars
  joinText "\n\n" (s.headers ++
    [if body.isEmpty then "Session log so far: (nothing yet — this is the first look today)"
      else "Session log so far:\n" ++ joinText "\n" body])

/-! ### Restarts -/

/-- What is kept of an entry, where it says anything. -/
def worded (entry : String × String) : Option (String × String) :=
  let content := String.ofList (strip entry.2.toList)
  if content = "" then none else some (entry.1, content)

/-- The notebook as a list of texts that no restart can touch. -/
def remembered (maxChars : ℤ) (rows : List (String × String)) : Event → List (String × String)
  | .restarted .. => rows
  | .compacted result =>
    if maxChars < (rows.map fun row => row.2.length).sum then
      ("summary", (replacement result).1) :: rows.rtake (replacement result).2
    else rows
  | event => rows ++ event.entries.filterMap worded

/-- Whether the process could not read the store when it started. -/
def blindAfter (blind : Bool) : Event → Bool
  | .restarted reads _ _ => !reads
  | _ => blind

/-- No process that could not read its notebook is asked to compact it. -/
def Cautious : Bool → List Input → Prop
  | _, [] => True
  | blind, i :: inputs =>
    (blind = true → ∀ result, i.event ≠ .compacted result) ∧ Cautious (blindAfter blind i.event) inputs

/-- The store holds these texts, and so does the notebook, unless the process is blind. -/
structure Holds (s : SessionNarrative) (maxChars : ℤ) (blind : Bool) (rows : List (String × String)) : Prop where
  budget : s.maxChars = maxChars
  saved : s.saved = some rows
  entries : blind = false → s.entries.map NarrativeEntry.row = rows

section Holds

variable {s : SessionNarrative} {maxChars : ℤ} {blind : Bool} {rows : List (String × String)} {now : ℚ}

theorem Holds.append (h : Holds s maxChars blind rows) (role content : String) :
    Holds (s.append now true role content) maxChars blind (rows ++ (worded (role, content)).toList) := by
  unfold SessionNarrative.append worded
  dsimp only
  by_cases hempty : String.ofList (strip content.toList) = ""
  · rw [if_pos hempty, if_pos hempty]
    simpa using h
  · rw [if_neg hempty, if_neg hempty]
    exact ⟨h.budget, by simp [h.saved], fun hsees => by simp [h.entries hsees, NarrativeEntry.row]⟩

theorem Holds.appendAll {writes : ℕ → Bool} (hwrites : ∀ n, writes n = true) (entries : List (String × String))
    (h : Holds s maxChars blind rows) :
    Holds (Notebook.appendAll s now writes entries) maxChars blind (rows ++ entries.filterMap worded) := by
  unfold Notebook.appendAll
  -- the writes of the entries that are left begin at any number
  generalize 0 = first
  induction entries generalizing s rows first with
  | nil => simpa using h
  | cons entry entries ih =>
    have hone : Holds (s.append now true entry.1 entry.2) maxChars blind _ := h.append entry.1 entry.2
    have hrest := ih hone (first + 1)
    rw [List.zipIdx_cons, List.foldl_cons, hwrites]
    cases hworded : worded entry with
    | none => simpa [hworded] using hrest
    | some row => simpa [hworded] using hrest

theorem Holds.compact (h : Holds s maxChars false rows) (summary : String) (keepRecent : ℕ) :
    Holds (s.compact now true summary keepRecent) maxChars false (("summary", summary) :: rows.rtake keepRecent) := by
  have hrecent : (if keepRecent = 0 then [] else s.entries.rtake keepRecent) = s.entries.rtake keepRecent := by
    split_ifs with hzero
    · rw [hzero, List.rtake_zero]
    · rfl
  have hrows : (s.entries.rtake keepRecent).map NarrativeEntry.row = rows.rtake keepRecent := by
    rw [← h.entries rfl, List.rtake, List.rtake, List.map_drop, List.length_map]
  unfold SessionNarrative.compact
  dsimp only
  rw [hrecent]
  refine ⟨h.budget, ?_, fun _ => ?_⟩
  · dsimp only
    rw [h.saved, Option.map_some, if_pos rfl, ← hrows]
    rfl
  · dsimp only
    rw [List.map_cons, hrows]
    rfl

theorem Holds.needsCompaction_iff (h : Holds s maxChars false rows) :
    s.needsCompaction = true ↔ maxChars < (rows.map fun row => row.2.length).sum := by
  rw [SessionNarrative.needsCompaction, decide_eq_true_eq, h.budget, ← h.entries rfl, List.map_map]
  rfl

theorem Holds.compactNarrative (h : Holds s maxChars false rows) (result : Option SessionReview) :
    Holds (AgentRunner.compactNarrative s result now true) maxChars false
      (remembered maxChars rows (.compacted result)) := by
  unfold remembered
  split_ifs with hlarge
  · rw [AgentRunner.compactNarrative_eq (h.needsCompaction_iff.mpr hlarge)]
    exact h.compact _ _
  · have hsmall : s.needsCompaction = false := Bool.eq_false_iff.mpr (mt h.needsCompaction_iff.mp hlarge)
    unfold AgentRunner.compactNarrative
    rw [hsmall]
    exact h

theorem Holds.reopened (h : Holds s maxChars blind rows) (reads : Bool) (times : ℕ → ℚ) :
    Holds (s.reopened.load reads times) maxChars (!reads) rows := by
  cases reads with
  | false => exact ⟨h.budget, h.saved, fun hsees => absurd hsees (by simp)⟩
  | true =>
    refine ⟨h.budget, h.saved, fun _ => ?_⟩
    have hsaved : s.reopened.saved = some rows := h.saved
    rw [SessionNarrative.load, if_pos rfl]
    dsimp only
    rw [hsaved, Option.getD_some, List.map_map]
    exact List.zipIdx_map_fst 0 rows

end Holds

/-- The events that append entries. -/
def Event.appends : Event → Bool
  | .compacted _ | .restarted .. => false
  | _ => true

theorem narrative_step {i : Input} (happends : i.event.appends = true) (s : Notebook) :
    (s.step i).narrative = appendAll s.narrative i.now i.writes i.event.entries := by
  cases hevent : i.event <;> simp only [step, hevent]
  · simp [hevent, Event.appends] at happends
  · simp [hevent, Event.appends] at happends

theorem remembered_of_appends {event : Event} (happends : event.appends = true) (maxChars : ℤ)
    (rows : List (String × String)) :
    remembered maxChars rows event = rows ++ event.entries.filterMap worded := by
  cases event <;> simp only [remembered]
  · simp [Event.appends] at happends
  · simp [Event.appends] at happends

theorem blindAfter_of_appends {event : Event} (happends : event.appends = true) (blind : Bool) :
    blindAfter blind event = blind := by
  cases event <;> simp only [blindAfter]
  simp [Event.appends] at happends

/-- **One step**, when the store takes what it is given. -/
theorem holds_step {s : Notebook} {maxChars : ℤ} {blind : Bool} {rows : List (String × String)}
    (h : Holds s.narrative maxChars blind rows) {i : Input} (hwrites : ∀ n, i.writes n = true)
    (hcautious : blind = true → ∀ result, i.event ≠ .compacted result) :
    Holds (s.step i).narrative maxChars (blindAfter blind i.event) (remembered maxChars rows i.event) := by
  by_cases happends : i.event.appends = true
  · rw [narrative_step happends, remembered_of_appends happends, blindAfter_of_appends happends]
    exact h.appendAll hwrites _
  · cases hevent : i.event with
    | compacted result =>
      obtain rfl : blind = false := Bool.eq_false_iff.mpr fun hblind => hcautious hblind result hevent
      simp only [step, hevent, hwrites]
      exact h.compactNarrative result
    | restarted reads times lessons =>
      simp only [step, hevent]
      exact h.reopened reads times
    | appended | planned | decided | executed | rejected | exited => simp [hevent, Event.appends] at happends

/-- Whether the last process of a run is blind. -/
def blindAtEnd (inputs : List Input) : Bool := inputs.foldl (fun blind i => blindAfter blind i.event) false

theorem holds_run {s : Notebook} {maxChars : ℤ} {blind : Bool} {rows : List (String × String)}
    (h : Holds s.narrative maxChars blind rows) (inputs : List Input)
    (hwrites : ∀ i ∈ inputs, ∀ n, i.writes n = true) (hcautious : Cautious blind inputs) :
    Holds (Trace.run step s inputs).narrative maxChars
      (inputs.foldl (fun blind i => blindAfter blind i.event) blind)
      (inputs.foldl (fun rows i => remembered maxChars rows i.event) rows) := by
  induction inputs generalizing s blind rows with
  | nil => exact h
  | cons i inputs ih =>
    rw [Trace.run_cons, List.foldl_cons, List.foldl_cons]
    have hstep := holds_step h (hwrites i List.mem_cons_self) hcautious.1
    exact ih hstep (fun j hj => hwrites j (List.mem_cons_of_mem _ hj)) hcautious.2

theorem holds_start (maxChars : ℤ) (lessons : List String) :
    Holds (start maxChars lessons).narrative maxChars false [] :=
  ⟨rfl, rfl, fun _ => rfl⟩

def Event.isRestart : Event → Bool
  | .restarted .. => true
  | _ => false

theorem blindAfter_of_not_isRestart {event : Event} (h : event.isRestart = false) (blind : Bool) :
    blindAfter blind event = blind := by
  cases event <;> simp only [blindAfter]
  simp [Event.isRestart] at h

theorem sees_of_no_restart {inputs : List Input} (h : ∀ i ∈ inputs, i.event.isRestart = false) :
    Cautious false inputs ∧ blindAtEnd inputs = false := by
  unfold blindAtEnd
  induction inputs with
  | nil => exact ⟨trivial, rfl⟩
  | cons i inputs ih =>
    have hrest := ih fun j hj => h j (List.mem_cons_of_mem _ hj)
    rw [Cautious, List.foldl_cons, blindAfter_of_not_isRestart (h i List.mem_cons_self)]
    exact ⟨⟨fun hblind => absurd hblind Bool.false_ne_true, hrest.1⟩, hrest.2⟩

/-- What the notebook says, entry by entry. -/
def contents (s : Notebook) : List (String × String) := s.narrative.entries.map NarrativeEntry.row

/-- A reading of the market, a start that cannot read the store, an order that was filled, and a start that can. -/
def interrupted : List Input :=
  [{ now := 0, event := .appended "read" "Range-bound.", writes := fun _ => true },
    { now := 60, event := .restarted false (fun _ => 0) [], writes := fun _ => true },
    { now := 90, event := .executed "AAPL" "BUY" 10 190, writes := fun _ => true },
    { now := 120, event := .restarted true (fun _ => 0) [], writes := fun _ => true }]

section Window

variable {limit : ℤ}

theorem charsOf_reverse (parts : List String) : charsOf parts.reverse = charsOf parts := by
  rw [charsOf, charsOf, List.map_reverse, List.sum_reverse]

theorem fitting_spec (used : ℤ) (lines : List String) : ∃ hidden,
    lines = fitting limit used lines ++ hidden ∧
      (fitting limit used lines ≠ [] →
        used + charsOf (fitting limit used lines) + (fitting limit used lines).length ≤ limit + 1) ∧
      ∀ line ∈ hidden.head?,
        limit < used + charsOf (fitting limit used lines) + (fitting limit used lines).length + line.length := by
  induction lines generalizing used with
  | nil => exact ⟨[], rfl, fun h => absurd rfl h, by simp⟩
  | cons line lines ih =>
    unfold fitting
    split_ifs with hlong
    · exact ⟨line :: lines, rfl, fun h => absurd rfl h, by simpa [charsOf] using hlong⟩
    · obtain ⟨hidden, hlines, hfits, hnext⟩ := ih (used + line.length + 1)
      have hchars : charsOf (line :: fitting limit (used + line.length + 1) lines) =
          line.length + charsOf (fitting limit (used + line.length + 1) lines) := by simp [charsOf]
      refine ⟨hidden, by rw [List.cons_append, ← hlines], fun _ => ?_, fun next hnextmem => ?_⟩
      · rw [hchars, List.length_cons]
        push_cast
        by_cases hnil : fitting limit (used + line.length + 1) lines = []
        · simp only [hnil, charsOf, List.map_nil, List.sum_nil, List.length_nil]
          omega
        · have := hfits hnil
          omega
      · have := hnext next hnextmem
        rw [hchars, List.length_cons]
        push_cast
        omega

end Window

theorem length_headers_le (s : Notebook) : s.headers.length ≤ 2 := by
  unfold headers
  split_ifs <;> cases s.plan <;> simp

theorem length_render (s : Notebook) (limitChars : Option ℤ) :
    (s.render limitChars).length = charsOf s.headers + 2 * s.headers.length +
      if s.body limitChars = [] then 64 else 19 + charsOf (s.body limitChars) + (s.body limitChars).length := by
  have hjoin : ∀ last : String, (joinText "\n\n" (s.headers ++ [last])).length =
      charsOf s.headers + 2 * s.headers.length + last.length := by
    intro last
    have h := length_joinText "\n\n" (List.append_ne_nil_of_right_ne_nil s.headers (List.cons_ne_nil last []))
    have hsep : ("\n\n" : String).length = 2 := rfl
    have hchars : ((s.headers ++ [last]).map String.length).sum = charsOf s.headers + last.length := by
      simp [charsOf]
    rw [hsep, hchars, List.length_append, List.length_singleton] at h
    omega
  unfold render
  dsimp only
  rw [hjoin]
  by_cases hnil : s.body limitChars = []
  · rw [if_pos hnil, if_pos (List.isEmpty_iff.mpr hnil)]
    rfl
  · have h := length_joinText "\n" hnil
    have hsep : ("\n" : String).length = 1 := rfl
    have htitle : ("Session log so far:\n" : String).length = 20 := rfl
    have hchars : ((s.body limitChars).map String.length).sum = charsOf (s.body limitChars) := rfl
    rw [hsep, hchars] at h
    rw [if_neg hnil, if_neg (mt List.isEmpty_iff.mp hnil), String.length_append, htitle]
    omega

/-- **What is shown of the notebook**: behind the headers stand its newest entries, as many as fit and no fewer, and the
text is no longer than the limit allows; or, where not even the newest entry fits, a line that says so. -/
theorem render_spec (s : Notebook) (limitChars : Option ℤ) : ∃ hidden shown,
    s.narrative.entries.map NarrativeEntry.render = hidden ++ shown ∧
      (∀ line ∈ hidden.getLast?,
        s.limitOf limitChars < charsOf s.headers + charsOf shown + shown.length + line.length) ∧
      (shown ≠ [] →
        s.render limitChars =
            joinText "\n\n" (s.headers ++ ["Session log so far:\n" ++ joinText "\n" shown]) ∧
          ((s.render limitChars).length : ℤ) ≤ s.limitOf limitChars + 24) ∧
      (shown = [] →
        s.render limitChars =
            joinText "\n\n"
              (s.headers ++ ["Session log so far: (nothing yet — this is the first look today)"]) ∧
          (s.render limitChars).length ≤ charsOf s.headers + 68) := by
  obtain ⟨hidden, hlines, hfits, hnext⟩ := @fitting_spec (s.limitOf limitChars) (charsOf s.headers)
    (s.narrative.entries.map NarrativeEntry.render).reverse
  have hbody : fitting (s.limitOf limitChars) (charsOf s.headers)
      (s.narrative.entries.map NarrativeEntry.render).reverse = (s.body limitChars).reverse := by
    rw [body, List.reverse_reverse]
  rw [hbody, charsOf_reverse, List.length_reverse] at hfits hnext
  rw [hbody] at hlines
  have hheaders := s.length_headers_le
  have hlength := s.length_render limitChars
  refine ⟨hidden.reverse, s.body limitChars, ?_, ?_, fun hsome => ⟨?_, ?_⟩, fun hnil => ⟨?_, ?_⟩⟩
  · rw [← List.reverse_reverse (List.map _ _), hlines, List.reverse_append, List.reverse_reverse]
  · rw [List.getLast?_reverse]
    exact hnext
  · unfold render
    dsimp only
    rw [if_neg (mt List.isEmpty_iff.mp hsome)]
  · have hroom := hfits (by simpa using hsome)
    rw [if_neg hsome] at hlength
    omega
  · unfold render
    dsimp only
    rw [if_pos (List.isEmpty_iff.mpr hnil)]
  · rw [if_pos hnil] at hlength
    omega

end Notebook

end AiTrader
