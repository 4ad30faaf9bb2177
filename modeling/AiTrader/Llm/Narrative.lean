import Mathlib.Algebra.BigOperators.Group.List.Basic
import Mathlib.Algebra.Order.BigOperators.Group.List
import Mathlib.Algebra.Group.Action.Defs
import Mathlib.Algebra.Order.Ring.Int
import Mathlib.Algebra.Order.Ring.Nat
import Mathlib.Data.List.DropRight
import Mathlib.Data.Rat.Defs

/-!
# The session notebook

`SessionNarrative` is what the Trader agent remembers of the session. When it holds more than `max_chars`
characters `AgentRunner.compact_narrative` has the older entries summarised: the summary takes their place, and
the ten newest entries stay. Without a summary a placeholder stands for them, and fifteen stay.

How many entries stay is fixed, how long they are is not. So the notebook is back under its budget exactly when the
text and the entries that stay fit (`underBudget_iff`), and one that has no older entries only grows by the text
(`totalChars_compact_of_length_le`).

The characters are a sum over the entries, so those of the compacted notebook are the text's and those of the entries
that stay (`totalChars_compact`). Both outcomes of the summary are treated at once, as a text and a number of entries
(`replacement`).
-/

namespace AiTrader

structure NarrativeEntry where
  role : String
  content : String
  ts : ℚ
  deriving DecidableEq

/-- The rolling notebook for one trading day. `saved` is what its store holds of it, where it has one. -/
structure SessionNarrative where
  maxChars : ℤ := 6000
  entries : List NarrativeEntry := []
  saved : Option (List (String × String)) := none
  deriving DecidableEq

/-- The review of a session, as far as the notebook is concerned: its summary has at most 1500 characters. -/
structure SessionReview where
  summary : String := ""
  summary_short : summary.length ≤ 1500 := by decide

/-- The characters of the entries. -/
def charsIn (entries : List NarrativeEntry) : ℕ := (entries.map fun e => e.content.length).sum

namespace SessionNarrative

def totalChars (s : SessionNarrative) : ℤ := charsIn s.entries

def needsCompaction (s : SessionNarrative) : Bool := decide (s.maxChars < s.totalChars)

/-- `compact`, at the time `now`. A store that refuses is left as it is. -/
def compact (s : SessionNarrative) (now : ℚ) (writes : Bool) (summary : String) (keepRecent : ℕ := 10) :
    SessionNarrative :=
  let recent := if keepRecent = 0 then [] else s.entries.rtake keepRecent
  let entries := { role := "summary", content := summary, ts := now } :: recent
  { s with
    entries
    saved := s.saved.map fun rows => if writes then entries.map fun e => (e.role, e.content) else rows }

end SessionNarrative

/-- `compact_narrative`, with what the model made of the notebook, if anything. -/
def AgentRunner.compactNarrative (narrative : SessionNarrative) (result : Option SessionReview) (now : ℚ)
    (writes : Bool) : SessionNarrative :=
  if !narrative.needsCompaction then narrative
  else
    match result with
    | some review =>
      if review.summary ≠ "" then narrative.compact now writes review.summary
      else narrative.compact now writes "(earlier session activity omitted)" 15
    | none => narrative.compact now writes "(earlier session activity omitted)" 15

/-! ### What is left -/

theorem charsIn_cons (e : NarrativeEntry) (entries : List NarrativeEntry) :
    charsIn (e :: entries) = e.content.length + charsIn entries := by
  rw [charsIn, List.map_cons, List.sum_cons, charsIn]

theorem charsIn_le {entries : List NarrativeEntry} {size : ℕ} (h : ∀ e ∈ entries, e.content.length ≤ size) :
    charsIn entries ≤ entries.length * size := by
  have hsum := List.sum_le_card_nsmul (entries.map fun e => e.content.length) size fun n hn => by
    obtain ⟨e, he, rfl⟩ := List.mem_map.mp hn
    exact h e he
  rwa [List.length_map, smul_eq_mul] at hsum

/-- The text that stands for the older entries, and how many of the newest stay behind it. -/
def replacement : Option SessionReview → String × ℕ
  | some review => if review.summary ≠ "" then (review.summary, 10) else ("(earlier session activity omitted)", 15)
  | none => ("(earlier session activity omitted)", 15)

theorem length_replacement_le (result : Option SessionReview) : (replacement result).1.length ≤ 1500 := by
  unfold replacement
  split
  · rename_i review
    split_ifs
    · exact review.summary_short
    · decide
  · decide

theorem replacement_keeps_le (result : Option SessionReview) : (replacement result).2 ≤ 15 := by
  unfold replacement
  split
  · split_ifs
    · show 10 ≤ 15
      decide
    · decide
  · decide

namespace SessionNarrative

variable {s : SessionNarrative} {now : ℚ} {writes : Bool} {summary : String} {keepRecent : ℕ}

theorem totalChars_compact : (s.compact now writes summary keepRecent).totalChars =
    summary.length + charsIn (s.entries.rtake keepRecent) := by
  have hrecent : (if keepRecent = 0 then [] else s.entries.rtake keepRecent) = s.entries.rtake keepRecent := by
    split_ifs with hzero
    · rw [hzero, List.rtake_zero]
    · rfl
  rw [totalChars, compact]
  dsimp only
  rw [hrecent, charsIn_cons, Nat.cast_add]

theorem totalChars_compact_of_length_le (h : s.entries.length ≤ keepRecent) :
    (s.compact now writes summary keepRecent).totalChars = s.totalChars + summary.length := by
  have hall : s.entries.rtake keepRecent = s.entries := by
    rw [List.rtake, Nat.sub_eq_zero_of_le h, List.drop_zero]
  rw [totalChars_compact, hall, add_comm, totalChars]

/-- The budget has room for the text that stands for the older entries and for those that stay. -/
def Fits (s : SessionNarrative) (result : Option SessionReview) : Prop :=
  (replacement result).1.length + charsIn (s.entries.rtake (replacement result).2) ≤ s.maxChars

instance (s : SessionNarrative) (result : Option SessionReview) : Decidable (s.Fits result) :=
  inferInstanceAs (Decidable (_ ≤ _))

theorem fits_of_short {size : ℕ} (hshort : ∀ e ∈ s.entries, e.content.length ≤ size)
    (hbudget : 1500 + 15 * size ≤ s.maxChars) (result : Option SessionReview) : s.Fits result := by
  have hkept : charsIn (s.entries.rtake (replacement result).2) ≤ 15 * size := by
    have hlength : (s.entries.rtake (replacement result).2).length ≤ 15 := by
      have hkeep := replacement_keeps_le result
      rw [List.rtake, List.length_drop]
      omega
    have hle := charsIn_le fun e (he : e ∈ s.entries.rtake (replacement result).2) =>
      hshort e (List.mem_of_mem_drop he)
    exact hle.trans (Nat.mul_le_mul_right size hlength)
  have htext := length_replacement_le result
  unfold Fits
  omega

end SessionNarrative

namespace AgentRunner

open SessionNarrative

variable {narrative : SessionNarrative}

theorem compactNarrative_eq (h : narrative.needsCompaction = true) (result : Option SessionReview) (now : ℚ)
    (writes : Bool) : compactNarrative narrative result now writes =
      narrative.compact now writes (replacement result).1 (replacement result).2 := by
  unfold compactNarrative replacement
  rw [h, Bool.not_true, if_neg Bool.false_ne_true]
  split
  · split_ifs <;> rfl
  · rfl

/-- **When compaction brings the notebook back under its budget**, and makes it smaller. -/
theorem underBudget_iff (h : narrative.needsCompaction = true) (result : Option SessionReview) (now : ℚ)
    (writes : Bool) :
    (compactNarrative narrative result now writes).needsCompaction = false ∧
        (compactNarrative narrative result now writes).totalChars < narrative.totalChars ↔
      narrative.Fits result := by
  rw [compactNarrative_eq h]
  rw [needsCompaction, decide_eq_true_eq] at h
  have hmax : (narrative.compact now writes (replacement result).1 (replacement result).2).maxChars =
      narrative.maxChars := rfl
  rw [needsCompaction, decide_eq_false_iff_not, hmax, totalChars_compact, Fits, not_lt]
  constructor
  · exact fun hunder => hunder.1
  · intro hfits
    exact ⟨hfits, hfits.trans_lt h⟩

/-- A notebook of so many readings of the market, each of so many characters. -/
def readings (count size : ℕ) : SessionNarrative where
  entries := List.replicate count { role := "read", content := String.ofList (List.replicate size 'x'), ts := 0 }

theorem charsIn_readings (count size : ℕ) : charsIn (readings count size).entries = count * size := by
  rw [readings, charsIn, List.map_replicate, List.sum_replicate, String.length_ofList, List.length_replicate,
    smul_eq_mul]

def briefSummary : SessionReview where
  summary := "Quiet morning."

theorem underBudget_iff_readings :
    (compactNarrative (readings 20 400) (some briefSummary) 0 true).needsCompaction = false ∧
        (compactNarrative (readings 20 400) (some briefSummary) 0 true).totalChars <
          (readings 20 400).totalChars ↔
      (readings 20 400).Fits (some briefSummary) :=
  underBudget_iff (by rw [needsCompaction, totalChars, charsIn_readings]; decide) _ 0 true

/-- Ten long readings are over the budget, and the summary is added to them. -/
theorem notebook_grows :
    (readings 10 800).needsCompaction = true ∧
      (compactNarrative (readings 10 800) (some briefSummary) 0 true).needsCompaction = true ∧
        (readings 10 800).totalChars <
          (compactNarrative (readings 10 800) (some briefSummary) 0 true).totalChars := by
  have hover : (readings 10 800).needsCompaction = true := by
    rw [needsCompaction, totalChars, charsIn_readings]
    decide
  have htotal : (compactNarrative (readings 10 800) (some briefSummary) 0 true).totalChars =
      (readings 10 800).totalChars + 14 := by
    rw [compactNarrative_eq hover]
    exact totalChars_compact_of_length_le (by decide)
  have hmax : (compactNarrative (readings 10 800) (some briefSummary) 0 true).maxChars = 6000 := by
    rw [compactNarrative_eq hover]
    rfl
  refine ⟨hover, ?_, ?_⟩
  · rw [needsCompaction, htotal, hmax, totalChars, charsIn_readings]
    decide
  · omega

end AgentRunner

end AiTrader
