import AiTrader.Lib.JsonParts
import AiTrader.Llm.JsonMode
import Mathlib.Logic.Relation

/-!
# Truncated replies

A reply that hits the token cap ends somewhere in its object. It should yield nothing, and much of the way it
does: its text as a whole is no object and its outermost brace never closes. But `extract_json` has other places
to look in, a tagged tool call, a fenced block, the first balanced text behind a later brace, and what is
complete there is taken for the reply.

When nothing is complete, nothing is found. `ObjectFree p` says this of the text alone: no piece of it is a JSON
object, not even when stretches that pass for reasoning are left out. That is enough for every object and every
cut. It is also necessary when the strings of the object spell no brace and nothing passes for reasoning: then every
brace opens an object of `d` (`standsAt_of_brace`), the pieces that are objects are the nested objects that close
before the cut, and the scanner finds the first of them, tags and fences or not (`truncated_refused_iff`).

A brace in a string can make the scanner take a longer text that is no object, and refuse by accident: there the
condition is enough only.
-/

namespace AiTrader

open Lib Scan
open Relation (ReflTransGen)

/-- The text is one JSON object. -/
def IsObject (cs : List Char) : Prop := (loadsObject cs).isSome = true

instance (cs : List Char) : Decidable (IsObject cs) := inferInstanceAs (Decidable (_ = true))

/-- The text is the tag, whatever the case of its letters. -/
def Spells (tag cs : List Char) : Prop := List.Forall₂ (fun p ch => matchesLetter p ch = true) tag cs

/-- A stretch that passes for reasoning is left out: from a `<think>` tag to a closing one, or to the end. -/
inductive Erases : List Char → List Char → Prop
  | block {front opening body closing back : List Char} : Spells openThink opening → Spells closeThink closing →
      Erases (front ++ (opening ++ (body ++ (closing ++ back)))) (front ++ back)
  | tail {front opening back : List Char} : Spells openThink opening → Erases (front ++ (opening ++ back)) front

/-- No piece of the text is an object, as it is or with stretches of reasoning left out. -/
def ObjectFree (p : List Char) : Prop := ∀ t, ReflTransGen Erases p t → ∀ b, b <:+: t → ¬ IsObject b

/-- Nothing in the text passes for reasoning. -/
def Unmarked (p : List Char) : Prop := ∀ t, ¬ Erases p t

/-- No object that is nested in `d` closes before the cut. -/
def NoneComplete (d : Payload) (p : List Char) : Prop :=
  ∀ pre o, StandsAt (.object o) pre (.object d) → pre ≠ [] → ¬ pre ++ dumps (.object o) <+: p

/-! ### What is looked at is a piece of the text -/

theorem spells_of_dropTag {tag cs rest : List Char} (h : dropTag tag cs = some rest) :
    ∃ found, cs = found ++ rest ∧ Spells tag found := by
  induction tag generalizing cs with
  | nil => exact ⟨[], Option.some.inj h, .nil⟩
  | cons p tag ih =>
    cases cs with
    | nil => cases h
    | cons ch cs =>
      rw [dropTag] at h
      split_ifs at h with hmatches
      obtain ⟨found, rfl, hspells⟩ := ih h
      exact ⟨ch :: found, rfl, .cons hmatches hspells⟩

theorem Erases.cons {cs ds : List Char} (h : Erases cs ds) (ch : Char) : Erases (ch :: cs) (ch :: ds) := by
  cases h with
  | @block front opening body closing back hopen hclose =>
    exact @Erases.block (ch :: front) opening body closing back hopen hclose
  | tail hopen => exact @Erases.tail (ch :: ds) _ _ hopen

theorem erases_cons {cs ds : List Char} (h : ReflTransGen Erases cs ds) (ch : Char) :
    ReflTransGen Erases (ch :: cs) (ch :: ds) :=
  h.lift (ch :: ·) fun _ _ hstep => hstep.cons ch

theorem erases_removeThink (fuel : ℕ) (cs : List Char) : ReflTransGen Erases cs (removeThink fuel cs) := by
  induction fuel generalizing cs with
  | zero => exact .refl
  | succ fuel ih =>
    cases cs with
    | nil => exact .refl
    | cons ch cs =>
      rw [removeThink]
      split
      · rename_i rest hblock
        obtain ⟨after, hopen, hclose⟩ := Option.bind_eq_some_iff.mp hblock
        obtain ⟨opening, hcs, hopening⟩ := spells_of_dropTag hopen
        obtain ⟨body, mid, rfl, hdrop⟩ := afterTag_spec hclose
        obtain ⟨closing, rfl, hclosing⟩ := spells_of_dropTag hdrop
        have hstep : Erases (ch :: cs) rest := by
          rw [hcs]
          exact @Erases.block [] opening body closing rest hopening hclosing
        exact .head hstep (ih rest)
      · exact erases_cons (ih cs) ch

theorem erases_cutThink (cs : List Char) : ReflTransGen Erases cs (cutThink cs) := by
  induction cs with
  | nil => exact .refl
  | cons ch cs ih =>
    rw [cutThink]
    split_ifs with htag
    · obtain ⟨rest, hrest⟩ := Option.isSome_iff_exists.mp htag
      obtain ⟨opening, hcs, hopening⟩ := spells_of_dropTag hrest
      rw [hcs]
      exact .single (@Erases.tail [] opening rest hopening)
    · exact erases_cons ih ch

theorem stripThinking_spec (cs : List Char) : ∃ t, ReflTransGen Erases cs t ∧ stripThinking cs <:+: t :=
  ⟨_, (erases_removeThink cs.length cs).trans (erases_cutThink _), strip_isInfix _⟩

section Places

variable {text : List Char}

theorem bind_loadsObject_eq_none {found : Option (List Char)} :
    found.bind loadsObject = none ↔ ∀ b, found = some b → ¬ IsObject b := by
  cases found with
  | none => simp
  | some b => simp [IsObject]

theorem taggedPayload_eq_none : taggedPayload text = none ↔ ∀ b, toolCall text = some b → ¬ IsObject b := by
  rw [taggedPayload, Option.map_eq_none_iff]
  exact bind_loadsObject_eq_none

theorem fencedPayload_eq_none {block : List Char} : fencedPayload block = none ↔
    ∀ b, b = strip block ∨ loads (strip block) = none ∧ findBalancedJson block = some b → ¬ IsObject b := by
  have hwhole : IsObject (strip block) ↔ ∃ payload, loads (strip block) = some (.object payload) := by
    unfold IsObject loadsObject
    cases loads (strip block) with
    | none => simp
    | some v => cases v <;> simp
  simp only [or_imp, forall_and, forall_eq, hwhole]
  unfold fencedPayload
  cases hloads : loads (strip block) with
  | none => simpa using bind_loadsObject_eq_none
  | some v => cases v <;> simp

theorem textPayload_eq_none : textPayload text = none ↔ ¬ IsObject text ∧
    (∀ b, toolCall text = some b → ¬ IsObject b) ∧
      (∀ block ∈ fencedBlocks text.length text, ∀ b,
        b = strip block ∨ loads (strip block) = none ∧ findBalancedJson block = some b → ¬ IsObject b) ∧
      ∀ b, findBalancedJson text = some b → ¬ IsObject b := by
  have hsteps : ((((loadsObject text).or (taggedPayload text)).or
      ((fencedBlocks text.length text).findSome? fencedPayload)).or
        ((findBalancedJson text).bind loadsObject)) = none ↔ ¬ IsObject text ∧
      (∀ b, toolCall text = some b → ¬ IsObject b) ∧
        (∀ block ∈ fencedBlocks text.length text, ∀ b,
          b = strip block ∨ loads (strip block) = none ∧ findBalancedJson block = some b → ¬ IsObject b) ∧
        ∀ b, findBalancedJson text = some b → ¬ IsObject b := by
    simp only [Option.or_eq_none_iff, List.findSome?_eq_none_iff, taggedPayload_eq_none,
      fencedPayload_eq_none, bind_loadsObject_eq_none, and_assoc]
    refine and_congr_left fun _ => ?_
    rw [IsObject, Option.not_isSome_iff_eq_none]
  unfold textPayload
  split_ifs with hempty
  · rw [List.isEmpty_iff] at hempty
    subst hempty
    exact iff_of_true rfl (hsteps.mp rfl)
  · exact hsteps

end Places

theorem textPayload_of_objectFree {p : List Char} (h : ObjectFree p) : textPayload (stripThinking p) = none := by
  obtain ⟨t, herases, hstripped⟩ := stripThinking_spec p
  have hpiece : ∀ b, b <:+: stripThinking p → ¬ IsObject b := fun b hb => h t herases b (hb.trans hstripped)
  refine textPayload_eq_none.mpr ⟨hpiece _ List.infix_rfl, fun b hb => hpiece b (toolCall_isInfix hb),
    fun block hmem b hb => ?_, fun b hb => hpiece b (findBalancedJson_isInfix hb)⟩
  have hblock := fencedBlocks_isInfix hmem
  rcases hb with rfl | ⟨-, hb⟩
  · exact hpiece _ ((strip_isInfix block).trans hblock)
  · exact hpiece b ((findBalancedJson_isInfix hb).trans hblock)

/-! ### A reply that is cut off -/

theorem strip_cut {p body : List Char} (h : p <+: '{' :: body) : strip p <+: '{' :: body := by
  cases p with
  | nil => exact List.nil_prefix
  | cons ch cs =>
    obtain ⟨rfl, -⟩ := List.cons_prefix_cons.mp h
    rw [strip_cons (by decide)]
    exact (List.cons_prefix_cons.mpr ⟨rfl, rstrip_isPrefix cs⟩).trans h

theorem Unmarked.hasThink {p : List Char} (h : Unmarked p) : hasThink p = false := by
  cases hafter : afterTag openThink p with
  | none => rw [AiTrader.hasThink, hafter, Option.isSome_none]
  | some rest =>
    obtain ⟨pre, mid, rfl, hdrop⟩ := afterTag_spec hafter
    obtain ⟨opening, rfl, hopening⟩ := spells_of_dropTag hdrop
    exact absurd (.tail hopening) (h pre)

theorem unmarked_of_notMem {p : List Char} (htag : '<' ∉ p) : Unmarked p := by
  have hopening : ∀ {opening : List Char}, Spells openThink opening → '<' ∈ opening := by
    intro opening hspells
    have htag : openThink = '<' :: "think>".toList := by decide
    rw [htag] at hspells
    cases hspells with
    | cons hmatches _ =>
      rw [← eq_of_matchesLetter (by decide) hmatches]
      exact List.mem_cons_self
  intro t herases
  cases herases with
  | block hopen _ => exact htag (List.mem_append_right _ (List.mem_append_left _ (hopening hopen)))
  | tail hopen => exact htag (List.mem_append_right _ (List.mem_append_left _ (hopening hopen)))

section Cut

variable {d : Payload} {p : List Char}

theorem balanced_truncated (hcut : p <+: '{' :: dumpMembers d) : (level 0).balanced p = none :=
  balanced_cut (neutral_dumpMembers d) hcut

/-- **A balanced text before the cut is a nested object**, where each brace opens one. -/
theorem complete_of_balanced (hplain : (Json.object d).Braceless) (hcut : p <+: '{' :: dumpMembers d)
    {pre rest found : List Char} (hp : p = pre ++ '{' :: rest)
    (hbalanced : (level 0).balanced ('{' :: rest) = some found) :
    ∃ o, StandsAt (.object o) pre (.object d) ∧ pre ≠ [] ∧ found = dumps (.object o) ∧
      pre ++ dumps (.object o) <+: p := by
  have hnested : pre ≠ [] := by
    rintro rfl
    rw [List.nil_append] at hp
    rw [← hp, balanced_truncated hcut] at hbalanced
    cases hbalanced
  have hwhole : p <+: dumps (.object d) := by
    rw [dumps, ← List.cons_append]
    exact hcut.trans (List.prefix_append _ _)
  obtain ⟨later, hlater⟩ := hwhole
  have htext : dumps (.object d) = pre ++ '{' :: (rest ++ later) := by
    rw [← hlater, hp, List.append_assoc, List.cons_append]
  obtain ⟨o, ho⟩ := standsAt_of_brace _ hplain _ _ htext
  have hfound : found = dumps (.object o) := by
    have hfront := ho.isPrefix
    rw [htext, List.prefix_append_right_inj] at hfront
    have hin : (level 0).balanced (dumps (.object o)) = some (dumps (.object o)) := by
      rw [dumps]
      exact balanced_braced (neutral_dumpMembers o) []
    have hcontinued := balanced_prefix (List.prefix_append ('{' :: rest) later) hbalanced
    rw [List.cons_append, balanced_prefix hfront hin] at hcontinued
    exact (Option.some.inj hcontinued).symm
  refine ⟨o, ho, hnested, hfound, ?_⟩
  rw [hp, List.prefix_append_right_inj, ← hfound]
  exact (balanced_spec hbalanced).1

theorem isObject_dumps {o : Payload} (h : (Json.object o).Distinct) : IsObject (dumps (.object o)) := by
  rw [IsObject, loadsObject, loads_dumps h]
  rfl

theorem noneComplete_of_refused (hplain : (Json.object d).Braceless) (hd : (Json.object d).Distinct)
    (hcut : p <+: '{' :: dumpMembers d) (h : ∀ b, findBalancedJson (strip p) = some b → ¬ IsObject b) :
    NoneComplete d p := by
  intro pre o ho hnested hcomplete
  have hstripped : pre ++ dumps (.object o) <+: strip p := by
    cases p with
    | nil => exact absurd (List.append_eq_nil_iff.mp (List.prefix_nil.mp hcomplete)).1 hnested
    | cons ch cs =>
      obtain ⟨rfl, -⟩ := List.cons_prefix_cons.mp hcut
      have hlast : isSpace '}' = false := by decide
      rw [strip_cons (by decide), ← rstrip_cons (by decide)]
      rw [dumps, ← List.cons_append, ← List.append_assoc] at hcomplete ⊢
      exact prefix_rstrip hlast hcomplete
  obtain ⟨later, hlater⟩ := hstripped
  have htext : strip p = pre ++ '{' :: (dumpMembers o ++ '}' :: later) := by
    rw [← hlater, dumps, List.append_assoc, List.cons_append, List.append_assoc]
    rfl
  have hsome := @findBalancedJson_isSome pre _ _ (balanced_braced (neutral_dumpMembers o) later)
  rw [← htext] at hsome
  obtain ⟨found, hfound⟩ := Option.isSome_iff_exists.mp hsome
  obtain ⟨pre', rest, hp, hbalanced⟩ := findBalancedJson_at hfound
  obtain ⟨o', ho', -, rfl, -⟩ := complete_of_balanced hplain (strip_cut hcut) hp hbalanced
  exact h _ hfound (isObject_dumps (ho'.distinct hd))

theorem objectFree_of_noneComplete (hplain : (Json.object d).Braceless) (hmarks : Unmarked p)
    (hcut : p <+: '{' :: dumpMembers d) (h : NoneComplete d p) : ObjectFree p := by
  intro t herases b hb hobject
  have ht : t = p := by
    rcases herases.cases_head with rfl | ⟨t', hstep, -⟩
    · rfl
    · exact absurd hstep (hmarks t')
  subst ht
  unfold IsObject loadsObject at hobject
  split at hobject
  · rename_i payload hloads
    obtain ⟨ws, body, rest, rfl, -, hbody⟩ := loads_object_spec hloads
    obtain ⟨front, back, htext⟩ := hb
    have hp : t = (front ++ ws) ++ '{' :: (body ++ '}' :: (rest ++ back)) := by
      rw [← htext]
      simp
    obtain ⟨o, ho, hnested, -, hcomplete⟩ :=
      complete_of_balanced hplain hcut hp (balanced_braced hbody (rest ++ back))
    exact h _ o ho hnested hcomplete
  · cases hobject

end Cut

/-- **When a truncated reply yields nothing.** For every object and every cut: when no piece of the text is an
object. When the strings spell no brace and nothing passes for reasoning, exactly then, and that is when no nested
object closes before the cut. -/
theorem truncated_refused_iff {d : Payload} (hd : (Json.object d).Distinct) {p : List Char}
    (hcut : p <+: dumps (.object d)) (hne : p ≠ dumps (.object d)) :
    (ObjectFree p → extractJson { content := String.ofList p } = none) ∧
      ((Json.object d).Braceless → Unmarked p →
        (extractJson { content := String.ofList p } = none ↔ NoneComplete d p) ∧
          (NoneComplete d p ↔ ObjectFree p)) := by
  have hopen : p <+: '{' :: dumpMembers d := by
    have htext : dumps (.object d) = ('{' :: dumpMembers d) ++ ['}'] := by rw [dumps, List.cons_append]
    rw [htext] at hcut hne
    exact (List.prefix_concat_iff.mp hcut).resolve_left hne
  have hextract : extractJson { content := String.ofList p } = textPayload (stripThinking p) := by
    rw [extractJson, List.findSome?_nil, Option.none_or, String.toList_ofList]
  rw [hextract]
  refine ⟨textPayload_of_objectFree, fun hplain hmarks => ?_⟩
  have hfree : NoneComplete d p → ObjectFree p := objectFree_of_noneComplete hplain hmarks hopen
  have hnone : textPayload (stripThinking p) = none → NoneComplete d p := by
    intro hrefused
    rw [stripThinking_of_not_hasThink hmarks.hasThink, textPayload_eq_none] at hrefused
    exact noneComplete_of_refused hplain hd hopen hrefused.2.2.2
  exact ⟨⟨hnone, fun h => textPayload_of_objectFree (hfree h)⟩,
    hfree, fun h => hnone (textPayload_of_objectFree h)⟩

/-- The decision with two proposals ends after so many characters. -/
def cutAt (n : ℕ) : List Char := (dumps (.object twoProposals)).take n

theorem braceless_twoProposals : (Json.object twoProposals).Braceless := by
  simp only [twoProposals, Json.Braceless, Json.allStrings_object, Json.allStrings_array, Json.allStrings_string,
    List.forall_mem_cons, List.not_mem_nil, false_implies, implies_true, and_true]
  decide

/-- The first proposal is still open. -/
theorem truncated_refused_iff_first :
    extractJson { content := String.ofList (cutAt 60) } = none ↔ NoneComplete twoProposals (cutAt 60) :=
  ((@truncated_refused_iff twoProposals distinct_twoProposals (cutAt 60) (List.take_prefix _ _)
    (by decide +kernel)).2 braceless_twoProposals
      (unmarked_of_notMem (by decide +kernel))).1

/-- The second proposal is cut off. The first is taken for the whole decision. -/
theorem first_proposal_taken :
    cutAt 90 <+: dumps (.object twoProposals) ∧ cutAt 90 ≠ dumps (.object twoProposals) ∧
      (extractJson { content := String.ofList (cutAt 90) }).map
          (fun payload => String.ofList (dumps (.object payload))) =
        some "\x7b\"symbol\": \"AAPL\", \"action\": \"BUY\"\x7d" :=
  ⟨List.take_prefix _ _, by decide +kernel, by decide +kernel⟩

def quotedBraces : Payload := [("a", .string "\x7b"), ("b", .object [("c", .string "\x7d")]), ("d", .null)]

/-- A nested object has closed, but the scanner has begun at the brace of the first string and takes a text that is
no object. -/
example : dumps (.object [("c", .string "\x7d")]) <:+: (dumps (.object quotedBraces)).take 26 ∧
    extractJson { content := String.ofList ((dumps (.object quotedBraces)).take 26) } = none := by
  decide +kernel

end AiTrader
