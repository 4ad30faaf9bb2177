import AiTrader.Llm.JsonMode

/-!
# Reasoning in a reply

The tags of a text nest properly when a scan that counts them closes every block it opens; what it passes at
depth zero is the text outside of all blocks (`outsideText`). Two passes over the text stand in for that scan:
the first ends each block at the next closing tag, whichever block that one closes, and the second cuts the
text at an opening tag that is left. So a block in a block leaks, and a tag that comes about where a block is
taken out is taken for one that was never closed.

The condition for the two passes to agree with the scan is that no block stands in another and that taking the blocks
out brings no new tag about. Then the first pass ends every block where the scan does, by induction over the text
outside of the blocks. A tag is recognised by its angle brackets: behind the first it has no other, so it cannot begin
in the middle of another tag (`tag_spec`), and what lies between two tags is passed over unread (`afterTag_append`).
-/

namespace AiTrader

open Lib Scan Escape

/-- The text outside of all blocks, from a depth on; none where the tags do not nest. Blocks inside blocks are
for `nested` texts only. -/
def outsideText (nested : Bool) : ℕ → ℕ → List Char → Option (List Char)
  | 0, _, _ => none
  | _ + 1, depth, [] => if depth = 0 then some [] else none
  | fuel + 1, depth, ch :: cs =>
    match dropTag openThink (ch :: cs) with
    | some rest => if depth = 0 ∨ nested = true then outsideText nested fuel (depth + 1) rest else none
    | none =>
      match dropTag closeThink (ch :: cs) with
      | some rest => if depth = 0 then none else outsideText nested fuel (depth - 1) rest
      | none =>
        if depth = 0 then (outsideText nested fuel depth cs).map (ch :: ·) else outsideText nested fuel depth cs

/-- The tags nest, and this is the text outside of all blocks. -/
def Outside (text out : List Char) : Prop := outsideText true (text.length + 1) 0 text = some out

/-- No block stands inside a block. -/
def Flat (text : List Char) : Prop := (outsideText false (text.length + 1) 0 text).isSome = true

instance (text out : List Char) : Decidable (Outside text out) := inferInstanceAs (Decidable (_ = _))

instance (text : List Char) : Decidable (Flat text) := inferInstanceAs (Decidable (_ = true))

/-- The object can be read from a part of the text, as a whole or as the arguments of a call. -/
def OccursIn (text : List Char) (payload : Payload) : Prop :=
  ∃ part, part <:+: text ∧ ∃ whole : Payload, loads part = some (.object whole) ∧
    (whole = payload ∨ whole.get? "arguments" = some (.object payload))

/-- The reasoning is gone: what is left is the text outside of it, and only its objects are read. -/
structure ReasoningRemoved (text out : List Char) : Prop where
  stripped : stripThinking text = strip out
  read : ∀ payload, extractJson { content := String.ofList text } = some payload → OccursIn out payload

/-! ### Tags -/

theorem not_matchesLetter {p : Char} (hp : p ≠ '<') : matchesLetter p '<' = false := by
  have hlower : '<'.toLower = '<' := by decide
  have hnat : '<'.toNat = 60 := rfl
  simp [matchesLetter, hlower, hnat, hp.symm]

theorem dropTag_body {tag cs rest : List Char} (htag : '<' ∉ tag)
    (h : dropTag tag cs = some rest) : ∃ body, cs = body ++ rest ∧ '<' ∉ body := by
  induction tag generalizing cs with
  | nil => exact ⟨[], Option.some.inj h, fun hmem => (nomatch hmem)⟩
  | cons p tag ih =>
    cases cs with
    | nil => cases h
    | cons ch cs =>
      rw [dropTag] at h
      split_ifs at h with hmatches
      obtain ⟨body, rfl, hbody⟩ := ih (List.not_mem_of_not_mem_cons htag) h
      refine ⟨ch :: body, rfl, ?_⟩
      rw [List.mem_cons, not_or]
      refine ⟨?_, hbody⟩
      rintro rfl
      rw [not_matchesLetter (List.ne_of_not_mem_cons htag).symm] at hmatches
      cases hmatches

theorem tag_spec {tag : List Char} (htag : '<' ∉ tag) {ch : Char} {cs rest : List Char}
    (h : dropTag ('<' :: tag) (ch :: cs) = some rest) : ch = '<' ∧ ∃ body, cs = body ++ rest ∧ '<' ∉ body := by
  rw [dropTag] at h
  split_ifs at h with hmatches
  exact ⟨eq_of_matchesLetter (by decide) hmatches, dropTag_body htag h⟩

theorem openThink_body {ch : Char} {cs rest : List Char} (h : dropTag openThink (ch :: cs) = some rest) :
    ch = '<' ∧ ∃ body, cs = body ++ rest ∧ '<' ∉ body :=
  @tag_spec "think>".toList (by decide) ch cs rest h

theorem closeThink_body {ch : Char} {cs rest : List Char} (h : dropTag closeThink (ch :: cs) = some rest) :
    ch = '<' ∧ ∃ body, cs = body ++ rest ∧ '<' ∉ body :=
  @tag_spec "/think>".toList (by decide) ch cs rest h

theorem not_close_of_open {cs rest : List Char} (h : dropTag openThink cs = some rest) :
    dropTag closeThink cs = none := by
  have hopen : openThink = '<' :: 't' :: "hink>".toList := by decide
  have hclose : closeThink = '<' :: '/' :: "think>".toList := by decide
  rw [hopen] at h
  rw [hclose]
  cases cs with
  | nil => rfl
  | cons ch cs =>
    rw [dropTag] at h ⊢
    split_ifs at h with hch
    rw [if_pos hch]
    cases cs with
    | nil => rfl
    | cons c cs =>
      rw [dropTag] at h ⊢
      split_ifs at h with ht
      rw [if_neg]
      intro hslash
      obtain rfl := eq_of_matchesLetter (by decide) hslash
      exact absurd ht (by decide)

theorem dropTag_of_ne {tag : List Char} {ch : Char} (h : ch ≠ '<') (cs : List Char) :
    dropTag ('<' :: tag) (ch :: cs) = none := by
  have hch : ¬ matchesLetter '<' ch = true := fun hmatches => h (eq_of_matchesLetter (by decide) hmatches)
  rw [dropTag, if_neg hch]

theorem afterTag_append {tag body : List Char} (h : '<' ∉ body) (rest : List Char) :
    afterTag ('<' :: tag) (body ++ rest) = afterTag ('<' :: tag) rest := by
  induction body with
  | nil => rfl
  | cons ch body ih =>
    rw [List.cons_append, afterTag, dropTag_of_ne (List.ne_of_not_mem_cons h).symm]
    exact ih (List.not_mem_of_not_mem_cons h)

/-! ### The first pass -/

/-- The text from which the blocks that the first pass finds have been taken. -/
def withoutBlocks (cs : List Char) : List Char := removeThink cs.length cs

/-- The block at the front, and what comes after it. -/
def frontBlock (cs : List Char) : Option (List Char) := (dropTag openThink cs).bind (afterTag closeThink)

theorem length_lt_of_frontBlock {cs rest : List Char} (h : frontBlock cs = some rest) :
    rest.length < cs.length := by
  cases cs with
  | nil =>
    obtain ⟨after, hopen, -⟩ := Option.bind_eq_some_iff.mp h
    cases hopen
  | cons ch cs =>
    obtain ⟨-, body, rfl⟩ := block_spec h
    simp only [List.length_cons, List.length_append]
    omega

theorem removeThink_eq {n : ℕ} {cs : List Char} (h : cs.length ≤ n) : removeThink n cs = withoutBlocks cs := by
  have hall : ∀ n cs, cs.length ≤ n → ∀ m, cs.length ≤ m → removeThink n cs = removeThink m cs := by
    intro n
    induction n with
    | zero =>
      intro cs hn m _
      obtain rfl := List.length_eq_zero_iff.mp (Nat.le_zero.mp hn)
      cases m <;> rfl
    | succ n ih =>
      intro cs hn m hm
      cases cs with
      | nil => cases m <;> rfl
      | cons ch cs =>
        cases m with
        | zero => simp at hm
        | succ m =>
          rw [List.length_cons] at hn hm
          rw [removeThink, removeThink]
          cases hblock : (dropTag openThink (ch :: cs)).bind (afterTag closeThink) with
          | none => exact congrArg (ch :: ·) (ih cs (by omega) m (by omega))
          | some rest =>
            have hlt : rest.length < (ch :: cs).length := length_lt_of_frontBlock hblock
            rw [List.length_cons] at hlt
            exact ih rest (by omega) m (by omega)
  exact hall n cs h _ (Nat.le_refl _)

theorem withoutBlocks_block {ch : Char} {cs rest : List Char} (h : frontBlock (ch :: cs) = some rest) :
    withoutBlocks (ch :: cs) = withoutBlocks rest := by
  have hlt := length_lt_of_frontBlock h
  rw [List.length_cons] at hlt
  unfold frontBlock at h
  rw [withoutBlocks, List.length_cons, removeThink, h]
  exact removeThink_eq (by omega)

theorem withoutBlocks_char {ch : Char} {cs : List Char} (h : frontBlock (ch :: cs) = none) :
    withoutBlocks (ch :: cs) = ch :: withoutBlocks cs := by
  unfold frontBlock at h
  rw [withoutBlocks, List.length_cons, removeThink, h]
  rfl

theorem frontBlock_of_ne {ch : Char} (h : ch ≠ '<') (cs : List Char) : frontBlock (ch :: cs) = none := by
  have hopen : dropTag openThink (ch :: cs) = none := @dropTag_of_ne "think>".toList ch h cs
  rw [frontBlock, hopen, Option.bind_none]

theorem withoutBlocks_append {body : List Char} (h : '<' ∉ body) (rest : List Char) :
    withoutBlocks (body ++ rest) = body ++ withoutBlocks rest := by
  induction body with
  | nil => rfl
  | cons ch body ih =>
    rw [List.cons_append, withoutBlocks_char (frontBlock_of_ne (List.ne_of_not_mem_cons h).symm _),
      ih (List.not_mem_of_not_mem_cons h)]
    rfl

/-! ### The scan -/

section Scan

variable {nested : Bool} {fuel depth : ℕ} {ch : Char} {cs rest out : List Char}

theorem outsideText_open (h : dropTag openThink (ch :: cs) = some rest) :
    outsideText nested (fuel + 1) depth (ch :: cs) =
      if depth = 0 ∨ nested = true then outsideText nested fuel (depth + 1) rest else none := by
  rw [outsideText, h]

theorem outsideText_close (h : dropTag closeThink (ch :: cs) = some rest) :
    outsideText nested (fuel + 1) depth (ch :: cs) =
      if depth = 0 then none else outsideText nested fuel (depth - 1) rest := by
  have hopen : dropTag openThink (ch :: cs) = none := by
    cases hopen : dropTag openThink (ch :: cs) with
    | none => rfl
    | some later =>
      rw [not_close_of_open hopen] at h
      cases h
  rw [outsideText, hopen, h]

theorem outsideText_char (hopen : dropTag openThink (ch :: cs) = none)
    (hclose : dropTag closeThink (ch :: cs) = none) : outsideText nested (fuel + 1) depth (ch :: cs) =
      if depth = 0 then (outsideText nested fuel depth cs).map (ch :: ·)
      else outsideText nested fuel depth cs := by
  rw [outsideText, hopen, hclose]

theorem afterTag_close (h : dropTag closeThink (ch :: cs) = some rest) :
    afterTag closeThink (ch :: cs) = some rest := by
  rw [afterTag, h]

theorem afterTag_skip (h : dropTag closeThink (ch :: cs) = none) :
    afterTag closeThink (ch :: cs) = afterTag closeThink cs := by
  rw [afterTag, h]

theorem afterTag_open (h : dropTag openThink (ch :: cs) = some rest) :
    afterTag closeThink (ch :: cs) = afterTag closeThink rest := by
  obtain ⟨-, body, rfl, hbody⟩ := openThink_body h
  rw [afterTag_skip (not_close_of_open h)]
  exact @afterTag_append "/think>".toList body hbody rest

/-- What the first pass makes of a block that the scan enters: it goes on behind the next closing tag, at a
depth that is greater by the number of blocks opened on the way, none in a flat text. -/
def BlockPassed (fuel depth : ℕ) (cs out : List Char) : Prop :=
  ∃ rest k fuel', afterTag closeThink cs = some rest ∧ outsideText true fuel' (depth + k) rest = some out ∧
    outsideText false fuel (depth + 1) cs = if k = 0 then outsideText false fuel' depth rest else none

theorem blockPassed (fuel : ℕ) : ∀ {depth : ℕ} {cs out : List Char},
    outsideText true fuel (depth + 1) cs = some out → BlockPassed fuel depth cs out := by
  induction fuel with
  | zero => exact fun h => nomatch h
  | succ fuel ih =>
    intro depth cs out h
    cases cs with
    | nil => cases h
    | cons ch cs =>
      have hinside : depth + 1 ≠ 0 := Nat.succ_ne_zero depth
      cases hopen : dropTag openThink (ch :: cs) with
      | some later =>
        rw [outsideText_open hopen, if_pos (.inr rfl)] at h
        obtain ⟨rest, k, fuel', hafter, houtside, -⟩ := ih h
        refine ⟨rest, k + 1, fuel', (afterTag_open hopen).trans hafter, ?_, ?_⟩
        · rw [show depth + (k + 1) = depth + 1 + k by omega]
          exact houtside
        · rw [outsideText_open hopen, if_neg (by simp), if_neg (Nat.succ_ne_zero k)]
      | none =>
        cases hclose : dropTag closeThink (ch :: cs) with
        | some rest =>
          rw [outsideText_close hclose, if_neg hinside, Nat.add_sub_cancel] at h
          refine ⟨rest, 0, fuel, afterTag_close hclose, h, ?_⟩
          rw [outsideText_close hclose, if_neg hinside, Nat.add_sub_cancel, if_pos rfl]
        | none =>
          rw [outsideText_char hopen hclose, if_neg hinside] at h
          obtain ⟨rest, k, fuel', hafter, houtside, hflat⟩ := ih h
          refine ⟨rest, k, fuel', (afterTag_skip hclose).trans hafter, houtside, ?_⟩
          rw [outsideText_char hopen hclose, if_neg hinside]
          exact hflat

end Scan

theorem angles_withoutBlocks (n : ℕ) : ∀ {fuel depth : ℕ} {cs out : List Char}, cs.length ≤ n →
    outsideText true fuel depth cs = some out → angles out + depth ≤ angles (withoutBlocks cs) := by
  induction n using Nat.strongRecOn with
  | ind n ih =>
    intro fuel depth cs out hlen h
    cases fuel with
    | zero => cases h
    | succ fuel =>
      cases cs with
      | nil =>
        rw [outsideText] at h
        split_ifs at h with hdepth
        obtain rfl := Option.some.inj h
        simp [hdepth]
      | cons ch cs =>
        rw [List.length_cons] at hlen
        cases hopen : dropTag openThink (ch :: cs) with
        | some later =>
          rw [outsideText_open hopen, if_pos (.inr rfl)] at h
          obtain ⟨rest, k, fuel', hafter, houtside, -⟩ := blockPassed fuel h
          have hblock : frontBlock (ch :: cs) = some rest := by
            rw [frontBlock, hopen]
            exact hafter
          have hlt := length_lt_of_frontBlock hblock
          rw [List.length_cons] at hlt
          have hrest := ih rest.length (by omega) (Nat.le_refl _) houtside
          rw [withoutBlocks_block hblock]
          omega
        | none =>
          have hfront : frontBlock (ch :: cs) = none := by rw [frontBlock, hopen, Option.bind_none]
          cases hclose : dropTag closeThink (ch :: cs) with
          | some rest =>
            rw [outsideText_close hclose] at h
            split_ifs at h with hdepth
            obtain ⟨rfl, body, rfl, hbody⟩ := closeThink_body hclose
            rw [List.length_append] at hlen
            have hrest := ih rest.length (by omega) (Nat.le_refl _) h
            have hbracket : angles ['<'] = 1 := rfl
            rw [withoutBlocks_char hfront, withoutBlocks_append hbody, angles_cons, angles_append, hbracket]
            omega
          | none =>
            rw [outsideText_char hopen hclose] at h
            rw [withoutBlocks_char hfront, angles_cons]
            split_ifs at h with hdepth
            · obtain ⟨later, hlater, rfl⟩ := Option.map_eq_some_iff.mp h
              have hrest := ih cs.length (by omega) (Nat.le_refl _) hlater
              rw [angles_cons ch later]
              omega
            · have hrest := ih cs.length (by omega) (Nat.le_refl _) h
              omega

/-- The first pass leaves the text outside when the text is flat, and more angle brackets when it is not. -/
def PassedOver (fuel : ℕ) (cs out : List Char) : Prop :=
  (outsideText false fuel 0 cs = some out ∧ withoutBlocks cs = out) ∨
    (outsideText false fuel 0 cs = none ∧ angles out < angles (withoutBlocks cs))

theorem passedOver (n : ℕ) : ∀ {fuel : ℕ} {cs out : List Char}, cs.length ≤ n →
    outsideText true fuel 0 cs = some out → PassedOver fuel cs out := by
  induction n using Nat.strongRecOn with
  | ind n ih =>
    intro fuel cs out hlen h
    cases fuel with
    | zero => cases h
    | succ fuel =>
      cases cs with
      | nil =>
        rw [outsideText, if_pos rfl] at h
        obtain rfl := Option.some.inj h
        exact .inl ⟨rfl, rfl⟩
      | cons ch cs =>
        rw [List.length_cons] at hlen
        unfold PassedOver
        cases hopen : dropTag openThink (ch :: cs) with
        | some later =>
          rw [outsideText_open hopen, if_pos (.inl rfl)] at h
          obtain ⟨rest, k, fuel', hafter, houtside, hflat⟩ := blockPassed fuel h
          have hblock : frontBlock (ch :: cs) = some rest := by
            rw [frontBlock, hopen]
            exact hafter
          have hlt := length_lt_of_frontBlock hblock
          rw [List.length_cons] at hlt
          rw [outsideText_open hopen, if_pos (.inl rfl), withoutBlocks_block hblock, hflat]
          cases k with
          | zero => exact ih rest.length (by omega) (Nat.le_refl _) houtside
          | succ k =>
            -- the block has others inside, whose closing tags are left
            have hleft := angles_withoutBlocks _ (Nat.le_refl _) houtside
            exact .inr ⟨if_neg (Nat.succ_ne_zero k), by omega⟩
        | none =>
          have hfront : frontBlock (ch :: cs) = none := by rw [frontBlock, hopen, Option.bind_none]
          cases hclose : dropTag closeThink (ch :: cs) with
          | some rest =>
            rw [outsideText_close hclose, if_pos rfl] at h
            cases h
          | none =>
            rw [outsideText_char hopen hclose, if_pos rfl] at h
            obtain ⟨later, hlater, rfl⟩ := Option.map_eq_some_iff.mp h
            rw [outsideText_char hopen hclose, if_pos rfl, withoutBlocks_char hfront]
            rcases ih cs.length (by omega) (Nat.le_refl _) hlater with ⟨hflat, hsame⟩ | ⟨hnone, hless⟩
            · exact .inl ⟨by rw [hflat, Option.map_some], congrArg _ hsame⟩
            · refine .inr ⟨by rw [hnone, Option.map_none], ?_⟩
              rw [angles_cons, angles_cons ch (withoutBlocks cs)]
              omega

/-! ### What is read -/

section Read

variable {text : List Char} {payload : Payload}

theorem occursIn_of_loadsObject {part : List Char} (hpart : part <:+: text) (h : loadsObject part = some payload) :
    OccursIn text payload := by
  unfold loadsObject at h
  split at h
  · rename_i whole hloads
    obtain rfl := Option.some.inj h
    exact ⟨part, hpart, whole, hloads, .inl rfl⟩
  · cases h

theorem OccursIn.mono {larger : List Char} (h : OccursIn text payload) (hle : text <:+: larger) :
    OccursIn larger payload := by
  obtain ⟨part, hpart, hread⟩ := h
  exact ⟨part, hpart.trans hle, hread⟩

theorem occursIn_taggedPayload (h : taggedPayload text = some payload) : OccursIn text payload := by
  obtain ⟨parsed, hparsed, rfl⟩ := Option.map_eq_some_iff.mp h
  obtain ⟨group, hgroup, hloads⟩ := Option.bind_eq_some_iff.mp hparsed
  have hinfix := toolCall_isInfix hgroup
  unfold loadsObject at hloads
  split at hloads
  · rename_i whole hwhole
    obtain rfl := Option.some.inj hloads
    split
    · rename_i inner hinner
      exact ⟨group, hinfix, whole, hwhole, .inr hinner⟩
    · exact ⟨group, hinfix, whole, hwhole, .inl rfl⟩
  · cases hloads

theorem occursIn_fencedPayload {block : List Char} (hblock : block <:+: text)
    (h : fencedPayload block = some payload) : OccursIn text payload := by
  unfold fencedPayload at h
  split at h
  · rename_i whole hloads
    obtain rfl := Option.some.inj h
    exact ⟨strip block, (strip_isInfix block).trans hblock, whole, hloads, .inl rfl⟩
  · cases h
  · obtain ⟨found, hfound, hloads⟩ := Option.bind_eq_some_iff.mp h
    exact occursIn_of_loadsObject ((findBalancedJson_isInfix hfound).trans hblock) hloads

theorem occursIn_textPayload (h : textPayload text = some payload) : OccursIn text payload := by
  unfold textPayload at h
  split_ifs at h
  rcases Option.or_eq_some_iff.mp h with h | ⟨-, h⟩
  · rcases Option.or_eq_some_iff.mp h with h | ⟨-, h⟩
    · rcases Option.or_eq_some_iff.mp h with h | ⟨-, h⟩
      · exact occursIn_of_loadsObject List.infix_rfl h
      · exact occursIn_taggedPayload h
    · obtain ⟨block, hmem, hpayload⟩ := List.exists_of_findSome?_eq_some h
      exact occursIn_fencedPayload (fencedBlocks_isInfix hmem) hpayload
  · obtain ⟨found, hfound, hloads⟩ := Option.bind_eq_some_iff.mp h
    exact occursIn_of_loadsObject (findBalancedJson_isInfix hfound) hloads

end Read

/-! ### The second pass -/

theorem angles_strip (cs : List Char) : angles (strip cs) = angles cs := by
  have hspace : ∀ ch, isSpace ch = true → ch ≠ '<' := by
    rintro ch hch rfl
    exact absurd hch (by decide)
  have hfront : ∀ cs : List Char, angles (cs.dropWhile isSpace) = angles cs := by
    intro cs
    have hblank : angles (cs.takeWhile isSpace) = 0 :=
      angles_eq_zero fun ch hmem => hspace ch (List.mem_takeWhile_imp hmem)
    have hsplit := congrArg angles (List.takeWhile_append_dropWhile (p := isSpace) (l := cs))
    rw [angles_append] at hsplit
    omega
  have hreverse : ∀ cs : List Char, angles cs.reverse = angles cs := fun cs => List.count_reverse
  rw [strip, rstrip, List.rdropWhile, hreverse, hfront, hreverse, hfront]

theorem reasoningRemoved_iff_stripped {text out : List Char} :
    ReasoningRemoved text out ↔ stripThinking text = strip out := by
  constructor
  · exact fun h => h.stripped
  · intro h
    refine ⟨h, fun payload hread => ?_⟩
    rw [extractJson, List.findSome?_nil, Option.none_or, String.toList_ofList, h] at hread
    exact (occursIn_textPayload hread).mono (strip_isInfix out)

theorem stripThinking_eq (text : List Char) : stripThinking text = strip (cutThink (withoutBlocks text)) := rfl

/-- **When the reasoning is removed.** From a flat text it is, precisely when the text outside does not spell an
opening tag where a block has been taken out. From a text with a block in a block it is not, unless the first
pass leaves an opening tag at which the second cuts off what has leaked. -/
theorem reasoning_removed_iff {text out : List Char} (h : Outside text out) :
    (Flat text → (ReasoningRemoved text out ↔ hasThink out = false)) ∧
      (¬ Flat text → hasThink (withoutBlocks text) = false → ¬ ReasoningRemoved text out) := by
  rw [reasoningRemoved_iff_stripped, stripThinking_eq]
  have hpassed := passedOver _ (Nat.le_refl _) h
  constructor
  · intro hflat
    have hsame : withoutBlocks text = out := by
      rcases hpassed with ⟨-, hsame⟩ | ⟨hnone, -⟩
      · exact hsame
      · rw [Flat, hnone] at hflat
        cases hflat
    rw [hsame]
    constructor
    · intro hstrip
      by_contra hthink
      have hless := @angles_cutThink out (by simpa using hthink)
      rw [← angles_strip, hstrip, angles_strip] at hless
      exact lt_irrefl _ hless
    · intro hthink
      rw [(no_reasoning hthink).2]
  · intro hflat hthink hstrip
    rw [(no_reasoning hthink).2] at hstrip
    rcases hpassed with ⟨hsome, -⟩ | ⟨-, hless⟩
    · exact hflat (by rw [Flat, hsome]; rfl)
    · rw [← angles_strip, ← angles_strip (withoutBlocks text), hstrip] at hless
      exact lt_irrefl _ hless

/-- One block in front of a decision. -/
theorem reasoning_removed_iff_prefixed :
    Outside "<think>fade it</think>\x7b\"ok\": true\x7d".toList "\x7b\"ok\": true\x7d".toList ∧
      ReasoningRemoved "<think>fade it</think>\x7b\"ok\": true\x7d".toList "\x7b\"ok\": true\x7d".toList := by
  have h : Outside "<think>fade it</think>\x7b\"ok\": true\x7d".toList "\x7b\"ok\": true\x7d".toList := by
    decide +kernel
  exact ⟨h, ((reasoning_removed_iff h).1 (by decide +kernel)).mpr (by decide +kernel)⟩

/-! #### A draft in a block -/

/-- A thought within a thought, and a draft behind it. -/
def nestedThought : List Char := "<think>a<think>b</think>\x7b\"x\": 1\x7d</think>".toList

/-- Nothing stands outside, and the draft is read. -/
theorem nestedThought_leaks : Outside nestedThought [] ∧ ¬ ReasoningRemoved nestedThought [] ∧
    (extractJson { content := String.ofList nestedThought }).map
        (fun payload => String.ofList (dumps (.object payload))) = some "\x7b\"x\": 1\x7d" := by
  refine ⟨by decide +kernel, fun h => ?_, by decide +kernel⟩
  exact absurd h.stripped (by decide +kernel)

end AiTrader
