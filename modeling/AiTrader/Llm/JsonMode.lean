import AiTrader.Lib.Escapes
import AiTrader.Llm.Structured

/-!
# JSON mode

In JSON mode the content of a reply is the serialization of an object. The scanner finds it in any text that
has no brace before it. The whole reader gives it back unless one of its strings has a `<think>` tag in it
(`extractJson_dumps_iff`): then the text is taken for reasoning before it is parsed, and what is left of it is
never the text of that object.

The proof follows the text through `extract_json`. A serialization has no blanks around it and is neutral to the
scanner, so the scanner ends at its last brace; with no brace in front of it nothing else is found first. If there is
no tag, nothing is taken out, and the text is read back. If there is one, the text that is left has an angle bracket
less than the object has (`stripThinking_clean`), and nothing that can be read from it has as many as the object
(`angles_textPayload`): it is some other object, or none.
-/

namespace AiTrader

open Lib Scan Escape

/-! ### The scanner -/

theorem findBalancedJson_append {pre : List Char} (h : '{' ∉ pre) (cs : List Char) :
    findBalancedJson (pre ++ cs) = findBalancedJson cs := by
  induction pre with
  | nil => rfl
  | cons ch pre ih =>
    rw [List.cons_append, findBalancedJson, if_neg (List.ne_of_not_mem_cons h).symm]
    exact ih (List.not_mem_of_not_mem_cons h)

theorem findBalancedJson_dumps (d : Payload) (suffix : List Char) :
    findBalancedJson (dumps (.object d) ++ suffix) = some (dumps (.object d)) := by
  rw [dumps, List.cons_append, List.append_assoc, List.singleton_append, findBalancedJson, if_pos rfl,
    balanced_braced (neutral_dumpMembers d)]

theorem balanced_spec {s : Scan} {cs found : List Char} (h : s.balanced cs = some found) :
    found <+: cs ∧ found.getLast? = some '}' := by
  induction cs generalizing s found with
  | nil => cases h
  | cons ch cs ih =>
    rw [balanced] at h
    split_ifs at h with hcloses
    · obtain rfl := Option.some.inj h
      obtain ⟨-, -, rfl, -⟩ := closes_iff.mp hcloses
      exact ⟨List.prefix_append ['}'] cs, rfl⟩
    · obtain ⟨later, hlater, rfl⟩ := Option.map_eq_some_iff.mp h
      obtain ⟨hpre, hlast⟩ := ih hlater
      refine ⟨List.cons_prefix_cons.mpr ⟨rfl, hpre⟩, ?_⟩
      rw [List.getLast?_cons, hlast]
      rfl

theorem findBalancedJson_at {text found : List Char} (h : findBalancedJson text = some found) :
    ∃ pre rest, text = pre ++ '{' :: rest ∧ (level 0).balanced ('{' :: rest) = some found := by
  induction text with
  | nil => cases h
  | cons ch cs ih =>
    have hlater : findBalancedJson cs = some found →
        ∃ pre rest, ch :: cs = pre ++ '{' :: rest ∧ (level 0).balanced ('{' :: rest) = some found := by
      intro hcs
      obtain ⟨pre, rest, rfl, hspec⟩ := ih hcs
      exact ⟨ch :: pre, rest, rfl, hspec⟩
    rw [findBalancedJson] at h
    split_ifs at h with hbrace
    · subst hbrace
      cases hbalanced : (level 0).balanced ('{' :: cs) with
      | none =>
        rw [hbalanced] at h
        exact hlater h
      | some object =>
        rw [hbalanced] at h
        exact ⟨[], cs, rfl, hbalanced.trans h⟩
    · exact hlater h

theorem findBalancedJson_spec {text found : List Char} (h : findBalancedJson text = some found) :
    ∃ pre rest, text = pre ++ '{' :: rest ∧ found <+: '{' :: rest ∧ found.head? = some '{' ∧
      found.getLast? = some '}' := by
  obtain ⟨pre, rest, htext, hbalanced⟩ := findBalancedJson_at h
  obtain ⟨hpre, hlast⟩ := balanced_spec hbalanced
  refine ⟨pre, rest, htext, hpre, ?_, hlast⟩
  cases found with
  | nil => cases hlast
  | cons c found => rw [(List.cons_prefix_cons.mp hpre).1, List.head?_cons]

theorem findBalancedJson_isInfix {text found : List Char} (h : findBalancedJson text = some found) :
    found <:+: text := by
  obtain ⟨pre, rest, rfl, hpre, -, -⟩ := findBalancedJson_spec h
  exact hpre.isInfix.trans (List.suffix_append pre _).isInfix

theorem findBalancedJson_isSome {pre rest found : List Char}
    (h : (level 0).balanced ('{' :: rest) = some found) :
    (findBalancedJson (pre ++ '{' :: rest)).isSome = true := by
  induction pre with
  | nil => rw [List.nil_append, findBalancedJson, if_pos rfl, h, Option.isSome_some]
  | cons ch pre ih =>
    rw [List.cons_append, findBalancedJson]
    split_ifs
    · split
      · rfl
      · exact ih
    · exact ih

/-- **The scanner finds the embedded object**: a serialization behind a text without a brace is found as it is,
whatever follows it, and what is found in any text is a part of it from an opening to a closing brace. -/
theorem findBalancedJson_exact :
    (∀ (d : Payload) (pre suffix : List Char), '{' ∉ pre →
      findBalancedJson (pre ++ dumps (.object d) ++ suffix) = some (dumps (.object d))) ∧
    ∀ text found : List Char, findBalancedJson text = some found →
      found <:+: text ∧ found.head? = some '{' ∧ found.getLast? = some '}' := by
  constructor
  · intro d pre suffix hpre
    rw [List.append_assoc, findBalancedJson_append hpre, findBalancedJson_dumps]
  · intro text found h
    obtain ⟨-, -, -, -, hends⟩ := findBalancedJson_spec h
    exact ⟨findBalancedJson_isInfix h, hends⟩

/-- A brace in a string and a second object behind the first. -/
theorem findBalancedJson_exact_quoted :
    findBalancedJson
        ("the plan: ".toList ++ dumps (.object [("why", .string "\x7d\x7b\"")]) ++ " \x7b\x7d".toList) =
        some (dumps (.object [("why", .string "\x7d\x7b\"")])) ∧
      dumps (.object [("why", .string "\x7d\x7b\"")]) <:+: "the plan: ".toList ++
        dumps (.object [("why", .string "\x7d\x7b\"")]) ++ " \x7b\x7d".toList := by
  have hfound := findBalancedJson_exact.1 [("why", .string "\x7d\x7b\"")] "the plan: ".toList " \x7b\x7d".toList
    (by decide)
  exact ⟨hfound, (findBalancedJson_exact.2 _ _ hfound).1⟩

/-! ### What is cut out of a text -/

theorem dropTag_concat {tag : List Char} {p : Char} {cs rest : List Char}
    (h : dropTag (tag ++ [p]) cs = some rest) :
    ∃ front ch, cs = front ++ ch :: rest ∧ matchesLetter p ch = true := by
  induction tag generalizing cs with
  | nil =>
    cases cs with
    | nil => cases h
    | cons ch cs =>
      rw [List.nil_append, dropTag] at h
      split_ifs at h with hmatches
      exact ⟨[], ch, congrArg (ch :: ·) (Option.some.inj h), hmatches⟩
  | cons q tag ih =>
    cases cs with
    | nil => cases h
    | cons c cs =>
      rw [List.cons_append, dropTag] at h
      split_ifs at h
      obtain ⟨front, ch, rfl, hmatches⟩ := ih h
      exact ⟨c :: front, ch, rfl, hmatches⟩

theorem openThink_spec {ch : Char} {cs rest : List Char} (h : dropTag openThink (ch :: cs) = some rest) :
    ch = '<' ∧ ∃ body, cs = body ++ '>' :: rest := by
  have htag : openThink = '<' :: ("think".toList ++ ['>']) := by decide
  rw [htag, dropTag] at h
  split_ifs at h with hmatches
  obtain ⟨body, c, rfl, hlast⟩ := dropTag_concat h
  obtain rfl := eq_of_matchesLetter (by decide) hlast
  exact ⟨eq_of_matchesLetter (by decide) hmatches, body, rfl⟩

theorem afterTag_spec {tag cs rest : List Char} (h : afterTag tag cs = some rest) :
    ∃ pre mid, cs = pre ++ mid ∧ dropTag tag mid = some rest := by
  induction cs with
  | nil => cases h
  | cons ch cs ih =>
    rw [afterTag] at h
    split at h
    · rename_i rest' hdrop
      obtain rfl := Option.some.inj h
      exact ⟨[], ch :: cs, rfl, hdrop⟩
    · obtain ⟨pre, mid, rfl, hdrop⟩ := ih h
      exact ⟨ch :: pre, mid, rfl, hdrop⟩

theorem afterCloseThink_spec {cs rest : List Char} (h : afterTag closeThink cs = some rest) :
    ∃ pre, cs = pre ++ '>' :: rest := by
  obtain ⟨pre, mid, rfl, hdrop⟩ := afterTag_spec h
  have htag : closeThink = "</think".toList ++ ['>'] := by decide
  rw [htag] at hdrop
  obtain ⟨front, ch, rfl, hlast⟩ := dropTag_concat hdrop
  obtain rfl := eq_of_matchesLetter (by decide) hlast
  exact ⟨pre ++ front, by rw [List.append_assoc]⟩

theorem block_spec {ch : Char} {cs rest : List Char}
    (h : (dropTag openThink (ch :: cs)).bind (afterTag closeThink) = some rest) :
    ch = '<' ∧ ∃ body, cs = body ++ '>' :: rest := by
  obtain ⟨after, hopen, hclose⟩ := Option.bind_eq_some_iff.mp h
  obtain ⟨hch, body, rfl⟩ := openThink_spec hopen
  obtain ⟨pre, rfl⟩ := afterCloseThink_spec hclose
  exact ⟨hch, body ++ '>' :: pre, by simp⟩

theorem removeThink_clean (fuel : ℕ) {q : Escape} {cs : List Char} (h : Clean q cs) :
    Clean q (removeThink fuel cs) ∧ (removeThink fuel cs = cs ∨ angles (removeThink fuel cs) < angles cs) := by
  induction fuel generalizing q cs with
  | zero => exact ⟨h, .inl rfl⟩
  | succ fuel ih =>
    cases cs with
    | nil => exact ⟨h, .inl rfl⟩
    | cons ch cs =>
      rw [removeThink]
      cases hblock : (dropTag openThink (ch :: cs)).bind (afterTag closeThink) with
      | none =>
        obtain ⟨hclean, hle⟩ := ih h.2
        refine ⟨⟨h.1, hclean⟩, ?_⟩
        dsimp only
        rcases hle with hle | hle
        · exact .inl (congrArg _ hle)
        · rw [angles_cons, angles_cons ch cs]
          exact .inr (Nat.add_lt_add_left hle _)
      | some rest =>
        obtain ⟨rfl, body, rfl⟩ := block_spec hblock
        obtain ⟨rfl, hopen⟩ := outside_of_solo h (by decide)
        -- behind the bracket of the closing tag the text is outside of escapes again
        have hlater : Clean (outside.after body) ('>' :: rest) := by
          have htail := h.2
          rw [hopen] at htail
          exact (clean_append.mp htail).2
        have hrest : Clean outside rest := (outside_of_solo hlater (by decide)).2 ▸ hlater.2
        obtain ⟨hclean, hle⟩ := ih hrest
        refine ⟨hclean, .inr ?_⟩
        have hcount : angles (removeThink fuel rest) ≤ angles rest := by
          rcases hle with hle | hle
          · rw [hle]
          · exact hle.le
        have hbracket : angles ['<'] = 1 := rfl
        dsimp only
        rw [angles_cons, angles_append, angles_cons '>', hbracket]
        omega

theorem cutThink_isPrefix (cs : List Char) : cutThink cs <+: cs := by
  induction cs with
  | nil => exact List.prefix_rfl
  | cons ch cs ih =>
    rw [cutThink]
    split_ifs
    · exact List.nil_prefix
    · exact List.cons_prefix_cons.mpr ⟨rfl, ih⟩

theorem angles_cutThink {cs : List Char} (h : hasThink cs = true) : angles (cutThink cs) < angles cs := by
  induction cs with
  | nil => cases h
  | cons ch cs ih =>
    rw [cutThink]
    cases hdrop : dropTag openThink (ch :: cs) with
    | some rest =>
      obtain ⟨rfl, -⟩ := openThink_spec hdrop
      have hbracket : angles ['<'] = 1 := rfl
      rw [Option.isSome_some, if_pos rfl, angles_cons, angles_nil, hbracket]
      omega
    | none =>
      have hlater : hasThink cs = true := by
        rw [hasThink, afterTag, hdrop] at h
        exact h
      rw [Option.isSome_none, if_neg Bool.false_ne_true, angles_cons, angles_cons ch cs]
      exact Nat.add_lt_add_left (ih hlater) _

theorem yields_initial {cs pre : List Char} (h : pre <+: cs) : Yields 0 cs pre := by
  intro hcs
  obtain ⟨later, rfl⟩ := h
  refine ⟨(clean_append.mp hcs).1, ?_⟩
  rw [angles_append]
  omega

theorem ne_backslash_of_isSpace {ch : Char} (h : isSpace ch = true) : ch ≠ backslash := by
  rintro rfl
  exact absurd h (by decide)

theorem yields_dropWhile_isSpace (cs : List Char) : Yields 0 cs (cs.dropWhile isSpace) := by
  have hblank : backslash ∉ cs.takeWhile isSpace := fun hmem =>
    ne_backslash_of_isSpace (List.mem_takeWhile_imp hmem) rfl
  have hyields := (@yields_closed _ (cs.dropWhile isSpace) hblank).weaken (Nat.zero_le _)
  rwa [List.takeWhile_append_dropWhile] at hyields

theorem yields_strip (cs : List Char) : Yields 0 cs (strip cs) :=
  (yields_dropWhile_isSpace cs).trans (yields_initial (rstrip_isPrefix _))

theorem stripThinking_clean {cs : List Char} (h : Clean outside cs) (hthink : hasThink cs = true) :
    Clean outside (stripThinking cs) ∧ angles (stripThinking cs) < angles cs := by
  obtain ⟨hremoved, hle⟩ := removeThink_clean cs.length h
  have hcut := yields_initial (cutThink_isPrefix (removeThink cs.length cs)) hremoved
  have hstrip := yields_strip (cutThink (removeThink cs.length cs)) hcut.1
  refine ⟨hstrip.1, ?_⟩
  have hstripLe := hstrip.2
  have hcutLe := hcut.2
  unfold stripThinking
  rcases hle with hsame | hless
  · have hcutLess := angles_cutThink hthink
    rw [hsame] at hstripLe ⊢
    omega
  · omega

/-! ### What is read from a clean text -/

theorem yields_solo {pre cs : List Char} {ch : Char} (h : solo ch = true) :
    Yields 0 (pre ++ ch :: cs) (ch :: cs) := by
  intro hcs
  have hlater := (clean_append.mp hcs).2
  rw [(outside_of_solo hlater h).1] at hlater
  refine ⟨hlater, ?_⟩
  rw [angles_append]
  omega

theorem yields_findBalancedJson {text found : List Char} (h : findBalancedJson text = some found) :
    Yields 0 text found := by
  obtain ⟨pre, rest, rfl, hpre, -, -⟩ := findBalancedJson_spec h
  exact (yields_solo (by decide)).trans (yields_initial hpre)

theorem upToToolCallEnd_isPrefix {cs group : List Char} (h : upToToolCallEnd cs = some group) : group <+: cs := by
  induction cs generalizing group with
  | nil => cases h
  | cons ch cs ih =>
    rw [upToToolCallEnd] at h
    split_ifs at h
    · obtain rfl := Option.some.inj h
      exact List.prefix_append [ch] cs
    · obtain ⟨later, hlater, rfl⟩ := Option.map_eq_some_iff.mp h
      exact List.cons_prefix_cons.mpr ⟨rfl, ih hlater⟩

theorem toolCall_spec {cs group : List Char} (h : toolCall cs = some group) :
    ∃ pre rest, cs = pre ++ '{' :: rest ∧ group <+: '{' :: rest := by
  induction cs with
  | nil => cases h
  | cons ch cs ih =>
    rw [toolCall] at h
    split at h
    · rename_i group' hat
      obtain rfl := Option.some.inj h
      obtain ⟨rest, hword, hbody⟩ := Option.bind_eq_some_iff.mp hat
      have hsplit : rest = rest.takeWhile isSpace ++ rest.dropWhile isSpace := List.takeWhile_append_dropWhile.symm
      split at hbody
      · rename_i c body hdrop
        split_ifs at hbody with hbrace
        obtain ⟨later, hlater, rfl⟩ := Option.map_eq_some_iff.mp hbody
        refine ⟨"<tool_call>".toList ++ rest.takeWhile isSpace, body, ?_, ?_⟩
        · rw [dropWord_spec hword, List.append_assoc, ← hbrace, ← hdrop, ← hsplit]
        · rw [hbrace]
          exact List.cons_prefix_cons.mpr ⟨rfl, upToToolCallEnd_isPrefix hlater⟩
      · cases hbody
    · obtain ⟨pre, rest, rfl, hpre⟩ := ih h
      exact ⟨ch :: pre, rest, rfl, hpre⟩

theorem toolCall_isInfix {cs group : List Char} (h : toolCall cs = some group) : group <:+: cs := by
  obtain ⟨pre, rest, rfl, hpre⟩ := toolCall_spec h
  exact hpre.isInfix.trans (List.suffix_append pre _).isInfix

theorem yields_toolCall {text group : List Char} (h : toolCall text = some group) : Yields 0 text group := by
  obtain ⟨pre, rest, rfl, hpre⟩ := toolCall_spec h
  exact (yields_solo (by decide)).trans (yields_initial hpre)

theorem splitAtWord_spec {word cs block rest : List Char} (h : splitAtWord word cs = some (block, rest)) :
    cs = block ++ (word ++ rest) := by
  induction cs generalizing block with
  | nil => cases h
  | cons ch cs ih =>
    rw [splitAtWord] at h
    split at h
    · rename_i rest' hdrop
      cases h
      rw [List.nil_append]
      exact dropWord_spec hdrop
    · obtain ⟨⟨block', rest'⟩, hsplit, heq⟩ := Option.map_eq_some_iff.mp h
      cases heq
      rw [ih hsplit, List.cons_append]

theorem dropLanguage_spec (cs : List Char) : ∃ language, cs = language ++ dropLanguage cs ∧
    backslash ∉ language := by
  unfold dropLanguage
  cases hlower : dropWord "json".toList cs with
  | some rest => exact ⟨_, dropWord_spec hlower, by decide⟩
  | none =>
    cases hupper : dropWord "JSON".toList cs with
    | some rest => exact ⟨_, dropWord_spec hupper, by decide⟩
    | none => exact ⟨[], rfl, List.not_mem_nil⟩

theorem fencedBlocks_spec (fuel : ℕ) {cs block : List Char} (h : block ∈ fencedBlocks fuel cs) :
    ∃ pre mid post, cs = pre ++ Char.ofNat 96 :: (mid ++ (block ++ post)) ∧ backslash ∉ mid := by
  induction fuel generalizing cs with
  | zero => cases h
  | succ fuel ih =>
    cases cs with
    | nil => cases h
    | cons ch cs =>
      rw [fencedBlocks] at h
      split at h
      · rename_i first rest hblock
        obtain ⟨body, hfence, hsplit⟩ := Option.bind_eq_some_iff.mp hblock
        obtain ⟨language, hlanguage, hback⟩ := dropLanguage_spec body
        have hend := splitAtWord_spec hsplit
        obtain ⟨blanks, hinner, hblanks⟩ : ∃ blanks, dropLanguage body = blanks ++ (first ++ (fence ++ rest)) ∧
            backslash ∉ blanks :=
          ⟨_, by rw [← hend, List.takeWhile_append_dropWhile],
            fun hmem => ne_backslash_of_isSpace (List.mem_takeWhile_imp hmem) rfl⟩
        have htext : ch :: cs = fence ++ (language ++ (blanks ++ (first ++ (fence ++ rest)))) := by
          rw [dropWord_spec hfence, ← hinner, ← hlanguage]
        rcases List.mem_cons.mp h with rfl | hlater
        · refine ⟨[], [Char.ofNat 96, Char.ofNat 96] ++ (language ++ blanks), fence ++ rest, ?_, fun hmem => ?_⟩
          · rw [htext]
            simp [fence]
          · simp only [List.mem_append] at hmem
            rcases hmem with hmem | hmem | hmem
            · exact absurd hmem (by decide)
            · exact hback hmem
            · exact hblanks hmem
        · obtain ⟨pre, mid, post, hrest, hmid⟩ := ih hlater
          refine ⟨fence ++ (language ++ (blanks ++ (first ++ (fence ++ pre)))), mid, post, ?_, hmid⟩
          rw [htext, hrest]
          simp only [List.append_assoc]
      · obtain ⟨pre, mid, post, rfl, hmid⟩ := ih h
        exact ⟨ch :: pre, mid, post, rfl, hmid⟩

theorem fencedBlocks_isInfix {fuel : ℕ} {cs block : List Char} (h : block ∈ fencedBlocks fuel cs) :
    block <:+: cs := by
  obtain ⟨pre, mid, post, rfl, -⟩ := fencedBlocks_spec fuel h
  exact ⟨pre ++ Char.ofNat 96 :: mid, post, by simp⟩

theorem yields_fencedBlocks {fuel : ℕ} {text block : List Char} (h : block ∈ fencedBlocks fuel text) :
    Yields 0 text block := by
  obtain ⟨pre, mid, post, rfl, hmid⟩ := fencedBlocks_spec fuel h
  have hopen : backslash ∉ Char.ofNat 96 :: mid := List.not_mem_cons_of_ne_of_not_mem (by decide) hmid
  have hblock : Yields 0 ((Char.ofNat 96 :: mid) ++ (block ++ post)) (block ++ post) :=
    (yields_closed hopen).weaken (Nat.zero_le _)
  exact ((yields_solo (by decide)).trans hblock).trans (yields_initial (List.prefix_append block post))

theorem angles_loadsObject {cs : List Char} {payload : Payload} (hcs : Clean outside cs)
    (h : loadsObject cs = some payload) : angles (dumps (.object payload)) ≤ angles cs := by
  unfold loadsObject at h
  split at h
  · rename_i hloads
    obtain rfl := Option.some.inj h
    exact loads_count hcs hloads
  · cases h

theorem angles_get? {payload : Payload} {key : String} {v : Json} (h : payload.get? key = some v) :
    angles (dumps v) ≤ angles (dumps (.object payload)) := by
  obtain ⟨⟨key', v'⟩, hfind, rfl⟩ := Option.map_eq_some_iff.mp h
  rw [angles_object]
  exact angles_le_of_mem (List.mem_of_find?_eq_some hfind)

theorem angles_part {text b : List Char} {payload : Payload} (htext : Clean outside text) (hpart : Yields 0 text b)
    (h : loadsObject b = some payload) : angles (dumps (.object payload)) ≤ angles text := by
  obtain ⟨hb, hle⟩ := hpart htext
  have hpayload := angles_loadsObject hb h
  omega

theorem angles_taggedPayload {text : List Char} {payload : Payload} (htext : Clean outside text)
    (h : taggedPayload text = some payload) : angles (dumps (.object payload)) ≤ angles text := by
  obtain ⟨parsed, hparsed, rfl⟩ := Option.map_eq_some_iff.mp h
  obtain ⟨group, hgroup, hloads⟩ := Option.bind_eq_some_iff.mp hparsed
  have hle := angles_part htext (yields_toolCall hgroup) hloads
  split
  · rename_i inner hinner
    exact (angles_get? hinner).trans hle
  · exact hle

theorem angles_fencedPayload {text block : List Char} {payload : Payload} (htext : Clean outside text)
    (hblock : Yields 0 text block) (h : fencedPayload block = some payload) :
    angles (dumps (.object payload)) ≤ angles text := by
  unfold fencedPayload at h
  split at h
  · rename_i whole hloads
    obtain rfl := Option.some.inj h
    have hstrip := (hblock.trans (yields_strip block)) htext
    exact (loads_count hstrip.1 hloads).trans (by omega)
  · cases h
  · obtain ⟨found, hfound, hloads⟩ := Option.bind_eq_some_iff.mp h
    exact angles_part htext (hblock.trans (yields_findBalancedJson hfound)) hloads

/-- **What is read from a clean text has no more angle brackets than the text.** -/
theorem angles_textPayload {text : List Char} {payload : Payload} (htext : Clean outside text)
    (h : textPayload text = some payload) : angles (dumps (.object payload)) ≤ angles text := by
  unfold textPayload at h
  split_ifs at h
  rcases Option.or_eq_some_iff.mp h with h | ⟨-, h⟩
  · rcases Option.or_eq_some_iff.mp h with h | ⟨-, h⟩
    · rcases Option.or_eq_some_iff.mp h with h | ⟨-, h⟩
      · exact angles_loadsObject htext h
      · exact angles_taggedPayload htext h
    · obtain ⟨block, hmem, hpayload⟩ := List.exists_of_findSome?_eq_some h
      exact angles_fencedPayload htext (yields_fencedBlocks hmem) hpayload
  · obtain ⟨found, hfound, hloads⟩ := Option.bind_eq_some_iff.mp h
    exact angles_part htext (yields_findBalancedJson hfound) hloads

/-! ### The reply in JSON mode -/

/-- A reply without tool calls whose content is the serialization of an object. -/
def jsonReply (d : Payload) : LLMResponse := { content := String.ofList (dumps (.object d)) }

theorem extractJson_jsonReply (d : Payload) :
    extractJson (jsonReply d) = textPayload (stripThinking (dumps (.object d))) := by
  rw [extractJson, jsonReply, List.findSome?_nil, Option.none_or, String.toList_ofList]

theorem strip_dumps (d : Payload) : strip (dumps (.object d)) = dumps (.object d) := by
  have hopen : isSpace '{' = false := by decide
  have hclose : ¬ isSpace '}' = true := by decide
  rw [dumps, strip, List.dropWhile_cons, hopen, if_neg Bool.false_ne_true, rstrip, ← List.cons_append,
    List.rdropWhile_concat_neg _ _ _ hclose]

theorem textPayload_dumps {d : Payload} (h : (Json.object d).Distinct) :
    textPayload (dumps (.object d)) = some d := by
  have hloads : loadsObject (dumps (.object d)) = some d := by
    rw [loadsObject, loads_dumps h]
  have hempty : (dumps (.object d)).isEmpty = false := by rw [dumps]; rfl
  rw [textPayload, hempty, if_neg Bool.false_ne_true, hloads, Option.some_or, Option.some_or, Option.some_or]

/-- **JSON mode gives an object back exactly when its serialization has no `<think>` tag.** -/
theorem extractJson_dumps_iff (d : Payload) (h : (Json.object d).Distinct) :
    extractJson (jsonReply d) = some d ↔ hasThink (dumps (.object d)) = false := by
  rw [extractJson_jsonReply]
  constructor
  · intro hsame
    by_contra hthink
    obtain ⟨hclean, hless⟩ := stripThinking_clean (closed_dumps (.object d)).clean (by simpa using hthink)
    have hle := angles_textPayload hclean hsame
    omega
  · intro hthink
    rw [stripThinking_of_not_hasThink hthink, strip_dumps, textPayload_dumps h]

def twoProposals : Payload :=
  [("market_read", .string "strong open"),
    ("proposals", .array [.object [("symbol", .string "AAPL"), ("action", .string "BUY")],
      .object [("symbol", .string "MSFT"), ("action", .string "SELL")]])]

theorem distinct_twoProposals : (Json.object twoProposals).Distinct := by
  simp [twoProposals, Json.Distinct, ElementsDistinct, MembersDistinct]

theorem extractJson_dumps_iff_plain : (Json.object twoProposals).Distinct ∧
    (extractJson (jsonReply twoProposals) = some twoProposals ↔
      hasThink (dumps (.object twoProposals)) = false) := by
  exact ⟨distinct_twoProposals, extractJson_dumps_iff twoProposals distinct_twoProposals⟩

/-! #### An object that speaks of a tag -/

def quotedThought : Payload := [("market_read", .string "<think>fade it</think>buy the open")]

/-- The object comes back with another market read. -/
theorem quotedThought_rewritten : (Json.object quotedThought).Distinct ∧
    extractJson (jsonReply quotedThought) ≠ some quotedThought ∧
    (extractJson (jsonReply quotedThought)).map (fun payload => String.ofList (dumps (.object payload))) =
      some "\x7b\"market_read\": \"buy the open\"\x7d" := by
  have hread : (extractJson (jsonReply quotedThought)).map
      (fun payload => String.ofList (dumps (.object payload))) =
        some "\x7b\"market_read\": \"buy the open\"\x7d" := by
    decide +kernel
  refine ⟨by simp [quotedThought, Json.Distinct, MembersDistinct], fun hsame => ?_, hread⟩
  rw [hsame, Option.map_some] at hread
  exact absurd hread (by decide +kernel)

end AiTrader
