import AiTrader.Lib.JsonGrammar

/-!
# JSON in Unicode

`json.dumps` with `ensure_ascii=False`: only what must be escaped is. `dumpsText` writes one line, `pretty` is the
form with an indent of two blanks.

Both are texts of the value (`text_dumpsText`, `text_pretty`), and so are read back.

The texts differ in where they put blanks and in which characters they escape, so it is enough to show for each piece
that it is a text in the sense of the grammar: a string with its necessary escapes, a comma at the end of a line, a
bracket behind an indent. Reading them back is then a matter of the grammar.
-/

namespace Lib

open Scan

/-- What a character of a string is written as. -/
def escapeText (ch : Char) : List Char :=
  match shortEscape ch with
  | some short => [backslash, short]
  | none => if ch.toNat < 32 then unicodeEscape ch.toNat else [ch]

def textString (s : String) : List Char := quotationMark :: (s.toList.flatMap escapeText ++ [quotationMark])

mutual

def dumpsText : Json → List Char
  | .string s => textString s
  | .array elements => '[' :: (textElements elements ++ [']'])
  | .object members => '{' :: (textMembers members ++ ['}'])
  | v => dumps v

def textElements : List Json → List Char
  | [] => []
  | v :: rest => dumpsText v ++ (if rest.isEmpty then [] else [',', ' ']) ++ textElements rest

def textMembers : List (String × Json) → List Char
  | [] => []
  | (key, v) :: rest =>
    textString key ++ [':', ' '] ++ dumpsText v ++ (if rest.isEmpty then [] else [',', ' ']) ++ textMembers rest

end

/-! ### With an indent -/

/-- A new line at a level. -/
def newLine (level : ℕ) : List Char := Char.ofNat 10 :: List.replicate (2 * level) ' '

mutual

def pretty (level : ℕ) : Json → List Char
  | .array elements =>
    if elements.isEmpty then ['[', ']']
    else '[' :: (prettyElements (level + 1) elements ++ newLine level ++ [']'])
  | .object members =>
    if members.isEmpty then ['{', '}']
    else '{' :: (prettyMembers (level + 1) members ++ newLine level ++ ['}'])
  | .string s => textString s
  | v => dumps v

def prettyElements (level : ℕ) : List Json → List Char
  | [] => []
  | v :: rest => newLine level ++ pretty level v ++ (if rest.isEmpty then [] else [',']) ++ prettyElements level rest

def prettyMembers (level : ℕ) : List (String × Json) → List Char
  | [] => []
  | (key, v) :: rest =>
    newLine level ++ textString key ++ [':', ' '] ++ pretty level v ++ (if rest.isEmpty then [] else [',']) ++
      prettyMembers level rest

end

/-! ### Strings -/

theorem RawText.append {cs ds : List Char} (hc : RawText cs) (hd : RawText ds) : RawText (cs ++ ds) := by
  induction hc with
  | nil => exact hd
  | escape ch _ ih => exact .escape ch ih
  | char hquote hback _ ih => exact .char hquote hback ih

theorem rawText_of_forall {cs : List Char} (h : ∀ ch ∈ cs, ch ≠ quotationMark ∧ ch ≠ backslash) : RawText cs := by
  induction cs with
  | nil => exact .nil
  | cons ch cs ih =>
    have hch := h ch List.mem_cons_self
    exact .char hch.1 hch.2 (ih fun c hc => h c (List.mem_cons_of_mem _ hc))

theorem rawText_unicodeEscape (n : ℕ) : RawText (unicodeEscape n) := by
  have hall : ∀ n < 16, hexDigit n ≠ quotationMark ∧ hexDigit n ≠ backslash := by decide
  refine .escape 'u' (rawText_of_forall fun ch hmem => ?_)
  simp only [List.mem_cons, List.not_mem_nil, or_false] at hmem
  rcases hmem with rfl | rfl | rfl | rfl <;> exact hall _ (Nat.mod_lt _ (by omega))

theorem rawText_escapeText (ch : Char) : RawText (escapeText ch) := by
  unfold escapeText
  cases hshort : shortEscape ch with
  | some short => exact .escape short .nil
  | none =>
    have hmeans : ch ≠ quotationMark ∧ ch ≠ backslash := by
      rw [← not_or]
      intro h
      simp [shortEscape, h] at hshort
    dsimp only
    split_ifs
    · exact rawText_unicodeEscape _
    · exact .char hmeans.1 hmeans.2 .nil

/-- The unit that a character is written as. -/
def textUnit (ch : Char) : StringUnit :=
  if (shortEscape ch).isSome ∨ 32 ≤ ch.toNat then .char ch else .unit ch.toNat

theorem stringUnits_escapeText (ch : Char) (rest : List Char) :
    stringUnits (escapeText ch ++ rest) = (stringUnits rest).map fun units => textUnit ch :: units := by
  have hback : ¬ backslash.toNat < 32 := by decide
  unfold escapeText textUnit
  cases hshort : shortEscape ch with
  | some short =>
    obtain ⟨hu, hchar⟩ := shortUnescape_of_shortEscape hshort
    simp only [List.cons_append, List.nil_append]
    rw [stringUnits.eq_def]
    simp [hback, hu, hchar]
  | none =>
    dsimp only
    split_ifs with hcontrol hplain hplain
    · simp at hplain
      omega
    · exact stringUnits_unicodeEscape (by omega) rest
    · have hmeans : ch ≠ backslash := by
        rintro rfl
        simp [shortEscape] at hshort
      rw [List.singleton_append, stringUnits.eq_def]
      simp [hcontrol, hmeans]
    · simp at hplain
      omega

theorem stringUnits_flatMap_escapeText (cs : List Char) :
    stringUnits (cs.flatMap escapeText) = some (cs.map textUnit) := by
  induction cs with
  | nil => rfl
  | cons ch cs ih => simp [List.flatMap_cons, stringUnits_escapeText, ih]

theorem foldr_textUnit (ch : Char) (units : List StringUnit) :
    ((textUnit ch :: units).foldr joinUnit []).map StringUnit.toChar =
      ch :: (units.foldr joinUnit []).map StringUnit.toChar := by
  have hpair := not_surrogate ch
  have hhigh : isHighSurrogate ch.toNat = false := decide_eq_false (by omega)
  have hlow : isLowSurrogate ch.toNat = false := decide_eq_false (by omega)
  unfold textUnit
  split_ifs
  · rfl
  · rw [List.foldr_cons, joinUnit_unit hhigh, List.map_cons, StringUnit.toChar, hhigh, hlow, Bool.or_false,
      if_neg Bool.false_ne_true, Char.ofNat_toNat]

theorem joinUnits_textUnit (cs : List Char) : joinUnits (cs.map textUnit) = cs := by
  unfold joinUnits
  induction cs with
  | nil => rfl
  | cons ch cs ih => rw [List.map_cons, foldr_textUnit, ih]

theorem text_textString (s : String) : StringText s (textString s) := by
  refine ⟨s.toList.flatMap escapeText, s.toList.map textUnit, rfl, ?_, stringUnits_flatMap_escapeText _, ?_⟩
  · induction s.toList with
    | nil => exact .nil
    | cons ch cs ih => exact (rawText_escapeText ch).append ih
  · simp [joinUnits_textUnit]

/-! ### Values -/

theorem blank_nil : Blank [] := by simp [Blank]

theorem closing_self (ch : Char) : Closing ch [ch] := ⟨[], rfl, blank_nil⟩

theorem mark_blank (ch : Char) : Mark ch [ch, ' '] := ⟨[], [' '], rfl, blank_nil, by simp [Blank, jsonSpace]⟩

theorem text_dumps_scalar {v : Json} (hstring : ∀ s, v ≠ .string s) (harray : ∀ vs, v ≠ .array vs)
    (hobject : ∀ ms, v ≠ .object ms) : ValueText v (dumps v) := by
  cases v with
  | null | nan => exact .word (by simp [valueWords, dumps])
  | bool b => cases b <;> exact .word (by simp [valueWords, dumps])
  | infinity negative => cases negative <;> exact .word (by simp [valueWords, dumps])
  | number n => exact .number n
  | string s => exact absurd rfl (hstring s)
  | array vs => exact absurd rfl (harray vs)
  | object ms => exact absurd rfl (hobject ms)

mutual

/-- **A value on one line is a text of it.** -/
theorem text_dumpsText : ∀ v : Json, v.Distinct → ValueText v (dumpsText v)
  | .string s, _ => by
    rw [dumpsText]
    exact .string (text_textString s)
  | .array vs, h => by
    rw [dumpsText]
    cases vs with
    | nil => exact .emptyArray (closing_self ']')
    | cons v vs => exact @ValueText.array [] _ _ blank_nil (text_textElements (v :: vs) h (by simp))
  | .object ms, h => by
    rw [dumpsText]
    cases ms with
    | nil => exact .emptyObject (closing_self '}')
    | cons m ms =>
      have htext := @ValueText.object [] _ _ blank_nil (text_textMembers (m :: ms) h.2 (by simp))
      rwa [dictOf_eq h.1] at htext
  | .null, _ | .bool _, _ | .number _, _ | .nan, _ | .infinity _, _ => by
    rw [dumpsText]
    · exact text_dumps_scalar (by simp) (by simp) (by simp)
    all_goals simp

theorem text_textElements : ∀ vs : List Json, ElementsDistinct vs → vs ≠ [] →
    ElementsText vs (textElements vs ++ [']'])
  | [], _, hne => absurd rfl hne
  | v :: vs, h, _ => by
    rw [textElements]
    cases vs with
    | nil => simpa [textElements] using ElementsText.last (text_dumpsText v h.1) (closing_self ']')
    | cons w vs =>
      have hmore := text_textElements (w :: vs) h.2 (by simp)
      simpa using ElementsText.cons (text_dumpsText v h.1) (mark_blank ',') hmore

theorem text_textMembers : ∀ ms : List (String × Json), MembersDistinct ms → ms ≠ [] →
    MembersText ms (textMembers ms ++ ['}'])
  | [], _, hne => absurd rfl hne
  | (key, v) :: ms, h, _ => by
    have hkey := text_textString key
    rw [textMembers]
    cases ms with
    | nil =>
      simpa [textMembers] using MembersText.last hkey (mark_blank ':') (text_dumpsText v h.1) (closing_self '}')
    | cons m ms =>
      have hmore := text_textMembers (m :: ms) h.2 (by simp)
      simpa using MembersText.cons hkey (mark_blank ':') (text_dumpsText v h.1) (mark_blank ',') hmore

end

theorem blank_newLine (level : ℕ) : Blank (newLine level) := by
  intro ch hch
  rcases List.mem_cons.mp hch with rfl | hch
  · rfl
  · rw [List.eq_of_mem_replicate hch]
    rfl

theorem mark_newLine (ch : Char) (level : ℕ) : Mark ch (ch :: newLine level) :=
  ⟨[], newLine level, rfl, blank_nil, blank_newLine level⟩

theorem closing_newLine (ch : Char) (level : ℕ) : Closing ch (newLine level ++ [ch]) :=
  ⟨newLine level, rfl, blank_newLine level⟩

mutual

/-- **A value with an indent is a text of it.** -/
theorem text_pretty : ∀ (v : Json) (level : ℕ), v.Distinct → ValueText v (pretty level v)
  | .string s, level, _ => by
    rw [pretty]
    exact .string (text_textString s)
  | .array vs, level, h => by
    rw [pretty]
    cases vs with
    | nil => exact .emptyArray (closing_self ']')
    | cons v vs =>
      obtain ⟨tail, htail, htext⟩ := text_prettyElements (v :: vs) level h (by simp)
      rw [htail]
      simpa using ValueText.array (blank_newLine (level + 1)) htext
  | .object ms, level, h => by
    rw [pretty]
    cases ms with
    | nil => exact .emptyObject (closing_self '}')
    | cons m ms =>
      obtain ⟨tail, htail, htext⟩ := text_prettyMembers (m :: ms) level h.2 (by simp)
      have hobject := ValueText.object (blank_newLine (level + 1)) htext
      rw [dictOf_eq h.1] at hobject
      rw [htail]
      simpa using hobject
  | .null, _, _ | .bool _, _, _ | .number _, _, _ | .nan, _, _ | .infinity _, _, _ => by
    rw [pretty]
    · exact text_dumps_scalar (by simp) (by simp) (by simp)
    all_goals simp

theorem text_prettyElements : ∀ (vs : List Json) (level : ℕ), ElementsDistinct vs → vs ≠ [] →
    ∃ tail, prettyElements (level + 1) vs = newLine (level + 1) ++ tail ∧
      ElementsText vs (tail ++ (newLine level ++ [']']))
  | [], _, _, hne => absurd rfl hne
  | v :: vs, level, h, _ => by
    have hv := text_pretty v (level + 1) h.1
    cases vs with
    | nil =>
      refine ⟨pretty (level + 1) v, by simp [prettyElements], ?_⟩
      exact .last hv (closing_newLine ']' level)
    | cons w vs =>
      obtain ⟨tail, htail, htext⟩ := text_prettyElements (w :: vs) level h.2 (by simp)
      refine ⟨pretty (level + 1) v ++ (',' :: newLine (level + 1) ++ tail), ?_, ?_⟩
      · rw [prettyElements, htail]
        simp
      · simpa using ElementsText.cons hv (mark_newLine ',' (level + 1)) htext

theorem text_prettyMembers : ∀ (ms : List (String × Json)) (level : ℕ), MembersDistinct ms → ms ≠ [] →
    ∃ tail, prettyMembers (level + 1) ms = newLine (level + 1) ++ tail ∧
      MembersText ms (tail ++ (newLine level ++ ['}']))
  | [], _, _, hne => absurd rfl hne
  | (key, v) :: ms, level, h, _ => by
    have hkey := text_textString key
    have hv := text_pretty v (level + 1) h.1
    cases ms with
    | nil =>
      refine ⟨textString key ++ ([':', ' '] ++ pretty (level + 1) v), by simp [prettyMembers], ?_⟩
      simpa using MembersText.last hkey (mark_blank ':') hv (closing_newLine '}' level)
    | cons m ms =>
      obtain ⟨tail, htail, htext⟩ := text_prettyMembers (m :: ms) level h.2 (by simp)
      refine ⟨textString key ++ ([':', ' '] ++ (pretty (level + 1) v ++ (',' :: newLine (level + 1) ++ tail))), ?_, ?_⟩
      · rw [prettyMembers, htail]
        simp
      · simpa using MembersText.cons hkey (mark_blank ':') hv (mark_newLine ',' (level + 1)) htext

end

/-! ### Reading back -/

/-- **What is written is read back.** -/
theorem loads_dumpsText {v : Json} (h : v.Distinct) : loads (dumpsText v) = some v :=
  loads_iff.mpr ⟨[], dumpsText v, [], by simp, blank_nil, blank_nil, text_dumpsText v h⟩

theorem loads_pretty {v : Json} (h : v.Distinct) : loads (pretty 0 v) = some v :=
  loads_iff.mpr ⟨[], pretty 0 v, [], by simp, blank_nil, blank_nil, text_pretty v 0 h⟩

/-! ### Natural numbers -/

theorem isDigit_of_mem_toDigits {n : ℕ} {ch : Char} (h : ch ∈ Nat.toDigits 10 n) : isDigit ch = true := by
  have hdigit := Nat.isDigit_of_mem_toDigits (by decide) (by decide) h
  rw [Char.isDigit, Bool.and_eq_true, decide_eq_true_eq, decide_eq_true_eq] at hdigit
  exact decide_eq_true hdigit

theorem toDigits_head {n : ℕ} (h : 0 < n) : ∃ ch tail, Nat.toDigits 10 n = ch :: tail ∧ ch ≠ '0' := by
  induction n using Nat.strongRecOn with
  | ind n ih =>
    by_cases hsmall : n < 10
    · have hall : ∀ m < 10, 0 < m → Nat.digitChar m ≠ '0' := by decide
      exact ⟨n.digitChar, [], Nat.toDigits_of_lt_base hsmall, hall n hsmall h⟩
    · obtain ⟨ch, tail, hhead, hne⟩ := ih (n / 10) (by omega) (by omega)
      rw [Nat.toDigits_of_base_le (by decide) (by omega), hhead]
      exact ⟨ch, _, rfl, hne⟩

theorem takeNumber_toDigits (n : ℕ) : takeNumber (Nat.toDigits 10 n) = some (Nat.toDigits 10 n, []) := by
  rcases Nat.eq_zero_or_pos n with rfl | hpos
  · rw [Nat.toDigits_zero]
    rfl
  · obtain ⟨ch, tail, hhead, hne⟩ := toDigits_head hpos
    have hdigits : ∀ c ∈ ch :: tail, isDigit c = true := fun c hc => isDigit_of_mem_toDigits (hhead ▸ hc)
    have hminus : ch ≠ '-' := ne_of_isDigit (hdigits ch List.mem_cons_self) (by decide)
    have htail : ∀ c ∈ tail, isDigit c = true := fun c hc => hdigits c (List.mem_cons_of_mem _ hc)
    have htake : tail.takeWhile isDigit = tail := List.takeWhile_eq_self_iff.mpr htail
    have hdrop : tail.dropWhile isDigit = [] := List.dropWhile_eq_nil_iff.mpr htail
    rw [hhead]
    simp [takeNumber, takeSign, hminus, takeInteger, hne, hdigits ch List.mem_cons_self, htake, hdrop, takeFraction,
      takeExponent]

def Number.ofNat (n : ℕ) : Number := ⟨Nat.toDigits 10 n, takeNumber_toDigits n⟩

end Lib
