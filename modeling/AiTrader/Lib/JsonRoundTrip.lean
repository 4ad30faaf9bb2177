import AiTrader.Lib.Json

/-!
# What is written is read back

`loads (dumps v) = some v`, for every value whose objects have distinct keys, as the members of a dictionary
do. A number is read to its end only where no digit, point or exponent follows it; behind a value that is
written stands nothing, a comma or a closing bracket (`Delimited`).

The proof goes from characters to values. A character is written as itself, as a short escape or as one or two code
units in hexadecimal, and reading joins the units again (`foldr_charUnits`). A string ends at its closing quotation
mark because nothing written inside it is one. A number ends where a delimiter follows. Arrays and objects are then
read element by element, by a mutual induction over the value, in which every list carries what stands behind it. The
members of an object come back as a dictionary, in their order, since the keys are distinct (`dictOf_eq`).
-/

namespace Lib

/-! ### Strings -/

theorem hexValue_hexDigit {n : ℕ} (h : n < 16) : hexValue (hexDigit n) = some n := by
  have hall : ∀ n < 16, hexValue (hexDigit n) = some n := by decide
  exact hall n h

theorem codeUnit_hexDigits {n : ℕ} (h : n < 65536) : codeUnit (hexDigit (n / 4096 % 16))
    (hexDigit (n / 256 % 16)) (hexDigit (n / 16 % 16)) (hexDigit (n % 16)) = some n := by
  have hmod : ∀ m : ℕ, m % 16 < 16 := fun m => Nat.mod_lt m (by omega)
  rw [codeUnit, hexValue_hexDigit (hmod _), hexValue_hexDigit (hmod _), hexValue_hexDigit (hmod _),
    hexValue_hexDigit (hmod _)]
  simp only [Option.some.injEq]
  omega

/-- The units that a character is written as. -/
def charUnits (ch : Char) : List StringUnit :=
  if (shortEscape ch).isSome ∨ 32 ≤ ch.toNat ∧ ch.toNat ≤ 126 then [.char ch]
  else if ch.toNat < 65536 then [.unit ch.toNat]
  else [.unit (55296 + (ch.toNat - 65536) / 1024), .unit (56320 + (ch.toNat - 65536) % 1024)]

theorem toNat_lt (ch : Char) : ch.toNat < 1114112 := by
  rcases ch.valid with h | ⟨-, h⟩
  · exact lt_trans h (by decide)
  · exact h

theorem not_surrogate (ch : Char) : ¬ (55296 ≤ ch.toNat ∧ ch.toNat < 57344) := by
  rintro ⟨hlow, hhigh⟩
  rcases ch.valid with h | ⟨h, -⟩
  · exact absurd hlow (not_le.mpr h)
  · have : 57343 < ch.toNat := h
    omega

theorem shortUnescape_of_shortEscape {ch short : Char} (h : shortEscape ch = some short) :
    short ≠ 'u' ∧ shortUnescape short = some ch := by
  unfold shortEscape at h
  split_ifs at h with hself hback htab hline hform hreturn
  · obtain rfl := Option.some.inj h
    rcases hself with rfl | rfl <;> decide
  · obtain rfl := Option.some.inj h
    exact ⟨by decide, by rw [hback]; decide⟩
  · obtain rfl := Option.some.inj h
    exact ⟨by decide, by rw [htab]; decide⟩
  · obtain rfl := Option.some.inj h
    exact ⟨by decide, by rw [hline]; decide⟩
  · obtain rfl := Option.some.inj h
    exact ⟨by decide, by rw [hform]; decide⟩
  · obtain rfl := Option.some.inj h
    exact ⟨by decide, by rw [hreturn]; decide⟩

theorem stringUnits_unicodeEscape {n : ℕ} (h : n < 65536) (rest : List Char) :
    stringUnits (unicodeEscape n ++ rest) = (stringUnits rest).map fun units => .unit n :: units := by
  have hback : ¬ backslash.toNat < 32 := by decide
  rw [unicodeEscape]
  simp only [List.cons_append, List.nil_append]
  rw [stringUnits, if_neg hback, if_pos rfl]
  simp only [if_true, codeUnit_hexDigits h, Option.bind_some]

theorem stringUnits_escapeChar (ch : Char) (rest : List Char) :
    stringUnits (escapeChar ch ++ rest) = (stringUnits rest).map fun units => charUnits ch ++ units := by
  have hback : ¬ backslash.toNat < 32 := by decide
  unfold escapeChar charUnits
  cases hshort : shortEscape ch with
  | some short =>
    obtain ⟨hu, hchar⟩ := shortUnescape_of_shortEscape hshort
    simp only [List.cons_append, List.nil_append, Option.isSome_some, true_or, if_true]
    rw [stringUnits.eq_def]
    simp only [if_neg hback, if_true, if_neg hu, hchar, Option.bind_some]
  | none =>
    have hmeans : ch ≠ backslash := by
      rintro rfl
      cases hshort
    simp only [Option.isSome_none, Bool.false_eq_true, false_or]
    split_ifs with hplain hbasic
    · rw [List.cons_append, List.nil_append, stringUnits.eq_def]
      simp only [if_neg hmeans, if_neg (show ¬ ch.toNat < 32 by omega), List.cons_append, List.nil_append]
    · simp only [stringUnits_unicodeEscape hbasic, List.cons_append, List.nil_append]
    · have hlt := toNat_lt ch
      rw [List.append_assoc, stringUnits_unicodeEscape (by omega), stringUnits_unicodeEscape (by omega),
        Option.map_map]
      rfl

theorem joinUnit_unit {n : ℕ} (h : isHighSurrogate n = false) (rest : List StringUnit) :
    joinUnit (.unit n) rest = .unit n :: rest := by
  cases rest with
  | nil => rfl
  | cons v rest =>
    cases v with
    | char ch => rfl
    | unit m => rw [joinUnit, h, Bool.false_and, if_neg Bool.false_ne_true]

theorem foldr_charUnits (ch : Char) (units : List StringUnit) :
    ((charUnits ch ++ units).foldr joinUnit []).map StringUnit.toChar =
      ch :: (units.foldr joinUnit []).map StringUnit.toChar := by
  have hlt := toNat_lt ch
  have hpair := not_surrogate ch
  unfold charUnits
  split_ifs with hplain hbasic
  · rfl
  · have hhigh : isHighSurrogate ch.toNat = false := decide_eq_false (by omega)
    have hlow : isLowSurrogate ch.toNat = false := decide_eq_false (by omega)
    rw [List.singleton_append, List.foldr_cons, joinUnit_unit hhigh,
      List.map_cons, StringUnit.toChar, hhigh, hlow, Bool.or_false, if_neg Bool.false_ne_true, Char.ofNat_toNat]
  · have hhigh : isHighSurrogate (55296 + (ch.toNat - 65536) / 1024) = true := decide_eq_true (by omega)
    have hlow : isLowSurrogate (56320 + (ch.toNat - 65536) % 1024) = true := decide_eq_true (by omega)
    have hnot : isHighSurrogate (56320 + (ch.toNat - 65536) % 1024) = false := decide_eq_false (by omega)
    have hjoined : 65536 + (55296 + (ch.toNat - 65536) / 1024 - 55296) * 1024 +
        (56320 + (ch.toNat - 65536) % 1024 - 56320) = ch.toNat := by omega
    rw [List.cons_append, List.singleton_append, List.foldr_cons, List.foldr_cons,
      joinUnit_unit hnot, joinUnit, hhigh, hlow, Bool.and_true, if_pos rfl, hjoined,
      Char.ofNat_toNat]
    rfl

theorem takeRaw_cons {ch : Char} (hquote : ch ≠ quotationMark) (hback : ch ≠ backslash) (rest : List Char) :
    takeRaw (ch :: rest) = (takeRaw rest).map fun raw => (ch :: raw.1, raw.2) := by
  rw [takeRaw.eq_def]
  simp only [if_neg hquote, if_neg hback]

theorem takeRaw_escape (ch : Char) (rest : List Char) :
    takeRaw (backslash :: ch :: rest) = (takeRaw rest).map fun raw => (backslash :: ch :: raw.1, raw.2) := rfl

theorem takeRaw_unicodeEscape (n : ℕ) (rest : List Char) :
    takeRaw (unicodeEscape n ++ rest) = (takeRaw rest).map fun raw => (unicodeEscape n ++ raw.1, raw.2) := by
  have hall : ∀ n < 16, hexDigit n ≠ quotationMark ∧ hexDigit n ≠ backslash := by decide
  have hdigit : ∀ m : ℕ, hexDigit (m % 16) ≠ quotationMark ∧ hexDigit (m % 16) ≠ backslash := fun m =>
    hall _ (Nat.mod_lt m (by omega))
  simp only [unicodeEscape, List.cons_append, List.nil_append]
  rw [takeRaw_escape, takeRaw_cons (hdigit _).1 (hdigit _).2, takeRaw_cons (hdigit _).1 (hdigit _).2,
    takeRaw_cons (hdigit _).1 (hdigit _).2, takeRaw_cons (hdigit _).1 (hdigit _).2]
  simp only [Option.map_map]
  rfl

theorem takeRaw_escapeChar (ch : Char) (rest : List Char) :
    takeRaw (escapeChar ch ++ rest) = (takeRaw rest).map fun raw => (escapeChar ch ++ raw.1, raw.2) := by
  unfold escapeChar
  cases hshort : shortEscape ch with
  | some short => exact takeRaw_escape short rest
  | none =>
    have hmeans : ch ≠ quotationMark ∧ ch ≠ backslash := by
      rw [← not_or]
      intro h
      rw [shortEscape, if_pos h] at hshort
      cases hshort
    dsimp only
    split_ifs
    · exact takeRaw_cons hmeans.1 hmeans.2 rest
    · exact takeRaw_unicodeEscape _ rest
    · simp only [List.append_assoc, takeRaw_unicodeEscape, Option.map_map]
      rfl

theorem takeRaw_flatMap (cs rest : List Char) :
    takeRaw (cs.flatMap escapeChar ++ quotationMark :: rest) = some (cs.flatMap escapeChar, rest) := by
  induction cs with
  | nil =>
    rw [List.flatMap_nil, List.nil_append, takeRaw.eq_def]
    simp
  | cons ch cs ih => simp [List.flatMap_cons, List.append_assoc, takeRaw_escapeChar, ih]

theorem stringUnits_flatMap (cs : List Char) :
    stringUnits (cs.flatMap escapeChar) = some (cs.flatMap charUnits) := by
  induction cs with
  | nil => rfl
  | cons ch cs ih => simp [List.flatMap_cons, stringUnits_escapeChar, ih]

theorem joinUnits_flatMap (cs : List Char) : joinUnits (cs.flatMap charUnits) = cs := by
  unfold joinUnits
  induction cs with
  | nil => rfl
  | cons ch cs ih => rw [List.flatMap_cons, foldr_charUnits, ih]

theorem takeString_flatMap (s : String) (rest : List Char) :
    takeString (s.toList.flatMap escapeChar ++ quotationMark :: rest) = some (s, rest) := by
  simp [takeString, takeRaw_flatMap, stringUnits_flatMap, joinUnits_flatMap]

/-! ### Numbers -/

/-- What may stand behind a value. -/
def Delimited (rest : List Char) : Prop := ∀ ch ∈ rest.head?, ch = ',' ∨ ch = ']' ∨ ch = '}'

/-- The same, with blanks. -/
def Ends (rest : List Char) : Prop := ∀ ch ∈ rest.head?, ch = ',' ∨ ch = ']' ∨ ch = '}' ∨ jsonSpace ch = true

theorem Delimited.ends {rest : List Char} (h : Delimited rest) : Ends rest := by
  intro ch hch
  rcases h ch hch with rfl | rfl | rfl <;> simp

/-- Reading off the front does not look behind a delimiter. -/
def Stops (f : List Char → List Char × List Char) (rest : List Char) : Prop :=
  ∀ cs, f (cs ++ rest) = ((f cs).1, (f cs).2 ++ rest)

section Number

variable {rest : List Char}

theorem Ends.ne (h : Ends rest) {ch : Char} {tail : List Char} (hrest : rest = ch :: tail) {c : Char}
    (hc : c ≠ ',' ∧ c ≠ ']' ∧ c ≠ '}' ∧ jsonSpace c = false) : ch ≠ c := by
  rintro rfl
  rcases h ch (by simp [hrest]) with rfl | rfl | rfl | hblank
  · exact hc.1 rfl
  · exact hc.2.1 rfl
  · exact hc.2.2.1 rfl
  · simp [hc.2.2.2] at hblank

theorem not_digit_of_blank {ch : Char} (h : jsonSpace ch = true) : isDigit ch = false := by
  rcases of_decide_eq_true h with rfl | rfl | rfl | rfl <;> decide

theorem Ends.not_digit (h : Ends rest) {ch : Char} {tail : List Char} (hrest : rest = ch :: tail) :
    isDigit ch = false := by
  rcases h ch (by simp [hrest]) with rfl | rfl | rfl | hblank
  · decide
  · decide
  · decide
  · exact not_digit_of_blank hblank

theorem takeWhile_digits (h : Ends rest) (cs : List Char) :
    (cs ++ rest).takeWhile isDigit = cs.takeWhile isDigit ∧
      (cs ++ rest).dropWhile isDigit = cs.dropWhile isDigit ++ rest := by
  induction cs with
  | nil =>
    cases hrest : rest with
    | nil => simp
    | cons ch tail => simp [h.not_digit hrest]
  | cons c cs ih =>
    rw [List.cons_append, List.takeWhile_cons, List.takeWhile_cons, List.dropWhile_cons, List.dropWhile_cons]
    split_ifs
    · exact ⟨congrArg _ ih.1, ih.2⟩
    · exact ⟨rfl, rfl⟩

theorem stops_digits (h : Ends rest) (mark : List Char) : Stops (takeDigits mark) rest := by
  intro cs
  unfold takeDigits
  rw [(takeWhile_digits h cs).1, (takeWhile_digits h cs).2]
  split_ifs
  · simp
  · simp

theorem stops_sign (h : Ends rest) : Stops takeSign rest := by
  intro cs
  cases cs with
  | nil =>
    cases hrest : rest with
    | nil => rfl
    | cons ch tail => simp [takeSign, h.ne hrest (c := '-') (by decide)]
  | cons c cs =>
    rw [List.cons_append, takeSign, takeSign]
    split_ifs
    · simp
    · simp

theorem stops_fraction (h : Ends rest) : Stops takeFraction rest := by
  intro cs
  cases cs with
  | nil =>
    cases hrest : rest with
    | nil => rfl
    | cons ch tail => simp [takeFraction, h.ne hrest (c := '.') (by decide)]
  | cons c cs =>
    rw [List.cons_append, takeFraction, takeFraction]
    split_ifs
    · exact stops_digits h _ cs
    · simp

theorem stops_exponent (h : Ends rest) : Stops takeExponent rest := by
  intro cs
  cases cs with
  | nil =>
    cases hrest : rest with
    | nil => rfl
    | cons ch tail =>
      simp [takeExponent, h.ne hrest (c := 'e') (by decide), h.ne hrest (c := 'E') (by decide)]
  | cons c cs =>
    rw [List.cons_append, takeExponent.eq_def, takeExponent.eq_def]
    dsimp only
    split_ifs with hmark
    · cases cs with
      | nil =>
        -- the mark stands alone: what comes after it is no sign and no digit
        cases hrest : rest with
        | nil => rfl
        | cons ch tail =>
          simp [h.ne hrest (c := '+') (by decide), h.ne hrest (c := '-') (by decide), takeDigits,
            h.not_digit hrest]
      | cons sign digits =>
        dsimp only [List.cons_append]
        split_ifs
        · exact stops_digits h _ digits
        · exact stops_digits h _ (sign :: digits)
    · simp

theorem stops_integer (h : Ends rest) {cs : List Char} {piece : List Char × List Char}
    (hpiece : takeInteger cs = some piece) : takeInteger (cs ++ rest) = some (piece.1, piece.2 ++ rest) := by
  cases cs with
  | nil => cases hpiece
  | cons c cs =>
    rw [takeInteger] at hpiece
    rw [List.cons_append, takeInteger, (takeWhile_digits h cs).1, (takeWhile_digits h cs).2]
    split_ifs at hpiece ⊢ <;> obtain rfl := Option.some.inj hpiece <;> rfl

theorem stops_number (h : Ends rest) {cs : List Char} {piece : List Char × List Char}
    (hpiece : takeNumber cs = some piece) : takeNumber (cs ++ rest) = some (piece.1, piece.2 ++ rest) := by
  obtain ⟨integer, hinteger, rfl⟩ := Option.map_eq_some_iff.mp hpiece
  unfold takeNumber
  simp only [stops_sign h cs, stops_integer h hinteger, Option.map_some, stops_fraction h integer.2,
    stops_exponent h (takeFraction integer.2).2]

end Number

theorem Number.head (n : Number) :
    ∃ d tail, isDigit d = true ∧ (n.literal = d :: tail ∨ n.literal = '-' :: d :: tail) := by
  obtain ⟨integer, hinteger, -⟩ := Option.map_eq_some_iff.mp n.valid
  have hdigit : ∀ d tail, takeInteger (d :: tail) = some integer → isDigit d = true := by
    intro d tail h
    rw [takeInteger] at h
    split_ifs at h with hzero hdigit
    · rw [hzero]
      decide
    · exact hdigit
  cases hcs : n.literal with
  | nil =>
    rw [hcs] at hinteger
    cases hinteger
  | cons c cs =>
    rw [hcs, takeSign] at hinteger
    split_ifs at hinteger with hminus
    · cases cs with
      | nil => cases hinteger
      | cons d tail => exact ⟨d, tail, hdigit d tail hinteger, .inr (by rw [hminus])⟩
    · exact ⟨c, cs, hdigit c cs hinteger, .inl rfl⟩

theorem ne_of_isDigit {d c : Char} (hd : isDigit d = true) (hc : isDigit c = false) : d ≠ c := by
  rintro rfl
  rw [hd] at hc
  cases hc

theorem takeScalar_number (n : Number) {rest : List Char} (h : Ends rest) :
    takeScalar (n.literal ++ rest) = some (.number n, rest) := by
  have hwords : (valueWords.findSome? fun word =>
      (dropWord word.1 (n.literal ++ rest)).map fun rest => (word.2, rest)) = none := by
    obtain ⟨d, tail, hdigit, hcs⟩ := n.head
    have hne : ∀ c : Char, isDigit c = false → ¬ c = d := fun c hc => (ne_of_isDigit hdigit hc).symm
    rcases hcs with hcs | hcs
    · simp [valueWords, dropWord, hcs, hne 'n' (by decide), hne 't' (by decide), hne 'f' (by decide),
        hne 'N' (by decide), hne 'I' (by decide), hne '-' (by decide)]
    · simp [valueWords, dropWord, hcs, hne 'I' (by decide)]
  unfold takeScalar
  rw [hwords]
  simp only [stops_number h n.valid, Option.bind_some, n.valid, dif_pos, List.nil_append]

/-! ### Values -/

mutual

/-- Every object has distinct keys, as the members of a dictionary do. -/
def Json.Distinct : Json → Prop
  | .array elements => ElementsDistinct elements
  | .object members => (members.map Prod.fst).Nodup ∧ MembersDistinct members
  | _ => True

def ElementsDistinct : List Json → Prop
  | [] => True
  | v :: rest => v.Distinct ∧ ElementsDistinct rest

def MembersDistinct : List (String × Json) → Prop
  | [] => True
  | (_, v) :: rest => v.Distinct ∧ MembersDistinct rest

end

theorem foldl_set {pairs : List (String × Json)} {d : Dict String Json}
    (h : (d.keys ++ pairs.map Prod.fst).Nodup) :
    (pairs.foldl (fun d pair => d.set pair.1 pair.2) d).entries = d.entries ++ pairs := by
  induction pairs generalizing d with
  | nil => simp
  | cons pair pairs ih =>
    have hfresh : pair.1 ∉ d.keys := fun hmem =>
      (List.nodup_append.mp h).2.2 _ hmem _ (List.mem_map_of_mem List.mem_cons_self) rfl
    have hset : (d.set pair.1 pair.2).entries = d.entries ++ [(pair.1, pair.2)] := if_neg hfresh
    have hkeys : (d.set pair.1 pair.2).keys ++ pairs.map Prod.fst = d.keys ++ (pair :: pairs).map Prod.fst := by
      simp [Dict.keys, hset]
    rw [List.foldl_cons, ih (by rw [hkeys]; exact h), hset, List.append_assoc]
    rfl

theorem dictOf_eq {pairs : List (String × Json)} (h : (pairs.map Prod.fst).Nodup) : dictOf pairs = pairs := by
  rw [dictOf, foldl_set (by simpa [Dict.keys] using h)]
  rfl

theorem skipSpace_cons {ch : Char} (h : jsonSpace ch = false) (cs : List Char) :
    skipSpace (ch :: cs) = ch :: cs := by
  simp [skipSpace, h]

theorem expect_cons {ch : Char} (h : jsonSpace ch = false) (c : Char) (cs : List Char) :
    expect c (ch :: cs) = if ch = c then some cs else none := by
  rw [expect, skipSpace_cons h]

theorem expect_self {ch : Char} (h : jsonSpace ch = false) (cs : List Char) : expect ch (ch :: cs) = some cs := by
  rw [expect_cons h, if_pos rfl]

theorem expect_ne {ch c : Char} (h : jsonSpace ch = false) (hne : ch ≠ c) (cs : List Char) :
    expect c (ch :: cs) = none := by
  rw [expect_cons h, if_neg hne]

theorem dumps_head (v : Json) : ∃ ch tail, dumps v = ch :: tail ∧ jsonSpace ch = false ∧ ch ≠ ']' := by
  cases v with
  | null => exact ⟨'n', _, rfl, by decide, by decide⟩
  | bool b => cases b <;> exact ⟨_, _, rfl, by decide, by decide⟩
  | number n =>
    obtain ⟨d, tail, hdigit, hcs | hcs⟩ := n.head
    · refine ⟨d, tail, hcs, ?_, ne_of_isDigit hdigit (by decide)⟩
      by_contra hspace
      have hblank : jsonSpace d = true := by simpa using hspace
      rcases of_decide_eq_true hblank with rfl | rfl | rfl | rfl <;> exact absurd hdigit (by decide)
    · exact ⟨'-', _, hcs, by decide, by decide⟩
  | nan => exact ⟨'N', _, rfl, by decide, by decide⟩
  | infinity negative => cases negative <;> exact ⟨_, _, rfl, by decide, by decide⟩
  | string s => exact ⟨quotationMark, _, rfl, by decide, by decide⟩
  | array elements => exact ⟨'[', _, by rw [dumps], by decide, by decide⟩
  | object members => exact ⟨'{', _, by rw [dumps], by decide, by decide⟩

theorem skipSpace_dumps (v : Json) (cs : List Char) : skipSpace (dumps v ++ cs) = dumps v ++ cs := by
  obtain ⟨ch, tail, hv, hspace, -⟩ := dumps_head v
  rw [hv, List.cons_append, skipSpace_cons hspace]

theorem skipSpace_dumpElements (v : Json) (vs : List Json) (cs : List Char) :
    skipSpace (dumpElements (v :: vs) ++ cs) = dumpElements (v :: vs) ++ cs := by
  rw [dumpElements, List.append_assoc, List.append_assoc, skipSpace_dumps]

theorem skipSpace_dumpMembers (m : String × Json) (ms : List (String × Json)) (cs : List Char) :
    skipSpace (dumpMembers (m :: ms) ++ cs) = dumpMembers (m :: ms) ++ cs := by
  rw [dumpMembers, dumpString]
  simp only [List.cons_append]
  rw [skipSpace_cons (by decide)]

/-- What is to be shown of a value, of elements and of members that are written: with fuel for their length,
they are read back, up to what stands behind them. -/
def ReadsBack (v : Json) : Prop :=
  ∀ fuel rest, Delimited rest → 2 * (dumps v).length ≤ fuel → value fuel (dumps v ++ rest) = some (v, rest)

def ElementsReadBack (vs : List Json) : Prop :=
  ∀ fuel rest, 2 * (dumpElements vs).length < fuel → vs ≠ [] →
    elements fuel (dumpElements vs ++ ']' :: rest) = some (vs, rest)

def MembersReadBack (ms : List (String × Json)) : Prop :=
  ∀ fuel rest, 2 * (dumpMembers ms).length < fuel → ms ≠ [] →
    members fuel (dumpMembers ms ++ '}' :: rest) = some (ms, rest)

theorem readsBack_word {v : Json} {ch : Char} {word : List Char} (hv : dumps v = ch :: word)
    (hscalar : ∀ rest, takeScalar (dumps v ++ rest) = some (v, rest))
    (hch : ch ≠ quotationMark ∧ ch ≠ '{' ∧ ch ≠ '[') : ReadsBack v := by
  intro fuel rest _ hfuel
  cases fuel with
  | zero => simp [hv] at hfuel
  | succ fuel =>
    have hrest := hscalar rest
    rw [hv, List.cons_append] at hrest ⊢
    rw [value, if_neg hch.1, if_neg hch.2.1, if_neg hch.2.2, hrest]

theorem readsBack_number (n : Number) : ReadsBack (.number n) := by
  intro fuel rest hrest hfuel
  have hscalar := takeScalar_number n hrest.ends
  obtain ⟨ch, tail, hcs, hch⟩ : ∃ ch tail, n.literal = ch :: tail ∧ ch ≠ quotationMark ∧ ch ≠ '{' ∧ ch ≠ '[' := by
    obtain ⟨d, tail, hdigit, hcs | hcs⟩ := n.head
    · exact ⟨d, tail, hcs, ne_of_isDigit hdigit (by decide), ne_of_isDigit hdigit (by decide),
        ne_of_isDigit hdigit (by decide)⟩
    · exact ⟨'-', _, hcs, by decide⟩
  cases fuel with
  | zero => simp [dumps, hcs] at hfuel
  | succ fuel =>
    rw [dumps]
    rw [hcs, List.cons_append] at hscalar ⊢
    rw [value, if_neg hch.1, if_neg hch.2.1, if_neg hch.2.2, hscalar]

theorem readsBack_string (s : String) : ReadsBack (.string s) := by
  intro fuel rest _ hfuel
  cases fuel with
  | zero => simp [dumps, dumpString] at hfuel
  | succ fuel =>
    rw [dumps, dumpString, List.cons_append, List.append_assoc, value, if_pos rfl]
    show (takeString (s.toList.flatMap escapeChar ++ quotationMark :: rest)).map _ = _
    rw [takeString_flatMap]
    rfl

theorem readsBack_array {vs : List Json} (h : ElementsReadBack vs) : ReadsBack (.array vs) := by
  intro fuel rest _ hfuel
  have hlength : (dumps (.array vs)).length = (dumpElements vs).length + 2 := by simp [dumps]
  cases fuel with
  | zero => omega
  | succ fuel =>
    rw [dumps, List.cons_append, List.append_assoc, List.singleton_append, value, if_neg (by decide),
      if_neg (by decide), if_pos rfl]
    cases vs with
    | nil => rfl
    | cons v vs =>
      have helements := h fuel rest (by omega) (by simp)
      have hexpect : expect ']' (dumpElements (v :: vs) ++ ']' :: rest) = none := by
        obtain ⟨ch, tail, hv, hspace, hch⟩ := dumps_head v
        rw [dumpElements, hv, List.cons_append, List.cons_append, List.cons_append, expect_ne hspace hch]
      rw [hexpect, skipSpace_dumpElements, helements]
      rfl

theorem elementsReadBack_cons {v : Json} {vs : List Json} (hv : ReadsBack v) (hvs : ElementsReadBack vs) :
    ElementsReadBack (v :: vs) := by
  intro fuel rest hfuel _
  cases fuel with
  | zero => omega
  | succ fuel =>
    cases vs with
    | nil =>
      simp only [dumpElements, List.isEmpty_nil, if_true, List.append_nil] at hfuel ⊢
      have hvalue := hv fuel (']' :: rest) (by simp [Delimited]) (by omega)
      rw [elements, hvalue]
      simp [expect_self (show jsonSpace ']' = false by decide)]
    | cons w vs =>
      rw [dumpElements, List.isEmpty_cons, if_neg Bool.false_ne_true, List.append_assoc] at hfuel ⊢
      simp only [List.length_append, List.length_cons, List.length_nil] at hfuel
      have hlater := hvs fuel rest (by omega) (by simp)
      have hvalue := hv fuel (',' :: ' ' :: (dumpElements (w :: vs) ++ ']' :: rest)) (by simp [Delimited])
        (by omega)
      have hend : ∀ cs, expect ']' (',' :: cs) = none := expect_ne (by decide) (by decide)
      have hcomma : ∀ cs, expect ',' (',' :: cs) = some cs := expect_self (by decide)
      have hskip : skipSpace (' ' :: (dumpElements (w :: vs) ++ ']' :: rest)) =
          dumpElements (w :: vs) ++ ']' :: rest := skipSpace_dumpElements w vs _
      rw [elements]
      simp only [List.append_assoc, List.cons_append, List.nil_append, hvalue, Option.bind_some, hend, hcomma,
        hskip, hlater, Option.map_some]

theorem readsBack_object {ms : List (String × Json)} (hkeys : (ms.map Prod.fst).Nodup) (h : MembersReadBack ms) :
    ReadsBack (.object ms) := by
  intro fuel rest _ hfuel
  have hlength : (dumps (.object ms)).length = (dumpMembers ms).length + 2 := by simp [dumps]
  cases fuel with
  | zero => omega
  | succ fuel =>
    rw [dumps, List.cons_append, List.append_assoc, List.singleton_append, value, if_neg (by decide), if_pos rfl]
    cases ms with
    | nil => rfl
    | cons m ms =>
      obtain ⟨key, v⟩ := m
      have hmembers := h fuel rest (by omega) (by simp)
      have hexpect : expect '}' (dumpMembers ((key, v) :: ms) ++ '}' :: rest) = none := by
        rw [dumpMembers, dumpString]
        simp only [List.cons_append]
        rw [expect_ne (by decide) (by decide)]
      rw [hexpect, skipSpace_dumpMembers, hmembers]
      simp only [Option.map_some, dictOf_eq hkeys]

theorem members_member {fuel : ℕ} {key : String} {v : Json} {later : List Char}
    (hv : value fuel (dumps v ++ later) = some (v, later)) :
    members (fuel + 1) (dumpString key ++ [':', ' '] ++ dumps v ++ later) =
      match expect '}' later with
      | some rest => some ([(key, v)], rest)
      | none =>
        (expect ',' later).bind fun rest =>
        (members fuel (skipSpace rest)).map fun pairs => ((key, v) :: pairs.1, pairs.2) := by
  have hquote : ∀ cs, dropWord [quotationMark] (quotationMark :: cs) = some cs := fun cs => rfl
  have hcolon : ∀ cs, expect ':' (':' :: cs) = some cs := expect_self (by decide)
  have hblank : skipSpace (' ' :: (dumps v ++ later)) = dumps v ++ later := skipSpace_dumps v later
  rw [members]
  cases hclose : expect '}' later <;>
    simp only [dumpString, List.cons_append, List.append_assoc, List.nil_append, hquote, Option.bind_some,
      takeString_flatMap, hcolon, hblank, hv, hclose]

theorem membersReadBack_cons {key : String} {v : Json} {ms : List (String × Json)} (hv : ReadsBack v)
    (hms : MembersReadBack ms) : MembersReadBack ((key, v) :: ms) := by
  intro fuel rest hfuel _
  cases fuel with
  | zero => omega
  | succ fuel =>
    cases ms with
    | nil =>
      simp only [dumpMembers, List.isEmpty_nil, if_true, List.append_nil, List.length_append] at hfuel ⊢
      have hvalue := hv fuel ('}' :: rest) (by simp [Delimited]) (by omega)
      rw [members_member hvalue]
      simp [expect_self (show jsonSpace '}' = false by decide)]
    | cons m ms =>
      rw [dumpMembers, List.isEmpty_cons, if_neg Bool.false_ne_true] at hfuel ⊢
      simp only [List.length_append, List.length_cons, List.length_nil] at hfuel
      have hlater := hms fuel rest (by omega) (by simp)
      have hvalue := hv fuel (',' :: ' ' :: (dumpMembers (m :: ms) ++ '}' :: rest)) (by simp [Delimited])
        (by omega)
      have hend : ∀ cs, expect '}' (',' :: cs) = none := expect_ne (by decide) (by decide)
      have hcomma : ∀ cs, expect ',' (',' :: cs) = some cs := expect_self (by decide)
      have hskip : skipSpace (' ' :: (dumpMembers (m :: ms) ++ '}' :: rest)) =
          dumpMembers (m :: ms) ++ '}' :: rest := skipSpace_dumpMembers m ms _
      have hmember := @members_member _ key _ _ hvalue
      simp only [List.append_assoc, List.cons_append, List.nil_append] at hmember ⊢
      rw [hmember]
      simp only [hend, hcomma, Option.bind_some, hskip, hlater, Option.map_some]

mutual

/-- **A value that is written is read back.** -/
theorem readsBack_dumps : ∀ v : Json, v.Distinct → ReadsBack v
  | .null, _ => readsBack_word rfl (fun _ => rfl) (by decide)
  | .bool true, _ => readsBack_word rfl (fun _ => rfl) (by decide)
  | .bool false, _ => readsBack_word rfl (fun _ => rfl) (by decide)
  | .number n, _ => readsBack_number n
  | .nan, _ => readsBack_word rfl (fun _ => rfl) (by decide)
  | .infinity true, _ => readsBack_word rfl (fun _ => rfl) (by decide)
  | .infinity false, _ => readsBack_word rfl (fun _ => rfl) (by decide)
  | .string s, _ => readsBack_string s
  | .array vs, h => readsBack_array (elementsReadBack_dumps vs h)
  | .object ms, h => readsBack_object h.1 (membersReadBack_dumps ms h.2)

theorem elementsReadBack_dumps : ∀ vs : List Json, ElementsDistinct vs → ElementsReadBack vs
  | [], _ => fun _ _ _ hne => absurd rfl hne
  | v :: vs, h => elementsReadBack_cons (readsBack_dumps v h.1) (elementsReadBack_dumps vs h.2)

theorem membersReadBack_dumps : ∀ ms : List (String × Json), MembersDistinct ms → MembersReadBack ms
  | [], _ => fun _ _ _ hne => absurd rfl hne
  | (_, v) :: ms, h => membersReadBack_cons (readsBack_dumps v h.1) (membersReadBack_dumps ms h.2)

end

/-- **Reading undoes writing.** -/
theorem loads_dumps {v : Json} (h : v.Distinct) : loads (dumps v) = some v := by
  have hread := readsBack_dumps v h (2 * (dumps v).length + 1) [] (by simp [Delimited]) (by omega)
  have hskip := skipSpace_dumps v []
  rw [List.append_nil] at hread hskip
  rw [loads, hskip, hread]
  rfl

end Lib
