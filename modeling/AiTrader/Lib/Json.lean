import AiTrader.Lib.Braces
import AiTrader.Lib.Dict
import Mathlib.Data.List.TakeWhile

/-!
# JSON as the standard library writes and reads it

`dumps` is `json.dumps` with its defaults (ASCII only, a blank after commas and colons), `loads` is `json.loads`:
it takes more than the standard asks for (`NaN`, `Infinity`), refuses control characters in strings, and of
repeated keys keeps the last value. Its limits on the depth of nesting and on the length of integers are not
modelled. A lone surrogate in an escape, which no `Char` can be, becomes the replacement character.

To the scanner of braces every value is neutral, the one that is written (`neutral_dumps`) and the one that is
read (`read_spec`): what counts as a brace or a string is the same for both.

The reader is fuelled by the length of the text and takes tokens off its front; each of its parts has one lemma that
says what it has taken (`skipSpace_spec`, `takeRaw_spec`, `takeQuoted_spec`, `comma_spec`). That a value is neutral
follows from these by induction over the reader's calls, as each token is neutral by itself: brackets and commas are
nothing to the scanner, a string is passed as a whole, and the braces of an object match.
-/

namespace Lib

open Scan

/-! ### Numbers -/

def isDigit (ch : Char) : Bool := decide ('0' ≤ ch ∧ ch ≤ '9')

/-- A fraction or an exponent: its mark, then digits. Without digits nothing is taken. -/
def takeDigits (mark cs : List Char) : List Char × List Char :=
  if (cs.takeWhile isDigit).isEmpty then ([], mark ++ cs)
  else (mark ++ cs.takeWhile isDigit, cs.dropWhile isDigit)

def takeSign : List Char → List Char × List Char
  | ch :: rest => if ch = '-' then ([ch], rest) else ([], ch :: rest)
  | [] => ([], [])

def takeInteger : List Char → Option (List Char × List Char)
  | ch :: rest =>
    if ch = '0' then some ([ch], rest)
    else if isDigit ch then some (ch :: rest.takeWhile isDigit, rest.dropWhile isDigit)
    else none
  | [] => none

def takeFraction : List Char → List Char × List Char
  | ch :: rest => if ch = '.' then takeDigits [ch] rest else ([], ch :: rest)
  | [] => ([], [])

def takeExponent : List Char → List Char × List Char
  | ch :: rest =>
    if ch = 'e' ∨ ch = 'E' then
      match rest with
      | sign :: digits =>
        if sign = '+' ∨ sign = '-' then takeDigits [ch, sign] digits else takeDigits [ch] rest
      | [] => ([], [ch])
    else ([], ch :: rest)
  | [] => ([], [])

/-- The longest number at the front, and what comes after it. -/
def takeNumber (cs : List Char) : Option (List Char × List Char) :=
  let sign := takeSign cs
  (takeInteger sign.2).map fun integer =>
    let fraction := takeFraction integer.2
    let exponent := takeExponent fraction.2
    (sign.1 ++ integer.1 ++ fraction.1 ++ exponent.1, exponent.2)

/-- A number is its literal. -/
structure Number where
  literal : List Char
  valid : takeNumber literal = some (literal, [])

/-! ### Values -/

inductive Json
  | null
  | bool (b : Bool)
  | number (n : Number)
  | nan
  | infinity (negative : Bool)
  | string (s : String)
  | array (elements : List Json)
  | object (members : List (String × Json))

/-! ### Writing -/

def hexDigit (n : ℕ) : Char := if n < 10 then Char.ofNat (48 + n) else Char.ofNat (87 + n)

/-- The escape of a code unit. -/
def unicodeEscape (n : ℕ) : List Char :=
  [backslash, 'u', hexDigit (n / 4096 % 16), hexDigit (n / 256 % 16), hexDigit (n / 16 % 16), hexDigit (n % 16)]

/-- The short escapes, without their backslash. -/
def shortEscape (ch : Char) : Option Char :=
  if ch = quotationMark ∨ ch = backslash then some ch
  else if ch = Char.ofNat 8 then some 'b'
  else if ch = Char.ofNat 9 then some 't'
  else if ch = Char.ofNat 10 then some 'n'
  else if ch = Char.ofNat 12 then some 'f'
  else if ch = Char.ofNat 13 then some 'r'
  else none

/-- What a character of a string is written as. -/
def escapeChar (ch : Char) : List Char :=
  match shortEscape ch with
  | some short => [backslash, short]
  | none =>
    if 32 ≤ ch.toNat ∧ ch.toNat ≤ 126 then [ch]
    else if ch.toNat < 65536 then unicodeEscape ch.toNat
    else
      unicodeEscape (55296 + (ch.toNat - 65536) / 1024) ++ unicodeEscape (56320 + (ch.toNat - 65536) % 1024)

def dumpString (s : String) : List Char :=
  quotationMark :: (s.toList.flatMap escapeChar ++ [quotationMark])

mutual

def dumps : Json → List Char
  | .null => "null".toList
  | .bool b => if b then "true".toList else "false".toList
  | .number n => n.literal
  | .nan => "NaN".toList
  | .infinity negative => if negative then "-Infinity".toList else "Infinity".toList
  | .string s => dumpString s
  | .array elements => '[' :: (dumpElements elements ++ [']'])
  | .object members => '{' :: (dumpMembers members ++ ['}'])

def dumpElements : List Json → List Char
  | [] => []
  | v :: rest => dumps v ++ (if rest.isEmpty then [] else [',', ' ']) ++ dumpElements rest

def dumpMembers : List (String × Json) → List Char
  | [] => []
  | (key, v) :: rest =>
    dumpString key ++ [':', ' '] ++ dumps v ++ (if rest.isEmpty then [] else [',', ' ']) ++ dumpMembers rest

end

/-! ### Reading -/

def jsonSpace (ch : Char) : Bool :=
  decide (ch = ' ' ∨ ch = Char.ofNat 9 ∨ ch = Char.ofNat 10 ∨ ch = Char.ofNat 13)

def skipSpace (cs : List Char) : List Char := cs.dropWhile jsonSpace

/-- What comes after `ch`, when it stands at the front, blanks aside. -/
def expect (ch : Char) (cs : List Char) : Option (List Char) :=
  match skipSpace cs with
  | c :: rest => if c = ch then some rest else none
  | [] => none

/-- What comes after `word`, when it stands at the front. -/
def dropWord : List Char → List Char → Option (List Char)
  | [], cs => some cs
  | c :: word, ch :: cs => if c = ch then dropWord word cs else none
  | _ :: _, [] => none

/-- A string as it is written, up to its closing quotation mark, and what comes after that. -/
def takeRaw : List Char → Option (List Char × List Char)
  | [] => none
  | ch :: rest =>
    if ch = quotationMark then some ([], rest)
    else if ch = backslash then
      match rest with
      | [] => none
      | escaped :: rest => (takeRaw rest).map fun raw => (backslash :: escaped :: raw.1, raw.2)
    else (takeRaw rest).map fun raw => (ch :: raw.1, raw.2)

def hexValue (ch : Char) : Option ℕ :=
  if isDigit ch then some (ch.toNat - 48)
  else if 'a' ≤ ch ∧ ch ≤ 'f' then some (ch.toNat - 87)
  else if 'A' ≤ ch ∧ ch ≤ 'F' then some (ch.toNat - 55)
  else none

/-- The code unit of four hexadecimal digits. -/
def codeUnit (a b c d : Char) : Option ℕ :=
  match hexValue a, hexValue b, hexValue c, hexValue d with
  | some a, some b, some c, some d => some (a * 4096 + b * 256 + c * 16 + d)
  | _, _, _, _ => none

def shortUnescape (ch : Char) : Option Char :=
  if ch = quotationMark ∨ ch = backslash ∨ ch = '/' then some ch
  else if ch = 'b' then some (Char.ofNat 8)
  else if ch = 't' then some (Char.ofNat 9)
  else if ch = 'n' then some (Char.ofNat 10)
  else if ch = 'f' then some (Char.ofNat 12)
  else if ch = 'r' then some (Char.ofNat 13)
  else none

def replacementChar : Char := Char.ofNat 65533

/-- The code units a string stands for: those of its escapes, and a whole character where none is escaped. -/
inductive StringUnit
  | char (ch : Char)
  | unit (n : ℕ)

/-- The units of a string; none when it holds a control character or an escape that is not one. -/
def stringUnits : List Char → Option (List StringUnit)
  | [] => some []
  | ch :: rest =>
    if ch.toNat < 32 then none
    else if ch = backslash then
      match rest with
      | [] => none
      | escaped :: rest =>
        if escaped = 'u' then
          match rest with
          | a :: b :: c :: d :: rest =>
            (codeUnit a b c d).bind fun n => (stringUnits rest).map fun units => .unit n :: units
          | _ => none
        else (shortUnescape escaped).bind fun ch => (stringUnits rest).map fun units => .char ch :: units
    else (stringUnits rest).map fun units => .char ch :: units

def isHighSurrogate (n : ℕ) : Bool := decide (55296 ≤ n ∧ n < 56320)

def isLowSurrogate (n : ℕ) : Bool := decide (56320 ≤ n ∧ n < 57344)

/-- One more unit in front. Two surrogates that belong together are one character. -/
def joinUnit : StringUnit → List StringUnit → List StringUnit
  | .unit n, .unit m :: rest =>
    if isHighSurrogate n && isLowSurrogate m then
      .char (Char.ofNat (65536 + (n - 55296) * 1024 + (m - 56320))) :: rest
    else .unit n :: .unit m :: rest
  | u, rest => u :: rest

def StringUnit.toChar : StringUnit → Char
  | .char ch => ch
  | .unit n => if isHighSurrogate n || isLowSurrogate n then replacementChar else Char.ofNat n

def joinUnits (units : List StringUnit) : List Char := (units.foldr joinUnit []).map StringUnit.toChar

/-- A string, from after its opening quotation mark. -/
def takeString (cs : List Char) : Option (String × List Char) :=
  (takeRaw cs).bind fun raw => (stringUnits raw.1).map fun units => (String.ofList (joinUnits units), raw.2)

/-- The words that stand for a value. -/
def valueWords : List (List Char × Json) :=
  [("null".toList, .null), ("true".toList, .bool true), ("false".toList, .bool false), ("NaN".toList, .nan),
    ("Infinity".toList, .infinity false), ("-Infinity".toList, .infinity true)]

/-- A value that is not a string, an array or an object. -/
def takeScalar (cs : List Char) : Option (Json × List Char) :=
  match valueWords.findSome? fun word => (dropWord word.1 cs).map fun rest => (word.2, rest) with
  | some v => some v
  | none =>
    (takeNumber cs).bind fun n =>
      if h : takeNumber n.1 = some (n.1, []) then some (.number ⟨n.1, h⟩, n.2) else none

/-- The members of a dictionary that is filled from pairs. -/
def dictOf (pairs : List (String × Json)) : List (String × Json) :=
  (pairs.foldl (fun d pair => d.set pair.1 pair.2) Dict.empty).entries

mutual

/-- A value, and what comes after it. -/
def value : ℕ → List Char → Option (Json × List Char)
  | 0, _ => none
  | _, [] => none
  | fuel + 1, ch :: rest =>
    if ch = quotationMark then (takeString rest).map fun s => (.string s.1, s.2)
    else if ch = '{' then
      match expect '}' rest with
      | some rest => some (.object [], rest)
      | none => (members fuel (skipSpace rest)).map fun pairs => (.object (dictOf pairs.1), pairs.2)
    else if ch = '[' then
      match expect ']' rest with
      | some rest => some (.array [], rest)
      | none => (elements fuel (skipSpace rest)).map fun vs => (.array vs.1, vs.2)
    else takeScalar (ch :: rest)

/-- The members of an object that is not empty, up to and with its closing brace. -/
def members : ℕ → List Char → Option (List (String × Json) × List Char)
  | 0, _ => none
  | fuel + 1, cs =>
    (dropWord [quotationMark] cs).bind fun rest =>
    (takeString rest).bind fun key =>
    (expect ':' key.2).bind fun rest =>
    (value fuel (skipSpace rest)).bind fun v =>
      match expect '}' v.2 with
      | some rest => some ([(key.1, v.1)], rest)
      | none =>
        (expect ',' v.2).bind fun rest =>
        (members fuel (skipSpace rest)).map fun pairs => ((key.1, v.1) :: pairs.1, pairs.2)

/-- The elements of an array that is not empty, up to and with its closing bracket. -/
def elements : ℕ → List Char → Option (List Json × List Char)
  | 0, _ => none
  | fuel + 1, cs =>
    (value fuel cs).bind fun v =>
      match expect ']' v.2 with
      | some rest => some ([v.1], rest)
      | none =>
        (expect ',' v.2).bind fun rest =>
        (elements fuel (skipSpace rest)).map fun vs => (v.1 :: vs.1, vs.2)

end

/-- The one value of a text. Every nested value is shorter than what it stands in, so the length is fuel
enough. -/
def loads (cs : List Char) : Option Json :=
  match value (2 * cs.length + 1) (skipSpace cs) with
  | some (v, rest) => if (skipSpace rest).isEmpty then some v else none
  | none => none

/-! ### What is written is neutral -/

theorem hexDigit_inert {n : ℕ} (h : n < 16) : Inert [hexDigit n] := by
  have hall : ∀ n < 16, hexDigit n ≠ backslash ∧ hexDigit n ≠ quotationMark := by decide
  exact inert_char (hall n h).1 (hall n h).2

theorem unicodeEscape_inert (n : ℕ) : Inert (unicodeEscape n) := by
  have hmod : ∀ m : ℕ, m % 16 < 16 := fun m => Nat.mod_lt m (by omega)
  have hdigits := (hexDigit_inert (hmod (n / 4096))).append ((hexDigit_inert (hmod (n / 256))).append
    ((hexDigit_inert (hmod (n / 16))).append (hexDigit_inert (hmod n))))
  exact (inert_escape 'u').append hdigits

theorem escapeChar_inert (ch : Char) : Inert (escapeChar ch) := by
  unfold escapeChar
  cases hshort : shortEscape ch with
  | some short => exact inert_escape short
  | none =>
    have hmeans : ch ≠ quotationMark ∧ ch ≠ backslash := by
      rw [← not_or]
      intro h
      rw [shortEscape, if_pos h] at hshort
      cases hshort
    dsimp only
    split_ifs
    · exact inert_char hmeans.2 hmeans.1
    · exact unicodeEscape_inert _
    · exact (unicodeEscape_inert _).append (unicodeEscape_inert _)

theorem dumpString_neutral (s : String) : Neutral (dumpString s) := by
  have hinert : ∀ cs : List Char, Inert (cs.flatMap escapeChar) := by
    intro cs
    induction cs with
    | nil => exact inert_nil
    | cons ch cs ih =>
      rw [List.flatMap_cons]
      exact (escapeChar_inert ch).append ih
  exact (hinert s.toList).neutral

/-- What takes a piece off the front of a text, the piece being one that the scanner ignores. -/
def Takes (cs : List Char) (piece : List Char × List Char) : Prop :=
  piece.1 ++ piece.2 = cs ∧ ∀ ch ∈ piece.1, plain ch = true

theorem plain_of_isDigit {ch : Char} (h : isDigit ch = true) : plain ch = true := by
  have hdigit := of_decide_eq_true h
  refine decide_eq_true ⟨?_, ?_, ?_, ?_⟩
  all_goals
    rintro rfl
    exact absurd hdigit (by decide)

theorem takes_digits {mark : List Char} (hmark : ∀ ch ∈ mark, plain ch = true) (cs : List Char) :
    Takes (mark ++ cs) (takeDigits mark cs) := by
  unfold takeDigits
  split_ifs
  · exact ⟨rfl, fun ch hmem => (nomatch hmem)⟩
  · refine ⟨by rw [List.append_assoc, List.takeWhile_append_dropWhile], fun ch hmem => ?_⟩
    rcases List.mem_append.mp hmem with hmem | hmem
    · exact hmark ch hmem
    · exact plain_of_isDigit (List.mem_takeWhile_imp hmem)

theorem takes_sign (cs : List Char) : Takes cs (takeSign cs) := by
  cases cs with
  | nil => exact ⟨rfl, fun ch hmem => (nomatch hmem)⟩
  | cons ch rest =>
    rw [takeSign]
    split_ifs with hsign
    · exact ⟨rfl, by simp [hsign]; decide⟩
    · exact ⟨rfl, fun ch hmem => (nomatch hmem)⟩

theorem takes_integer {cs : List Char} {piece : List Char × List Char} (h : takeInteger cs = some piece) :
    Takes cs piece := by
  cases cs with
  | nil => cases h
  | cons ch rest =>
    rw [takeInteger] at h
    split_ifs at h with hzero hdigit
    · obtain rfl := Option.some.inj h
      exact ⟨rfl, by simp [hzero]; decide⟩
    · obtain rfl := Option.some.inj h
      refine ⟨by rw [List.cons_append, List.takeWhile_append_dropWhile], fun c hmem => ?_⟩
      rcases List.mem_cons.mp hmem with rfl | hmem
      · exact plain_of_isDigit hdigit
      · exact plain_of_isDigit (List.mem_takeWhile_imp hmem)

theorem takes_fraction (cs : List Char) : Takes cs (takeFraction cs) := by
  cases cs with
  | nil => exact ⟨rfl, fun ch hmem => (nomatch hmem)⟩
  | cons ch rest =>
    rw [takeFraction]
    split_ifs with hpoint
    · exact takes_digits (by simp [hpoint]; decide) rest
    · exact ⟨rfl, fun ch hmem => (nomatch hmem)⟩

theorem takes_exponent (cs : List Char) : Takes cs (takeExponent cs) := by
  have hplain : ∀ ch : Char, ch = 'e' ∨ ch = 'E' ∨ ch = '+' ∨ ch = '-' → plain ch = true := by
    rintro ch (rfl | rfl | rfl | rfl) <;> decide
  cases cs with
  | nil => exact ⟨rfl, fun ch hmem => (nomatch hmem)⟩
  | cons ch rest =>
    unfold takeExponent
    dsimp only
    split_ifs with hmark
    · have hch : plain ch = true := hplain ch (hmark.imp id Or.inl)
      cases rest with
      | nil => exact ⟨rfl, fun ch hmem => (nomatch hmem)⟩
      | cons sign digits =>
        dsimp only
        split_ifs with hsign
        · have hs : plain sign = true := hplain sign (Or.inr (Or.inr hsign))
          exact takes_digits (by simp [hch, hs]) digits
        · exact takes_digits (by simp [hch]) (sign :: digits)
    · exact ⟨rfl, fun ch hmem => (nomatch hmem)⟩

theorem takes_number {cs : List Char} {piece : List Char × List Char} (h : takeNumber cs = some piece) :
    Takes cs piece := by
  obtain ⟨integer, hinteger, rfl⟩ := Option.map_eq_some_iff.mp h
  obtain ⟨hsign, hsignPlain⟩ := takes_sign cs
  obtain ⟨hint, hintPlain⟩ := takes_integer hinteger
  obtain ⟨hfraction, hfractionPlain⟩ := takes_fraction integer.2
  obtain ⟨hexponent, hexponentPlain⟩ := takes_exponent (takeFraction integer.2).2
  refine ⟨?_, fun ch hmem => ?_⟩
  · dsimp only
    rw [List.append_assoc, List.append_assoc, List.append_assoc, hexponent, hfraction, hint, hsign]
  · dsimp only at hmem
    simp only [List.mem_append] at hmem
    rcases hmem with ((hmem | hmem) | hmem) | hmem
    · exact hsignPlain ch hmem
    · exact hintPlain ch hmem
    · exact hfractionPlain ch hmem
    · exact hexponentPlain ch hmem

theorem Number.neutral (n : Number) : Neutral n.literal := neutral_of_plain (takes_number n.valid).2

mutual

/-- **The scanner does not see a value that is written.** -/
theorem neutral_dumps : ∀ v : Json, Neutral (dumps v)
  | .null => neutral_of_all (by decide)
  | .bool true => neutral_of_all (by decide)
  | .bool false => neutral_of_all (by decide)
  | .number n => n.neutral
  | .nan => neutral_of_all (by decide)
  | .infinity true => neutral_of_all (by decide)
  | .infinity false => neutral_of_all (by decide)
  | .string s => dumpString_neutral s
  | .array elements =>
    Neutral.cons (by decide) ((neutral_dumpElements elements).append (neutral_plain (by decide)))
  | .object members => (neutral_dumpMembers members).braced

theorem neutral_dumpElements : ∀ elements : List Json, Neutral (dumpElements elements)
  | [] => neutral_nil
  | v :: rest => by
    have hcomma : Neutral (if rest.isEmpty then [] else [',', ' ']) := by
      split_ifs
      · exact neutral_nil
      · exact neutral_of_all (by decide)
    exact ((neutral_dumps v).append hcomma).append (neutral_dumpElements rest)

theorem neutral_dumpMembers : ∀ members : List (String × Json), Neutral (dumpMembers members)
  | [] => neutral_nil
  | (key, v) :: rest => by
    have hcomma : Neutral (if rest.isEmpty then [] else [',', ' ']) := by
      split_ifs
      · exact neutral_nil
      · exact neutral_of_all (by decide)
    have hcolon : Neutral [':', ' '] := neutral_of_all (by decide)
    exact ((((dumpString_neutral key).append hcolon).append (neutral_dumps v)).append hcomma).append
      (neutral_dumpMembers rest)

end

/-! ### What is read is neutral -/

theorem plain_of_jsonSpace {ch : Char} (h : jsonSpace ch = true) : plain ch = true := by
  rcases of_decide_eq_true h with rfl | rfl | rfl | rfl <;> decide

theorem skipSpace_spec (cs : List Char) : ∃ ws, cs = ws ++ skipSpace cs ∧ Neutral ws := by
  refine ⟨cs.takeWhile jsonSpace, List.takeWhile_append_dropWhile.symm, neutral_of_plain fun ch hmem => ?_⟩
  exact plain_of_jsonSpace (List.mem_takeWhile_imp hmem)

theorem expect_spec {ch : Char} {cs rest : List Char} (h : expect ch cs = some rest) :
    ∃ ws, cs = ws ++ ch :: rest ∧ Neutral ws := by
  obtain ⟨ws, hcs, hws⟩ := skipSpace_spec cs
  unfold expect at h
  cases hskip : skipSpace cs with
  | nil =>
    rw [hskip] at h
    cases h
  | cons c rest' =>
    rw [hskip] at h
    dsimp only at h
    split_ifs at h with hch
    obtain rfl := Option.some.inj h
    exact ⟨ws, by rw [← hch, ← hskip]; exact hcs, hws⟩

theorem dropWord_spec {word cs rest : List Char} (h : dropWord word cs = some rest) : cs = word ++ rest := by
  induction word generalizing cs with
  | nil => exact Option.some.inj h
  | cons c word ih =>
    cases cs with
    | nil => cases h
    | cons ch cs =>
      rw [dropWord] at h
      split_ifs at h with heq
      rw [heq, ih h, List.cons_append]

theorem takeRaw_spec (n : ℕ) : ∀ {cs : List Char} {raw : List Char × List Char}, cs.length ≤ n →
    takeRaw cs = some raw → cs = raw.1 ++ quotationMark :: raw.2 ∧ Inert raw.1 := by
  induction n with
  | zero =>
    intro cs raw hlen h
    rw [List.length_eq_zero_iff.mp (Nat.le_zero.mp hlen)] at h
    cases h
  | succ n ih =>
    intro cs raw hlen h
    cases cs with
    | nil => cases h
    | cons ch rest =>
      rw [List.length_cons] at hlen
      rw [takeRaw.eq_def] at h
      dsimp only at h
      split_ifs at h with hquote hback
      · obtain rfl := Option.some.inj h
        exact ⟨by rw [hquote]; rfl, inert_nil⟩
      · cases rest with
        | nil => cases h
        | cons escaped rest =>
          obtain ⟨raw', hraw', rfl⟩ := Option.map_eq_some_iff.mp h
          rw [List.length_cons] at hlen
          obtain ⟨hcs, hinert⟩ := ih (by omega) hraw'
          refine ⟨?_, (inert_escape escaped).append hinert⟩
          rw [hback, hcs]
          rfl
      · obtain ⟨raw', hraw', rfl⟩ := Option.map_eq_some_iff.mp h
        obtain ⟨hcs, hinert⟩ := ih (by omega) hraw'
        refine ⟨?_, (inert_char hback hquote).append hinert⟩
        rw [hcs]
        rfl

theorem takeString_spec {cs : List Char} {s : String × List Char} (h : takeString cs = some s) :
    ∃ raw, cs = raw ++ quotationMark :: s.2 ∧ Inert raw := by
  obtain ⟨raw, hraw, hunits⟩ := Option.bind_eq_some_iff.mp h
  obtain ⟨units, -, rfl⟩ := Option.map_eq_some_iff.mp hunits
  exact ⟨raw.1, takeRaw_spec cs.length (Nat.le_refl _) hraw⟩

theorem takeQuoted_spec {cs rest : List Char} {s : String × List Char} (hcs : cs = quotationMark :: rest)
    (h : takeString rest = some s) : ∃ used, cs = used ++ s.2 ∧ Neutral used := by
  obtain ⟨raw, hrest, hinert⟩ := takeString_spec h
  refine ⟨_, ?_, hinert.neutral⟩
  rw [hcs, hrest, List.cons_append, List.append_assoc]
  rfl

theorem dropWord_neutral {word cs rest : List Char} (h : dropWord word cs = some rest)
    (hplain : word.all plain = true) : ∃ used, cs = used ++ rest ∧ Neutral used :=
  ⟨word, dropWord_spec h, neutral_of_all hplain⟩

/-- The text a value has been read from: neutral, and for an object a neutral text in braces. -/
structure ReadFrom (v : Json) (used : List Char) : Prop where
  neutral : Neutral used
  braced : ∀ ms, v = .object ms → ∃ body, used = '{' :: (body ++ ['}']) ∧ Neutral body

theorem valueWords_spec : ∀ word ∈ valueWords, word.1.all plain = true ∧ ∀ ms, word.2 ≠ .object ms := by
  simp only [valueWords, List.forall_mem_cons, List.not_mem_nil, false_implies, implies_true, and_true]
  refine ⟨?_, ?_, ?_, ?_, ?_, ?_⟩ <;> exact ⟨by decide, fun ms h => (nomatch h)⟩

theorem takeScalar_spec {cs : List Char} {v : Json × List Char} (h : takeScalar cs = some v) :
    ∃ used, cs = used ++ v.2 ∧ ReadFrom v.1 used := by
  unfold takeScalar at h
  split at h
  · rename_i v' hfind
    obtain rfl := Option.some.inj h
    obtain ⟨word, hmem, hdrop⟩ := List.exists_of_findSome?_eq_some hfind
    obtain ⟨hplain, hscalar⟩ := valueWords_spec word hmem
    obtain ⟨rest, hrest, rfl⟩ := Option.map_eq_some_iff.mp hdrop
    obtain ⟨used, hcs, hneutral⟩ := dropWord_neutral hrest hplain
    exact ⟨used, hcs, hneutral, fun ms heq => absurd heq (hscalar ms)⟩
  · obtain ⟨n, hn, hvalid⟩ := Option.bind_eq_some_iff.mp h
    split_ifs at hvalid with hliteral
    obtain rfl := Option.some.inj hvalid
    obtain ⟨hcs, hplain⟩ := takes_number hn
    exact ⟨n.1, hcs.symm, neutral_of_plain hplain, fun ms heq => (nomatch heq)⟩

/-- Members end at the closing brace of their object. -/
def MembersFrom (cs rest : List Char) : Prop := ∃ body, cs = body ++ '}' :: rest ∧ Neutral body

theorem readFrom_braced {cs body rest : List Char} {v : Json} (hcs : cs = '{' :: (body ++ '}' :: rest))
    (h : Neutral body) : ∃ used, cs = used ++ rest ∧ ReadFrom v used := by
  refine ⟨'{' :: (body ++ ['}']), ?_, h.braced, fun ms _ => ⟨body, rfl, h⟩⟩
  rw [hcs, List.cons_append, List.append_assoc]
  rfl

/-- What is to be shown about the three readers, with the fuel they have. -/
def ValueSpec (fuel : ℕ) : Prop :=
  ∀ cs v, value fuel cs = some v → ∃ used, cs = used ++ v.2 ∧ ReadFrom v.1 used

def MembersSpec (fuel : ℕ) : Prop := ∀ cs ms, members fuel cs = some ms → MembersFrom cs ms.2

def ElementsSpec (fuel : ℕ) : Prop :=
  ∀ cs vs, elements fuel cs = some vs → ∃ used, cs = used ++ vs.2 ∧ Neutral used

theorem comma_spec {cs next : List Char} (h : expect ',' cs = some next) :
    ∃ comma, cs = comma ++ skipSpace next ∧ Neutral comma := by
  obtain ⟨before, hbefore, hbeforeNeutral⟩ := expect_spec h
  obtain ⟨after, hafter, hafterNeutral⟩ := skipSpace_spec next
  refine ⟨before ++ ([','] ++ after), ?_,
    hbeforeNeutral.append ((neutral_plain (by decide)).append hafterNeutral)⟩
  rw [hbefore]
  nth_rewrite 1 [hafter]
  simp only [List.append_assoc, List.cons_append, List.nil_append]

section Step

variable {fuel : ℕ}

theorem object_spec (ihMembers : MembersSpec fuel) {rest : List Char} {v : Json × List Char}
    (h : (match expect '}' rest with
      | some rest => some (Json.object [], rest)
      | none => (members fuel (skipSpace rest)).map fun pairs => (Json.object (dictOf pairs.1), pairs.2)) =
        some v) : ∃ used, '{' :: rest = used ++ v.2 ∧ ReadFrom v.1 used := by
  obtain ⟨ws, hrest, hws⟩ := skipSpace_spec rest
  split at h
  · rename_i after hclose
    obtain rfl := Option.some.inj h
    obtain ⟨blank, hblank, hneutral⟩ := expect_spec hclose
    exact readFrom_braced (by rw [hblank]) hneutral
  · obtain ⟨pairs, hpairs, rfl⟩ := Option.map_eq_some_iff.mp h
    obtain ⟨body, hbody, hneutral⟩ := ihMembers _ _ hpairs
    have hcs : '{' :: rest = '{' :: ((ws ++ body) ++ '}' :: pairs.2) := by
      rw [List.append_assoc, ← hbody, ← hrest]
    exact readFrom_braced hcs (hws.append hneutral)

theorem array_spec (ihElements : ElementsSpec fuel) {rest : List Char} {v : Json × List Char}
    (h : (match expect ']' rest with
      | some rest => some (Json.array [], rest)
      | none => (elements fuel (skipSpace rest)).map fun vs => (Json.array vs.1, vs.2)) = some v) :
    ∃ used, '[' :: rest = used ++ v.2 ∧ ReadFrom v.1 used := by
  have hopen : Neutral ['['] := neutral_plain (by decide)
  obtain ⟨ws, hrest, hws⟩ := skipSpace_spec rest
  split at h
  · rename_i after hclose
    obtain rfl := Option.some.inj h
    obtain ⟨blank, hblank, hneutral⟩ := expect_spec hclose
    refine ⟨'[' :: (blank ++ [']']), ?_, ?_, fun ms heq => (nomatch heq)⟩
    · rw [hblank, List.cons_append, List.append_assoc]
      rfl
    · exact hopen.append (hneutral.append (neutral_plain (by decide)))
  · obtain ⟨vs, hvs, rfl⟩ := Option.map_eq_some_iff.mp h
    obtain ⟨used, hused, hneutral⟩ := ihElements _ _ hvs
    refine ⟨'[' :: (ws ++ used), ?_, hopen.append (hws.append hneutral), fun ms heq => (nomatch heq)⟩
    rw [List.cons_append, List.append_assoc, ← hused, ← hrest]

theorem value_step (ihMembers : MembersSpec fuel) (ihElements : ElementsSpec fuel) : ValueSpec (fuel + 1) := by
  intro cs v h
  cases cs with
  | nil =>
    rw [value] at h
    · cases h
    · simp
  | cons ch rest =>
    rw [value] at h
    split_ifs at h with hquote hbrace hbracket
    · obtain ⟨s, hs, rfl⟩ := Option.map_eq_some_iff.mp h
      obtain ⟨used, hcs, hneutral⟩ := takeQuoted_spec (congrArg (· :: rest) hquote) hs
      exact ⟨used, hcs, hneutral, fun ms heq => (nomatch heq)⟩
    · rw [hbrace]
      exact object_spec ihMembers h
    · rw [hbracket]
      exact array_spec ihElements h
    · exact takeScalar_spec h

theorem members_step (ihValue : ValueSpec fuel) (ihMembers : MembersSpec fuel) : MembersSpec (fuel + 1) := by
  intro cs ms h
  rw [members] at h
  obtain ⟨rest, hquote, h⟩ := Option.bind_eq_some_iff.mp h
  obtain ⟨key, hkey, h⟩ := Option.bind_eq_some_iff.mp h
  obtain ⟨after, hcolon, h⟩ := Option.bind_eq_some_iff.mp h
  obtain ⟨v, hv, h⟩ := Option.bind_eq_some_iff.mp h
  -- the key, the colon and the value are one neutral text
  obtain ⟨keyText, hkeyText, hkeyNeutral⟩ := takeQuoted_spec (dropWord_spec hquote) hkey
  obtain ⟨colonText, hcolonText, hcolonNeutral⟩ := expect_spec hcolon
  obtain ⟨blank, hblank, hblankNeutral⟩ := skipSpace_spec after
  obtain ⟨used, hused, hread⟩ := ihValue _ _ hv
  obtain ⟨pair, hpair, hpairNeutral⟩ : ∃ pair, cs = pair ++ v.2 ∧ Neutral pair := by
    refine ⟨keyText ++ (colonText ++ ([':'] ++ (blank ++ used))), ?_, hkeyNeutral.append (hcolonNeutral.append
      ((neutral_plain (by decide)).append (hblankNeutral.append hread.neutral)))⟩
    rw [hkeyText, hcolonText, hblank, hused]
    simp only [List.append_assoc, List.cons_append, List.nil_append]
  split at h
  · rename_i last hclose
    obtain rfl := Option.some.inj h
    obtain ⟨ws, hws, hneutral⟩ := expect_spec hclose
    refine ⟨pair ++ ws, ?_, hpairNeutral.append hneutral⟩
    rw [hpair, hws, List.append_assoc]
  · obtain ⟨next, hcomma, h⟩ := Option.bind_eq_some_iff.mp h
    obtain ⟨pairs, hpairs, rfl⟩ := Option.map_eq_some_iff.mp h
    obtain ⟨comma, hnext, hcommaNeutral⟩ := comma_spec hcomma
    obtain ⟨body, hbody, hneutral⟩ := ihMembers _ _ hpairs
    refine ⟨pair ++ (comma ++ body), ?_, hpairNeutral.append (hcommaNeutral.append hneutral)⟩
    rw [hpair, hnext, hbody]
    simp only [List.append_assoc]

theorem elements_step (ihValue : ValueSpec fuel) (ihElements : ElementsSpec fuel) : ElementsSpec (fuel + 1) := by
  intro cs vs h
  rw [elements] at h
  obtain ⟨v, hv, h⟩ := Option.bind_eq_some_iff.mp h
  obtain ⟨used, hused, hread⟩ := ihValue _ _ hv
  split at h
  · rename_i last hclose
    obtain rfl := Option.some.inj h
    obtain ⟨ws, hws, hneutral⟩ := expect_spec hclose
    refine ⟨used ++ (ws ++ [']']), ?_, hread.neutral.append (hneutral.append (neutral_plain (by decide)))⟩
    rw [hused, hws]
    simp only [List.append_assoc, List.cons_append, List.nil_append]
  · obtain ⟨next, hcomma, h⟩ := Option.bind_eq_some_iff.mp h
    obtain ⟨vs', hvs, rfl⟩ := Option.map_eq_some_iff.mp h
    obtain ⟨comma, hnext, hcommaNeutral⟩ := comma_spec hcomma
    obtain ⟨restUsed, hrest, hneutral⟩ := ihElements _ _ hvs
    refine ⟨used ++ (comma ++ restUsed), ?_, hread.neutral.append (hcommaNeutral.append hneutral)⟩
    rw [hused, hnext, hrest]
    simp only [List.append_assoc]

end Step

/-- **The scanner does not see a value that is read.** -/
theorem read_spec (fuel : ℕ) : ValueSpec fuel ∧ MembersSpec fuel ∧ ElementsSpec fuel := by
  induction fuel with
  | zero =>
    refine ⟨fun cs v h => ?_, fun cs ms h => ?_, fun cs vs h => ?_⟩
    · rw [value] at h
      cases h
    · rw [members] at h
      cases h
    · rw [elements] at h
      cases h
  | succ fuel ih =>
    obtain ⟨ihValue, ihMembers, ihElements⟩ := ih
    exact ⟨value_step ihMembers ihElements, members_step ihValue ihMembers, elements_step ihValue ihElements⟩

theorem loads_object_spec {cs : List Char} {ms : List (String × Json)} (h : loads cs = some (.object ms)) :
    ∃ ws body rest, cs = ws ++ '{' :: (body ++ '}' :: rest) ∧ (∀ ch ∈ ws, jsonSpace ch = true) ∧
      Neutral body := by
  unfold loads at h
  split at h
  · rename_i v rest hvalue
    split_ifs at h
    obtain rfl := Option.some.inj h
    obtain ⟨used, hskip, hread⟩ := (read_spec _).1 _ _ hvalue
    obtain ⟨body, hused, hneutral⟩ := hread.braced ms rfl
    refine ⟨cs.takeWhile jsonSpace, body, rest, ?_, fun ch hmem => List.mem_takeWhile_imp hmem, hneutral⟩
    have hsplit : cs = cs.takeWhile jsonSpace ++ skipSpace cs := List.takeWhile_append_dropWhile.symm
    calc cs = cs.takeWhile jsonSpace ++ skipSpace cs := hsplit
      _ = cs.takeWhile jsonSpace ++ (used ++ rest) := by rw [hskip]
      _ = cs.takeWhile jsonSpace ++ '{' :: (body ++ '}' :: rest) := by
        rw [hused, List.cons_append, List.append_assoc]
        rfl
  · cases h

end Lib
