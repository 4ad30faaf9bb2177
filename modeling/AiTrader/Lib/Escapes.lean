import AiTrader.Lib.JsonRoundTrip
import Mathlib.Algebra.GroupWithZero.Nat

/-!
# Escapes, and what is left of a text that is cut

A text that `dumps` has written spells every angle bracket of its strings out, and its escapes contain no
bracket, brace or backtick (`clean_dumps`). Pieces of the text that begin behind such a character keep this
(`Clean`), however they are put together; and what `loads` reads from a clean text has no more angle brackets
than the text (`loads_count`). So an object cannot be read from what is left of its own text when an angle
bracket has been cut out.

Counting is what the argument needs, since a text from which something was cut out can be put together in any way.
Each step of the reader takes at least as many angle brackets from the text as it puts into the value: a character
stands for itself, and an escape for one whose code point was written out, which is 60 only if the text says so
(`angles_ofNat`). A dictionary keeps at most what its members have, also where a key is repeated (`angles_dictOf`).
-/

namespace Lib

open Scan

/-- Where a text stands in an escape. -/
inductive Escape
  | outside
  | opened
  | unit
  | unit1 (a : Char)
  | unit2 (a b : Char)
  | unit3 (a b c : Char)

namespace Escape

def next : Escape → Char → Escape
  | outside, ch => if ch = backslash then opened else outside
  | opened, ch => if ch = 'u' then unit else outside
  | unit, a => unit1 a
  | unit1 a, b => unit2 a b
  | unit2 a b, c => unit3 a b c
  | unit3 _ _ _, _ => outside

def after (q : Escape) (cs : List Char) : Escape := Trace.run next q cs

/-- The characters that no escape contains. -/
def solo (ch : Char) : Bool := decide (ch = '<' ∨ ch = '>' ∨ ch = '{' ∨ ch = Char.ofNat 96)

/-- The character may stand here: outside, or in an escape that stands for no angle bracket. -/
def Fits : Escape → Char → Prop
  | outside, _ => True
  | unit3 a b c, d => solo d = false ∧ codeUnit a b c d ≠ some 60
  | _, ch => solo ch = false

def Clean (q : Escape) (cs : List Char) : Prop := Trace.Each next Fits q cs

theorem clean_append {q : Escape} {cs ds : List Char} :
    Clean q (cs ++ ds) ↔ Clean q cs ∧ Clean (q.after cs) ds := Trace.each_append

theorem after_append (q : Escape) (cs ds : List Char) : q.after (cs ++ ds) = (q.after cs).after ds :=
  Trace.run_append q cs ds

/-- A clean text that ends outside of escapes. -/
structure Closed (cs : List Char) : Prop where
  back : outside.after cs = outside
  clean : Clean outside cs

theorem closed_nil : Closed [] := ⟨rfl, trivial⟩

theorem Closed.append {cs ds : List Char} (hc : Closed cs) (hd : Closed ds) : Closed (cs ++ ds) where
  back := by rw [after_append, hc.back, hd.back]
  clean := clean_append.mpr ⟨hc.clean, by rw [hc.back]; exact hd.clean⟩

theorem next_outside {ch : Char} (h : ch ≠ backslash) : outside.next ch = outside := if_neg h

theorem closed_char {ch : Char} (h : ch ≠ backslash) : Closed [ch] := ⟨next_outside h, trivial, trivial⟩

theorem closed_of_notMem {cs : List Char} (h : backslash ∉ cs) : Closed cs := by
  induction cs with
  | nil => exact closed_nil
  | cons ch cs ih =>
    exact (closed_char (List.ne_of_not_mem_cons h).symm).append (ih (List.not_mem_of_not_mem_cons h))

theorem ne_backslash_of_plain {ch : Char} (h : plain ch = true) : ch ≠ backslash := (of_decide_eq_true h).1

theorem closed_of_plain {cs : List Char} (h : ∀ ch ∈ cs, plain ch = true) : Closed cs :=
  closed_of_notMem fun hmem => ne_backslash_of_plain (h _ hmem) rfl

theorem outside_of_solo {q : Escape} {ch : Char} {cs : List Char} (h : Clean q (ch :: cs))
    (hsolo : solo ch = true) : q = outside ∧ q.next ch = outside := by
  have hback : ch ≠ backslash := by
    rintro rfl
    exact absurd hsolo (by decide)
  have hfits := h.1
  have hout : q = outside := by
    cases q with
    | outside => rfl
    | unit3 a b c =>
      have hnot := hfits.1
      rw [hsolo] at hnot
      cases hnot
    | _ =>
      have hnot : solo ch = false := hfits
      rw [hsolo] at hnot
      cases hnot
  exact ⟨hout, by rw [hout, next_outside hback]⟩

/-! ### What is written is clean -/

theorem solo_hexDigit {n : ℕ} (h : n < 16) : solo (hexDigit n) = false := by
  have hall : ∀ n < 16, solo (hexDigit n) = false := by decide
  exact hall n h

theorem closed_unicodeEscape {n : ℕ} (hlt : n < 65536) (hne : n ≠ 60) : Closed (unicodeEscape n) := by
  have hmod : ∀ m : ℕ, m % 16 < 16 := fun m => Nat.mod_lt m (by omega)
  have hunit : codeUnit (hexDigit (n / 4096 % 16)) (hexDigit (n / 256 % 16)) (hexDigit (n / 16 % 16))
      (hexDigit (n % 16)) ≠ some 60 := by
    rw [codeUnit_hexDigits hlt]
    simpa using hne
  exact ⟨rfl, trivial, rfl, solo_hexDigit (hmod _), solo_hexDigit (hmod _), solo_hexDigit (hmod _),
    ⟨solo_hexDigit (hmod _), hunit⟩, trivial⟩

theorem closed_short {ch short : Char} (h : shortEscape ch = some short) : Closed [backslash, short] := by
  have hall : short ∈ [quotationMark, backslash, 'b', 't', 'n', 'f', 'r'] := by
    unfold shortEscape at h
    split_ifs at h with hself
    · obtain rfl := Option.some.inj h
      rcases hself with rfl | rfl <;> simp
    all_goals
      obtain rfl := Option.some.inj h
      simp
  simp only [List.mem_cons, List.not_mem_nil, or_false] at hall
  rcases hall with rfl | rfl | rfl | rfl | rfl | rfl | rfl <;> exact ⟨rfl, trivial, rfl, trivial⟩

theorem closed_escapeChar (ch : Char) : Closed (escapeChar ch) := by
  unfold escapeChar
  cases hshort : shortEscape ch with
  | some short => exact closed_short hshort
  | none =>
    have hlt := toNat_lt ch
    have hmeans : ch ≠ backslash := by
      rintro rfl
      cases hshort
    dsimp only
    split_ifs with hplain hbasic
    · exact closed_char hmeans
    · exact closed_unicodeEscape hbasic (by omega)
    · exact (closed_unicodeEscape (by omega) (by omega)).append (closed_unicodeEscape (by omega) (by omega))

theorem closed_dumpString (s : String) : Closed (dumpString s) := by
  have hchars : ∀ cs : List Char, Closed (cs.flatMap escapeChar) := by
    intro cs
    induction cs with
    | nil => exact closed_nil
    | cons ch cs ih =>
      rw [List.flatMap_cons]
      exact (closed_escapeChar ch).append ih
  exact (closed_char (by decide)).append ((hchars s.toList).append (closed_char (by decide)))

theorem closed_comma (last : Bool) : Closed (if last then [] else [',', ' ']) := by
  cases last <;> exact closed_of_notMem (by decide)

mutual

theorem closed_dumps : ∀ v : Json, Closed (dumps v)
  | .null => closed_of_notMem (by decide)
  | .bool true => closed_of_notMem (by decide)
  | .bool false => closed_of_notMem (by decide)
  | .number n => closed_of_plain (takes_number n.valid).2
  | .nan => closed_of_notMem (by decide)
  | .infinity true => closed_of_notMem (by decide)
  | .infinity false => closed_of_notMem (by decide)
  | .string s => closed_dumpString s
  | .array elements =>
    (closed_char (by decide)).append ((closed_dumpElements elements).append (closed_char (by decide)))
  | .object members =>
    (closed_char (by decide)).append ((closed_dumpMembers members).append (closed_char (by decide)))

theorem closed_dumpElements : ∀ elements : List Json, Closed (dumpElements elements)
  | [] => closed_nil
  | v :: rest => ((closed_dumps v).append (closed_comma rest.isEmpty)).append (closed_dumpElements rest)

theorem closed_dumpMembers : ∀ members : List (String × Json), Closed (dumpMembers members)
  | [] => closed_nil
  | (key, v) :: rest =>
    ((((closed_dumpString key).append (closed_of_notMem (by decide))).append (closed_dumps v)).append
      (closed_comma rest.isEmpty)).append (closed_dumpMembers rest)

end

/-! ### Angle brackets -/

def angles (cs : List Char) : ℕ := cs.count '<'

@[simp] theorem angles_nil : angles [] = 0 := rfl

@[simp] theorem angles_append (cs ds : List Char) : angles (cs ++ ds) = angles cs + angles ds := List.count_append

theorem angles_cons (ch : Char) (cs : List Char) : angles (ch :: cs) = angles [ch] + angles cs :=
  angles_append [ch] cs

theorem angles_eq_zero {cs : List Char} (h : ∀ ch ∈ cs, ch ≠ '<') : angles cs = 0 :=
  List.count_eq_zero.mpr fun hmem => h _ hmem rfl

theorem angles_unicodeEscape (n : ℕ) : angles (unicodeEscape n) = 0 := by
  have hall : ∀ n < 16, hexDigit n ≠ '<' := by decide
  have hdigit : ∀ m : ℕ, hexDigit (m % 16) ≠ '<' := fun m => hall _ (Nat.mod_lt m (by omega))
  apply angles_eq_zero
  simp only [unicodeEscape, List.forall_mem_cons, List.not_mem_nil, false_implies, implies_true, and_true]
  exact ⟨by decide, by decide, hdigit _, hdigit _, hdigit _, hdigit _⟩

theorem angles_escapeChar (ch : Char) : angles (escapeChar ch) = angles [ch] := by
  unfold escapeChar
  cases hshort : shortEscape ch with
  | some short =>
    have hch : ch ≠ '<' := by
      rintro rfl
      cases hshort
    have hne : short ≠ '<' := by
      rintro rfl
      have hfits : solo '<' = false := (closed_short hshort).clean.2.1
      exact absurd hfits (by decide)
    have hback : backslash ≠ '<' := by decide
    rw [@angles_eq_zero [backslash, short] (by simp [hback, hne]), angles_eq_zero (by simpa using hch)]
  | none =>
    dsimp only
    split_ifs with hplain
    · rfl
    · rw [angles_unicodeEscape, angles_eq_zero]
      intro c hc
      rw [List.mem_singleton.mp hc]
      rintro rfl
      exact hplain (by decide)
    · rw [angles_append, angles_unicodeEscape, angles_unicodeEscape, angles_eq_zero]
      intro c hc
      rw [List.mem_singleton.mp hc]
      rintro rfl
      exact hplain (by decide)

theorem angles_dumpString (s : String) : angles (dumpString s) = angles s.toList := by
  have hchars : ∀ cs : List Char, angles (cs.flatMap escapeChar) = angles cs := by
    intro cs
    induction cs with
    | nil => rfl
    | cons ch cs ih => rw [List.flatMap_cons, angles_append, angles_escapeChar, ih, ← angles_cons]
  have hquote : angles [quotationMark] = 0 := by decide
  rw [dumpString, angles_cons, angles_append, hchars, hquote]
  omega

theorem angles_comma (last : Bool) : angles (if last then [] else [',', ' ']) = 0 := by cases last <;> decide

theorem angles_elements_cons (v : Json) (vs : List Json) :
    angles (dumpElements (v :: vs)) = angles (dumps v) + angles (dumpElements vs) := by
  rw [dumpElements, angles_append, angles_append, angles_comma, Nat.add_zero]

theorem angles_members_cons (key : String) (v : Json) (ms : List (String × Json)) :
    angles (dumpMembers ((key, v) :: ms)) = angles key.toList + angles (dumps v) + angles (dumpMembers ms) := by
  have hcolon : angles [':', ' '] = 0 := by decide
  rw [dumpMembers, angles_append, angles_append, angles_append, angles_append, angles_comma, angles_dumpString,
    hcolon, Nat.add_zero, Nat.add_zero]

theorem angles_array (vs : List Json) : angles (dumps (.array vs)) = angles (dumpElements vs) := by
  have hopen : angles ['['] = 0 := by decide
  have hclose : angles [']'] = 0 := by decide
  rw [dumps, angles_cons, angles_append, hopen, hclose]
  omega

theorem angles_object (ms : List (String × Json)) : angles (dumps (.object ms)) = angles (dumpMembers ms) := by
  have hopen : angles ['{'] = 0 := by decide
  have hclose : angles ['}'] = 0 := by decide
  rw [dumps, angles_cons, angles_append, hopen, hclose]
  omega

theorem angles_le_of_mem {ms : List (String × Json)} {key : String} {v : Json} (h : (key, v) ∈ ms) :
    angles (dumps v) ≤ angles (dumpMembers ms) := by
  induction ms with
  | nil => cases h
  | cons m ms ih =>
    rw [angles_members_cons]
    rcases List.mem_cons.mp h with rfl | h
    · dsimp only
      omega
    · have := ih h
      omega

theorem angles_members_append (first second : List (String × Json)) :
    angles (dumpMembers (first ++ second)) = angles (dumpMembers first) + angles (dumpMembers second) := by
  induction first with
  | nil => simp [dumpMembers]
  | cons m first ih =>
    rw [List.cons_append, angles_members_cons, angles_members_cons, ih]
    omega

theorem angles_overwrite {key : String} {v : Json} {ms : List (String × Json)} (h : (ms.map Prod.fst).Nodup) :
    angles (dumpMembers (ms.map fun e => if e.1 = key then (key, v) else e)) ≤
      angles (dumpMembers ms) + (angles key.toList + angles (dumps v)) := by
  induction ms with
  | nil => simp
  | cons m ms ih =>
    obtain ⟨k, w⟩ := m
    rw [List.map_cons, List.nodup_cons] at h
    rw [List.map_cons, angles_members_cons]
    split_ifs with hk
    · have hsame : (ms.map fun e => if e.1 = key then (key, v) else e) = ms.map id := by
        apply List.map_congr_left
        intro e he
        exact if_neg fun heq => h.1 (List.mem_map.mpr ⟨e, he, heq.trans hk.symm⟩)
      rw [angles_members_cons, hsame, List.map_id]
      dsimp only
      omega
    · have hlater := ih h.2
      rw [angles_members_cons]
      dsimp only
      omega

theorem angles_set (d : Dict String Json) (key : String) (v : Json) :
    angles (dumpMembers (d.set key v).entries) ≤
      angles (dumpMembers d.entries) + (angles key.toList + angles (dumps v)) := by
  unfold Dict.set
  dsimp only
  split_ifs
  · exact angles_overwrite d.nodup
  · rw [angles_members_append, angles_members_cons]
    simp [dumpMembers]

theorem angles_dictOf (pairs : List (String × Json)) :
    angles (dumpMembers (dictOf pairs)) ≤ angles (dumpMembers pairs) := by
  have hfold : ∀ (pairs : List (String × Json)) (d : Dict String Json),
      angles (dumpMembers (pairs.foldl (fun d pair => d.set pair.1 pair.2) d).entries) ≤
        angles (dumpMembers d.entries) + angles (dumpMembers pairs) := by
    intro pairs
    induction pairs with
    | nil => simp [dumpMembers]
    | cons pair pairs ih =>
      intro d
      have hset := angles_set d pair.1 pair.2
      have hrest := ih (d.set pair.1 pair.2)
      rw [List.foldl_cons, angles_members_cons]
      omega
  exact (hfold pairs Dict.empty).trans (by simp [dumpMembers])

/-! ### What is read has no more than the text -/

/-- Between two places of a clean text stand at least `n` angle brackets. -/
def Yields (n : ℕ) (cs rest : List Char) : Prop :=
  Clean outside cs → Clean outside rest ∧ n + angles rest ≤ angles cs

theorem Yields.trans {n m : ℕ} {cs mid rest : List Char} (h : Yields n cs mid) (h' : Yields m mid rest) :
    Yields (n + m) cs rest := by
  intro hcs
  obtain ⟨hmid, hn⟩ := h hcs
  obtain ⟨hrest, hm⟩ := h' hmid
  exact ⟨hrest, by omega⟩

theorem yields_closed {used rest : List Char} (h : backslash ∉ used) :
    Yields (angles used) (used ++ rest) rest := by
  intro hcs
  have hrest := (clean_append.mp hcs).2
  rw [(closed_of_notMem h).back] at hrest
  exact ⟨hrest, by rw [angles_append]⟩

theorem Yields.weaken {n m : ℕ} {cs rest : List Char} (h : Yields n cs rest) (hle : m ≤ n) : Yields m cs rest :=
  fun hcs => ⟨(h hcs).1, by have := (h hcs).2; omega⟩

theorem yields_skipSpace (cs : List Char) : Yields 0 cs (skipSpace cs) := by
  have hsplit : cs = cs.takeWhile jsonSpace ++ skipSpace cs := List.takeWhile_append_dropWhile.symm
  have hblank : backslash ∉ cs.takeWhile jsonSpace := fun hmem =>
    ne_backslash_of_plain (plain_of_jsonSpace (List.mem_takeWhile_imp hmem)) rfl
  have hyields := (@yields_closed (cs.takeWhile jsonSpace) (skipSpace cs) hblank).weaken (Nat.zero_le _)
  rwa [← hsplit] at hyields

theorem yields_expect {ch : Char} {cs rest : List Char} (hch : ch ≠ backslash) (h : expect ch cs = some rest) :
    Yields 0 cs rest := by
  unfold expect at h
  cases hskip : skipSpace cs with
  | nil =>
    rw [hskip] at h
    cases h
  | cons c tail =>
    rw [hskip] at h
    dsimp only at h
    split_ifs at h with hc
    obtain rfl := Option.some.inj h
    have hfront : Yields 0 cs (c :: tail) := hskip ▸ yields_skipSpace cs
    have hchar : Yields (angles [c]) ([c] ++ tail) tail := yields_closed (by simp [hc, hch.symm])
    exact (hfront.trans hchar).weaken (Nat.zero_le _)

/-- The angle brackets of a unit that is not an escape. -/
def unitAngles : StringUnit → ℕ
  | .char ch => angles [ch]
  | .unit _ => 0

/-- No escape among the units stands for an angle bracket. -/
def Spelled (units : List StringUnit) : Prop := ∀ n, .unit n ∈ units → n ≠ 60

theorem shortUnescape_ne {ch c : Char} (h : shortUnescape ch = some c) : angles [c] = 0 := by
  unfold shortUnescape at h
  split_ifs at h with hself
  · obtain rfl := Option.some.inj h
    rcases hself with rfl | rfl | rfl <;> decide
  all_goals
    obtain rfl := Option.some.inj h
    decide

/-- The units of a text, when it has any: it ends outside of escapes, and they have its angle brackets. -/
def UnitsSpec (raw : List Char) (units : List StringUnit) : Prop :=
  outside.after raw = outside ∧
    (Clean outside raw → Spelled units ∧ (units.map unitAngles).sum ≤ angles raw)

theorem unitsSpec_char {ch : Char} {raw : List Char} {units : List StringUnit} (hch : ch ≠ backslash)
    (h : UnitsSpec raw units) : UnitsSpec (ch :: raw) (.char ch :: units) := by
  have hafter : outside.after (ch :: raw) = outside.after raw := congrArg (·.after raw) (next_outside hch)
  refine ⟨hafter.trans h.1, fun hclean => ?_⟩
  have hraw : Clean outside raw := next_outside hch ▸ hclean.2
  obtain ⟨hspelled, hle⟩ := h.2 hraw
  refine ⟨fun n hmem => hspelled n (by simpa using hmem), ?_⟩
  rw [List.map_cons, List.sum_cons, angles_cons]
  exact Nat.add_le_add_left hle _

theorem unitsSpec_short {escaped ch : Char} {raw : List Char} {units : List StringUnit} (hu : escaped ≠ 'u')
    (hch : shortUnescape escaped = some ch) (h : UnitsSpec raw units) :
    UnitsSpec (backslash :: escaped :: raw) (.char ch :: units) := by
  have hnext : opened.next escaped = outside := if_neg hu
  have hafter : outside.after (backslash :: escaped :: raw) = outside.after raw := congrArg (·.after raw) hnext
  refine ⟨hafter.trans h.1, fun hclean => ?_⟩
  have hraw : Clean outside raw := hnext ▸ hclean.2.2
  obtain ⟨hspelled, hle⟩ := h.2 hraw
  refine ⟨fun n hmem => hspelled n (by simpa using hmem), ?_⟩
  rw [List.map_cons, List.sum_cons, unitAngles, shortUnescape_ne hch, angles_cons, angles_cons escaped]
  omega

theorem unitsSpec_unit {a b c d : Char} {n : ℕ} {raw : List Char} {units : List StringUnit}
    (hn : codeUnit a b c d = some n) (h : UnitsSpec raw units) :
    UnitsSpec (backslash :: 'u' :: a :: b :: c :: d :: raw) (.unit n :: units) := by
  refine ⟨h.1, fun hclean => ?_⟩
  obtain ⟨-, -, -, -, -, ⟨-, hne⟩, hraw⟩ := hclean
  obtain ⟨hspelled, hle⟩ := h.2 hraw
  refine ⟨fun m hmem => ?_, ?_⟩
  · rcases List.mem_cons.mp hmem with heq | hmem
    · rintro rfl
      exact hne (hn.trans (congrArg some (StringUnit.unit.inj heq).symm))
    · exact hspelled m hmem
  · have hsuffix : angles raw ≤ angles (backslash :: 'u' :: a :: b :: c :: d :: raw) :=
      (List.suffix_append [backslash, 'u', a, b, c, d] raw).sublist.count_le _
    rw [List.map_cons, List.sum_cons, unitAngles]
    omega

theorem unitsSpec (n : ℕ) : ∀ {raw : List Char} {units : List StringUnit}, raw.length ≤ n →
    stringUnits raw = some units → UnitsSpec raw units := by
  induction n with
  | zero =>
    intro raw units hlen h
    obtain rfl := List.length_eq_zero_iff.mp (Nat.le_zero.mp hlen)
    rw [stringUnits] at h
    obtain rfl := Option.some.inj h
    exact ⟨rfl, fun _ => ⟨fun _ hmem => absurd hmem List.not_mem_nil, Nat.zero_le _⟩⟩
  | succ n ih =>
    intro raw units hlen h
    cases raw with
    | nil => exact ih (Nat.zero_le _) h
    | cons ch rest =>
      rw [List.length_cons] at hlen
      rw [stringUnits.eq_def] at h
      dsimp only at h
      split_ifs at h with hcontrol hback
      · cases rest with
        | nil => cases h
        | cons escaped rest =>
          rw [List.length_cons] at hlen
          dsimp only at h
          split_ifs at h with hu
          · rcases rest with _ | ⟨a, _ | ⟨b, _ | ⟨c, _ | ⟨d, rest⟩⟩⟩⟩
            · cases h
            · cases h
            · cases h
            · cases h
            · obtain ⟨m, hm, h⟩ := Option.bind_eq_some_iff.mp h
              obtain ⟨units', hunits, rfl⟩ := Option.map_eq_some_iff.mp h
              simp only [List.length_cons] at hlen
              rw [hback, hu]
              exact unitsSpec_unit hm (ih (by omega) hunits)
          · obtain ⟨c, hc, h⟩ := Option.bind_eq_some_iff.mp h
            obtain ⟨units', hunits, rfl⟩ := Option.map_eq_some_iff.mp h
            rw [hback]
            exact unitsSpec_short hu hc (ih (by omega) hunits)
      · obtain ⟨units', hunits, rfl⟩ := Option.map_eq_some_iff.mp h
        exact unitsSpec_char hback (ih (by omega) hunits)

theorem angles_ofNat {n : ℕ} (h : n ≠ 60) : angles [Char.ofNat n] = 0 := by
  apply angles_eq_zero
  simp only [List.mem_singleton, forall_eq]
  intro hch
  have hn : (Char.ofNat n).toNat = 60 := by rw [hch]; rfl
  by_cases hvalid : n.isValidChar
  · rw [Char.ofNat, dif_pos hvalid] at hn
    exact h hn
  · rw [Char.ofNat, dif_neg hvalid] at hn
    cases hn

theorem angles_toChar {n : ℕ} (h : n ≠ 60) : angles [StringUnit.toChar (.unit n)] = 0 := by
  unfold StringUnit.toChar
  dsimp only
  split_ifs
  · exact angles_ofNat (by omega)
  · exact angles_ofNat h

theorem joinUnit_spec {u : StringUnit} {units : List StringUnit} (h : Spelled (u :: units)) :
    Spelled (joinUnit u units) ∧ angles ((joinUnit u units).map StringUnit.toChar) ≤
      unitAngles u + angles (units.map StringUnit.toChar) := by
  have hplain : angles ((u :: units).map StringUnit.toChar) ≤
      unitAngles u + angles (units.map StringUnit.toChar) := by
    rw [List.map_cons, angles_cons]
    apply Nat.add_le_add_right
    cases u with
    | char ch => exact Nat.le_refl _
    | unit n => exact Nat.le_of_eq (angles_toChar (h n List.mem_cons_self))
  unfold joinUnit
  split
  · rename_i n m rest
    split_ifs
    · refine ⟨fun k hmem => h k (by simp at hmem; simp [hmem]), ?_⟩
      have hpair : angles [Char.ofNat (65536 + (n - 55296) * 1024 + (m - 56320))] = 0 := angles_ofNat (by omega)
      rw [List.map_cons, List.map_cons, StringUnit.toChar, angles_cons, angles_cons (StringUnit.toChar _), hpair]
      omega
    · exact ⟨h, hplain⟩
  · exact ⟨h, hplain⟩

theorem joinUnits_spec {units : List StringUnit} (h : Spelled units) :
    Spelled (units.foldr joinUnit []) ∧ angles (joinUnits units) ≤ (units.map unitAngles).sum := by
  induction units with
  | nil => exact ⟨h, Nat.le_refl _⟩
  | cons u units ih =>
    obtain ⟨hspelled, hle⟩ := ih fun n hmem => h n (List.mem_cons_of_mem _ hmem)
    have hfront : Spelled (u :: units.foldr joinUnit []) := by
      intro n hmem
      rcases List.mem_cons.mp hmem with heq | hmem
      · exact h n (by simp [heq])
      · exact hspelled n hmem
    obtain ⟨hjoined, hcount⟩ := joinUnit_spec hfront
    refine ⟨hjoined, ?_⟩
    rw [List.map_cons, List.sum_cons]
    exact hcount.trans (Nat.add_le_add_left hle _)

theorem yields_takeString {cs : List Char} {s : String × List Char} (h : takeString cs = some s) :
    Yields (angles s.1.toList) cs s.2 := by
  intro hcs
  obtain ⟨raw, hraw, hstring⟩ := Option.bind_eq_some_iff.mp h
  obtain ⟨units, hunits, rfl⟩ := Option.map_eq_some_iff.mp hstring
  obtain ⟨hsplit, -⟩ := takeRaw_spec cs.length (Nat.le_refl _) hraw
  obtain ⟨hback, hspec⟩ := unitsSpec _ (Nat.le_refl _) hunits
  rw [hsplit] at hcs ⊢
  obtain ⟨hclean, hrest⟩ := clean_append.mp hcs
  rw [hback] at hrest
  obtain ⟨hspelled, hle⟩ := hspec hclean
  have hquote : outside.next quotationMark = outside := next_outside (by decide)
  refine ⟨hquote ▸ hrest.2, ?_⟩
  have hjoined := (joinUnits_spec hspelled).2
  dsimp only
  rw [String.toList_ofList, angles_append, angles_cons quotationMark]
  omega

theorem yields_quoted {cs rest : List Char} {s : String × List Char} (hcs : cs = quotationMark :: rest)
    (h : takeString rest = some s) : Yields (angles s.1.toList) cs s.2 := by
  have hquote : Yields (angles [quotationMark]) ([quotationMark] ++ rest) rest := yields_closed (by decide)
  rw [hcs]
  exact (hquote.trans (yields_takeString h)).weaken (Nat.le_add_left _ _)

theorem yields_takeScalar {cs : List Char} {v : Json × List Char} (h : takeScalar cs = some v) :
    Yields (angles (dumps v.1)) cs v.2 := by
  unfold takeScalar at h
  split at h
  · rename_i v' hfind
    obtain rfl := Option.some.inj h
    obtain ⟨word, hmem, hdrop⟩ := List.exists_of_findSome?_eq_some hfind
    obtain ⟨rest, hrest, rfl⟩ := Option.map_eq_some_iff.mp hdrop
    have hwords : ∀ word ∈ valueWords, backslash ∉ word.1 ∧ dumps word.2 = word.1 := by
      simp only [valueWords, List.forall_mem_cons, List.not_mem_nil, false_implies, implies_true, and_true]
      refine ⟨?_, ?_, ?_, ?_, ?_, ?_⟩ <;> exact ⟨by decide, rfl⟩
    obtain ⟨hback, hdumps⟩ := hwords word hmem
    rw [dropWord_spec hrest]
    dsimp only
    rw [hdumps]
    exact yields_closed hback
  · obtain ⟨n, hn, hvalid⟩ := Option.bind_eq_some_iff.mp h
    split_ifs at hvalid with hliteral
    obtain rfl := Option.some.inj hvalid
    obtain ⟨hcs, hplain⟩ := takes_number hn
    rw [← hcs]
    exact yields_closed fun hmem => ne_backslash_of_plain (hplain _ hmem) rfl

/-- What is to be shown about the three readers, with the fuel they have. -/
def ValueYields (fuel : ℕ) : Prop := ∀ cs v, value fuel cs = some v → Yields (angles (dumps v.1)) cs v.2

def MembersYields (fuel : ℕ) : Prop :=
  ∀ cs ms, members fuel cs = some ms → Yields (angles (dumpMembers ms.1)) cs ms.2

def ElementsYields (fuel : ℕ) : Prop :=
  ∀ cs vs, elements fuel cs = some vs → Yields (angles (dumpElements vs.1)) cs vs.2

theorem yields_bracket (ch : Char) (h : ch ≠ backslash) (rest : List Char) : Yields 0 (ch :: rest) rest :=
  (@yields_closed [ch] rest (by simpa using h.symm)).weaken (Nat.zero_le _)

section Step

variable {fuel : ℕ}

theorem object_yields (ihMembers : MembersYields fuel) {rest : List Char} {v : Json × List Char}
    (h : (match expect '}' rest with
      | some rest => some (Json.object [], rest)
      | none => (members fuel (skipSpace rest)).map fun pairs => (Json.object (dictOf pairs.1), pairs.2)) =
        some v) : Yields (angles (dumps v.1)) ('{' :: rest) v.2 := by
  have hopen := yields_bracket '{' (by decide) rest
  split at h
  · rename_i after hclose
    obtain rfl := Option.some.inj h
    exact hopen.trans (yields_expect (by decide) hclose)
  · obtain ⟨pairs, hpairs, rfl⟩ := Option.map_eq_some_iff.mp h
    have hmembers := (hopen.trans (yields_skipSpace rest)).trans (ihMembers _ _ hpairs)
    apply hmembers.weaken
    rw [angles_object]
    exact (angles_dictOf pairs.1).trans (by omega)

theorem array_yields (ihElements : ElementsYields fuel) {rest : List Char} {v : Json × List Char}
    (h : (match expect ']' rest with
      | some rest => some (Json.array [], rest)
      | none => (elements fuel (skipSpace rest)).map fun vs => (Json.array vs.1, vs.2)) = some v) :
    Yields (angles (dumps v.1)) ('[' :: rest) v.2 := by
  have hopen := yields_bracket '[' (by decide) rest
  split at h
  · rename_i after hclose
    obtain rfl := Option.some.inj h
    exact hopen.trans (yields_expect (by decide) hclose)
  · obtain ⟨vs, hvs, rfl⟩ := Option.map_eq_some_iff.mp h
    have helements := (hopen.trans (yields_skipSpace rest)).trans (ihElements _ _ hvs)
    apply helements.weaken
    rw [angles_array]
    omega

theorem value_yields (ihMembers : MembersYields fuel) (ihElements : ElementsYields fuel) :
    ValueYields (fuel + 1) := by
  intro cs v h
  cases cs with
  | nil =>
    rw [value] at h
    · cases h
    · simp
  | cons ch rest =>
    rw [value] at h
    split_ifs at h with hquote hbrace hbracket
    · obtain ⟨s, hs, rfl⟩ := Option.map_eq_some_iff.mp h
      have hstring := yields_quoted (congrArg (· :: rest) hquote) hs
      apply hstring.weaken
      rw [dumps, angles_dumpString]
    · rw [hbrace]
      exact object_yields ihMembers h
    · rw [hbracket]
      exact array_yields ihElements h
    · exact yields_takeScalar h

theorem members_yields (ihValue : ValueYields fuel) (ihMembers : MembersYields fuel) :
    MembersYields (fuel + 1) := by
  intro cs ms h
  rw [members] at h
  obtain ⟨rest, hquote, h⟩ := Option.bind_eq_some_iff.mp h
  obtain ⟨key, hkey, h⟩ := Option.bind_eq_some_iff.mp h
  obtain ⟨after, hcolon, h⟩ := Option.bind_eq_some_iff.mp h
  obtain ⟨v, hv, h⟩ := Option.bind_eq_some_iff.mp h
  have hpair := (((yields_quoted (dropWord_spec hquote) hkey).trans (yields_expect (by decide) hcolon)).trans
    (yields_skipSpace after)).trans (ihValue _ _ hv)
  split at h
  · rename_i last hclose
    obtain rfl := Option.some.inj h
    apply (hpair.trans (yields_expect (by decide) hclose)).weaken
    rw [angles_members_cons, dumpMembers, angles_nil]
    omega
  · obtain ⟨later, hcomma, h⟩ := Option.bind_eq_some_iff.mp h
    obtain ⟨pairs, hpairs, rfl⟩ := Option.map_eq_some_iff.mp h
    apply (((hpair.trans (yields_expect (by decide) hcomma)).trans (yields_skipSpace later)).trans
      (ihMembers _ _ hpairs)).weaken
    dsimp only
    rw [angles_members_cons]
    omega

theorem elements_yields (ihValue : ValueYields fuel) (ihElements : ElementsYields fuel) :
    ElementsYields (fuel + 1) := by
  intro cs vs h
  rw [elements] at h
  obtain ⟨v, hv, h⟩ := Option.bind_eq_some_iff.mp h
  have hvalue := ihValue _ _ hv
  split at h
  · rename_i last hclose
    obtain rfl := Option.some.inj h
    apply (hvalue.trans (yields_expect (by decide) hclose)).weaken
    rw [angles_elements_cons, dumpElements, angles_nil]
  · obtain ⟨later, hcomma, h⟩ := Option.bind_eq_some_iff.mp h
    obtain ⟨vs', hvs, rfl⟩ := Option.map_eq_some_iff.mp h
    apply (((hvalue.trans (yields_expect (by decide) hcomma)).trans (yields_skipSpace later)).trans
      (ihElements _ _ hvs)).weaken
    dsimp only
    rw [angles_elements_cons]
    omega

end Step

theorem read_yields (fuel : ℕ) : ValueYields fuel ∧ MembersYields fuel ∧ ElementsYields fuel := by
  induction fuel with
  | zero =>
    refine ⟨fun cs v h => ?_, fun cs ms h => ?_, fun cs vs h => ?_⟩
    · rw [value] at h
      cases h
    · rw [members] at h
      cases h
    · rw [elements] at h
      cases h
  | succ fuel ih =>
    obtain ⟨ihValue, ihMembers, ihElements⟩ := ih
    exact ⟨value_yields ihMembers ihElements, members_yields ihValue ihMembers,
      elements_yields ihValue ihElements⟩

/-- **A value that is read from a clean text has no more angle brackets than the text.** -/
theorem loads_count {cs : List Char} {v : Json} (hcs : Clean outside cs) (h : loads cs = some v) :
    angles (dumps v) ≤ angles cs := by
  unfold loads at h
  split at h
  · rename_i w rest hvalue
    split_ifs at h
    obtain rfl := Option.some.inj h
    have hread := ((yields_skipSpace cs).trans ((read_yields _).1 _ _ hvalue)) hcs
    dsimp only at hread
    omega
  · cases h

end Escape

end Lib
