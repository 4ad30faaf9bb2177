import AiTrader.Lib.JsonTree

/-!
# Where the parts of a value stand in its text

`StandsAt node pre v`: in the text `dumps` makes of `v`, the text of its part `node` begins behind `pre`. The
relation follows the value, not the text: an array puts its earlier elements in front, an object its earlier
members and the key.

A text is read from the front, and a reader that meets a brace has to know what it opens. In the text of a value
whose strings hold no opening brace it opens an object of that value, at the place where the object stands
(`standsAt_of_brace`). So a piece of the text in which an object closes is a piece in which a part of the value
is complete.
-/

namespace Lib

namespace Json

/-- Every string of the value satisfies `P`, and every key. -/
structure AllStrings (P : String → Prop) (v : Json) : Prop where
  strings : ∀ s, Occurs (.string s) v → P s
  keys : AllObjects (fun ms => ∀ m ∈ ms, P m.1) v

variable {P : String → Prop}

theorem allStrings_string {s : String} : AllStrings P (.string s) ↔ P s := by
  refine ⟨fun h => h.strings s .here, fun h => ⟨fun s' hs => ?_, allObjects_scalar trivial⟩⟩
  cases hs
  exact h

theorem allStrings_array {vs : List Json} : AllStrings P (.array vs) ↔ ∀ v ∈ vs, AllStrings P v := by
  constructor
  · exact fun h v hv => ⟨fun s hs => h.strings s (.element hv hs), fun ms hms => h.keys ms (.element hv hms)⟩
  · refine fun h => ⟨fun s hs => ?_, allObjects_array.mpr fun v hv => (h v hv).keys⟩
    cases hs with
    | element hv hin => exact (h _ hv).strings s hin

theorem allStrings_object {ms : List (String × Json)} :
    AllStrings P (.object ms) ↔ ∀ m ∈ ms, P m.1 ∧ AllStrings P m.2 := by
  constructor
  · exact fun h m hm =>
      ⟨h.keys ms .here m hm, fun s hs => h.strings s (.member hm hs), fun ms hms => h.keys ms (.member hm hms)⟩
  · refine fun h => ⟨fun s hs => ?_, allObjects_object.mpr ⟨fun m hm => (h m hm).1, fun m hm => (h m hm).2.keys⟩⟩
    cases hs with
    | member hm hin => exact (h _ hm).2.strings s hin

end Json

/-- What stands in front of a later element. -/
def elementsBefore (front : List Json) : List Char := front.flatMap fun v => dumps v ++ [',', ' ']

/-- What stands in front of a later member. -/
def membersBefore (front : List (String × Json)) : List Char :=
  front.flatMap fun m => dumpString m.1 ++ [':', ' '] ++ dumps m.2 ++ [',', ' ']

/-- In the text of the value, the text of its part `node` begins behind `pre`. -/
inductive StandsAt (node : Json) : List Char → Json → Prop
  | here : StandsAt node [] node
  | element {pre : List Char} {front back : List Json} {v : Json} : StandsAt node pre v →
      StandsAt node ('[' :: (elementsBefore front ++ pre)) (.array (front ++ v :: back))
  | member {pre : List Char} {front back : List (String × Json)} {key : String} {v : Json} :
      StandsAt node pre v →
      StandsAt node ('{' :: (membersBefore front ++ (dumpString key ++ [':', ' '] ++ pre)))
        (.object (front ++ (key, v) :: back))

theorem dumpElements_append (front : List Json) (v : Json) (back : List Json) :
    dumpElements (front ++ v :: back) = elementsBefore front ++ dumpElements (v :: back) := by
  induction front with
  | nil => rfl
  | cons w front ih =>
    have hmore : (front ++ v :: back).isEmpty = false := by cases front <;> rfl
    have hfront : elementsBefore (w :: front) = dumps w ++ [',', ' '] ++ elementsBefore front := rfl
    rw [List.cons_append, dumpElements, ih, hmore, if_neg Bool.false_ne_true, hfront,
      List.append_assoc _ _ (dumpElements _)]

theorem dumpMembers_append (front : List (String × Json)) (m : String × Json) (back : List (String × Json)) :
    dumpMembers (front ++ m :: back) = membersBefore front ++ dumpMembers (m :: back) := by
  induction front with
  | nil => rfl
  | cons w front ih =>
    have hmore : (front ++ m :: back).isEmpty = false := by cases front <;> rfl
    have hfront : membersBefore (w :: front) =
        dumpString w.1 ++ [':', ' '] ++ dumps w.2 ++ [',', ' '] ++ membersBefore front := rfl
    rw [List.cons_append, dumpMembers, ih, hmore, if_neg Bool.false_ne_true, hfront,
      List.append_assoc _ _ (dumpMembers _)]

theorem StandsAt.isPrefix {node v : Json} {pre : List Char} (h : StandsAt node pre v) :
    pre ++ dumps node <+: dumps v := by
  induction h with
  | here => exact List.prefix_rfl
  | @element pre front back v _ ih =>
    have hhere : dumps v <+: dumpElements (v :: back) ++ [']'] := by
      rw [dumpElements, List.append_assoc, List.append_assoc]
      exact List.prefix_append _ _
    rw [dumps, dumpElements_append, List.cons_append, List.append_assoc, List.append_assoc]
    exact List.cons_prefix_cons.mpr ⟨rfl, (List.prefix_append_right_inj _).mpr (ih.trans hhere)⟩
  | @member pre front back key v _ ih =>
    have hhere : dumpString key ++ [':', ' '] ++ dumps v <+: dumpMembers ((key, v) :: back) ++ ['}'] := by
      rw [dumpMembers, List.append_assoc _ _ (dumpMembers back), List.append_assoc _ _ ['}']]
      exact List.prefix_append _ _
    rw [dumps, dumpMembers_append, List.cons_append, List.append_assoc, List.append_assoc (membersBefore front),
      List.append_assoc _ pre]
    exact List.cons_prefix_cons.mpr ⟨rfl, (List.prefix_append_right_inj _).mpr
      (((List.prefix_append_right_inj _).mpr ih).trans hhere)⟩

theorem StandsAt.distinct {node v : Json} {pre : List Char} (h : StandsAt node pre v) (hv : v.Distinct) :
    node.Distinct := by
  induction h with
  | here => exact hv
  | element _ ih =>
    rw [Json.Distinct] at hv
    exact ih (elementsDistinct_iff.mp hv _ (List.mem_append_right _ List.mem_cons_self))
  | member _ ih =>
    rw [Json.Distinct] at hv
    exact ih (membersDistinct_iff.mp hv.2 _ (List.mem_append_right _ List.mem_cons_self))

/-! ### What a brace opens -/

theorem append_eq_cons_cases {front back pre rest : List Char} {ch : Char}
    (h : front ++ back = pre ++ ch :: rest) :
    ch ∈ front ∧ (∃ rest', front = pre ++ ch :: rest') ∨ ∃ pre', pre = front ++ pre' ∧ back = pre' ++ ch :: rest := by
  rcases List.append_eq_append_iff.mp h with ⟨mid, hpre, hback⟩ | ⟨mid, hfront, hrest⟩
  · exact .inr ⟨mid, hpre, hback⟩
  · cases mid with
    | nil =>
      rw [List.append_nil] at hfront
      exact .inr ⟨[], by rw [hfront, List.append_nil], hrest.symm⟩
    | cons c mid =>
      rw [List.cons_append] at hrest
      obtain ⟨rfl, -⟩ := List.cons.inj hrest
      exact .inl ⟨by rw [hfront]; exact List.mem_append_right _ List.mem_cons_self, mid, hfront⟩

theorem behind_of_notMem {front back pre rest : List Char} {ch : Char} (hfront : ch ∉ front)
    (h : front ++ back = pre ++ ch :: rest) : ∃ pre', pre = front ++ pre' ∧ back = pre' ++ ch :: rest :=
  (append_eq_cons_cases h).resolve_left fun hmem => hfront hmem.1

theorem ne_brace_of_plain {ch : Char} (h : Scan.plain ch = true) : ch ≠ '{' := (of_decide_eq_true h).2.2.1

theorem notMem_hexDigit {n : ℕ} (h : n < 16) : hexDigit n ≠ '{' := by
  have hall : ∀ n < 16, hexDigit n ≠ '{' := by decide
  exact hall n h

theorem brace_notMem_unicodeEscape (n : ℕ) : '{' ∉ unicodeEscape n := by
  have hmod : ∀ m : ℕ, m % 16 < 16 := fun m => Nat.mod_lt m (by omega)
  simp only [unicodeEscape, List.mem_cons, List.not_mem_nil, or_false, not_or]
  exact ⟨by decide, by decide, (notMem_hexDigit (hmod _)).symm, (notMem_hexDigit (hmod _)).symm,
    (notMem_hexDigit (hmod _)).symm, (notMem_hexDigit (hmod _)).symm⟩

theorem brace_notMem_escapeChar {ch : Char} (h : ch ≠ '{') : '{' ∉ escapeChar ch := by
  unfold escapeChar
  cases hshort : shortEscape ch with
  | some short =>
    have hne : short ≠ '{' := by
      rintro rfl
      unfold shortEscape at hshort
      split_ifs at hshort with hself <;> first | exact h (Option.some.inj hshort) | cases hshort
    dsimp only
    simp only [List.mem_cons, List.not_mem_nil, or_false, not_or]
    exact ⟨by decide, hne.symm⟩
  | none =>
    dsimp only
    split_ifs
    · simpa using h.symm
    · exact brace_notMem_unicodeEscape _
    · exact fun hmem => (List.mem_append.mp hmem).elim (brace_notMem_unicodeEscape _) (brace_notMem_unicodeEscape _)

theorem brace_notMem_dumpString {s : String} (h : '{' ∉ s.toList) : '{' ∉ dumpString s := by
  have hbody : '{' ∉ s.toList.flatMap escapeChar := by
    intro hmem
    obtain ⟨ch, hch, hin⟩ := List.mem_flatMap.mp hmem
    refine brace_notMem_escapeChar ?_ hin
    rintro rfl
    exact h hch
  simp only [dumpString, List.mem_cons, List.mem_append, List.not_mem_nil, or_false, not_or]
  exact ⟨by decide, hbody, by decide⟩

theorem brace_notMem_comma (last : Bool) : '{' ∉ if last then [] else [',', ' '] := by cases last <;> decide

/-- The strings and the keys hold no opening brace. -/
abbrev Json.Braceless (v : Json) : Prop := v.AllStrings fun s => '{' ∉ s.toList

mutual

/-- **In the text of a value whose strings hold no opening brace, each one opens an object of the value.** -/
theorem standsAt_of_brace : ∀ v : Json, v.Braceless → ∀ pre rest, dumps v = pre ++ '{' :: rest →
    ∃ ms, StandsAt (.object ms) pre v
  | .null, _, pre, rest, h | .nan, _, pre, rest, h => by
    exact absurd (h ▸ List.mem_append_right _ List.mem_cons_self : '{' ∈ dumps _) (by decide)
  | .bool b, _, pre, rest, h | .infinity b, _, pre, rest, h => by
    refine absurd (h ▸ List.mem_append_right _ List.mem_cons_self : '{' ∈ dumps _) ?_
    cases b <;> decide
  | .number n, _, pre, rest, h => by
    rw [dumps] at h
    have hmem : '{' ∈ n.literal := h ▸ List.mem_append_right _ List.mem_cons_self
    exact absurd rfl (ne_brace_of_plain ((takes_number n.valid).2 _ hmem))
  | .string s, hv, pre, rest, h => by
    rw [dumps] at h
    have hmem : '{' ∈ dumpString s := h ▸ List.mem_append_right _ List.mem_cons_self
    exact absurd hmem (brace_notMem_dumpString (hv.strings s .here))
  | .array vs, hv, pre, rest, h => by
    have hopen : '{' ∉ ['['] := by decide
    rw [dumps, ← List.singleton_append] at h
    obtain ⟨pre₁, rfl, hbody⟩ := behind_of_notMem hopen h
    rcases append_eq_cons_cases hbody with ⟨-, rest', helements⟩ | ⟨pre', rfl, hclose⟩
    · obtain ⟨front, v, back, pre₂, rfl, rfl, ms, hms⟩ :=
        standsAt_of_element vs (Json.allStrings_array.mp hv) pre₁ rest' helements
      exact ⟨ms, hms.element⟩
    · have hmem : '{' ∈ [']'] := hclose ▸ List.mem_append_right _ List.mem_cons_self
      exact absurd hmem (by decide)
  | .object ms, hv, pre, rest, h => by
    cases pre with
    | nil => exact ⟨ms, .here⟩
    | cons ch pre =>
      rw [dumps, List.cons_append] at h
      obtain ⟨rfl, hbody⟩ := List.cons.inj h
      rcases append_eq_cons_cases hbody with ⟨-, rest', hmembers⟩ | ⟨pre', rfl, hclose⟩
      · obtain ⟨front, key, v, back, pre₂, rfl, rfl, inner, hinner⟩ :=
          standsAt_of_member ms (Json.allStrings_object.mp hv) pre rest' hmembers
        exact ⟨inner, hinner.member⟩
      · have hmem : '{' ∈ ['}'] := hclose ▸ List.mem_append_right _ List.mem_cons_self
        exact absurd hmem (by decide)

theorem standsAt_of_element : ∀ vs : List Json, (∀ v ∈ vs, v.Braceless) →
    ∀ pre rest, dumpElements vs = pre ++ '{' :: rest →
      ∃ front v back pre', vs = front ++ v :: back ∧ pre = elementsBefore front ++ pre' ∧
        ∃ ms, StandsAt (.object ms) pre' v
  | [], _, pre, rest, h => by
    exact absurd (h ▸ List.mem_append_right _ List.mem_cons_self : '{' ∈ dumpElements []) (by decide)
  | v :: vs, hvs, pre, rest, h => by
    rw [dumpElements, List.append_assoc] at h
    rcases append_eq_cons_cases h with ⟨-, rest', hhere⟩ | ⟨pre₁, rfl, hlater⟩
    · obtain ⟨ms, hms⟩ := standsAt_of_brace v (hvs v List.mem_cons_self) pre rest' hhere
      exact ⟨[], v, vs, pre, rfl, rfl, ms, hms⟩
    · have hcomma : '{' ∉ if vs.isEmpty then [] else [',', ' '] := brace_notMem_comma _
      obtain ⟨pre₂, rfl, hrest⟩ := behind_of_notMem hcomma hlater
      obtain ⟨front, w, back, pre', rfl, rfl, ms, hms⟩ :=
        standsAt_of_element vs (fun w hmem => hvs w (List.mem_cons_of_mem _ hmem)) pre₂ rest hrest
      have hmore : (front ++ w :: back).isEmpty = false := by cases front <;> rfl
      refine ⟨v :: front, w, back, pre', rfl, ?_, ms, hms⟩
      rw [hmore, if_neg Bool.false_ne_true, elementsBefore, elementsBefore, List.flatMap_cons]
      simp only [List.append_assoc]

theorem standsAt_of_member : ∀ ms : List (String × Json),
    (∀ m ∈ ms, '{' ∉ m.1.toList ∧ m.2.Braceless) → ∀ pre rest, dumpMembers ms = pre ++ '{' :: rest →
      ∃ front key v back pre', ms = front ++ (key, v) :: back ∧
        pre = membersBefore front ++ (dumpString key ++ [':', ' '] ++ pre') ∧ ∃ inner, StandsAt (.object inner) pre' v
  | [], _, pre, rest, h => by
    exact absurd (h ▸ List.mem_append_right _ List.mem_cons_self : '{' ∈ dumpMembers []) (by decide)
  | (key, v) :: ms, hms, pre, rest, h => by
    obtain ⟨hkey, hv⟩ := hms (key, v) List.mem_cons_self
    have hname : '{' ∉ dumpString key ++ [':', ' '] := fun hmem =>
      (List.mem_append.mp hmem).elim (brace_notMem_dumpString hkey) (by decide)
    rw [dumpMembers, List.append_assoc, List.append_assoc] at h
    obtain ⟨pre₁, rfl, hbody⟩ := behind_of_notMem hname h
    rcases append_eq_cons_cases hbody with ⟨-, rest', hhere⟩ | ⟨pre₂, rfl, hlater⟩
    · obtain ⟨inner, hinner⟩ := standsAt_of_brace v hv pre₁ rest' hhere
      exact ⟨[], key, v, ms, pre₁, rfl, rfl, inner, hinner⟩
    · have hcomma : '{' ∉ if ms.isEmpty then [] else [',', ' '] := brace_notMem_comma _
      obtain ⟨pre₃, rfl, hrest⟩ := behind_of_notMem hcomma hlater
      obtain ⟨front, k, w, back, pre', rfl, rfl, inner, hinner⟩ :=
        standsAt_of_member ms (fun m hmem => hms m (List.mem_cons_of_mem _ hmem)) pre₃ rest hrest
      have hmore : (front ++ (k, w) :: back).isEmpty = false := by cases front <;> rfl
      refine ⟨(key, v) :: front, k, w, back, pre', rfl, ?_, inner, hinner⟩
      rw [hmore, if_neg Bool.false_ne_true, membersBefore, membersBefore, List.flatMap_cons]
      simp only [List.append_assoc]

end

end Lib
