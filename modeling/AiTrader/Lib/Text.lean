import Mathlib.Algebra.BigOperators.Group.List.Basic
import Mathlib.Algebra.Order.Ring.Nat
import Mathlib.Data.List.DropRight

/-!
# Texts as the interpreter sees them

`upper`, `lower` and `pyRepr` for texts whose letters are ASCII.

A text is compared as a list of characters where the argument goes into it: `strip` takes blanks off both ends, and
what it leaves is a part of the text; `joinText` puts a separator between the parts, and its length is that of the
parts and the separators between them (`length_joinText`). The blanks are those of `str.strip`.
-/

namespace Lib

/-- `str.upper`, of ASCII letters only. -/
def upper (s : String) : String := String.ofList (s.toList.map Char.toUpper)

/-- `str.lower`, of ASCII letters only. -/
def lower (s : String) : String := String.ofList (s.toList.map Char.toLower)

theorem upper_eq_empty {s : String} : upper s = "" ↔ s = "" := by
  have hempty : ∀ t : String, t = "" ↔ t.toList = [] := fun t => by
    rw [← String.toList_inj, String.toList_empty]
  rw [hempty, hempty, upper, String.toList_ofList, List.map_eq_nil_iff]

def apostrophe : Char := Char.ofNat 39

def quotationMark : Char := Char.ofNat 34

def backslash : Char := Char.ofNat 92

/-- The text between the quotes of `pyRepr`. -/
def pyEscape (quote c : Char) : List Char :=
  if c = quote ∨ c = backslash then [backslash, c]
  else if c = '\n' then [backslash, 'n']
  else if c = '\t' then [backslash, 't']
  else if c = Char.ofNat 13 then [backslash, 'r']
  else [c]

/-- `repr` of a printable text: in apostrophes, unless it holds one and no quotation mark. -/
def pyRepr (s : String) : String :=
  let quote := if s.toList.contains apostrophe && !s.toList.contains quotationMark then quotationMark else apostrophe
  String.ofList (quote :: s.toList.flatMap (pyEscape quote) ++ [quote])

/-- `str.isspace` of a character. -/
def isSpace (ch : Char) : Bool :=
  let n := ch.toNat
  decide (9 ≤ n ∧ n ≤ 13 ∨ 28 ≤ n ∧ n ≤ 32 ∨ n = 133 ∨ n = 160 ∨ n = 5760 ∨ 8192 ≤ n ∧ n ≤ 8202 ∨ n = 8232 ∨
    n = 8233 ∨ n = 8239 ∨ n = 8287 ∨ n = 12288)

def rstrip (cs : List Char) : List Char := cs.rdropWhile isSpace

/-- `str.strip`. -/
def strip (cs : List Char) : List Char := rstrip (cs.dropWhile isSpace)

/-- `s[:n]`. -/
def cutText (n : ℕ) (s : String) : String := String.ofList (s.toList.take n)

/-- `sep.join(parts)`. -/
def joinText (sep : String) : List String → String
  | [] => ""
  | [part] => part
  | part :: parts => part ++ sep ++ joinText sep parts

/-- `xs[start:]`. -/
def sliceFrom {α : Type} (xs : List α) (start : ℤ) : List α :=
  xs.drop (if start < 0 then xs.length - start.natAbs else start.toNat)

theorem length_joinText (sep : String) {parts : List String} (h : parts ≠ []) :
    (joinText sep parts).length + sep.length = (parts.map String.length).sum + parts.length * sep.length := by
  induction parts with
  | nil => exact absurd rfl h
  | cons part parts ih =>
    cases parts with
    | nil => simp [joinText]
    | cons next parts =>
      have hrest := ih (List.cons_ne_nil next parts)
      rw [joinText, String.length_append, String.length_append, List.map_cons, List.sum_cons, List.length_cons,
        Nat.succ_mul]
      · omega
      · exact List.cons_ne_nil next parts

theorem rstrip_isPrefix (cs : List Char) : rstrip cs <+: cs := List.rdropWhile_prefix isSpace cs

theorem strip_isInfix (cs : List Char) : strip cs <:+: cs :=
  (rstrip_isPrefix _).isInfix.trans (List.dropWhile_suffix isSpace).isInfix

theorem rstrip_cons {ch : Char} (h : isSpace ch = false) (cs : List Char) : rstrip (ch :: cs) = ch :: rstrip cs := by
  unfold rstrip
  induction cs using List.reverseRecOn with
  | nil => simp [List.rdropWhile_singleton, h]
  | append_singleton cs c ih =>
    rw [← List.cons_append, List.rdropWhile_concat, List.rdropWhile_concat]
    split_ifs
    · exact ih
    · rfl

theorem strip_cons {ch : Char} (h : isSpace ch = false) (cs : List Char) : strip (ch :: cs) = ch :: rstrip cs := by
  rw [strip, List.dropWhile_cons_of_neg (by simp [h]), rstrip_cons h]

theorem prefix_rstrip {pre cs : List Char} {ch : Char} (h : isSpace ch = false) (hpre : pre ++ [ch] <+: cs) :
    pre ++ [ch] <+: rstrip cs := by
  obtain ⟨rest, rfl⟩ := hpre
  unfold rstrip
  induction rest using List.reverseRecOn with
  | nil =>
    have hkept := List.rdropWhile_concat_neg isSpace pre ch (by simp [h])
    simp [hkept]
  | append_singleton rest c ih =>
    rw [← List.append_assoc, List.rdropWhile_concat]
    split_ifs
    · exact ih
    · rw [List.append_assoc]
      exact List.prefix_append _ _

end Lib
