import AiTrader.Domain.Models
import AiTrader.Lib.Fields

/-!
# Order references

`ait:DAY:CYCLE:SYMBOL:KIND`, derived rather than random: the same logical order produces the same
reference after a restart.

A reference is read back field by field. The fields are the parts of the text between colons (`Lib.Fields`), so two
references are equal exactly when their fields are, as long as no field holds a colon. Only the symbol and the cycle
come from outside, and the kind of a reference is its last field: references of different kinds differ whatever the
other fields hold (`makeRef_ne_of_kind`).
-/

namespace AiTrader

open Lib

def refPrefix : String := "ait"

/-- `make_ref`; the day is today's unless given. -/
def makeRef (cycleId symbol kind : String) (day : String) : String :=
  refPrefix ++ ":" ++ day ++ ":" ++ (if cycleId = "" then "manual" else cycleId) ++ ":" ++ symbol
    ++ ":" ++ kind

structure RefParts where
  day : String
  cycleId : String
  symbol : String
  kind : String
  deriving DecidableEq

def parseRef (ref : String) : Option RefParts :=
  match (Fields.splitAt ':' ref.toList).map String.ofList with
  | [pre, day, cycleId, symbol, kind] =>
    if pre = refPrefix then some { day, cycleId, symbol, kind } else none
  | _ => none

def isOurs (ref : String) : Bool := (refPrefix ++ ":").toList.isPrefixOf ref.toList

/-- The reference ends in the given kind: its last field, which is where `makeRef` puts it. -/
def hasKind (kind ref : String) : Bool := (":" ++ kind).toList.isSuffixOf ref.toList

/-- `int(now.timestamp())` as text. -/
def epochSeconds (now : Now) : String := toString (now.epoch.num.tdiv now.epoch.den)

theorem isOurs_makeRef (cycleId symbol kind day : String) :
    isOurs (makeRef cycleId symbol kind day) = true := by
  simp [isOurs, makeRef, refPrefix]

theorem hasKind_makeRef (cycleId symbol kind day : String) :
    hasKind kind (makeRef cycleId symbol kind day) = true := by
  have happ : ∀ s t : String, t.toList <:+ (s ++ t).toList := by
    intro s t
    rw [String.toList_append]
    exact List.suffix_append _ _
  rw [hasKind, List.isSuffixOf_iff_suffix, makeRef, String.append_assoc]
  exact happ _ _

theorem hasKind_unique {kind kind' ref : String} (h : hasKind kind ref = true)
    (h' : hasKind kind' ref = true) (hk : ':' ∉ kind.toList) (hk' : ':' ∉ kind'.toList) :
    kind = kind' := by
  rw [hasKind, List.isSuffixOf_iff_suffix, String.toList_append] at h h'
  obtain ⟨s, hs⟩ := h
  obtain ⟨s', hs'⟩ := h'
  have heq := congrArg List.reverse (hs.trans hs'.symm)
  simp only [List.reverse_append] at heq
  have hcolon : (":" : String).toList.reverse = [':'] := by decide
  rw [hcolon, List.append_assoc, List.append_assoc] at heq
  have hrev := (Fields.append_cons_inj (by simpa using hk) (by simpa using hk') heq).1
  exact String.toList_inj.mp (List.reverse_injective hrev)

theorem makeRef_ne_of_kind {k k' : String} (hk : ':' ∉ k.toList) (hk' : ':' ∉ k'.toList) (h : k ≠ k')
    (c s d c' s' d' : String) : makeRef c s k d ≠ makeRef c' s' k' d' := by
  intro heq
  have hkind := hasKind_makeRef c s k d
  rw [heq] at hkind
  exact h (hasKind_unique hkind (hasKind_makeRef _ _ _ _) hk hk')

/-- For one kind, day, cycle and symbol are determined by the reference when day and cycle have no colon. -/
theorem makeRef_inj {c c' s s' k d d' : String} (hd : ':' ∉ d.toList) (hd' : ':' ∉ d'.toList)
    (hc : ':' ∉ c.toList) (hc' : ':' ∉ c'.toList) (h : makeRef c s k d = makeRef c' s' k d') :
    d = d' ∧ (if c = "" then "manual" else c) = (if c' = "" then "manual" else c') ∧ s = s' := by
  have key : ∀ {c : String}, ':' ∉ c.toList → ':' ∉ (if c = "" then "manual" else c).toList := by
    intro c hc
    split_ifs
    · decide
    · exact hc
  have hlist := congrArg String.toList h
  simp only [makeRef, String.append_assoc, String.toList_append] at hlist
  have hcolon : (":" : String).toList = [':'] := by decide
  simp only [hcolon, List.singleton_append, List.append_cancel_left_eq, List.cons.injEq,
    true_and] at hlist
  have hday := Fields.append_cons_inj hd hd' hlist
  have hcycle := Fields.append_cons_inj (key hc) (key hc') hday.2
  exact ⟨String.toList_inj.mp hday.1, String.toList_inj.mp hcycle.1,
    String.toList_inj.mp (List.append_cancel_right hcycle.2)⟩

theorem makeRef_kind_congr {c c' s s' k d d' : String} (h : makeRef c s k d = makeRef c' s' k d')
    (kind : String) : makeRef c s kind d = makeRef c' s' kind d' := by
  have hlist := congrArg String.toList h
  simp only [makeRef, String.toList_append] at hlist
  apply String.toList_inj.mp
  simp only [makeRef, String.toList_append]
  rw [List.append_cancel_right hlist]

theorem colon_not_mem_epochSeconds (now : Now) : ':' ∉ (epochSeconds now).toList := by
  have hnat : ∀ n : ℕ, ':' ∉ n.repr.toList := by
    intro n hmem
    rw [Nat.toList_repr] at hmem
    exact absurd (Nat.isDigit_of_mem_toDigits (by decide) (by decide) hmem) (by decide)
  unfold epochSeconds
  cases now.epoch.num.tdiv now.epoch.den with
  | ofNat n => exact hnat n
  | negSucc n =>
    have htext : toString (Int.negSucc n) = "-" ++ (n + 1).repr := rfl
    rw [htext, String.toList_append, List.mem_append]
    rintro (h | h)
    · exact absurd h (by decide)
    · exact hnat _ h

theorem parseRef_makeRef {cycleId symbol kind day : String} (hd : ':' ∉ day.toList)
    (hc : ':' ∉ cycleId.toList) (hne : cycleId ≠ "") (hs : ':' ∉ symbol.toList)
    (hk : ':' ∉ kind.toList) :
    parseRef (makeRef cycleId symbol kind day) = some { day, cycleId, symbol, kind } := by
  have hcolon : (":" : String).toList = [':'] := by decide
  have hpre : ':' ∉ refPrefix.toList := by decide
  have hlist : (makeRef cycleId symbol kind day).toList = refPrefix.toList ++ ':' :: (day.toList ++
      ':' :: (cycleId.toList ++ ':' :: (symbol.toList ++ ':' :: kind.toList))) := by
    simp only [makeRef, if_neg hne, String.append_assoc, String.toList_append, hcolon,
      List.singleton_append]
  rw [parseRef, hlist, Fields.splitAt_append_cons hpre, Fields.splitAt_append_cons hd,
    Fields.splitAt_append_cons hc, Fields.splitAt_append_cons hs, Fields.splitAt_eq_singleton hk]
  simp

theorem hasKind_of_parseRef {ref : String} {p : RefParts} (h : parseRef ref = some p) :
    hasKind p.kind ref = true := by
  rw [parseRef] at h
  split at h
  · rename_i pre day cycleId symbol kind hparts
    split_ifs at h with hpre
    obtain rfl := Option.some.inj h
    obtain ⟨a, b, c, d, e, hsplit⟩ : ∃ a b c d e, Fields.splitAt ':' ref.toList = [a, b, c, d, e] ∧
        kind = String.ofList e := by
      match hs : Fields.splitAt ':' ref.toList, hparts with
      | [a, b, c, d, e], hparts =>
        simp only [List.map_cons, List.map_nil, List.cons.injEq, and_true] at hparts
        exact ⟨a, b, c, d, e, rfl, hparts.2.2.2.2.symm⟩
    have hjoin := Fields.joinWith_splitAt ':' ref.toList
    rw [hsplit.1] at hjoin
    simp only [Fields.joinWith] at hjoin
    rw [hasKind, List.isSuffixOf_iff_suffix, ← hjoin, String.toList_append, hsplit.2,
      String.toList_ofList]
    exact ⟨a ++ ':' :: (b ++ ':' :: (c ++ ':' :: d)), by simp⟩
  · cases h

end AiTrader
