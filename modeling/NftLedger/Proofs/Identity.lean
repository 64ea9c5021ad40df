import Mathlib.Data.List.DropRight
import NftLedger.Identity

namespace NftLedger

namespace Text

theorem trimLeft_eq_self_of_prefix {cs front : List Char} (h : front <+: trimLeft cs) :
    trimLeft front = front := by
  apply List.dropWhile_eq_self_iff.mpr
  intro hl
  obtain ⟨back, hback⟩ := h
  have hfix : (trimLeft cs).dropWhile isBlank = trimLeft cs := List.dropWhile_idempotent isBlank cs
  rw [← hback] at hfix
  have hfirst := List.dropWhile_eq_self_iff.mp hfix (by simp; omega)
  rwa [List.getElem_append_left hl] at hfirst

theorem trim_trim (cs : List Char) : trim (trim cs) = trim cs := by
  have hprefix : trim cs <+: trimLeft cs := List.rdropWhile_prefix isBlank (trimLeft cs)
  rw [trim, trimLeft_eq_self_of_prefix hprefix]
  exact List.rdropWhile_idempotent isBlank (trimLeft cs)

theorem trim_sublist (cs : List Char) : (trim cs).Sublist cs :=
  (List.rdropWhile_prefix isBlank (trimLeft cs)).sublist.trans (List.dropWhile_sublist isBlank)

theorem toNat_toLower (c : Char) :
    c.toLower.toNat = if 65 ≤ c.toNat ∧ c.toNat ≤ 90 then c.toNat + 32 else c.toNat := by
  split
  next h =>
    have hlower : c.toLower.val = c.val + 32 := congrArg Char.val (dif_pos h)
    have hlt : c.toNat + 32 < 2 ^ 32 := by omega
    change c.toLower.val.toNat = _
    rw [hlower, UInt32.toNat_add]
    exact Nat.mod_eq_of_lt hlt
  next h =>
    have hsame : c.toLower = c := dif_neg h
    rw [hsame]

theorem toLower_eq_self {c : Char} (h : ¬ (65 ≤ c.toNat ∧ c.toNat ≤ 90)) : c.toLower = c :=
  Char.toNat_inj.mp (by rw [toNat_toLower, if_neg h])

theorem toLower_toLower (c : Char) : c.toLower.toLower = c.toLower := by
  apply toLower_eq_self
  have h := toNat_toLower c
  split at h <;> omega

theorem isBlank_eq_false {c : Char} (hlow : 33 ≤ c.toNat) (hhigh : c.toNat ≤ 126) :
    isBlank c = false := by
  simp [isBlank, blankRanges]
  omega

theorem isBlank_toLower (c : Char) : isBlank c.toLower = isBlank c := by
  -- a capital and its small letter both lie between the blanks 0x20 and 0x85
  by_cases h : 65 ≤ c.toNat ∧ c.toNat ≤ 90
  · have hlower := toNat_toLower c
    rw [if_pos h] at hlower
    rw [isBlank_eq_false (by omega) (by omega), isBlank_eq_false (by omega) (by omega)]
  · rw [toLower_eq_self h]

theorem trim_map_toLower (cs : List Char) :
    trim (cs.map Char.toLower) = (trim cs).map Char.toLower := by
  have hblank : isBlank ∘ Char.toLower = isBlank := funext isBlank_toLower
  have hleft : trimLeft (cs.map Char.toLower) = (trimLeft cs).map Char.toLower := by
    rw [trimLeft, List.dropWhile_map, hblank, trimLeft]
  rw [trim, trimRight, hleft, ← List.map_reverse, List.dropWhile_map, hblank, ← List.map_reverse]
  rfl

end Text

namespace Identity

def Plain (cs : List Char) : Prop := Text.trim cs = cs ∧ ∀ c ∈ cs, c.toLower = c

theorem plain_map_toLower (cs : List Char) : Plain ((Text.trim cs).map Char.toLower) := by
  constructor
  · rw [Text.trim_map_toLower, Text.trim_trim]
  · rw [List.forall_mem_map]
    exact fun c _ => Text.toLower_toLower c

theorem suffix_of_dropKind? {cs rest : List Char} (h : dropKind? cs = some rest) :
    rest <:+ cs := by
  obtain ⟨word, _, found⟩ := List.exists_of_findSome?_eq_some h
  exact ⟨word.toList, (Text.afterWord?_eq_some_iff.mp found).symm⟩

theorem Plain.trim_rest {cs rest : List Char} (hcs : Plain cs) (h : dropKind? cs = some rest) :
    Plain (Text.trim rest) := by
  refine ⟨Text.trim_trim rest, fun c hc => hcs.2 c ?_⟩
  exact (suffix_of_dropKind? h).mem ((Text.trim_sublist rest).mem hc)

theorem dropKinds_spec {cs : List Char} (hcs : Plain cs) :
    Plain (dropKinds cs) ∧ dropKind? (dropKinds cs) = none := by
  fun_induction dropKinds cs with
  | case1 cs rest h ih => exact ih (hcs.trim_rest h)
  | case2 cs h => exact ⟨hcs, h⟩

theorem dropKinds_of_none {cs : List Char} (h : dropKind? cs = none) : dropKinds cs = cs := by
  rw [dropKinds]
  split
  next rest hsome => rw [h] at hsome; cases hsome
  next => rfl

theorem normalChars_eq_self {cs : List Char} (hcs : Plain cs) (h : dropKind? cs = none) :
    normalChars cs = cs := by
  have hlower : cs.map Char.toLower = cs := by
    rw [List.map_congr_left hcs.2, List.map_id']
  rw [normalChars, hcs.1, hlower, dropKinds_of_none h]

theorem normalize_normalize (s : String) : normalize (normalize s) = normalize s := by
  obtain ⟨hplain, hnone⟩ := dropKinds_spec (plain_map_toLower s.toList)
  rw [normalize, normalize, String.toList_ofList]
  exact congrArg String.ofList (normalChars_eq_self hplain hnone)

theorem equals_normalize (a b : String) : equals a (normalize b) = equals a b := by
  rw [equals, equals, normalize_normalize]

end Identity

end NftLedger
