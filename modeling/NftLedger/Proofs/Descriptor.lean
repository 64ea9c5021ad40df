import NftLedger.Proofs.Reader
import NftLedger.Ty.Read

namespace NftLedger.Ty

open Reader

def Head.tag : Head → UInt8
  | plain t => t.tag
  | byteArray => 15
  | option => 13
  | list => 14
  | map => 17

theorem eq_tag_of_head? {tag : UInt8} {head : Head} (h : head? tag = some head) :
    tag = head.tag := by
  apply UInt8.toNat_inj.mp
  unfold head? at h
  split at h
  all_goals
    cases h
    try assumption

theorem descriptor_of_plain {tag : UInt8} {t : Ty} (h : head? tag = some (.plain t)) :
    t.descriptor = [t.tag] := by
  unfold head? at h
  split at h
  all_goals
    cases h
    try rfl

theorem descriptor_of_ofTag {part : Reader Ty} (hpart : Sound part fun used t => used = t.descriptor)
    {tag : UInt8} {bs rest : Bytes} {t : Ty} (h : ofTag part tag bs = .ok (t, rest)) :
    tag :: bs = t.descriptor ++ rest := by
  unfold ofTag at h
  cases hhead : head? tag with
  | none =>
    rw [hhead] at h
    exact absurd h fail_ne_ok
  | some head =>
    simp only [hhead] at h
    have htag := eq_tag_of_head? hhead
    subst htag
    cases head with
    | plain u =>
      obtain ⟨rfl, rfl⟩ := pure_eq_ok.mp h
      rw [descriptor_of_plain hhead]
      rfl
    | byteArray =>
      simp only [Head.read, bind_eq_ok, pure_eq_ok, u32_eq_ok] at h
      obtain ⟨length, mid, rfl, rfl, rfl⟩ := h
      rfl
    | option =>
      simp only [Head.read, bind_eq_ok, pure_eq_ok] at h
      obtain ⟨u, mid, hu, rfl, rfl⟩ := h
      obtain ⟨used, rfl, rfl⟩ := hpart _ _ _ hu
      rfl
    | list =>
      simp only [Head.read, bind_eq_ok, pure_eq_ok] at h
      obtain ⟨u, mid, hu, rfl, rfl⟩ := h
      obtain ⟨used, rfl, rfl⟩ := hpart _ _ _ hu
      rfl
    | map =>
      simp only [Head.read, bind_eq_ok, pure_eq_ok] at h
      obtain ⟨k, mid, hk, v, mid', hv, rfl, rfl⟩ := h
      obtain ⟨_, rfl, rfl⟩ := hpart _ _ _ hk
      obtain ⟨_, rfl, rfl⟩ := hpart _ _ _ hv
      rw [descriptor, List.cons_append, List.append_assoc]
      rfl

theorem readWithin_sound (budget : Nat) :
    Sound (readWithin budget) fun used t => used = t.descriptor := by
  induction budget with
  | zero => exact fun bs t rest h => absurd h fail_ne_ok
  | succ budget ih =>
    intro bs t rest h
    rw [readWithin, bind_eq_ok] at h
    obtain ⟨tag, mid, htag, h⟩ := h
    rw [byte_eq_ok.mp htag]
    exact ⟨_, descriptor_of_ofTag ih h, rfl⟩

theorem bind_descriptor {u : Ty} {budget : Nat} {rest : Bytes} (f : Ty → Reader Ty)
    (hu : readWithin budget (u.descriptor ++ rest) =
      if u.nesting < budget then .ok (u, rest) else .error .tooDeep) :
    (readWithin budget >>= f) (u.descriptor ++ rest) =
      if u.nesting < budget then f u rest else .error .tooDeep := by
  by_cases h : u.nesting < budget
  · rw [if_pos h] at hu
    rw [bind_ok hu, if_pos h]
  · rw [if_neg h] at hu
    rw [bind_error hu, if_neg h]

theorem readWithin_descriptor (t : Ty) (budget : Nat) (rest : Bytes) :
    readWithin budget (t.descriptor ++ rest) =
      if t.nesting < budget then .ok (t, rest) else .error .tooDeep := by
  induction t generalizing budget rest with
  | option u ih =>
    cases budget with
    | zero => rfl
    | succ budget =>
      simp only [nesting, Nat.add_lt_add_iff_right]
      exact bind_descriptor (fun u => pure (option u)) (ih budget rest)
  | list u ih =>
    cases budget with
    | zero => rfl
    | succ budget =>
      simp only [nesting, Nat.add_lt_add_iff_right]
      exact bind_descriptor (fun u => pure (list u)) (ih budget rest)
  | map k v ihk ihv =>
    cases budget with
    | zero => rfl
    | succ budget =>
      rw [descriptor, List.cons_append, List.append_assoc]
      refine (bind_descriptor (fun k => do return map k (← readWithin budget))
        (ihk budget (v.descriptor ++ rest))).trans ?_
      rw [bind_descriptor _ (ihv budget rest)]
      simp only [nesting, Nat.add_lt_add_iff_right, Nat.max_lt]
      by_cases hk : k.nesting < budget <;> simp [hk]
      rfl
  | byteArray length =>
    cases budget with
    | zero => rfl
    | succ budget =>
      simp only [nesting, Nat.zero_lt_succ, if_true]
      exact bind_ok (f := fun n => pure (byteArray n)) (u32_eq_ok.mpr rfl)
  | _ => cases budget <;> rfl

/-- Types are read exactly from their descriptors, if these are not too deep. -/
theorem read_eq_ok {t : Ty} {bs rest : Bytes} :
    read bs = .ok (t, rest) ↔ bs = t.descriptor ++ rest ∧ t.nesting ≤ nestingLimit := by
  constructor
  · intro h
    obtain ⟨_, rfl, rfl⟩ := readWithin_sound (nestingLimit + 1) bs t rest h
    rw [read, readWithin_descriptor] at h
    by_cases hdeep : t.nesting < nestingLimit + 1
    · exact ⟨rfl, Nat.le_of_lt_succ hdeep⟩
    · rw [if_neg hdeep] at h
      cases h
  · rintro ⟨rfl, hdeep⟩
    rw [read, readWithin_descriptor, if_pos (Nat.lt_succ_of_le hdeep)]

/-- No descriptor goes on as another one. -/
theorem descriptor_append_inj {s t : Ty} {x y : Bytes}
    (h : s.descriptor ++ x = t.descriptor ++ y) : s = t ∧ x = y := by
  have hs := readWithin_descriptor s (max s.nesting t.nesting + 1) x
  have ht := readWithin_descriptor t (max s.nesting t.nesting + 1) y
  rw [if_pos (by omega)] at hs ht
  rw [h, ht] at hs
  simp only [Except.ok.injEq, Prod.mk.injEq] at hs
  exact ⟨hs.1.symm, hs.2.symm⟩

/-- Every type has exactly one spelling: its descriptor, which no other descriptor starts or continues.
In front of any bytes it is read as the type when this is not too deep, and refused for its depth
otherwise; nothing else is read as a type. -/
theorem read_descriptor_only :
    (∀ (t : Ty) (rest : Bytes), read (t.descriptor ++ rest) =
      if t.nesting ≤ nestingLimit then .ok (t, rest) else .error .tooDeep) ∧
    (∀ (bs rest : Bytes) (t : Ty), read bs = .ok (t, rest) ↔
      bs = t.descriptor ++ rest ∧ t.nesting ≤ nestingLimit) ∧
    ∀ (s t : Ty) (x y : Bytes), s.descriptor ++ x = t.descriptor ++ y ↔ s = t ∧ x = y := by
  refine ⟨fun t rest => ?_, fun bs rest t => read_eq_ok, fun s t x y => ?_⟩
  · simp only [read, readWithin_descriptor, Nat.lt_succ_iff]
  · constructor
    · exact descriptor_append_inj
    · rintro ⟨rfl, rfl⟩
      rfl

example :
    read (List.replicate 64 13 ++ [0, 9]) = .ok (Nat.repeat option 64 bool, [9]) ∧
      read (List.replicate 65 13 ++ [0, 9]) = .error .tooDeep := by
  decide +kernel

end NftLedger.Ty
