import NftLedger.Key
import NftLedger.Proofs.Reader

namespace NftLedger

open Reader

theorem Address.read_eq_ok {a : Address} {bs rest : Bytes} :
    Address.read bs = .ok (a, rest) ↔ bs = a.bytes ++ rest := by
  constructor
  · intro h
    rw [Address.read] at h
    split at h
    next hl =>
      simp only [Except.ok.injEq, Prod.mk.injEq] at h
      obtain ⟨rfl, rfl⟩ := h
      exact (List.take_append_drop 32 bs).symm
    next => cases h
  · rintro rfl
    obtain ⟨bytes, hbytes⟩ := a
    simp [Address.read, hbytes]

theorem Address.ofBytes?_eq_some_iff {bs : Bytes} {a : Address} :
    ofBytes? bs = some a ↔ bs = a.bytes := by
  obtain ⟨bytes, hbytes⟩ := a
  rw [ofBytes?]
  constructor
  · intro h
    split at h <;> cases h
    rfl
  · rintro rfl
    rw [dif_pos hbytes]

namespace Key

theorem cons_eq_bytes {tag : UInt8} {bs rest : Bytes} {k : Key} (h : ofTag tag bs = .ok (k, rest)) :
    tag :: bs = k.bytes ++ rest := by
  unfold ofTag at h
  by_cases haccount : tag = 0
  · rw [if_pos haccount] at h
    obtain ⟨a, ha, rfl⟩ := map_eq_ok.mp h
    rw [haccount, Address.read_eq_ok.mp ha]
    simp [bytes, Key.tag, rights?, address]
  rw [if_neg haccount] at h
  by_cases hhash : tag = 1
  · rw [if_pos hhash] at h
    obtain ⟨a, ha, rfl⟩ := map_eq_ok.mp h
    rw [hhash, Address.read_eq_ok.mp ha]
    simp [bytes, Key.tag, rights?, address]
  rw [if_neg hhash] at h
  by_cases huref : tag = 2
  · simp only [if_pos huref, bind_eq_ok, pure_eq_ok, Address.read_eq_ok, byte_eq_ok] at h
    obtain ⟨a, _, rfl, rights, _, rfl, rfl, rfl⟩ := h
    rw [huref]
    simp [bytes, Key.tag, rights?, address]
  · rw [if_neg huref] at h
    exact absurd h fail_ne_ok

theorem read_eq_ok {k : Key} {bs rest : Bytes} :
    Key.read bs = .ok (k, rest) ↔ bs = k.bytes ++ rest := by
  rw [Key.read, bind_eq_ok]
  constructor
  · rintro ⟨tag, mid, htag, h⟩
    rw [byte_eq_ok.mp htag, cons_eq_bytes h]
  · rintro rfl
    refine ⟨k.tag, k.address.bytes ++ (k.rights?.toList ++ rest), ?_, ?_⟩
    · simp [byte_eq_ok, bytes]
    · cases k with
      | account a => exact map_eq_ok.mpr ⟨a, Address.read_eq_ok.mpr rfl, rfl⟩
      | hash a => exact map_eq_ok.mpr ⟨a, Address.read_eq_ok.mpr rfl, rfl⟩
      | uref a rights =>
        refine (bind_ok (Address.read_eq_ok.mpr rfl)).trans ?_
        exact bind_ok (byte_eq_ok.mpr rfl)

theorem length_bytes_ge (k : Key) : 33 ≤ k.bytes.length := by
  simp [bytes, k.address.length_bytes]

end Key

end NftLedger
