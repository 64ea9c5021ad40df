import NftLedger.Proofs.Descriptor
import NftLedger.Proofs.Key
import NftLedger.Value.Decode
import NftLedger.Value.Spelling

namespace NftLedger.Value

open Reader

theorem readCount_eq_ok {rule : CountRule} {width n : Nat} {bs rest : Bytes} :
    readCount rule width bs = .ok (n, rest) ↔
      bs = Bytes.ofNat 4 n ++ rest ∧ n < UInt32.size ∧ rule width n rest.length = .ok () := by
  rw [readCount, bind_eq_ok]
  simp only [number_eq_ok]
  constructor
  · rintro ⟨m, mid, ⟨rfl, hm⟩, h⟩
    cases hr : rule width m mid.length with
    | error e => simp [hr] at h
    | ok u =>
      simp only [hr, Except.ok.injEq, Prod.mk.injEq] at h
      obtain ⟨rfl, rfl⟩ := h
      exact ⟨rfl, hm, hr⟩
  · rintro ⟨rfl, hn, hr⟩
    exact ⟨n, rest, ⟨rfl, hn⟩, by rw [hr]⟩

theorem readEnvelope_eq_ok {ty : Reader Ty} {body : Ty → Reader Value} {own : Ty} {v : Value}
    {bs rest : Bytes} :
    readEnvelope ty body bs = .ok ((own, v), rest) ↔
      ∃ used mid : Bytes, bs = used.withLength ++ mid ∧ used.length < UInt32.size ∧
        ty mid = .ok (own, rest) ∧ own ≠ .any ∧ body own used = .ok (v, []) := by
  rw [readEnvelope, bind_eq_ok]
  simp only [bind_eq_ok, number_eq_ok, take_eq_ok]
  constructor
  · rintro ⟨n, _, ⟨rfl, hn⟩, used, mid, ⟨rfl, rfl⟩, t, mid', hty, h⟩
    by_cases ht : t = .any
    · rw [if_pos ht] at h
      exact absurd h fail_ne_ok
    · rw [if_neg ht, bind_eq_ok] at h
      obtain ⟨⟨w, left⟩, mid'', hwithin, h⟩ := h
      obtain ⟨hbody, rfl⟩ := within_eq_ok.mp hwithin
      by_cases hleft : left = []
      · simp only [if_pos hleft, pure_eq_ok, Prod.mk.injEq] at h
        obtain ⟨⟨rfl, rfl⟩, rfl⟩ := h
        subst hleft
        exact ⟨used, mid, by rw [Bytes.withLength, List.append_assoc], hn, hty, ht, hbody⟩
      · simp only [if_neg hleft] at h
        exact absurd h fail_ne_ok
  · rintro ⟨used, mid, rfl, hn, hty, ht, hbody⟩
    refine ⟨used.length, _, ⟨by rw [Bytes.withLength, List.append_assoc], hn⟩, used, mid,
      ⟨rfl, rfl⟩, own, rest, hty, ?_⟩
    rw [if_neg ht]
    exact bind_ok (within_eq_ok.mpr ⟨hbody, rfl⟩)

theorem readBool_sound : Sound readBool (Spells .bool) := by
  intro bs v rest h
  rw [readBool, bind_eq_ok] at h
  obtain ⟨b, mid, hb, h⟩ := h
  rw [byte_eq_ok.mp hb]
  by_cases h0 : b = 0
  · rw [if_pos h0, pure_eq_ok] at h
    obtain ⟨rfl, rfl⟩ := h
    exact ⟨[b], rfl, h0 ▸ .bool false⟩
  · rw [if_neg h0] at h
    by_cases h1 : b = 1
    · rw [if_pos h1, pure_eq_ok] at h
      obtain ⟨rfl, rfl⟩ := h
      exact ⟨[b], rfl, h1 ▸ .bool true⟩
    · rw [if_neg h1] at h
      exact absurd h fail_ne_ok

theorem readU512_sound : Sound readU512 (Spells .u512) := by
  intro bs v rest h
  rw [readU512, bind_eq_ok] at h
  simp only [number_eq_ok] at h
  obtain ⟨n, mid, ⟨rfl, hn⟩, h⟩ := h
  by_cases hlong : 64 < n
  · rw [if_pos hlong] at h
    exact absurd h fail_ne_ok
  · simp only [if_neg hlong, bind_eq_ok, pure_eq_ok, number, map_eq_ok, take_eq_ok] at h
    obtain ⟨_, _, ⟨digits, ⟨rfl, rfl⟩, rfl⟩, rfl, rfl⟩ := h
    exact ⟨_, rfl, .u512 digits (by omega)⟩

/-- Every value read is spelled by the bytes used. The induction follows the budget, which a list,
a map or an envelope hands on to its parts with one level less. -/
theorem readWithin_sound (rule : CountRule) (budget : Nat) (t : Ty) :
    Sound (readWithin rule budget t) (Spells t) := by
  induction budget generalizing t with
  | zero => exact fun bs v rest h => absurd h fail_ne_ok
  | succ budget ih =>
    intro bs v rest h
    cases t with
    | bool => exact readBool_sound bs v rest h
    | u8 =>
      obtain ⟨n, hn, rfl⟩ := map_eq_ok.mp h
      exact ⟨[n], byte_eq_ok.mp hn, .u8 n⟩
    | u32 =>
      obtain ⟨n, hn, rfl⟩ := map_eq_ok.mp h
      exact ⟨_, u32_eq_ok.mp hn, .u32 n⟩
    | u64 =>
      obtain ⟨n, hn, rfl⟩ := map_eq_ok.mp h
      exact ⟨_, u64_eq_ok.mp hn, .u64 n⟩
    | u512 => exact readU512_sound bs v rest h
    | string =>
      obtain ⟨s, hs, rfl⟩ := map_eq_ok.mp h
      exact ⟨_, (text_eq_ok.mp hs).1, .string s (text_eq_ok.mp hs).2⟩
    | key =>
      obtain ⟨k, hk, rfl⟩ := map_eq_ok.mp h
      exact ⟨_, Key.read_eq_ok.mp hk, .key k⟩
    | byteArray length =>
      obtain ⟨used, hused, rfl⟩ := map_eq_ok.mp h
      obtain ⟨rfl, hlength⟩ := take_eq_ok.mp hused
      exact ⟨used, rfl, .byteArray length used hlength⟩
    | option inner =>
      rw [readWithin, bind_eq_ok] at h
      obtain ⟨b, mid, hb, h⟩ := h
      rw [byte_eq_ok.mp hb]
      by_cases h0 : b = 0
      · rw [if_pos h0, pure_eq_ok] at h
        obtain ⟨rfl, rfl⟩ := h
        exact ⟨[b], rfl, h0 ▸ .absent inner⟩
      · rw [if_neg h0] at h
        by_cases h1 : b = 1
        · simp only [if_pos h1, bind_eq_ok, pure_eq_ok] at h
          obtain ⟨w, _, hw, rfl, rfl⟩ := h
          obtain ⟨used, rfl, hused⟩ := ih inner _ _ _ hw
          exact ⟨b :: used, rfl, h1 ▸ .present inner used w hused⟩
        · rw [if_neg h1] at h
          exact absurd h fail_ne_ok
    | list item =>
      have hitem : Sound (readWithin rule budget item)
          fun used w => ∃ p : Piece, used = p.1 ∧ w = p.2 ∧ Spells item p.1 p.2 := by
        apply (ih item).mono
        intro used w hw
        exact ⟨(used, w), rfl, rfl, hw⟩
      simp only [readWithin, bind_eq_ok, pure_eq_ok, readCount_eq_ok] at h
      obtain ⟨n, _, ⟨rfl, hn, _⟩, items, _, hitems, rfl, rfl⟩ := h
      obtain ⟨_, rfl, pieces, rfl, rfl, rfl, hpieces⟩ := hitem.many n _ _ _ hitems
      exact ⟨_, by rw [List.append_assoc], .list item pieces hn hpieces⟩
    | map k v =>
      have hentry : Sound (pair (readWithin rule budget k) (readWithin rule budget v))
          fun used e => ∃ p : Piece × Piece, used = p.1.1 ++ p.2.1 ∧ e = (p.1.2, p.2.2) ∧
            Spells k p.1.1 p.1.2 ∧ Spells v p.2.1 p.2.2 := by
        apply ((ih k).pair (ih v)).mono
        rintro used e ⟨u, w, hused, hu, hw⟩
        exact ⟨((u, e.1), (w, e.2)), hused, rfl, hu, hw⟩
      simp only [readWithin, bind_eq_ok, pure_eq_ok, readCount_eq_ok] at h
      obtain ⟨n, _, ⟨rfl, hn, _⟩, entries, _, hentries, rfl, rfl⟩ := h
      obtain ⟨_, rfl, pieces, rfl, rfl, rfl, hpieces⟩ := hentry.many n _ _ _ hentries
      exact ⟨_, by rw [List.append_assoc], .map k v pieces hn (fun p hp => (hpieces p hp).1)
        fun p hp => (hpieces p hp).2⟩
    | any =>
      obtain ⟨⟨own, w⟩, henvelope, rfl⟩ := map_eq_ok.mp h
      obtain ⟨used, mid, rfl, hshort, hown, htyped, hbody⟩ := readEnvelope_eq_ok.mp henvelope
      obtain ⟨_, rfl, rfl⟩ := Ty.readWithin_sound budget _ _ _ hown
      obtain ⟨body, hused, hspelled⟩ := ih own _ _ _ hbody
      rw [List.append_nil] at hused
      subst hused
      exact ⟨_, by rw [envelope, List.append_assoc], .any own used w htyped hshort hspelled⟩

end NftLedger.Value
