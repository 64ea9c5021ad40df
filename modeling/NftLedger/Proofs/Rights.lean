import NftLedger.Key.Spelling
import NftLedger.Proofs.Identity

namespace NftLedger.Key

theorem octalDigit_iff {c : Char} : OctalDigit c ↔ 48 ≤ c.toNat ∧ c.toNat ≤ 55 := Iff.rfl

theorem octalValue?_eq_some_iff {c : Char} {n : Nat} :
    octalValue? c = some n ↔ OctalDigit c ∧ c.toNat - '0'.toNat = n := by
  change (if OctalDigit c then some (c.toNat - 48) else none) = some n ↔ _
  split
  next h => simp [h]
  next h => simp [h]

theorem octalNumber?_eq_some_iff {cs : List Char} {n : Nat} :
    octalNumber? cs = some n ↔ (∀ c ∈ cs, OctalDigit c) ∧ octalSum cs = n := by
  -- the digits that have been read are kept as the number they make
  have hfold (m : Nat) : cs.foldlM (fun n c => (8 * n + ·) <$> octalValue? c) m = some n ↔
      (∀ c ∈ cs, OctalDigit c) ∧ cs.foldl (fun n c => 8 * n + (c.toNat - '0'.toNat)) m = n := by
    induction cs generalizing m with
    | nil => simp
    | cons c cs ih =>
      rw [List.foldlM_cons, Option.bind_eq_bind, Option.bind_eq_some_iff]
      simp only [ih]
      simp only [Option.map_eq_map, Option.map_eq_some_iff, octalValue?_eq_some_iff,
        List.forall_mem_cons, List.foldl_cons]
      constructor
      · rintro ⟨_, ⟨_, ⟨hc, rfl⟩, rfl⟩, hcs, hn⟩
        exact ⟨⟨hc, hcs⟩, hn⟩
      · rintro ⟨⟨hc, hcs⟩, hn⟩
        exact ⟨_, ⟨_, ⟨hc, rfl⟩, rfl⟩, hcs, hn⟩
  exact hfold 0

theorem toNat_octalDigit (n : Nat) : (octalDigit n).toNat = 48 + n % 8 := by
  have hdigit : ∀ d < 8, (Char.ofNat (48 + d)).toNat = 48 + d := by decide
  exact hdigit (n % 8) (Nat.mod_lt n (by decide))

theorem octalSum_triple (a b c : Char) :
    octalSum [a, b, c] = 64 * (a.toNat - 48) + 8 * (b.toNat - 48) + (c.toNat - 48) := by
  change 8 * (8 * (8 * 0 + (a.toNat - 48)) + (b.toNat - 48)) + (c.toNat - 48) = _
  omega

theorem octalSum_octal (rights : UInt8) : octalSum (octal rights) = rights.toNat := by
  have hlt := rights.toNat_lt
  rw [octal, octalSum_triple, toNat_octalDigit, toNat_octalDigit, toNat_octalDigit]
  omega

theorem octalDigit_of_mem_octal {rights : UInt8} : ∀ c ∈ octal rights, OctalDigit c := by
  have hdigit (n : Nat) : OctalDigit (octalDigit n) := by
    rw [octalDigit_iff, toNat_octalDigit]
    omega
  simp [octal, hdigit]

theorem eq_octal {cs : List Char} {rights : UInt8} (hlength : cs.length = 3)
    (hdigits : ∀ c ∈ cs, OctalDigit c) (hsum : octalSum cs = rights.toNat) : cs = octal rights := by
  obtain ⟨a, b, c, rfl⟩ := List.length_eq_three.mp hlength
  simp only [List.forall_mem_cons, octalDigit_iff] at hdigits
  rw [octalSum_triple] at hsum
  have hdigit {x : Char} {n : Nat} (h : x.toNat = 48 + n % 8) : x = octalDigit n :=
    Char.toNat_inj.mp (h.trans (toNat_octalDigit n).symm)
  rw [octal, hdigit (x := a) (n := rights.toNat / 64) (by omega),
    hdigit (x := b) (n := rights.toNat / 8) (by omega),
    hdigit (x := c) (n := rights.toNat) (by omega)]

theorem byteOf?_eq_some_iff {cs : List Char} {rights : UInt8} :
    (octalNumber? cs >>= fun n => if n < 256 then some (UInt8.ofNat n) else none) = some rights ↔
      (∀ c ∈ cs, OctalDigit c) ∧ octalSum cs = rights.toNat := by
  rw [Option.bind_eq_bind, Option.bind_eq_some_iff]
  simp only [octalNumber?_eq_some_iff]
  constructor
  · rintro ⟨n, ⟨hdigits, rfl⟩, hbyte⟩
    split at hbyte
    next hlt =>
      cases hbyte
      exact ⟨hdigits, (UInt8.toNat_ofNat_of_lt hlt).symm⟩
    next => cases hbyte
  · rintro ⟨hdigits, hsum⟩
    exact ⟨_, ⟨hdigits, hsum⟩, by rw [if_pos rights.toNat_lt, UInt8.ofNat_toNat]⟩

/-- Rights are read from their three digits, or with a plus sign in place of a leading zero. -/
theorem rightsOf?_eq_some_iff {cs : List Char} {rights : UInt8} :
    rightsOf? cs = some rights ↔
      cs = octal rights ∨ ∃ b c, octal rights = ['0', b, c] ∧ cs = ['+', b, c] := by
  have hplus : ¬ OctalDigit '+' := by decide
  have hzero : OctalDigit '0' := by decide
  have hsum (b c : Char) : octalSum ['0', b, c] = octalSum [b, c] := rfl
  constructor
  · intro h
    fun_cases rightsOf? cs with
    | case1 a b c =>
      have hbyte := byteOf?_eq_some_iff.mp h
      split at hbyte
      next ha =>
        subst ha
        refine .inr ⟨b, c, (eq_octal rfl ?_ ((hsum b c).trans hbyte.2)).symm, rfl⟩
        exact List.forall_mem_cons.mpr ⟨hzero, hbyte.1⟩
      next => exact .inl (eq_octal rfl hbyte.1 hbyte.2)
    | case2 =>
      simp [rightsOf?] at h
  · have hdigits := @octalDigit_of_mem_octal rights
    have htotal := octalSum_octal rights
    rintro (rfl | ⟨b, c, hoctal, rfl⟩)
    · have hne : octalDigit (rights.toNat / 64) ≠ '+' := fun h =>
        hplus (h ▸ hdigits _ List.mem_cons_self)
      rw [octal, rightsOf?, if_neg hne]
      exact byteOf?_eq_some_iff.mpr ⟨hdigits, htotal⟩
    · rw [hoctal] at hdigits htotal
      rw [rightsOf?, if_pos rfl]
      exact byteOf?_eq_some_iff.mpr ⟨(List.forall_mem_cons.mp hdigits).2, htotal⟩

theorem length_of_rightsOf? {cs : List Char} {rights : UInt8} (h : rightsOf? cs = some rights) :
    cs.length = 3 := by
  rcases rightsOf?_eq_some_iff.mp h with rfl | ⟨b, c, -, rfl⟩ <;> rfl

theorem dash_notMem_of_rightsOf? {cs : List Char} {rights : UInt8} (h : rightsOf? cs = some rights) :
    '-' ∉ cs := by
  have hdash : ¬ OctalDigit '-' := by decide
  have hoctal : '-' ∉ octal rights := fun h => hdash (octalDigit_of_mem_octal _ h)
  rcases rightsOf?_eq_some_iff.mp h with rfl | ⟨b, c, hdigits, rfl⟩
  · exact hoctal
  · rw [hdigits, List.mem_cons, not_or] at hoctal
    simpa using hoctal.2

theorem rightsSpelling_iff {s : String} :
    RightsSpelling s ↔ ∃ rights, s = String.ofList (octal rights) := by
  constructor
  · rintro ⟨hlength, hdigits, hsum⟩
    have hbyte : octalSum s.toList = (UInt8.ofNat (octalSum s.toList)).toNat :=
      (UInt8.toNat_ofNat_of_lt (Nat.lt_succ_of_le hsum)).symm
    exact ⟨_, by rw [← eq_octal hlength hdigits hbyte, String.ofList_toList]⟩
  · rintro ⟨rights, rfl⟩
    rw [RightsSpelling, String.toList_ofList, octalSum_octal]
    exact ⟨rfl, octalDigit_of_mem_octal, Nat.le_of_lt_succ rights.toNat_lt⟩

theorem lower_octal (rights : UInt8) :
    Identity.lower (String.ofList (octal rights)) = String.ofList (octal rights) := by
  have hlower : ∀ c ∈ octal rights, c.toLower = c := by
    intro c hc
    have hdigit := octalDigit_iff.mp (octalDigit_of_mem_octal c hc)
    exact Text.toLower_eq_self (by omega)
  rw [Identity.lower, String.toList_ofList, List.map_congr_left hlower, List.map_id']

end NftLedger.Key
