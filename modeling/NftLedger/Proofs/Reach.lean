import NftLedger.Proofs.Limits
import NftLedger.Proofs.Parametric
import NftLedger.Value.Reach

namespace NftLedger

open Reader

theorem Reader.flat_neverDeep : Flat fun p _ => ∀ bs, p bs ≠ .error .tooDeep where
  of_pure _ _ := pure_ne_error
  of_fail _ hdepth _ h := hdepth (Except.error.inj h)
  of_byte bs := by cases bs <;> simp [byte]
  of_take n bs := by
    rw [take]
    split <;> simp
  of_address bs := by
    rw [Address.read]
    split <;> simp
  bind hp hf bs h := by
    rcases bind_eq_error.mp h with h | ⟨a, mid, -, h⟩
    · exact hp bs h
    · exact hf a mid h
  within body h _ := by
    rw [Reader.within]
    split
    · simp
    next hbody =>
      rintro ⟨⟩
      exact h body hbody

theorem Reader.number_ne_tooDeep {width : Nat} {bs : Bytes} :
    number width bs ≠ .error .tooDeep :=
  mt map_eq_error.mp (flat_neverDeep.of_take width bs)

theorem Ty.reaches_of_ofTag {n : Nat} {tag : UInt8} {bs : Bytes}
    (hpart : ∀ bs, readWithin n bs = .error .tooDeep → Reaches n bs)
    (h : ofTag (readWithin n) tag bs = .error .tooDeep) : Reaches (n + 1) (tag :: bs) := by
  unfold ofTag at h
  cases hhead : head? tag with
  | none => simp [hhead, fail] at h
  | some head =>
    simp only [hhead] at h
    rw [eq_tag_of_head? hhead]
    cases head with
    | plain t => exact absurd h pure_ne_error
    | byteArray => exact absurd (map_eq_error.mp (bind_pure_eq_error.mp h)) number_ne_tooDeep
    | option => exact .option (hpart _ (bind_pure_eq_error.mp h))
    | list => exact .list (hpart _ (bind_pure_eq_error.mp h))
    | map =>
      rcases bind_eq_error.mp h with hk | ⟨k, mid, hk, hv⟩
      · exact .mapKey (hpart _ hk)
      · obtain ⟨_, rfl, rfl⟩ := readWithin_sound n _ _ _ hk
        exact .mapValue k (hpart _ (bind_pure_eq_error.mp hv))

/-- A descriptor is refused for depth exactly when it opens a type too many levels down. -/
theorem Ty.readWithin_eq_tooDeep {n : Nat} {bs : Bytes} :
    readWithin n bs = .error .tooDeep ↔ Reaches n bs := by
  induction n generalizing bs with
  | zero => exact iff_of_true rfl (.here bs)
  | succ n ih =>
    rw [readWithin, bind_eq_error]
    constructor
    · rintro (h | ⟨tag, mid, htag, h⟩)
      · exact absurd h (flat_neverDeep.of_byte bs)
      · rw [byte_eq_ok.mp htag]
        exact reaches_of_ofTag (fun bs => ih.mp) h
    · intro h
      right
      cases h with
      | option inner => exact ⟨13, _, rfl, bind_error (ih.mpr inner)⟩
      | list item => exact ⟨14, _, rfl, bind_error (ih.mpr item)⟩
      | mapKey key => exact ⟨17, _, rfl, bind_error (ih.mpr key)⟩
      | @mapValue _ rest k value =>
        refine ⟨17, _, rfl, ?_⟩
        have hk := readWithin_descriptor k n rest
        by_cases hdeep : k.nesting < n
        · rw [if_pos hdeep] at hk
          exact (bind_ok hk).trans (bind_error (ih.mpr value))
        · rw [if_neg hdeep] at hk
          exact bind_error hk

namespace Value

theorem Stands.tooDeep_or_ok {t : Ty} {p : Piece} (h : Stands t p) (n : Nat) (rest : Bytes) :
    readWithin .roomy n t (p.1 ++ rest) = .error .tooDeep ∨
      readWithin .roomy n t (p.1 ++ rest) = .ok (p.2, rest) := by
  have hverdict := readWithin_verdict CountRule.roomy_fair h.1 n rest
  generalize readWithin .roomy n t (p.1 ++ rest) = r at hverdict
  cases hverdict with
  | accepted => exact .inr rfl
  | tooDeep => exact .inl rfl
  | tooMany hb => exact absurd h.2 hb

theorem stands_of_readWithin (n : Nat) (t : Ty) :
    Sound (readWithin .roomy n t) fun used v => Stands t (used, v) := by
  intro bs v rest h
  obtain ⟨used, hused, hspells, -, hbounded⟩ := (readWithin_eq_ok CountRule.roomy_fair).mp h
  exact ⟨used, hused, hspells, hbounded⟩

theorem roomy_eq_ok {width count left : Nat} :
    CountRule.roomy width count left = .ok () ↔
      (width = 0 → count ≤ 1024) ∧ min (count * width) (UInt64.size - 1) ≤ left := by
  by_cases hwidth : width = 0
  · simp [CountRule.roomy, CountRule.bounded, CountRule.zeroWidthLimit, hwidth]
  · by_cases hroom : left < min (count * width) (UInt64.size - 1)
    · simp only [CountRule.roomy, if_neg hwidth, if_pos hroom]
      exact iff_of_false (by simp) fun h => by omega
    · simp only [CountRule.roomy, if_neg hwidth, if_neg hroom]
      exact iff_of_true trivial ⟨fun h => absurd h hwidth, Nat.le_of_not_lt hroom⟩

theorem readCount_eq_ok_iff_admits {width count : Nat} {bs rest : Bytes} :
    readCount .roomy width bs = .ok (count, rest) ↔
      bs = Bytes.ofNat 4 count ++ rest ∧ Admits width count rest.length := by
  rw [readCount_eq_ok, roomy_eq_ok, Admits]

theorem roomy_ne_tooDeep (width count left : Nat) :
    CountRule.roomy width count left ≠ .error .tooDeep := by
  rw [CountRule.roomy, CountRule.bounded]
  split
  · split <;> simp
  · simp only
    split <;> simp

theorem readCount_ne_tooDeep {width : Nat} {bs : Bytes} :
    readCount .roomy width bs ≠ .error .tooDeep := by
  rw [readCount]
  intro h
  rcases bind_eq_error.mp h with h | ⟨count, mid, -, h⟩
  · exact number_ne_tooDeep h
  · cases hrule : CountRule.roomy width count mid.length with
    | ok u => simp [hrule] at h
    | error e =>
      simp only [hrule, Except.error.injEq] at h
      subst h
      exact roomy_ne_tooDeep _ _ _ hrule

theorem readEnvelope_eq_tooDeep {ty : Reader Ty} {body : Ty → Reader Value} {bs : Bytes} :
    readEnvelope ty body bs = .error .tooDeep ↔
      ∃ used mid : Bytes, bs = used.withLength ++ mid ∧ used.length < UInt32.size ∧
        (ty mid = .error .tooDeep ∨ ∃ own rest, ty mid = .ok (own, rest) ∧ own ≠ .any ∧
          body own used = .error .tooDeep) := by
  rw [readEnvelope, bind_eq_error]
  constructor
  · rintro (h | ⟨length, _, hlength, h⟩)
    · exact absurd h number_ne_tooDeep
    obtain ⟨rfl, hshort⟩ := number_eq_ok.mp hlength
    rcases bind_eq_error.mp h with htake | ⟨used, mid, hused, hty⟩
    · exact absurd htake (flat_neverDeep.of_take length _)
    obtain ⟨rfl, rfl⟩ := take_eq_ok.mp hused
    refine ⟨used, mid, by rw [Bytes.withLength, List.append_assoc], hshort, ?_⟩
    rcases bind_eq_error.mp hty with hty | ⟨own, rest, hown, h⟩
    · exact .inl hty
    by_cases hany : own = .any
    · rw [if_pos hany, fail_eq_error] at h
      cases h
    rw [if_neg hany] at h
    rcases bind_eq_error.mp h with h | ⟨⟨v, left⟩, _, -, h⟩
    · exact .inr ⟨own, rest, hown, hany, within_eq_error.mp h⟩
    by_cases hleft : left = []
    · simp only [if_pos hleft] at h
      exact absurd h pure_ne_error
    · simp only [if_neg hleft, fail_eq_error] at h
      cases h
  · rintro ⟨used, mid, rfl, hshort, h⟩
    right
    refine ⟨used.length, used ++ mid, ?_, ?_⟩
    · rw [Bytes.withLength, List.append_assoc]
      exact number_append hshort (used ++ mid)
    rw [bind_ok (take_append used mid)]
    rcases h with h | ⟨own, rest, hown, hany, h⟩
    · exact bind_error h
    · rw [bind_ok hown, if_neg hany]
      exact bind_error (within_eq_error.mpr h)

theorem readEnvelope_eq_tooDeep_iff_reaches {n : Nat}
    (hbody : ∀ own body, readWithin .roomy n own body = .error .tooDeep ↔ Reaches own n body)
    {bs : Bytes} :
    readEnvelope (Ty.readWithin n) (readWithin .roomy n) bs = .error .tooDeep ↔
      EnvelopeReaches n bs := by
  rw [readEnvelope_eq_tooDeep]
  constructor
  · rintro ⟨body, mid, rfl, hshort, h | ⟨own, rest, hown, hany, h⟩⟩
    · exact .descriptor body hshort (Ty.readWithin_eq_tooDeep.mp h)
    · obtain ⟨_, rfl, rfl⟩ := Ty.readWithin_sound n _ _ _ hown
      exact .content rest hany hshort ((hbody own body).mp h)
  · intro h
    cases h with
    | @descriptor _ rest body hshort own =>
      exact ⟨body, rest, rfl, hshort, .inl (Ty.readWithin_eq_tooDeep.mpr own)⟩
    | @content own _ body rest hany hshort value =>
      have hown := Ty.readWithin_descriptor own n rest
      refine ⟨body, own.descriptor ++ rest, rfl, hshort, ?_⟩
      by_cases hdeep : own.nesting < n
      · rw [if_pos hdeep] at hown
        exact .inr ⟨own, rest, hown, hany, (hbody own body).mpr value⟩
      · rw [if_neg hdeep] at hown
        exact .inl hown

theorem pair_eq_tooDeep {k v : Ty} {n : Nat} {bs : Bytes}
    (hk : ∀ bs, readWithin .roomy n k bs = .error .tooDeep ↔ Reaches k n bs)
    (hv : ∀ bs, readWithin .roomy n v bs = .error .tooDeep ↔ Reaches v n bs) :
    pair (readWithin .roomy n k) (readWithin .roomy n v) bs = .error .tooDeep ↔
      Reaches k n bs ∨ ∃ key rest, bs = key.1 ++ rest ∧ Stands k key ∧ Reaches v n rest := by
  simp only [pair, bind_eq_error (p := readWithin .roomy n k), bind_pure_eq_error, hk, hv]
  constructor
  · rintro (h | ⟨key, rest, hkey, h⟩)
    · exact .inl h
    · obtain ⟨used, rfl, hused⟩ := stands_of_readWithin n k _ _ _ hkey
      exact .inr ⟨(used, key), rest, rfl, hused, h⟩
  · rintro (h | ⟨key, rest, rfl, hkey, h⟩)
    · exact .inl h
    · rcases hkey.tooDeep_or_ok n rest with hdeep | hok
      · exact .inl ((hk _).mp hdeep)
      · exact .inr ⟨key.2, rest, hok, h⟩

theorem many_item_eq_tooDeep {item : Ty} {n count : Nat} {bs : Bytes} :
    many (readWithin .roomy n item) count bs = .error .tooDeep ↔
      ∃ pieces : List Piece, pieces.length < count ∧ (∀ p ∈ pieces, Stands item p) ∧
        ∃ rest, bs = pieces.flatMap (·.1) ++ rest ∧
          readWithin .roomy n item rest = .error .tooDeep := by
  apply many_eq_error
  · exact (stands_of_readWithin n item).mono fun used v h => ⟨(used, v), rfl, h⟩
  · exact fun p hp rest => (hp.tooDeep_or_ok n rest).imp_right fun h => ⟨p.2, h⟩

theorem many_entry_eq_tooDeep {k v : Ty} {n count : Nat} {bs : Bytes} :
    many (pair (readWithin .roomy n k) (readWithin .roomy n v)) count bs = .error .tooDeep ↔
      ∃ pieces : List (Piece × Piece), pieces.length < count ∧
        (∀ p ∈ pieces, Stands k p.1 ∧ Stands v p.2) ∧
        ∃ rest, bs = pieces.flatMap (fun p => p.1.1 ++ p.2.1) ++ rest ∧
          pair (readWithin .roomy n k) (readWithin .roomy n v) rest = .error .tooDeep := by
  apply many_eq_error
  · apply ((stands_of_readWithin n k).pair (stands_of_readWithin n v)).mono
    rintro used entry ⟨key, value, rfl, hkey, hvalue⟩
    exact ⟨((key, entry.1), (value, entry.2)), rfl, hkey, hvalue⟩
  · rintro ⟨key, value⟩ ⟨hkey, hvalue⟩ rest
    simp only [pair, List.append_assoc]
    rcases hkey.tooDeep_or_ok n (value.1 ++ rest) with hdeep | hok
    · exact .inl (bind_error hdeep)
    rw [bind_ok hok]
    rcases hvalue.tooDeep_or_ok n rest with hdeep | hok
    · exact .inl (bind_error hdeep)
    · exact .inr ⟨_, bind_ok hok⟩

section Step

variable {t k v : Ty} {n : Nat} {bs : Bytes}

theorem readWithin_option_eq_tooDeep
    (ht : ∀ bs, readWithin .roomy n t bs = .error .tooDeep ↔ Reaches t n bs) :
    readWithin .roomy (n + 1) (.option t) bs = .error .tooDeep ↔ Reaches (.option t) (n + 1) bs := by
  rw [readWithin, bind_eq_error]
  constructor
  · rintro (h | ⟨b, rest, hb, h⟩)
    · exact absurd h (flat_neverDeep.of_byte bs)
    rw [byte_eq_ok.mp hb]
    by_cases h0 : b = 0
    · rw [if_pos h0] at h
      exact absurd h pure_ne_error
    rw [if_neg h0] at h
    by_cases h1 : b = 1
    · rw [if_pos h1, bind_pure_eq_error, ht] at h
      rw [h1]
      exact .present h
    · rw [if_neg h1, fail_eq_error] at h
      cases h
  · intro h
    cases h with
    | present content => exact .inr ⟨1, _, rfl, bind_error ((ht _).mpr content)⟩

theorem readWithin_list_eq_tooDeep
    (ht : ∀ bs, readWithin .roomy n t bs = .error .tooDeep ↔ Reaches t n bs) :
    readWithin .roomy (n + 1) (.list t) bs = .error .tooDeep ↔ Reaches (.list t) (n + 1) bs := by
  rw [readWithin, bind_eq_error, or_iff_right readCount_ne_tooDeep]
  simp only [readCount_eq_ok_iff_admits, bind_pure_eq_error, many_item_eq_tooDeep, ht]
  constructor
  · rintro ⟨count, _, ⟨rfl, hadmits⟩, pieces, hfewer, hearlier, rest, rfl, h⟩
    exact .item pieces hearlier hfewer hadmits h
  · intro h
    cases h with
    | item pieces hearlier hfewer hadmits next =>
      exact ⟨_, _, ⟨rfl, hadmits⟩, pieces, hfewer, hearlier, _, rfl, next⟩

theorem readWithin_map_eq_tooDeep
    (hk : ∀ bs, readWithin .roomy n k bs = .error .tooDeep ↔ Reaches k n bs)
    (hv : ∀ bs, readWithin .roomy n v bs = .error .tooDeep ↔ Reaches v n bs) :
    readWithin .roomy (n + 1) (.map k v) bs = .error .tooDeep ↔ Reaches (.map k v) (n + 1) bs := by
  rw [readWithin, bind_eq_error, or_iff_right readCount_ne_tooDeep]
  simp only [readCount_eq_ok_iff_admits, bind_pure_eq_error, many_entry_eq_tooDeep,
    pair_eq_tooDeep hk hv]
  constructor
  · rintro ⟨count, _, ⟨rfl, hadmits⟩, pieces, hfewer, hearlier, _, rfl,
      h | ⟨key, rest, rfl, hkey, h⟩⟩
    · exact .entryKey pieces hearlier hfewer hadmits h
    · exact .entryValue pieces key hearlier hkey hfewer hadmits h
  · intro h
    cases h with
    | entryKey pieces hearlier hfewer hadmits next =>
      exact ⟨_, _, ⟨rfl, hadmits⟩, pieces, hfewer, hearlier, _, rfl, .inl next⟩
    | entryValue pieces key hearlier hkey hfewer hadmits next =>
      exact ⟨_, _, ⟨rfl, hadmits⟩, pieces, hfewer, hearlier, _, rfl,
        .inr ⟨key, _, rfl, hkey, next⟩⟩

/-- A value is refused for depth exactly when it opens one too many levels down. -/
theorem readWithin_eq_tooDeep :
    readWithin .roomy n t bs = .error .tooDeep ↔ Reaches t n bs := by
  induction n generalizing t bs with
  | zero => exact iff_of_true rfl (.here t bs)
  | succ n ih =>
    cases t with
    | bool => exact iff_of_false (flat_neverDeep.bool bs) fun h => nomatch h
    | u8 =>
      exact iff_of_false (mt map_eq_error.mp (flat_neverDeep.of_byte bs)) fun h => nomatch h
    | u32 | u64 =>
      refine iff_of_false ?_ fun h => nomatch h
      exact mt (map_eq_error.mp ∘ map_eq_error.mp) number_ne_tooDeep
    | u512 => exact iff_of_false (flat_neverDeep.u512 bs) fun h => nomatch h
    | string =>
      exact iff_of_false (mt map_eq_error.mp (flat_neverDeep.text bs)) fun h => nomatch h
    | key => exact iff_of_false (mt map_eq_error.mp (flat_neverDeep.key bs)) fun h => nomatch h
    | byteArray length =>
      exact iff_of_false (mt map_eq_error.mp (flat_neverDeep.of_take length.toNat bs))
        fun h => nomatch h
    | option inner => exact readWithin_option_eq_tooDeep fun _ => ih
    | list item => exact readWithin_list_eq_tooDeep fun _ => ih
    | map k v => exact readWithin_map_eq_tooDeep (fun _ => ih) fun _ => ih
    | any =>
      rw [readWithin, map_eq_error, readEnvelope_eq_tooDeep_iff_reaches fun _ _ => ih]
      exact ⟨.any, fun h => by cases h; assumption⟩

end Step

end Value

end NftLedger
