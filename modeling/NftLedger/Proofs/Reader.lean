import NftLedger.Proofs.Digits
import NftLedger.Wire.Reader

namespace NftLedger.Reader

variable {α β : Type} {p : Reader α} {f : α → Reader β} {bs rest : Bytes}

theorem bind_ok {a : α} {mid : Bytes} (h : p bs = .ok (a, mid)) : (p >>= f) bs = f a mid := by
  change Except.bind (p bs) (fun q => f q.1 q.2) = f a mid
  rw [h]
  rfl

theorem bind_error {e : DecodeError} (h : p bs = .error e) : (p >>= f) bs = .error e := by
  change Except.bind (p bs) (fun q => f q.1 q.2) = .error e
  rw [h]
  rfl

theorem bind_eq_ok {b : β} :
    (p >>= f) bs = .ok (b, rest) ↔ ∃ a mid, p bs = .ok (a, mid) ∧ f a mid = .ok (b, rest) := by
  constructor
  · intro h
    cases hp : p bs with
    | error e => rw [bind_error hp] at h; cases h
    | ok q => exact ⟨q.1, q.2, rfl, by rwa [bind_ok hp] at h⟩
  · rintro ⟨a, mid, hp, hf⟩
    rwa [bind_ok hp]

theorem bind_eq_error {e : DecodeError} :
    (p >>= f) bs = .error e ↔ p bs = .error e ∨ ∃ a mid, p bs = .ok (a, mid) ∧ f a mid = .error e := by
  cases hp : p bs with
  | error e' => simp [bind_error hp]
  | ok q =>
    rw [bind_ok hp]
    constructor
    · intro h
      exact .inr ⟨q.1, q.2, rfl, h⟩
    · rintro (h | ⟨a, mid, h, hf⟩)
      · cases h
      · cases h
        exact hf

theorem pure_ne_error {a : α} {e : DecodeError} : (pure a : Reader α) bs ≠ .error e := by
  change Except.ok (a, bs) ≠ .error e
  simp

theorem pure_eq_ok {a b : α} : (pure a : Reader α) bs = .ok (b, rest) ↔ a = b ∧ bs = rest := by
  change Except.ok (a, bs) = .ok (b, rest) ↔ _
  simp

theorem map_eq_ok {g : α → β} {b : β} :
    (g <$> p) bs = .ok (b, rest) ↔ ∃ a, p bs = .ok (a, rest) ∧ g a = b := by
  rw [map_eq_pure_bind, bind_eq_ok]
  simp only [pure_eq_ok]
  constructor
  · rintro ⟨a, mid, hp, rfl, rfl⟩
    exact ⟨a, hp, rfl⟩
  · rintro ⟨a, hp, rfl⟩
    exact ⟨a, rest, hp, rfl, rfl⟩

theorem fail_eq_error {e e' : DecodeError} : (fail e : Reader α) bs = .error e' ↔ e = e' := by
  simp [fail]

theorem bind_pure_eq_error {g : α → β} {e : DecodeError} :
    (p >>= fun a => pure (g a)) bs = .error e ↔ p bs = .error e := by
  rw [bind_eq_error, or_iff_left]
  rintro ⟨_, _, -, h⟩
  exact pure_ne_error h

theorem map_eq_error {g : α → β} {e : DecodeError} :
    (g <$> p) bs = .error e ↔ p bs = .error e := by
  rw [map_eq_pure_bind, bind_pure_eq_error]

theorem fail_ne_ok {e : DecodeError} {b : α} : (fail e : Reader α) bs ≠ .ok (b, rest) := by
  simp [fail]

theorem take_append (used rest : Bytes) : take used.length (used ++ rest) = .ok (used, rest) := by
  simp [take]

theorem take_eq_ok {n : Nat} {used : Bytes} :
    take n bs = .ok (used, rest) ↔ bs = used ++ rest ∧ used.length = n := by
  constructor
  · intro h
    rw [take] at h
    split at h
    next hn =>
      simp only [Except.ok.injEq, Prod.mk.injEq] at h
      obtain ⟨rfl, rfl⟩ := h
      exact ⟨(List.take_append_drop n bs).symm, by simpa using hn⟩
    next => cases h
  · rintro ⟨rfl, rfl⟩
    exact take_append used rest

theorem byte_eq_ok {b : UInt8} : byte bs = .ok (b, rest) ↔ bs = b :: rest := by
  cases bs <;> simp [byte]

theorem number_eq_ok {width n : Nat} :
    number width bs = .ok (n, rest) ↔ bs = Bytes.ofNat width n ++ rest ∧ n < 256 ^ width := by
  rw [number, map_eq_ok]
  simp only [take_eq_ok]
  constructor
  · rintro ⟨used, ⟨rfl, rfl⟩, rfl⟩
    exact ⟨by rw [Bytes.ofNat_toNat], Bytes.toNat_lt used⟩
  · rintro ⟨rfl, hn⟩
    exact ⟨_, ⟨rfl, Bytes.length_ofNat width n⟩, Bytes.toNat_ofNat width n hn⟩

theorem number_append {width n : Nat} (h : n < 256 ^ width) (rest : Bytes) :
    number width (Bytes.ofNat width n ++ rest) = .ok (n, rest) :=
  number_eq_ok.mpr ⟨rfl, h⟩

theorem u32_eq_ok {n : UInt32} : u32 bs = .ok (n, rest) ↔ bs = Bytes.ofNat 4 n.toNat ++ rest := by
  rw [u32, map_eq_ok]
  simp only [number_eq_ok]
  constructor
  · rintro ⟨m, ⟨rfl, hm⟩, rfl⟩
    rw [UInt32.toNat_ofNat', Nat.mod_eq_of_lt (by omega)]
  · rintro rfl
    exact ⟨n.toNat, ⟨rfl, n.toNat_lt⟩, UInt32.ofNat_toNat⟩

theorem u64_eq_ok {n : UInt64} : u64 bs = .ok (n, rest) ↔ bs = Bytes.ofNat 8 n.toNat ++ rest := by
  rw [u64, map_eq_ok]
  simp only [number_eq_ok]
  constructor
  · rintro ⟨m, ⟨rfl, hm⟩, rfl⟩
    rw [UInt64.toNat_ofNat', Nat.mod_eq_of_lt (by omega)]
  · rintro rfl
    exact ⟨n.toNat, ⟨rfl, n.toNat_lt⟩, UInt64.ofNat_toNat⟩

theorem text_eq_ok {s : String} :
    text bs = .ok (s, rest) ↔
      bs = (Bytes.ofText s).withLength ++ rest ∧ (Bytes.ofText s).length < UInt32.size := by
  rw [text, bind_eq_ok]
  simp only [bind_eq_ok, number_eq_ok, take_eq_ok]
  constructor
  · rintro ⟨n, mid, ⟨rfl, hn⟩, used, mid', ⟨rfl, rfl⟩, h⟩
    cases hs : Bytes.toText? used with
    | none =>
      rw [hs] at h
      exact absurd h fail_ne_ok
    | some s' =>
      rw [hs] at h
      obtain ⟨rfl, rfl⟩ := pure_eq_ok.mp h
      rw [Bytes.eq_ofText_of_toText? hs] at hn ⊢
      exact ⟨by rw [Bytes.withLength, List.append_assoc], hn⟩
  · rintro ⟨rfl, hs⟩
    refine ⟨_, _, ⟨by rw [Bytes.withLength, List.append_assoc], hs⟩, _, _, ⟨rfl, rfl⟩, ?_⟩
    rw [Bytes.toText?_ofText]
    rfl

theorem pair_eq_ok {second : Reader β} {a : α} {b : β} :
    pair p second bs = .ok ((a, b), rest) ↔
      ∃ mid, p bs = .ok (a, mid) ∧ second mid = .ok (b, rest) := by
  rw [pair, bind_eq_ok]
  simp only [bind_eq_ok, pure_eq_ok, Prod.mk.injEq]
  constructor
  · rintro ⟨_, mid, hp, _, _, hs, ⟨rfl, rfl⟩, rfl⟩
    exact ⟨mid, hp, hs⟩
  · rintro ⟨mid, hp, hs⟩
    exact ⟨a, mid, hp, b, rest, hs, ⟨rfl, rfl⟩, rfl⟩

theorem within_eq_ok {body left : Bytes} {a : α} :
    within body p bs = .ok ((a, left), rest) ↔ p body = .ok (a, left) ∧ bs = rest := by
  rw [within]
  cases p body <;> simp

theorem within_eq_error {body : Bytes} {e : DecodeError} :
    within body p bs = .error e ↔ p body = .error e := by
  rw [within]
  cases p body <;> simp

/-- Whatever the reader accepts, the bytes that it uses stand for the result. -/
def Sound (p : Reader α) (R : Bytes → α → Prop) : Prop :=
  ∀ bs a rest, p bs = .ok (a, rest) → ∃ used, bs = used ++ rest ∧ R used a

theorem Sound.mono {R S : Bytes → α → Prop} (hp : Sound p R) (h : ∀ used a, R used a → S used a) :
    Sound p S := by
  intro bs a rest hok
  obtain ⟨used, rfl, hR⟩ := hp bs a rest hok
  exact ⟨used, rfl, h used a hR⟩

theorem Sound.pair {second : Reader β} {R : Bytes → α → Prop} {S : Bytes → β → Prop}
    (hp : Sound p R) (hs : Sound second S) :
    Sound (pair p second) fun used q => ∃ u w, used = u ++ w ∧ R u q.1 ∧ S w q.2 := by
  rintro bs ⟨a, b⟩ rest h
  obtain ⟨mid, ha, hb⟩ := pair_eq_ok.mp h
  obtain ⟨u, rfl, hu⟩ := hp _ _ _ ha
  obtain ⟨w, rfl, hw⟩ := hs _ _ _ hb
  exact ⟨u ++ w, by rw [List.append_assoc], u, w, rfl, hu, hw⟩

/-- Repeated reading cuts the bytes used into one piece for each result. What makes up a piece is
left open. -/
theorem Sound.many {Piece : Type} {code : Piece → Bytes} {result : Piece → α} {Good : Piece → Prop}
    (hp : Sound p fun used a => ∃ q, used = code q ∧ a = result q ∧ Good q) (n : Nat) :
    Sound (many p n) fun used as => ∃ pieces : List Piece, pieces.length = n ∧
      used = pieces.flatMap code ∧ as = pieces.map result ∧ ∀ q ∈ pieces, Good q := by
  induction n with
  | zero =>
    intro bs as rest h
    obtain ⟨rfl, rfl⟩ := pure_eq_ok.mp h
    exact ⟨[], rfl, [], rfl, rfl, rfl, by simp⟩
  | succ n ih =>
    intro bs as rest h
    simp only [Reader.many, bind_eq_ok, pure_eq_ok] at h
    obtain ⟨_, _, ha, _, _, has, rfl, rfl⟩ := h
    obtain ⟨_, rfl, q, rfl, rfl, hq⟩ := hp _ _ _ ha
    obtain ⟨_, rfl, pieces, rfl, rfl, rfl, hpieces⟩ := ih _ _ _ has
    refine ⟨code q ++ pieces.flatMap code, by rw [List.append_assoc], q :: pieces, rfl, rfl, rfl, ?_⟩
    exact List.forall_mem_cons.mpr ⟨hq, hpieces⟩

/-- Repeated reading fails on one of the results. Those before it have pieces, which are read unless
they fail in the same way. -/
theorem many_eq_error {Piece : Type} {code : Piece → Bytes} {Good : Piece → Prop} {e : DecodeError}
    (hp : Sound p fun used _ => ∃ q, used = code q ∧ Good q)
    (hgood : ∀ q, Good q → ∀ rest,
      p (code q ++ rest) = .error e ∨ ∃ a, p (code q ++ rest) = .ok (a, rest)) {n : Nat} :
    many p n bs = .error e ↔ ∃ pieces : List Piece, pieces.length < n ∧ (∀ q ∈ pieces, Good q) ∧
      ∃ rest, bs = pieces.flatMap code ++ rest ∧ p rest = .error e := by
  induction n generalizing bs with
  | zero => simp [many, pure_ne_error]
  | succ n ih =>
    simp only [many, bind_eq_error, pure_ne_error, and_false, exists_false, or_false, ih]
    constructor
    · rintro (h | ⟨a, mid, h, pieces, hlength, hpieces, rest, rfl, hrest⟩)
      · exact ⟨[], Nat.succ_pos n, by simp, bs, rfl, h⟩
      · obtain ⟨used, rfl, q, rfl, hq⟩ := hp _ _ _ h
        refine ⟨q :: pieces, Nat.succ_lt_succ hlength, List.forall_mem_cons.mpr ⟨hq, hpieces⟩, rest, ?_,
          hrest⟩
        rw [List.flatMap_cons, List.append_assoc]
    · rintro ⟨pieces, hlength, hpieces, rest, rfl, hrest⟩
      cases pieces with
      | nil => exact .inl hrest
      | cons q pieces =>
        obtain ⟨hq, hpieces⟩ := List.forall_mem_cons.mp hpieces
        rw [List.flatMap_cons, List.append_assoc]
        rcases hgood q hq (pieces.flatMap code ++ rest) with h | ⟨a, h⟩
        · exact .inl h
        · exact .inr ⟨a, _, h, pieces, Nat.lt_of_succ_lt_succ hlength, hpieces, rest, rfl, hrest⟩

end NftLedger.Reader
