import NftLedger.Proofs.Key
import NftLedger.Proofs.Parametric

namespace NftLedger.Reader

variable {α β : Type} {p : Reader α} {f : α → Reader β} {bs rest x : Bytes}

/-- What becomes of a result when bytes are added behind the input. -/
inductive Grown (x : Bytes) :
    Except DecodeError (α × Bytes) → Except DecodeError (α × Bytes) → Prop
  | accepted (a : α) (rest : Bytes) : Grown x (.ok (a, rest)) (.ok (a, rest ++ x))
  | refused (e : DecodeError) (he : ∀ needed left, e ≠ .endOfInput needed left) :
    Grown x (.error e) (.error e)
  | lacking {needed left : Nat} {r : Except DecodeError (α × Bytes)} (h : left < needed)
    (hr : x.length < needed - left → ∃ needed left, r = .error (.endOfInput needed left)) :
    Grown x (.error (.endOfInput needed left)) r

def Steady (p : Reader α) : Prop := ∀ bs x, Grown x (p bs) (p (bs ++ x))

theorem steady_pure (a : α) : Steady (pure a : Reader α) := fun bs _ => .accepted a bs

theorem steady_fail {e : DecodeError} (he : ∀ needed left, e ≠ .endOfInput needed left) :
    Steady (fail e : Reader α) :=
  fun _ _ => .refused e he

theorem Steady.bind (hp : Steady p) (hf : ∀ a, Steady (f a)) : Steady (p >>= f) := by
  intro bs x
  have h := hp bs x
  cases hr : p bs with
  | ok q =>
    obtain ⟨a, rest⟩ := q
    rw [hr] at h
    generalize hr' : p (bs ++ x) = r at h
    cases h with
    | accepted =>
      rw [bind_ok hr, bind_ok hr']
      exact hf a rest x
  | error e =>
    rw [bind_error hr]
    rw [hr] at h
    generalize hr' : p (bs ++ x) = r at h
    cases h with
    | refused e he =>
      rw [bind_error hr']
      exact .refused e he
    | lacking hlack hshort =>
      refine .lacking hlack fun hx => ?_
      obtain ⟨needed, left, rfl⟩ := hshort hx
      exact ⟨needed, left, bind_error hr'⟩

theorem Steady.within (hp : Steady p) (body : Bytes) : Steady (within body p) := by
  intro bs x
  have h := hp body []
  rw [List.append_nil] at h
  simp only [Reader.within]
  generalize p body = r at h
  cases r with
  | ok q => exact .accepted (q.1, q.2) bs
  | error e =>
    cases h with
    | refused e he => exact .refused e he
    | lacking hlack _ => exact .lacking hlack fun _ => ⟨_, _, rfl⟩

theorem steady_take (n : Nat) : Steady (take n) := by
  intro bs x
  simp only [take, List.length_append]
  by_cases hn : n ≤ bs.length
  · rw [if_pos hn, if_pos (by omega), List.take_append_of_le_length hn,
      List.drop_append_of_le_length hn]
    exact .accepted _ _
  · rw [if_neg hn]
    exact .lacking (by omega) fun hx => ⟨n, bs.length + x.length, if_neg (by omega)⟩

theorem steady_byte : Steady byte := by
  intro bs x
  cases bs with
  | cons b bs => exact .accepted b bs
  | nil =>
    refine .lacking Nat.zero_lt_one fun hx => ?_
    have hnil : x = [] := by simpa using hx
    exact ⟨1, 0, by rw [hnil]; rfl⟩

theorem steady_address : Steady Address.read := by
  intro bs x
  simp only [Address.read, List.length_append]
  by_cases h : 32 ≤ bs.length
  · have hgrown : 32 ≤ bs.length + x.length := by omega
    simp only [h, hgrown, dite_true, List.take_append_of_le_length h,
      List.drop_append_of_le_length h]
    exact .accepted _ _
  · rw [dif_neg h]
    exact .lacking (by omega) fun hx => ⟨32, bs.length + x.length, dif_neg (by omega)⟩

theorem steady_parametric : Parametric fun p _ => Steady p where
  of_pure := steady_pure
  of_fail hinput _ := steady_fail hinput
  of_tooDeep := steady_fail (by simp)
  of_byte := steady_byte
  of_take := steady_take
  of_address := steady_address
  bind := Steady.bind
  within body h := h.within body

/-- The bytes used give the same result whatever follows them. -/
def Local (p : Reader α) : Prop := Sound p fun used a => ∀ x, p (used ++ x) = .ok (a, x)

theorem local_pure (a : α) : Local (pure a : Reader α) := by
  intro bs b rest h
  obtain ⟨rfl, rfl⟩ := pure_eq_ok.mp h
  exact ⟨[], rfl, fun _ => rfl⟩

theorem local_fail (e : DecodeError) : Local (fail e : Reader α) :=
  fun _ _ _ h => absurd h fail_ne_ok

theorem local_byte : Local byte := by
  intro bs b rest h
  exact ⟨[b], byte_eq_ok.mp h, fun _ => rfl⟩

theorem local_take (n : Nat) : Local (take n) := by
  intro bs used rest h
  obtain ⟨rfl, rfl⟩ := take_eq_ok.mp h
  exact ⟨used, rfl, take_append used⟩

theorem local_address : Local Address.read := by
  intro bs address rest h
  exact ⟨address.bytes, Address.read_eq_ok.mp h, fun _ => Address.read_eq_ok.mpr rfl⟩

theorem Local.bind (hp : Local p) (hf : ∀ a, Local (f a)) : Local (p >>= f) := by
  intro bs b rest h
  obtain ⟨a, mid, ha, hb⟩ := bind_eq_ok.mp h
  obtain ⟨u, rfl, hu⟩ := hp _ _ _ ha
  obtain ⟨w, rfl, hw⟩ := hf a _ _ _ hb
  refine ⟨u ++ w, by rw [List.append_assoc], fun x => ?_⟩
  rw [List.append_assoc, bind_ok (hu (w ++ x)), hw x]

theorem local_within (body : Bytes) (p : Reader α) : Local (within body p) := by
  intro bs q rest h
  obtain ⟨a, left⟩ := q
  obtain ⟨hbody, rfl⟩ := within_eq_ok.mp h
  exact ⟨[], rfl, fun x => within_eq_ok.mpr ⟨hbody, rfl⟩⟩

theorem local_parametric : Parametric fun p _ => Local p where
  of_pure := local_pure
  of_fail _ _ := local_fail _
  of_tooDeep := local_fail _
  of_byte := local_byte
  of_take := local_take
  of_address := local_address
  bind := Local.bind
  within body _ := local_within body _

/-- What a reader accepts it recognises by the bytes used alone, and it misses every last one of
them. -/
def Framed (p : Reader α) : Prop :=
  ∀ bs a rest, p bs = .ok (a, rest) → ∃ used, bs = used ++ rest ∧
    (∀ x, p (used ++ x) = .ok (a, x)) ∧
    ∀ front, front <+: used → front ≠ used →
      ∃ needed left, p front = .error (.endOfInput needed left)

/-- A strict prefix of the bytes used can neither be accepted, since the bytes cut off would then be
left over, nor be refused for another fault, since that fault would persist. -/
theorem Steady.framed (hp : Steady p) (hlocal : Local p) : Framed p := by
  intro bs a rest h
  obtain ⟨used, rfl, hused⟩ := hlocal bs a rest h
  refine ⟨used, rfl, hused, ?_⟩
  rintro front ⟨cut, rfl⟩ hne
  have hcut : cut ≠ [] := fun hnil => hne (by rw [hnil, List.append_nil])
  have hwhole : p (front ++ cut) = .ok (a, []) := by simpa using hused []
  have hgrown := hp front cut
  generalize hr : p front = r at hgrown
  generalize hr' : p (front ++ cut) = r' at hgrown
  cases hgrown with
  | accepted b left =>
    rw [hwhole] at hr'
    simp only [Except.ok.injEq, Prod.mk.injEq, List.nil_eq, List.append_eq_nil_iff] at hr'
    exact absurd hr'.2.2 hcut
  | refused e he =>
    rw [hwhole] at hr'
    cases hr'
  | lacking => exact ⟨_, _, rfl⟩

end NftLedger.Reader
