import Mathlib.Algebra.Order.BigOperators.Group.List
import NftLedger.Proofs.Parts
import NftLedger.Proofs.Spelling

namespace NftLedger

namespace Reader

/-- The results that are possible on bytes that spell a result, by whether it is shallow and
bounded. -/
inductive Verdict {α : Type} (shallow bounded : Prop) (a : α) (rest : Bytes) :
    Except DecodeError (α × Bytes) → Prop
  | accepted (hs : shallow) (hb : bounded) : Verdict shallow bounded a rest (.ok (a, rest))
  | tooDeep (hs : ¬ shallow) : Verdict shallow bounded a rest (.error .tooDeep)
  | tooMany (hb : ¬ bounded) (count : Nat) (hcount : Value.CountRule.zeroWidthLimit < count) :
    Verdict shallow bounded a rest (.error (.malformed (.zeroWidth count)))

namespace Verdict

variable {α β : Type} {p : Reader α} {f : α → Reader β} {s b s' b' : Prop} {a : α} {c : β}
  {bs mid rest : Bytes}

theorem of_ok (h : p bs = .ok (a, rest)) (hs : s) (hb : b) : Verdict s b a rest (p bs) :=
  h ▸ .accepted hs hb

theorem eq_ok_iff {r : Except DecodeError (α × Bytes)} (h : Verdict s b a rest r) :
    r = .ok (a, rest) ↔ s ∧ b := by
  cases h with
  | accepted hs hb => exact iff_of_true rfl ⟨hs, hb⟩
  | tooDeep hs => exact iff_of_false (by simp) fun h => hs h.1
  | tooMany hb => exact iff_of_false (by simp) fun h => hb h.2

theorem congr (h : Verdict s b a rest (p bs)) (hs : s ↔ s') (hb : b ↔ b') :
    Verdict s' b' a rest (p bs) := by
  rwa [← propext hs, ← propext hb]

theorem bind (hp : Verdict s b a mid (p bs)) (hf : Verdict s' b' c rest (f a mid)) :
    Verdict (s ∧ s') (b ∧ b') c rest ((p >>= f) bs) := by
  cases hr : p bs with
  | ok q =>
    rw [hr] at hp
    cases hp with
    | accepted hs hb =>
      rw [bind_ok hr]
      cases hr' : f a mid with
      | ok q' =>
        rw [hr'] at hf
        cases hf with
        | accepted hs' hb' => exact .accepted ⟨hs, hs'⟩ ⟨hb, hb'⟩
      | error e =>
        rw [hr'] at hf
        cases hf with
        | tooDeep hs' => exact .tooDeep fun h => hs' h.2
        | tooMany hb' count hcount => exact .tooMany (fun h => hb' h.2) count hcount
  | error e =>
    rw [bind_error hr]
    rw [hr] at hp
    cases hp with
    | tooDeep hs => exact .tooDeep fun h => hs h.1
    | tooMany hb count hcount => exact .tooMany (fun h => hb h.1) count hcount

theorem bind_pure (hp : Verdict s b a rest (p bs)) (g : α → β) :
    Verdict s b (g a) rest ((p >>= fun x => pure (g x)) bs) :=
  (hp.bind (.accepted trivial trivial)).congr (and_iff_left trivial) (and_iff_left trivial)

theorem map (hp : Verdict s b a rest (p bs)) (g : α → β) :
    Verdict s b (g a) rest ((g <$> p) bs) := by
  rw [map_eq_pure_bind]
  exact hp.bind_pure g

theorem pair {second : Reader β} (hp : Verdict s b a mid (p bs))
    (hsecond : Verdict s' b' c rest (second mid)) :
    Verdict (s ∧ s') (b ∧ b') (a, c) rest (Reader.pair p second bs) :=
  hp.bind (hsecond.bind_pure fun y => (a, y))

theorem within {body left : Bytes} (h : Verdict s b a left (p body)) (rest : Bytes) :
    Verdict s b (a, left) rest (Reader.within body p rest) := by
  rw [Reader.within]
  cases hr : p body <;> rw [hr] at h <;> cases h
  case ok.accepted hs hb => exact .accepted hs hb
  case error.tooDeep hs => exact .tooDeep hs
  case error.tooMany hb count hcount => exact .tooMany hb count hcount

theorem many {Piece : Type} {code : Piece → Bytes} {result : Piece → α} {S B : Piece → Prop}
    (pieces : List Piece)
    (h : ∀ q ∈ pieces, ∀ rest, Verdict (S q) (B q) (result q) rest (p (code q ++ rest)))
    (rest : Bytes) :
    Verdict (∀ q ∈ pieces, S q) (∀ q ∈ pieces, B q) (pieces.map result) rest
      (Reader.many p pieces.length (pieces.flatMap code ++ rest)) := by
  induction pieces with
  | nil => exact .accepted (by simp) (by simp)
  | cons q pieces ih =>
    have hq := h q (by simp) (pieces.flatMap code ++ rest)
    have hpieces := ih fun r hr => h r (List.mem_cons_of_mem q hr)
    rw [List.flatMap_cons, List.append_assoc]
    refine (hq.bind (hpieces.bind_pure (result q :: ·))).congr ?_ ?_
    · exact List.forall_mem_cons.symm
    · exact List.forall_mem_cons.symm

end Verdict

end Reader

namespace Value

open Reader

/-- A rule that refuses nothing but too many elements without width, given room for the elements. -/
def CountRule.Fair (rule : CountRule) : Prop :=
  ∀ width count left, count * width ≤ left → rule width count left = bounded width count left

theorem CountRule.roomy_fair : roomy.Fair := by
  intro width count left h
  rw [roomy]
  by_cases hwidth : width = 0
  · rw [if_pos hwidth]
  · have hroom : ¬ left < min (count * width) (UInt64.size - 1) := by omega
    rw [if_neg hwidth, if_neg hroom, bounded, if_neg fun h => hwidth h.1]

theorem minWidth_eq_zero_iff {t : Ty} : t.minWidth = 0 ↔ t = .byteArray 0 := by
  cases t <;> simp [Ty.minWidth, ← UInt32.toNat_inj]

/-- The count check never asks for more bytes than the elements take. -/
theorem Spells.minWidth_le {t : Ty} {used : Bytes} {v : Value} (h : Spells t used v) :
    t.minWidth ≤ used.length := by
  cases h with
  | key k => exact k.length_bytes_ge
  | byteArray length bs exact => exact exact.ge
  | any own body v typed short content =>
    have hown : 0 < own.descriptor.length := by cases own <;> simp [Ty.descriptor]
    simp only [Ty.minWidth, envelope, Bytes.withLength, List.length_append, Bytes.length_ofNat]
    omega
  | _ => simp [Ty.minWidth, Bytes.withLength, Bytes.length_ofNat]

theorem mul_le_length_flatMap {Piece : Type} {code : Piece → Bytes} {width : Nat}
    {pieces : List Piece} (h : ∀ q ∈ pieces, width ≤ (code q).length) :
    pieces.length * width ≤ (pieces.flatMap code).length := by
  have hsum := List.card_nsmul_le_sum (pieces.map fun q => (code q).length) width (by simpa using h)
  simpa [List.length_flatMap] using hsum

theorem readCount_verdict {rule : CountRule} (hrule : rule.Fair) {width count : Nat} {mid : Bytes}
    (hshort : count < UInt32.size) (hroom : count * width ≤ mid.length) :
    Verdict True (width = 0 → count ≤ CountRule.zeroWidthLimit) count mid
      (readCount rule width (Bytes.ofNat 4 count ++ mid)) := by
  have hr := hrule width count mid.length hroom
  rw [CountRule.bounded] at hr
  rw [readCount, bind_ok (number_append hshort mid), hr]
  by_cases h : width = 0 ∧ CountRule.zeroWidthLimit < count
  · rw [if_pos h]
    exact .tooMany (fun hle => Nat.not_le_of_lt h.2 (hle h.1)) count h.2
  · rw [if_neg h]
    exact .accepted trivial fun hwidth => Nat.le_of_not_lt fun hmany => h ⟨hwidth, hmany⟩

theorem readEnvelope_verdict {s b : Prop} {body : Ty → Reader Value} {own : Ty} {used : Bytes}
    {v : Value} (budget : Nat) (htyped : own ≠ .any) (hshort : used.length < UInt32.size)
    (hbody : Verdict s b v [] (body own used)) (rest : Bytes) :
    Verdict (own.nesting < budget ∧ s) b (own, v) rest
      (readEnvelope (Ty.readWithin budget) body (envelope own used ++ rest)) := by
  have htake := take_append used (own.descriptor ++ rest)
  have hown := Ty.readWithin_descriptor own budget rest
  rw [envelope, Bytes.withLength, List.append_assoc, List.append_assoc, readEnvelope,
    bind_ok (number_append hshort _), bind_ok htake]
  by_cases hdeep : own.nesting < budget
  · rw [if_pos hdeep] at hown
    rw [bind_ok hown, if_neg htyped]
    have hpure : Verdict True True (own, v) rest ((pure (own, v) : Reader (Ty × Value)) rest) :=
      .accepted trivial trivial
    refine ((hbody.within rest).bind hpure).congr ?_ ?_
    · simp [hdeep]
    · simp
  · rw [if_neg hdeep] at hown
    rw [bind_error hown]
    exact .tooDeep fun h => hdeep h.1

theorem list_width_le {item : Ty} {pieces : List Piece} (items : ∀ p ∈ pieces, Spells item p.1 p.2)
    (rest : Bytes) :
    pieces.length * item.minWidth ≤ (pieces.flatMap (·.1) ++ rest).length := by
  have h : pieces.length * item.minWidth ≤ (pieces.flatMap (·.1)).length :=
    mul_le_length_flatMap fun p hp => (items p hp).minWidth_le
  exact h.trans (by simp)

theorem map_width_le {k v : Ty} {pieces : List (Piece × Piece)}
    (keys : ∀ p ∈ pieces, Spells k p.1.1 p.1.2) (values : ∀ p ∈ pieces, Spells v p.2.1 p.2.2)
    (rest : Bytes) :
    pieces.length * (k.minWidth + v.minWidth) ≤
      (pieces.flatMap (fun p => p.1.1 ++ p.2.1) ++ rest).length := by
  have h : pieces.length * (k.minWidth + v.minWidth) ≤
      (pieces.flatMap fun p => p.1.1 ++ p.2.1).length :=
    mul_le_length_flatMap fun p hp => by
      rw [List.length_append]
      exact Nat.add_le_add (keys p hp).minWidth_le (values p hp).minWidth_le
  exact h.trans (by simp)

theorem ty_of_spells {own : Ty} {used : Bytes} {v : Value} (h : Spells own used v)
    (htyped : own ≠ .any) : v.ty = own := by
  cases h with
  | byteArray length bs exact => rw [ty, exact, UInt32.ofNat_toNat]
  | any => exact absurd rfl htyped
  | _ => rfl

theorem readU512_append {digits : Bytes} (short : digits.length ≤ 64) (rest : Bytes) :
    readU512 (UInt8.ofNat digits.length :: digits ++ rest) =
      .ok (.u512 (.ofNat digits.toNat), rest) := by
  have hlength : number 1 (UInt8.ofNat digits.length :: digits ++ rest) =
      .ok (digits.length, digits ++ rest) := number_append (by omega) (digits ++ rest)
  have hdigits : number digits.length (digits ++ rest) = .ok (digits.toNat, rest) :=
    map_eq_ok.mpr ⟨digits, take_append digits rest, rfl⟩
  rw [readU512, bind_ok hlength, if_neg (Nat.not_lt_of_le short), bind_ok hdigits]
  rfl

/-- Spelled bytes are read as their value exactly within the limits. -/
theorem readWithin_verdict {rule : CountRule} (hrule : rule.Fair) {t : Ty} {used : Bytes} {v : Value}
    (h : Spells t used v) (budget : Nat) (rest : Bytes) :
    Verdict (v.need t < budget) v.Bounded v rest (readWithin rule budget t (used ++ rest)) := by
  induction budget generalizing t used v rest with
  | zero => exact .tooDeep (Nat.not_lt_zero _)
  | succ budget ih =>
    -- a value without parts needs no level and has no bounds to keep
    have hscalar {w : Value} (hneed : w.need t = 0) (hbounded : w.Bounded)
        (hread : readWithin rule (budget + 1) t (used ++ rest) = .ok (w, rest)) :
        Verdict (w.need t < budget + 1) w.Bounded w rest
          (readWithin rule (budget + 1) t (used ++ rest)) :=
      .of_ok hread (by omega) hbounded
    cases h with
    | bool b =>
      refine hscalar rfl ⟨trivial, trivial⟩ ?_
      cases b <;> rfl
    | u8 n => exact hscalar rfl ⟨trivial, trivial⟩ rfl
    | u32 n =>
      exact hscalar rfl ⟨trivial, trivial⟩ (map_eq_ok.mpr ⟨n, u32_eq_ok.mpr rfl, rfl⟩)
    | u64 n =>
      exact hscalar rfl ⟨trivial, trivial⟩ (map_eq_ok.mpr ⟨n, u64_eq_ok.mpr rfl, rfl⟩)
    | u512 digits short =>
      exact hscalar rfl ⟨trivial, trivial⟩ (readU512_append short rest)
    | string s short =>
      exact hscalar rfl ⟨trivial, trivial⟩ (map_eq_ok.mpr ⟨s, text_eq_ok.mpr ⟨rfl, short⟩, rfl⟩)
    | key k =>
      exact hscalar rfl ⟨trivial, trivial⟩ (map_eq_ok.mpr ⟨k, Key.read_eq_ok.mpr rfl, rfl⟩)
    | byteArray length bs exact =>
      exact hscalar rfl ⟨trivial, trivial⟩
        (map_eq_ok.mpr ⟨used, take_eq_ok.mpr ⟨rfl, exact⟩, rfl⟩)
    | absent inner => exact hscalar rfl ⟨trivial, trivial⟩ rfl
    | present inner bs w content =>
      refine ((ih content rest).bind_pure fun w => option inner (some w)).congr ?_ ?_
      · exact need_some_lt.symm
      · exact (and_iff_right trivial).symm
    | list item pieces short items =>
      have hcount := readCount_verdict hrule short (list_width_le items rest)
      have hitems := Verdict.many pieces (fun p hp rest => ih (items p hp) rest) rest
      rw [List.append_assoc, readWithin]
      refine (hcount.bind (hitems.bind_pure fun items => list item items)).congr ?_ ?_
      · rw [need_list_lt, List.forall_mem_map, true_and]
      · rw [bounded_list, minWidth_eq_zero_iff, List.length_map, List.forall_mem_map]
    | map k v pieces short keys values =>
      have hcount := readCount_verdict hrule short (map_width_le keys values rest)
      have hentries := Verdict.many pieces (fun p hp rest => by
        have hk := ih (keys p hp) (p.2.1 ++ rest)
        rw [← List.append_assoc] at hk
        exact hk.pair (ih (values p hp) rest)) rest
      rw [List.append_assoc, readWithin]
      refine (hcount.bind (hentries.bind_pure fun entries => map k v entries)).congr ?_ ?_
      · rw [need_map_lt, List.forall_mem_map, true_and]
      · rw [bounded_map, Nat.add_eq_zero_iff, minWidth_eq_zero_iff, minWidth_eq_zero_iff,
          List.length_map, List.forall_mem_map]
    | any own body v typed short content =>
      have hbody := ih content []
      rw [List.append_nil] at hbody
      refine ((readEnvelope_verdict budget typed short hbody rest).map Prod.snd).congr ?_ Iff.rfl
      rw [need_any, need_of_ne_any typed, ty_of_spells content typed]
      omega

/-- What is read, exactly: spelled bytes in front, of a value within the limits. -/
theorem readWithin_eq_ok {rule : CountRule} (hrule : rule.Fair) {budget : Nat} {t : Ty} {v : Value}
    {bs rest : Bytes} :
    readWithin rule budget t bs = .ok (v, rest) ↔
      ∃ used, bs = used ++ rest ∧ Spells t used v ∧ v.need t < budget ∧ v.Bounded := by
  constructor
  · intro h
    obtain ⟨used, rfl, hused⟩ := readWithin_sound rule budget t bs v rest h
    exact ⟨used, rfl, hused, (readWithin_verdict hrule hused budget rest).eq_ok_iff.mp h⟩
  · rintro ⟨used, rfl, hused, hlimits⟩
    exact (readWithin_verdict hrule hused budget rest).eq_ok_iff.mpr hlimits

theorem read_eq_ok {t : Ty} {v : Value} {bs rest : Bytes} :
    read t bs = .ok (v, rest) ↔
      ∃ used, bs = used ++ rest ∧ Spells t used v ∧ v.need t ≤ nestingLimit ∧ v.Bounded := by
  simp only [read, readWithin_eq_ok CountRule.roomy_fair, Nat.lt_succ_iff]

end Value

end NftLedger
