import NftLedger.Effect.Slot
import NftLedger.Proofs.Envelope
import NftLedger.Proofs.Portable

namespace NftLedger

section First

variable {α β : Type} {R : α → β → Prop} {P : α → Prop} {f : α → Option β} {as bs : List α} {b : β}

theorem findSome?_eq_some_iff_first (h : ∀ a b, f a = some b ↔ R a b) :
    as.findSome? f = some b ↔ First R as b := by
  rw [List.findSome?_eq_some_iff]
  refine exists_congr fun before => exists_congr fun a => exists_congr fun after => ?_
  refine and_congr_right' (and_congr (h a b) (forall₂_congr fun x _ => ?_))
  simp only [← h, Option.eq_none_iff_forall_ne_some, ne_eq]

theorem findSome?_eq_none_iff_forall_not (h : ∀ a b, f a = some b ↔ R a b) :
    as.findSome? f = none ↔ ∀ a ∈ as, ∀ b, ¬ R a b := by
  rw [List.findSome?_eq_none_iff]
  refine forall₂_congr fun a _ => ?_
  simp only [← h, Option.eq_none_iff_forall_ne_some, ne_eq]

theorem Interspersed.findSome?_eq (h : Interspersed P as bs) (hf : ∀ a, P a → f a = none) :
    bs.findSome? f = as.findSome? f := by
  induction h with
  | nil => rfl
  | keep a _ ih => rw [List.findSome?_cons, List.findSome?_cons, ih]
  | put a ha _ ih => rw [List.findSome?_cons, hf a ha, ih]

end First

theorem Transform.firstKey?_eq_some_iff {t : Transform} {slot : String} :
    t.firstKey? = some slot ↔ t.NamesSlot slot := by
  rw [firstKey?, NamesSlot]
  constructor
  · intro h
    split at h
    next k keys hadd => exact ⟨k.name, keys, by rw [hadd, ← Option.some.inj h]⟩
    next => cases h
  · rintro ⟨name, keys, hadd⟩
    rw [hadd]

theorem Transform.bytesAt?_eq_some_iff {t : Transform} {slot : String} {bytes : Bytes} :
    t.bytesAt? slot = some bytes ↔ t.WritesAt slot bytes := by
  obtain ⟨key, operation⟩ := t
  cases operation <;> simp [bytesAt?, WritesAt]

theorem Value.newest?_eq_iff {v : Value} {found : Option Value} :
    v.newest? = found ↔ v.Newest found := by
  constructor
  · rintro rfl
    cases v with
    | list item items =>
      rcases List.eq_nil_or_concat items with rfl | ⟨items, v, rfl⟩
      · exact .empty item
      · rw [newest?, List.concat_eq_append, List.getLast?_concat]
        exact .last item items v
    | _ => exact .whole _ (by simp)
  · intro h
    cases h with
    | empty => rfl
    | last item items v => exact List.getLast?_concat
    | whole v h =>
      cases v with
      | list item items => exact absurd rfl (h item items)
      | _ => rfl

section Hops

variable {transforms others : List Transform} {slot : String} {bytes : Bytes}
  {r : Except EffectError (Option Value)}

theorem findSome?_firstKey?_eq_some_iff :
    transforms.findSome? Transform.firstKey? = some slot ↔
      First Transform.NamesSlot transforms slot :=
  findSome?_eq_some_iff_first fun _ _ => Transform.firstKey?_eq_some_iff

theorem findSome?_bytesAt?_eq_some_iff :
    transforms.findSome? (Transform.bytesAt? slot) = some bytes ↔
      First (Transform.WritesAt slot) transforms bytes :=
  findSome?_eq_some_iff_first fun _ _ => Transform.bytesAt?_eq_some_iff

theorem mints_mintedId (transforms : List Transform) : Mints transforms (mintedId transforms) := by
  rw [mintedId]
  split
  next h =>
    exact .unnamed
      ((findSome?_eq_none_iff_forall_not fun _ _ => Transform.firstKey?_eq_some_iff).mp h)
  next slot hslot =>
    have named := findSome?_firstKey?_eq_some_iff.mp hslot
    split
    next h =>
      exact .unwritten slot named
        ((findSome?_eq_none_iff_forall_not fun _ _ => Transform.bytesAt?_eq_some_iff).mp h)
    next bytes hbytes =>
      have written := findSome?_bytesAt?_eq_some_iff.mp hbytes
      split
      next v rest read =>
        exact .stored slot bytes rest v _ named written read (Value.newest?_eq_iff.mp rfl)
      next e h => exact .unreadable slot bytes e named written h

theorem mintedId_of_readTagged {v : Value} {rest : Bytes}
    (named : First Transform.NamesSlot transforms slot)
    (written : First (Transform.WritesAt slot) transforms bytes)
    (read : Value.readTagged .any bytes = .ok (v, rest)) :
    mintedId transforms = .ok v.newest? := by
  rw [mintedId, findSome?_firstKey?_eq_some_iff.mpr named]
  simp only [findSome?_bytesAt?_eq_some_iff.mpr written, read]

theorem mintedId_of_unreadable {e : DecodeError}
    (named : First Transform.NamesSlot transforms slot)
    (written : First (Transform.WritesAt slot) transforms bytes)
    (h : Value.readTagged .any bytes = .error e) :
    mintedId transforms = .error (.decode e) := by
  rw [mintedId, findSome?_firstKey?_eq_some_iff.mpr named]
  simp only [findSome?_bytesAt?_eq_some_iff.mpr written, h]

theorem mintedId_eq_iff : mintedId transforms = r ↔ Mints transforms r := by
  constructor
  · rintro rfl
    exact mints_mintedId transforms
  · intro h
    cases h with
    | unnamed h =>
      rw [mintedId,
        (findSome?_eq_none_iff_forall_not fun _ _ => Transform.firstKey?_eq_some_iff).mpr h]
    | unwritten slot named h =>
      rw [mintedId, findSome?_firstKey?_eq_some_iff.mpr named]
      simp only [(findSome?_eq_none_iff_forall_not
        fun _ _ => Transform.bytesAt?_eq_some_iff).mpr h]
    | unreadable slot bytes e named written h => exact mintedId_of_unreadable named written h
    | stored slot bytes rest v found named written read newest =>
      rw [mintedId_of_readTagged named written read, Value.newest?_eq_iff.mpr newest]

theorem mintedId_of_interspersed (h : Interspersed (Transform.Aside transforms) transforms others) :
    mintedId others = mintedId transforms := by
  have hslot : others.findSome? Transform.firstKey? = transforms.findSome? Transform.firstKey? := by
    refine h.findSome?_eq fun t ht => Option.eq_none_iff_forall_ne_some.mpr fun slot hnames => ?_
    obtain ⟨name, keys, hadd⟩ := Transform.firstKey?_eq_some_iff.mp hnames
    exact ht.1 _ hadd
  rw [mintedId, mintedId, hslot]
  cases hnamed : transforms.findSome? Transform.firstKey? with
  | none => rfl
  | some slot =>
    have hbytes : others.findSome? (Transform.bytesAt? slot) =
        transforms.findSome? (Transform.bytesAt? slot) := by
      refine h.findSome?_eq fun t ht => Option.eq_none_iff_forall_ne_some.mpr fun bytes hwrites => ?_
      exact ht.2 slot bytes (findSome?_firstKey?_eq_some_iff.mp hnamed)
        (Transform.bytesAt?_eq_some_iff.mp hwrites)
    simp only [hbytes]

end Hops

/-- The outcome is that of the two hops, whatever the transforms. A value that the slot holds in
self-describing form, with anything behind it, gives its newest part. Transforms that take part in
neither hop change nothing, wherever they are put, and a failed execution has no identifier. -/
theorem mintedId_two_hops :
    (∀ transforms r, mintedId transforms = r ↔ Mints transforms r) ∧
    (∀ transforms slot (v : Value) trailer found, First Transform.NamesSlot transforms slot →
      First (Transform.WritesAt slot) transforms (v.tagged ++ trailer) → v.Portable →
        (mintedId transforms = .ok found ↔ v.Newest found)) ∧
    (∀ transforms others, Interspersed (Transform.Aside transforms) transforms others →
      mintedId others = mintedId transforms) ∧
    ∀ message transforms,
      Effect.mintedId ⟨.failure message, transforms⟩ = .error (.failed message) ∧
        Effect.mintedId ⟨.success, transforms⟩ = mintedId transforms := by
  refine ⟨fun transforms r => mintedId_eq_iff, ?_, fun _ _ => mintedId_of_interspersed,
    fun message transforms => ⟨rfl, rfl⟩⟩
  intro transforms slot v trailer found named written h
  have hread : Value.readTagged .any (v.tagged ++ trailer) = .ok (v, trailer) :=
    Value.readTagged_tagged h.conforms h.sized h.bounded h.shallow.1 h.shallow.2 trailer
  rw [mintedId_of_readTagged named written hread, Except.ok.injEq, Value.newest?_eq_iff]

/-- A list is written into its slot before the slot is named. A write elsewhere and an operation on the
slot that is no write are put in, one in front and one at the end. -/
theorem mintedId_two_hops_early_write :
    let ids : Value := .list .u64 [.u64 3, .u64 4]
    let transforms : List Transform :=
      [⟨"dict-9", .write .u64 (ids.tagged ++ [25])⟩, ⟨"account", .addKeys []⟩,
        ⟨"account", .addKeys [⟨"minted", "dict-9"⟩]⟩]
    let others : List Transform :=
      ⟨"dict-8", .write .any []⟩ :: transforms ++ [⟨"dict-9", .other "Identity"⟩]
    (First Transform.NamesSlot transforms "dict-9" ∧
      First (Transform.WritesAt "dict-9") transforms (ids.tagged ++ [25]) ∧ ids.Portable ∧
        mintedId transforms = .ok (some (.u64 4))) ∧
      Interspersed (Transform.Aside transforms) transforms others ∧
        mintedId others = mintedId transforms := by
  intro ids transforms others
  have named : First Transform.NamesSlot transforms "dict-9" :=
    findSome?_firstKey?_eq_some_iff.mp rfl
  have written : First (Transform.WritesAt "dict-9") transforms (ids.tagged ++ [25]) :=
    findSome?_bytesAt?_eq_some_iff.mp rfl
  have hids : ids.Portable := by decide
  have hminted : mintedId transforms = .ok (some (.u64 4)) :=
    (mintedId_two_hops.2.1 transforms "dict-9" ids [25] _ named written hids).mpr
      (.last .u64 [.u64 3] (.u64 4))
  have honly (slot : String) (h : First Transform.NamesSlot transforms slot) : "dict-9" = slot :=
    Option.some.inj (findSome?_firstKey?_eq_some_iff.mpr h)
  have helsewhere : Transform.Aside transforms ⟨"dict-8", .write .any []⟩ := by
    refine ⟨by simp, fun slot bytes hnamed => ?_⟩
    simp [Transform.WritesAt, ← honly slot hnamed]
  have hidentity : Transform.Aside transforms ⟨"dict-9", .other "Identity"⟩ :=
    ⟨by simp, fun slot bytes _ => by simp [Transform.WritesAt]⟩
  have hothers : Interspersed (Transform.Aside transforms) transforms others :=
    .put _ helsewhere (.keep _ (.keep _ (.keep _ (.put _ hidentity .nil))))
  exact ⟨⟨named, written, hids, hminted⟩, hothers, mintedId_two_hops.2.2.1 _ _ hothers⟩

end NftLedger
