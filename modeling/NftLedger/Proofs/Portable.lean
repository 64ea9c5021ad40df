import NftLedger.Proofs.Canonical
import NftLedger.Proofs.Conformance
import NftLedger.Proofs.History

namespace NftLedger

open Reader

namespace Value

/-- A value that its self-describing form can hold. -/
structure Portable (v : Value) : Prop where
  conforms : v.Conforms v.ty
  sized : v.Sized .any
  bounded : v.Bounded
  shallow : v.Shallow

instance (v : Value) : Decidable v.Portable :=
  decidable_of_iff (v.Conforms v.ty ∧ v.Sized .any ∧ v.Bounded ∧ v.Shallow)
    ⟨fun h => ⟨h.1, h.2.1, h.2.2.1, h.2.2.2⟩, fun h => ⟨h.1, h.2, h.3, h.4⟩⟩

theorem Spells.extent_lt {declared : Ty} {used : Bytes} {v : Value} (h : Spells declared used v) :
    v.extent < UInt32.size := by
  induction h with
  | string s short => exact short
  | byteArray length bs exact =>
    rw [extent, exact]
    exact length.toNat_lt
  | list item pieces short items ih => simpa [extent] using short
  | map k v pieces short keys values ihk ihv => simpa [extent] using short
  | any own body v typed short content ih => exact ih
  | _ => exact show 0 < UInt32.size by decide

theorem Spells.countable {declared : Ty} {used : Bytes} {v : Value} (h : Spells declared used v) :
    Countable declared v := by
  refine ⟨h.extent_lt, fun hany => ?_⟩
  subst hany
  cases h with
  | any own body _ typed short content =>
    -- the value may be written anew in fewer bytes than the body, never in more
    have hle := content.length_encode_le
    rw [encode_of_ne_any typed] at hle
    exact hle.trans_lt short

theorem portable_of_spells {used : Bytes} {v : Value} (h : Spells .any used v)
    (hshallow : v.Shallow) (hbounded : v.Bounded) : v.Portable where
  conforms := ⟨.inr rfl, (h.throughout Spells.fits).2⟩
  sized := h.throughout Spells.countable
  bounded := hbounded
  shallow := hshallow

theorem Portable.conforms_any {v : Value} (h : v.Portable) : v.Conforms .any :=
  ⟨.inl rfl, h.conforms.2⟩

end Value

namespace Arguments

/-- Arguments that their bytes can hold. -/
structure Portable (args : Arguments) : Prop where
  distinct : args.names.Nodup
  count : args.entries.length < UInt32.size
  names : ∀ e ∈ args.entries, (Bytes.ofText e.1).length < UInt32.size
  values : ∀ e ∈ args.entries, e.2.Portable

/-- Bytes cut into named values: a count, then as many names, each behind its length and before a
value in self-describing form. -/
structure Cut (used : Bytes) (ps : List (String × Value.Piece)) : Prop where
  count : ps.length < UInt32.size
  bytes_eq : used = Bytes.ofNat 4 ps.length ++ ps.flatMap pieceBytes
  names : ∀ p ∈ ps, (Bytes.ofText p.1).length < UInt32.size
  values : ∀ p ∈ ps, Value.readTagged .any p.2.1 = .ok (p.2.2, [])

def listed (ps : List (String × Value.Piece)) : List (String × Value) := ps.map fun p => (p.1, p.2.2)

theorem forall_mem_listed {P : String × Value → Prop} {ps : List (String × Value.Piece)} :
    (∀ e ∈ listed ps, P e) ↔ ∀ p ∈ ps, P (p.1, p.2.2) := List.forall_mem_map

theorem Portable.read_bytes {args : Arguments} (h : args.Portable) (rest : Bytes) :
    read (args.bytes ++ rest) = .ok (args, rest) := by
  have hlists : Lists args.bytes args.entries :=
    lists_bytes h.count h.names (fun e he => (h.values e he).conforms_any)
      fun e he => (h.values e he).sized
  apply Arguments.read_bytes h.distinct hlists
  · exact fun e he => (h.values e he).shallow
  · exact fun e he => (h.values e he).bounded

theorem entries_ofList_subset (history : List (String × Value)) :
    (ofList history).entries ⊆ history := by
  induction history using List.reverseRecOn with
  | nil => exact List.Subset.refl _
  | append_singleton history entry ih =>
    rw [ofList_append]
    intro e he
    rcases mem_of_mem_putNamed he with rfl | he
    · exact List.mem_append_right history (List.mem_singleton_self entry)
    · exact List.mem_append_left [entry] (ih he)

theorem length_entries_ofList_le (history : List (String × Value)) :
    (ofList history).entries.length ≤ history.length := by
  have hsize : (ofList history).entries.length = (history.map (·.1)).toFinset.card :=
    (records_ofList history).size_eq
  have hcard := (history.map (·.1)).toFinset_card_le
  rw [List.length_map] at hcard
  omega

theorem portable_ofList {history : List (String × Value)} (hcount : history.length < UInt32.size)
    (hnames : ∀ e ∈ history, (Bytes.ofText e.1).length < UInt32.size)
    (hvalues : ∀ e ∈ history, e.2.Portable) : (ofList history).Portable where
  distinct := (records_ofList history).nodup
  count := (length_entries_ofList_le history).trans_lt hcount
  names e he := hnames e (entries_ofList_subset history he)
  values e he := hvalues e (entries_ofList_subset history he)

theorem cut_of_read {bs rest : Bytes} {args : Arguments} (h : read bs = .ok (args, rest)) :
    ∃ used ps, bs = used ++ rest ∧ Cut used ps ∧ args = ofList (listed ps) := by
  obtain ⟨used, _, rfl, ⟨ps, short, names, values⟩, rfl, hshallow, hbounded⟩ := read_eq_ok.mp h
  refine ⟨_, ps, rfl, ⟨short, rfl, names, fun p hp => ?_⟩, rfl⟩
  have hlimits := And.intro (forall_mem_listed.mp hshallow p hp) (forall_mem_listed.mp hbounded p hp)
  exact Value.readTagged_any_eq_ok.mpr ⟨p.2.1, (List.append_nil _).symm, values p hp, hlimits⟩

theorem Cut.portable {used : Bytes} {ps : List (String × Value.Piece)} (h : Cut used ps) :
    (ofList (listed ps)).Portable := by
  apply portable_ofList
  · rw [listed, List.length_map]
    exact h.count
  · exact forall_mem_listed.mpr h.names
  · refine forall_mem_listed.mpr fun p hp => ?_
    obtain ⟨used, -, hspelled, hshallow, hbounded⟩ :=
      Value.readTagged_any_eq_ok.mp (h.values p hp)
    exact Value.portable_of_spells hspelled hshallow hbounded

/-- Arguments within the limits are read back from their bytes, and what follows these is left. What
is read was a count and as many named values: putting these in turn gives the arguments, each name
where it first came with the value that came last, and the bytes of the arguments are read as the
same arguments again. -/
theorem read_bytes_and_cut_of_read :
    (∀ args : Arguments, args.Portable →
      ∀ rest, read (args.bytes ++ rest) = .ok (args, rest)) ∧
    ∀ bs args rest, read bs = .ok (args, rest) →
      (∃ used ps, bs = used ++ rest ∧ Cut used ps ∧ args = ofList (listed ps) ∧
        args.Records (listed ps)) ∧
      ∀ rest', read (args.bytes ++ rest') = .ok (args, rest') := by
  refine ⟨fun args h => h.read_bytes, fun bs args rest h => ?_⟩
  obtain ⟨used, ps, rfl, hcut, rfl⟩ := cut_of_read h
  exact ⟨⟨used, ps, rfl, hcut, rfl, records_ofList (listed ps)⟩, hcut.portable.read_bytes⟩

/-- A name that comes twice, and a number with a leading zero: the arguments take fewer bytes than
the pieces did. -/
theorem read_bytes_and_cut_of_read_repeated :
    let used : Bytes := [3, 0, 0, 0,
      1, 0, 0, 0, 97, 3, 0, 0, 0, 2, 5, 0, 8,
      1, 0, 0, 0, 98, 1, 0, 0, 0, 0, 13, 10,
      1, 0, 0, 0, 97, 3, 0, 0, 0, 2, 7, 0, 8]
    let args : Arguments := ⟨[("a", .u512 (.ofNat 7)), ("b", .option .string none)]⟩
    (args.Portable ∧ ∀ rest, read (args.bytes ++ rest) = .ok (args, rest)) ∧
      read (used ++ [9]) = .ok (args, [9]) ∧ args.bytes.length < used.length ∧
        ∃ cut ps, used ++ [9] = cut ++ [9] ∧ Cut cut ps ∧ args = ofList (listed ps) ∧
          args.Records (listed ps) := by
  intro used args
  have hportable : args.Portable := ⟨by decide, by decide, by decide, by decide⟩
  have hread : read (used ++ [9]) = .ok (args, [9]) := by decide +kernel
  refine ⟨⟨hportable, read_bytes_and_cut_of_read.1 args hportable⟩, hread, by decide, ?_⟩
  exact (read_bytes_and_cut_of_read.2 _ args [9] hread).1

end Arguments

end NftLedger
