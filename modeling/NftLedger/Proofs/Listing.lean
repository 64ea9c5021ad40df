import NftLedger.Arguments.History
import NftLedger.Proofs.Depth
import NftLedger.Proofs.Envelope
import NftLedger.Proofs.Named

namespace NftLedger

open Reader

namespace Value

theorem readTagged_verdict {used : Bytes} {v : Value} (h : Spells .any used v) (rest : Bytes) :
    Verdict v.Shallow v.Bounded v rest (readTagged .any (used ++ rest)) := by
  cases h with
  | any own body v typed short content =>
    have hbody : Verdict (v.need own < nestingLimit + 1) v.Bounded v [] (read own body) := by
      have h := readWithin_verdict CountRule.roomy_fair content (nestingLimit + 1) []
      rwa [List.append_nil] at h
    have henvelope := readEnvelope_verdict (nestingLimit + 1) typed short hbody rest
    rw [readTagged_any]
    refine (henvelope.map Prod.snd).congr ?_ Iff.rfl
    rw [Shallow, ty_of_spells content typed, Nat.lt_succ_iff, Nat.lt_succ_iff]

theorem readTagged_any_eq_ok {bs rest : Bytes} {v : Value} :
    readTagged .any bs = .ok (v, rest) ↔
      ∃ used, bs = used ++ rest ∧ Spells .any used v ∧ v.Shallow ∧ v.Bounded := by
  constructor
  · intro h
    obtain ⟨used, rfl, hused, -⟩ := spells_of_readTagged_any h
    exact ⟨used, rfl, hused, (readTagged_verdict hused rest).eq_ok_iff.mp h⟩
  · rintro ⟨used, rfl, hused, hlimits⟩
    exact (readTagged_verdict hused rest).eq_ok_iff.mpr hlimits

end Value

namespace Arguments

def pieceBytes (p : String × Value.Piece) : Bytes := (Bytes.ofText p.1).withLength ++ p.2.1

theorem readEntry_verdict {p : String × Value.Piece}
    (hname : (Bytes.ofText p.1).length < UInt32.size) (hvalue : Value.Spells .any p.2.1 p.2.2)
    (rest : Bytes) :
    Verdict p.2.2.Shallow p.2.2.Bounded (p.1, p.2.2) rest (readEntry (pieceBytes p ++ rest)) := by
  have htext : text (pieceBytes p ++ rest) = .ok (p.1, p.2.1 ++ rest) :=
    text_eq_ok.mpr ⟨List.append_assoc _ _ _, hname⟩
  have hp : Verdict True True p.1 (p.2.1 ++ rest) (text (pieceBytes p ++ rest)) :=
    .of_ok htext trivial trivial
  refine (hp.pair (Value.readTagged_verdict hvalue rest)).congr ?_ ?_
  · rw [true_and]
  · rw [true_and]

theorem readEntry_sound : Sound readEntry fun used e => ∃ p : String × Value.Piece,
    used = pieceBytes p ∧ e = (p.1, p.2.2) ∧ (Bytes.ofText p.1).length < UInt32.size ∧
      Value.Spells .any p.2.1 p.2.2 := by
  rintro bs ⟨name, v⟩ rest h
  obtain ⟨mid, hname, hvalue⟩ := pair_eq_ok.mp h
  obtain ⟨rfl, hshort⟩ := text_eq_ok.mp hname
  obtain ⟨used, rfl, hused, -⟩ := Value.readTagged_any_eq_ok.mp hvalue
  exact ⟨pieceBytes (name, (used, v)), (List.append_assoc _ _ _).symm, _, rfl, rfl, hshort, hused⟩

theorem Lists.read_verdict {used : Bytes} {listed : List (String × Value)} (h : Lists used listed)
    (rest : Bytes) :
    Verdict (∀ e ∈ listed, e.2.Shallow) (∀ e ∈ listed, e.2.Bounded) (ofList listed) rest
      (read (used ++ rest)) := by
  cases h with
  | pieces ps short names values =>
    have hcount : Verdict True True ps.length (ps.flatMap pieceBytes ++ rest)
        (number 4 (Bytes.ofNat 4 ps.length ++ (ps.flatMap pieceBytes ++ rest))) :=
      .of_ok (number_append short _) trivial trivial
    have hmany := Verdict.many ps (fun p hp rest => readEntry_verdict (names p hp) (values p hp) rest)
      rest
    have hcut : Bytes.ofNat 4 ps.length ++ ps.flatMap pieceBytes ++ rest =
        Bytes.ofNat 4 ps.length ++ (ps.flatMap pieceBytes ++ rest) := List.append_assoc _ _ _
    change Verdict _ _ _ _ (read (Bytes.ofNat 4 ps.length ++ ps.flatMap pieceBytes ++ rest))
    rw [hcut, read]
    refine (hcount.bind (hmany.bind_pure ofList)).congr ?_ ?_
    · rw [true_and, List.forall_mem_map]
    · rw [true_and, List.forall_mem_map]

theorem lists_of_read {bs rest : Bytes} {args : Arguments} (h : read bs = .ok (args, rest)) :
    ∃ used listed, bs = used ++ rest ∧ Lists used listed := by
  rw [read, bind_eq_ok] at h
  simp only [bind_eq_ok, pure_eq_ok, number_eq_ok] at h
  obtain ⟨n, _, ⟨rfl, hn⟩, listed, _, hmany, rfl, rfl⟩ := h
  obtain ⟨_, rfl, ps, rfl, rfl, rfl, hps⟩ := readEntry_sound.many n _ _ _ hmany
  have hlists := Lists.pieces ps hn (fun p hp => (hps p hp).1) fun p hp => (hps p hp).2
  exact ⟨_, _, (List.append_assoc _ _ _).symm, hlists⟩

theorem Lists.eq_of_read {used rest : Bytes} {listed : List (String × Value)} {args : Arguments}
    (hlists : Lists used listed) (h : read (used ++ rest) = .ok (args, rest)) :
    args = ofList listed ∧ (∀ e ∈ listed, e.2.Shallow) ∧ ∀ e ∈ listed, e.2.Bounded := by
  have hverdict := hlists.read_verdict rest
  rw [h] at hverdict
  cases hverdict with
  | accepted hshallow hbounded => exact ⟨rfl, hshallow, hbounded⟩

/-- What is read as arguments, exactly: bytes in front that list named values within the limits. -/
theorem read_eq_ok {bs rest : Bytes} {args : Arguments} :
    read bs = .ok (args, rest) ↔
      ∃ used listed, bs = used ++ rest ∧ Lists used listed ∧ args = ofList listed ∧
        (∀ e ∈ listed, e.2.Shallow) ∧ ∀ e ∈ listed, e.2.Bounded := by
  constructor
  · intro h
    obtain ⟨used, listed, rfl, hlists⟩ := lists_of_read h
    exact ⟨used, listed, rfl, hlists, hlists.eq_of_read h⟩
  · rintro ⟨used, listed, rfl, hlists, rfl, hlimits⟩
    exact (hlists.read_verdict rest).eq_ok_iff.mpr hlimits

theorem ofList_append (history : List (String × Value)) (entry : String × Value) :
    ofList (history ++ [entry]) = (ofList history).insert entry.1 entry.2 := by
  simp [ofList]

theorem ofList_of_nodup {entries : List (String × Value)} (h : (entries.map (·.1)).Nodup) :
    ofList entries = ⟨entries⟩ := by
  have hput : Arguments.mk (entries.foldl (fun put e => putNamed e.1 e.2 put) []) = ofList entries :=
    (List.foldl_hom Arguments.mk fun _ _ => rfl).symm
  rw [← hput, foldl_putNamed_of_nodup h]

theorem lists_bytes {args : Arguments} (hcount : args.entries.length < UInt32.size)
    (hnames : ∀ e ∈ args.entries, (Bytes.ofText e.1).length < UInt32.size)
    (hconforms : ∀ e ∈ args.entries, e.2.Conforms .any)
    (hsized : ∀ e ∈ args.entries, e.2.Sized .any) : Lists args.bytes args.entries := by
  have hnames' : ∀ p ∈ args.entries.map fun e => (e.1, (e.2.tagged, e.2)),
      (Bytes.ofText p.1).length < UInt32.size := List.forall_mem_map.mpr hnames
  have hvalues : ∀ p ∈ args.entries.map fun e => (e.1, (e.2.tagged, e.2)),
      Value.Spells .any p.2.1 p.2.2 := by
    rw [List.forall_mem_map]
    exact fun e he => Value.spells_encode e.2 (hconforms e he) (hsized e he)
  have h := Lists.pieces _ (by rwa [List.length_map]) hnames' hvalues
  have hentries : args.entries.map ((fun p => (p.1, p.2.2)) ∘ fun e => (e.1, (e.2.tagged, e.2))) =
      args.entries := List.map_id' args.entries
  rw [List.length_map, List.flatMap_map, List.map_map, hentries] at h
  exact h

theorem read_bytes {args : Arguments} (hnodup : args.names.Nodup)
    (hlists : Lists args.bytes args.entries) (hshallow : ∀ e ∈ args.entries, e.2.Shallow)
    (hbounded : ∀ e ∈ args.entries, e.2.Bounded) (rest : Bytes) :
    read (args.bytes ++ rest) = .ok (args, rest) := by
  have hargs : args = ofList args.entries := (ofList_of_nodup hnodup).symm
  exact read_eq_ok.mpr ⟨args.bytes, args.entries, rfl, hlists, hargs, hshallow, hbounded⟩

end Arguments

end NftLedger
