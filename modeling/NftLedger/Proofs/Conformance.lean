import NftLedger.Proofs.Limits

namespace NftLedger.Value

/-- A property that spelled values have in their place is one of all their parts too. The induction
is on the spelling, which contains a spelling of each part; an envelope passes on the parts of its
body. -/
theorem Spells.throughout {P : Ty → Value → Prop}
    (hP : ∀ {declared used v}, Spells declared used v → P declared v) {declared : Ty} {used : Bytes}
    {v : Value} (h : Spells declared used v) : v.Throughout P declared := by
  refine ⟨hP h, ?_⟩
  induction h with
  | present inner used v content ih => exact ⟨hP content, ih⟩
  | list item pieces short items ih =>
    rw [parts_list, List.forall_mem_map]
    exact fun p hp => ⟨hP (items p hp), ih p hp⟩
  | map k v pieces short keys values ihk ihv =>
    rw [parts_map, List.forall_mem_map]
    exact fun p hp => ⟨⟨hP (keys p hp), ihk p hp⟩, ⟨hP (values p hp), ihv p hp⟩⟩
  | any own body v typed short content ih => exact ih
  | _ => trivial

theorem Spells.fits {declared : Ty} {used : Bytes} {v : Value} (h : Spells declared used v) :
    Fits declared v := by
  by_cases hany : declared = .any
  · exact .inl hany
  · exact .inr (ty_of_spells h hany)

theorem Spells.exact {declared : Ty} {used : Bytes} {v : Value} (h : Spells declared used v) :
    v.Exact := by
  induction h with
  | u512 digits short =>
    have hlt := (U512.ofNat (Bytes.toNat digits)).lt
    rwa [show Nat.pow 256 64 = Nat.pow 2 512 by decide +kernel] at hlt
  | byteArray length bs hlength =>
    exact ⟨length, ty_of_spells (.byteArray length bs hlength) (by simp), hlength⟩
  | any own body v typed short content ih => exact ih
  | _ => trivial

/-- Every value read conforms to the type it was read under and keeps all limits. -/
theorem conforms_of_read {declared : Ty} {bs rest : Bytes} {v : Value}
    (h : read declared bs = .ok (v, rest)) :
    v.Conforms declared ∧ v.Throughout (fun _ part => part.Exact) declared ∧ v.Bounded ∧
      v.need declared ≤ nestingLimit := by
  obtain ⟨used, rfl, hused, hneed, hbounded⟩ := read_eq_ok.mp h
  exact ⟨hused.throughout Spells.fits, hused.throughout Spells.exact, hbounded, hneed⟩

theorem conforms_of_read_map :
    let v := map .u512 .any [(.u512 (.ofNat 5), .byteArray [1, 2])]
    read (.map .u512 .any) [1, 0, 0, 0, 2, 5, 0, 2, 0, 0, 0, 1, 2, 15, 2, 0, 0, 0, 9] =
        .ok (v, [9]) ∧
      v.Conforms (.map .u512 .any) ∧ v.Throughout (fun _ part => part.Exact) (.map .u512 .any) ∧
        v.Bounded ∧ v.need (.map .u512 .any) ≤ nestingLimit := by
  intro v
  have h : read (.map .u512 .any) [1, 0, 0, 0, 2, 5, 0, 2, 0, 0, 0, 1, 2, 15, 2, 0, 0, 0, 9] =
      .ok (v, [9]) := by
    rfl
  exact ⟨h, conforms_of_read h⟩

end NftLedger.Value
