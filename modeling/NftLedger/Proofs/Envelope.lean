import NftLedger.Proofs.RoundTrip
import NftLedger.Proofs.SelfDescribing

namespace NftLedger.Value

theorem Sized.own {v : Value} (h : v.Sized .any) : v.Sized v.ty :=
  ⟨⟨h.1.1, fun hany => absurd hany v.ty_ne_any⟩, h.2⟩

theorem read_bytes {v : Value} (hv : v.Conforms v.ty) (hs : v.Sized v.ty) (hbounded : v.Bounded)
    (hdeep : v.need v.ty ≤ nestingLimit) (rest : Bytes) :
    read v.ty (v.bytes ++ rest) = .ok (v, rest) := by
  have hspells := spells_encode v hv hs
  rw [encode_of_ne_any v.ty_ne_any] at hspells
  exact read_eq_ok.mpr ⟨v.bytes, rfl, hspells, hdeep, hbounded⟩

theorem readTagged_tagged {v : Value} (hv : v.Conforms v.ty) (hs : v.Sized .any)
    (hbounded : v.Bounded) (hty : v.ty.nesting ≤ nestingLimit) (hdeep : v.need v.ty ≤ nestingLimit)
    (rest : Bytes) : readTagged .any (v.tagged ++ rest) = .ok (v, rest) := by
  have hbody := read_bytes hv hs.own hbounded hdeep []
  rw [List.append_nil] at hbody
  exact readTagged_eq_ok.mpr ⟨.inl rfl, hty, v.bytes, hs.1.2 rfl, rfl, hbody⟩

end NftLedger.Value
