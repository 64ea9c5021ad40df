import NftLedger.Proofs.Framing
import NftLedger.Proofs.Limits

namespace NftLedger

open Reader

namespace Value

theorem steady_readCount (width : Nat) : Steady (readCount .roomy width) := by
  refine (steady_parametric.number 4).bind fun count bs x => ?_
  simp only [CountRule.roomy, CountRule.bounded, List.length_append]
  by_cases hwidth : width = 0
  · by_cases hmany : CountRule.zeroWidthLimit < count
    · simp only [hwidth, hmany, and_self, if_true]
      exact .refused _ (by simp)
    · simp only [hwidth, hmany, and_false, if_true, if_false]
      exact .accepted count bs
  · simp only [hwidth, if_false]
    generalize min (count * width) (UInt64.size - 1) = needed
    by_cases hroom : bs.length < needed
    · simp only [hroom, if_true]
      refine .lacking hroom fun hx => ⟨needed, bs.length + x.length, ?_⟩
      have hstill : bs.length + x.length < needed := by omega
      simp only [hstill, if_true]
    · have hgrown : ¬ bs.length + x.length < needed := by omega
      simp only [hroom, hgrown, if_false]
      exact .accepted count bs

theorem steady_read (t : Ty) : Steady (read t) :=
  steady_parametric.value steady_readCount _ t

/-- The check of a count looks at all bytes that are left, so its reader is not local. A value is
never refused for lack of room all the same, since its elements take the room that is asked for. -/
theorem local_read (t : Ty) : Local (read t) := by
  intro bs v rest h
  obtain ⟨used, rfl, hused⟩ := read_eq_ok.mp h
  exact ⟨used, rfl, fun _ => read_eq_ok.mpr ⟨used, rfl, hused⟩⟩

end Value

/-- The format is prefix-free: accepted byte strings of all four forms are recognised by the bytes
used alone, and cutting them short is always missed input. -/
theorem readers_framed :
    (∀ t, Framed (Value.read t)) ∧ (∀ expected, Framed (Value.readTagged expected)) ∧
      Framed Ty.read ∧ Framed Arguments.read := by
  refine ⟨fun t => ?_, fun expected => ?_, ?_, ?_⟩
  · exact (Value.steady_read t).framed (Value.local_read t)
  · have hsteady := steady_parametric.tagged Value.steady_read expected
    exact hsteady.framed (local_parametric.tagged Value.local_read expected)
  · exact (steady_parametric.ty _).framed (local_parametric.ty _)
  · have hsteady := steady_parametric.arguments Value.steady_read
    exact hsteady.framed (local_parametric.arguments Value.local_read)

end NftLedger
