import NftLedger.Proofs.SelfDescribing

namespace NftLedger.Value

open Reader

variable {own expected : Ty} {body rest left : Bytes} {v : Value} {e : DecodeError}

/-- Once the descriptor is read, the envelope is what its body is under the announced type. -/
theorem readEnvelope_announced (typed : own ≠ .any) (deep : own.nesting ≤ nestingLimit)
    (short : body.length < UInt32.size) :
    readEnvelope Ty.read read (body.withLength ++ own.descriptor ++ rest) =
      (within body (read own) >>= fun q =>
        if q.2 = [] then pure (own, q.1)
        else Reader.fail (.malformed (.envelopeRest q.2.length own))) rest := by
  have hown : Ty.read (own.descriptor ++ rest) = .ok (own, rest) := Ty.read_eq_ok.mpr ⟨rfl, deep⟩
  rw [Bytes.withLength, List.append_assoc, List.append_assoc, readEnvelope,
    bind_ok (number_append short _), bind_ok (take_append body _), bind_ok hown, if_neg typed]

theorem readEnvelope_of_read (typed : own ≠ .any) (deep : own.nesting ≤ nestingLimit)
    (short : body.length < UInt32.size) (h : read own body = .ok (v, [])) :
    readEnvelope Ty.read read (body.withLength ++ own.descriptor ++ rest) = .ok ((own, v), rest) := by
  rw [readEnvelope_announced typed deep short, bind_ok (within_eq_ok.mpr ⟨h, rfl⟩), if_pos rfl]
  rfl

theorem readEnvelope_of_left (typed : own ≠ .any) (deep : own.nesting ≤ nestingLimit)
    (short : body.length < UInt32.size) (h : read own body = .ok (v, left)) (hleft : left ≠ []) :
    readEnvelope Ty.read read (body.withLength ++ own.descriptor ++ rest) =
      .error (.malformed (.envelopeRest left.length own)) := by
  rw [readEnvelope_announced typed deep short, bind_ok (within_eq_ok.mpr ⟨h, rfl⟩), if_neg hleft]
  rfl

theorem readEnvelope_of_error (typed : own ≠ .any) (deep : own.nesting ≤ nestingLimit)
    (short : body.length < UInt32.size) (h : read own body = .error e) :
    readEnvelope Ty.read read (body.withLength ++ own.descriptor ++ rest) = .error e := by
  have hwithin : within body (read own) rest = .error e := by rw [within, h]
  rw [readEnvelope_announced typed deep short, bind_error hwithin]

/-- The expectation comes last. A body that is used up as a value of the type it announces is refused
for this type; one that leaves bytes over or cannot be read is refused for that, whatever was
expected. -/
theorem readTagged_other_type (typed : own ≠ .any) (deep : own.nesting ≤ nestingLimit)
    (short : body.length < UInt32.size) (asked : expected ≠ .any) (other : expected ≠ own)
    (rest : Bytes) :
    (∀ v, read own body = .ok (v, []) →
      readTagged expected (body.withLength ++ own.descriptor ++ rest) =
        .error (.typeMismatch expected own)) ∧
    (∀ v left, read own body = .ok (v, left) → left ≠ [] →
      readTagged expected (body.withLength ++ own.descriptor ++ rest) =
        .error (.malformed (.envelopeRest left.length own))) ∧
    ∀ e, read own body = .error e →
      readTagged expected (body.withLength ++ own.descriptor ++ rest) = .error e := by
  rw [readTagged]
  refine ⟨fun v h => ?_, fun v left h hleft => ?_, fun e h => ?_⟩
  · rw [bind_ok (readEnvelope_of_read typed deep short h)]
    exact congrFun (if_pos ⟨asked, other.symm⟩) rest
  · exact bind_error (readEnvelope_of_left typed deep short h hleft)
  · exact bind_error (readEnvelope_of_error typed deep short h)

/-- A truth value is announced where a text is expected: of the three bodies only the first holds one. -/
theorem readTagged_other_type_bool :
    (Ty.bool ≠ .any ∧ Ty.bool.nesting ≤ nestingLimit ∧ Ty.string ≠ .any ∧ Ty.string ≠ .bool) ∧
      readTagged .string (Bytes.withLength [1] ++ Ty.bool.descriptor ++ [9]) =
        .error (.typeMismatch .string .bool) ∧
      readTagged .string (Bytes.withLength [1, 1] ++ Ty.bool.descriptor ++ [9]) =
        .error (.malformed (.envelopeRest 1 .bool)) ∧
      readTagged .string (Bytes.withLength [2] ++ Ty.bool.descriptor ++ [9]) =
        .error (.malformed (.bool 2)) := by
  have typed : Ty.bool ≠ .any := by decide
  have deep : Ty.bool.nesting ≤ nestingLimit := by decide
  have asked : Ty.string ≠ .any := by decide
  have other : Ty.string ≠ .bool := by decide
  refine ⟨⟨typed, deep, asked, other⟩, ?_, ?_, ?_⟩
  · exact (readTagged_other_type typed deep (by decide) asked other [9]).1 (.bool true) rfl
  · exact (readTagged_other_type typed deep (by decide) asked other [9]).2.1 (.bool true) [1] rfl
      (by decide)
  · exact (readTagged_other_type typed deep (by decide) asked other [9]).2.2 _ rfl

/-- A type other than the expected one is not always what is reported. -/
theorem readTagged_malformed_bool :
    ¬ ∀ (own expected : Ty) (body rest : Bytes), own ≠ .any → own.nesting ≤ nestingLimit →
      expected ≠ .any → expected ≠ own → body.length < UInt32.size →
        readTagged expected (body.withLength ++ own.descriptor ++ rest) =
          .error (.typeMismatch expected own) := by
  intro h
  have hmismatch := h .bool .string [2] [] (by decide) (by decide) (by decide) (by decide) (by decide)
  have hfault : readTagged .string (Bytes.withLength [2] ++ Ty.bool.descriptor ++ []) =
      .error (.malformed (.bool 2)) := by decide +kernel
  rw [hfault] at hmismatch
  cases hmismatch

end NftLedger.Value
