import NftLedger.Proofs.Envelope
import NftLedger.Proofs.PrefixFree
import NftLedger.Proofs.Success
import NftLedger.State

namespace NftLedger

namespace Value

/-- A map in which every key and every value is a text: these texts, pair by pair. -/
def MapsTexts (v : Value) (pairs : List (String × String)) : Prop :=
  ∃ k t, v = .map k t (pairs.map fun p => (.string p.1, .string p.2))

/-- A number in one of the widths that hold it. -/
inductive IsNumber (n : Nat) : Value → Prop
  | u8 (h : n < UInt8.size) : IsNumber n (.u8 (.ofNat n))
  | u32 (h : n < UInt32.size) : IsNumber n (.u32 (.ofNat n))
  | u64 (h : n < UInt64.size) : IsNumber n (.u64 (.ofNat n))
  | u512 (h : n < Nat.pow 256 64) : IsNumber n (.u512 ⟨n, h⟩)

theorem text?_eq_some_iff {v : Value} {s : String} : v.text? = some s ↔ v = .string s := by
  cases v <;> simp [text?]

theorem IsNumber.nat64?_eq {n : Nat} {v : Value} (h : IsNumber n v) :
    v.nat64? = if n < UInt64.size then some n else none := by
  cases h with
  | u8 h =>
    have hn : n < UInt64.size := h.trans (by decide)
    rw [nat64?, if_pos hn, UInt8.toNat_ofNat_of_lt' h]
  | u32 h =>
    have hn : n < UInt64.size := h.trans (by decide)
    rw [nat64?, if_pos hn, UInt32.toNat_ofNat_of_lt' h]
  | u64 h => rw [nat64?, if_pos h, UInt64.toNat_ofNat_of_lt' h]
  | u512 h => rfl

end Value

namespace State

variable {declared : Ty} {bs left : Bytes} {v : Value}

theorem ofBytes_eq_ok_iff : ofBytes declared bs = .ok v ↔ Value.read declared bs = .ok (v, []) := by
  rw [ofBytes]
  split <;> simp_all

theorem ofBytes_of_left (h : Value.read declared bs = .ok (v, left)) (hleft : left ≠ []) :
    ofBytes declared bs = .error (.decode (.malformed (.storedRest left.length))) := by
  rw [ofBytes, h]
  split <;> simp_all

theorem ofBytes_of_error {e : DecodeError} (h : Value.read declared bs = .error e) :
    ofBytes declared bs = .error (.decode e) := by
  rw [ofBytes, h]

/-- Neither fewer nor more bytes than a stored value has are accepted. -/
theorem ofBytes_exact (h : ofBytes declared bs = .ok v) :
    (∀ front, front <+: bs → front ≠ bs →
      ∃ needed left, ofBytes declared front = .error (.decode (.endOfInput needed left))) ∧
    ∀ more, more ≠ [] →
      ofBytes declared (bs ++ more) = .error (.decode (.malformed (.storedRest more.length))) := by
  have hread := ofBytes_eq_ok_iff.mp h
  have hframed := (Value.steady_read declared).framed (Value.local_read declared)
  obtain ⟨used, hused, hmore, hfront⟩ := hframed bs v [] hread
  rw [List.append_nil] at hused
  subst hused
  refine ⟨fun front hprefix hne => ?_, fun more hne => ofBytes_of_left (hmore more) hne⟩
  obtain ⟨needed, left, hend⟩ := hfront front hprefix hne
  exact ⟨needed, left, ofBytes_of_error hend⟩

theorem ofBytes_bytes (hv : v.Conforms v.ty) (hs : v.Sized v.ty) (hbounded : v.Bounded)
    (hdeep : v.need v.ty ≤ nestingLimit) : ofBytes v.ty v.bytes = .ok v := by
  have hread := Value.read_bytes hv hs hbounded hdeep []
  rw [List.append_nil] at hread
  exact ofBytes_eq_ok_iff.mpr hread

section Metadata

variable {pairs : List (String × String)} {entries : List (Value × Value)}

theorem textPair?_eq_some_iff {entry : Value × Value} {p : String × String} :
    textPair? entry = some p ↔ entry = (.string p.1, .string p.2) := by
  obtain ⟨k, v⟩ := entry
  obtain ⟨s, t⟩ := p
  simp [textPair?, Option.bind_eq_some_iff, Value.text?_eq_some_iff]

theorem mapM_textPair?_eq_some_iff : entries.mapM textPair? = some pairs ↔
    entries = pairs.map fun p => (.string p.1, .string p.2) := by
  induction entries generalizing pairs with
  | nil => cases pairs <;> simp
  | cons entry entries ih =>
    cases pairs <;> simp [List.mapM_cons, Option.bind_eq_some_iff, textPair?_eq_some_iff, ih]

theorem metadata_eq_raw_iff {s : String} : metadata v = .ok (.raw s) ↔ v = .string s := by
  cases v with
  | string t => simp [metadata]
  | map k t entries => cases h : entries.mapM textPair? <;> simp [metadata, unexpected, h]
  | _ => simp [metadata, unexpected]

theorem metadata_eq_pairs_iff : metadata v = .ok (.pairs pairs) ↔ v.MapsTexts pairs := by
  cases v with
  | map k t entries =>
    have hmaps : (Value.map k t entries).MapsTexts pairs ↔ entries.mapM textPair? = some pairs := by
      simp [Value.MapsTexts, mapM_textPair?_eq_some_iff]
    rw [hmaps]
    cases h : entries.mapM textPair? <;> simp [metadata, unexpected, h]
  | _ => simp [metadata, unexpected, Value.MapsTexts]

theorem metadata_eq_unexpected (hraw : ∀ s, v ≠ .string s) (hpairs : ∀ pairs, ¬ v.MapsTexts pairs) :
    metadata v = .error (.unexpectedType "Map<String, String>" v.ty) := by
  cases v with
  | string s => exact absurd rfl (hraw s)
  | map k t entries =>
    cases h : entries.mapM textPair? with
    | none => simp [metadata, unexpected, h]
    | some pairs => exact absurd ⟨k, t, by rw [mapM_textPair?_eq_some_iff.mp h]⟩ (hpairs pairs)
  | _ => rfl

end Metadata

section Read

variable {pairs : List (String × String)} {n : Nat}

theorem ofBytes_ofPairs (hcount : pairs.length < UInt32.size)
    (hparts : ∀ p ∈ pairs, (Bytes.ofText p.1).length < UInt32.size ∧
      (Bytes.ofText p.2).length < UInt32.size) :
    ofBytes (.map .string .string) (Value.ofPairs pairs).bytes = .ok (Value.ofPairs pairs) := by
  have htext (s : String) (h : (Bytes.ofText s).length < UInt32.size) :
      (Value.string s).Sized .string := ⟨⟨h, by simp⟩, trivial⟩
  have hconforms : (Value.ofPairs pairs).Conforms (.map .string .string) := by
    refine ⟨.inr rfl, Value.parts_map.mpr (List.forall_mem_map.mpr fun p _ => ?_)⟩
    exact ⟨⟨.inr rfl, trivial⟩, ⟨.inr rfl, trivial⟩⟩
  have hsized : (Value.ofPairs pairs).Sized (.map .string .string) := by
    refine ⟨⟨?_, by simp⟩, Value.parts_map.mpr (List.forall_mem_map.mpr fun p hp => ?_)⟩
    · simpa [Value.ofPairs, Value.extent] using hcount
    · exact ⟨htext p.1 (hparts p hp).1, htext p.2 (hparts p hp).2⟩
  have hbounded : (Value.ofPairs pairs).Bounded := by
    refine Value.bounded_map.mpr ⟨by simp, List.forall_mem_map.mpr fun p _ => ?_⟩
    exact ⟨⟨trivial, trivial⟩, ⟨trivial, trivial⟩⟩
  have hneed : (Value.ofPairs pairs).need (.map .string .string) < 1 + 1 :=
    Value.need_map_lt.mpr (List.forall_mem_map.mpr fun p _ => ⟨Nat.one_pos, Nat.one_pos⟩)
  have hdeep : (Value.ofPairs pairs).need (.map .string .string) ≤ nestingLimit :=
    Nat.le_of_lt (hneed.trans (by decide))
  exact ofBytes_bytes (v := Value.ofPairs pairs) hconforms hsized hbounded hdeep

theorem ofBytes_of_isNumber (h : v.IsNumber n) : ofBytes v.ty v.bytes = .ok v := by
  have hzero : 0 < UInt32.size := by decide
  cases h <;> exact ofBytes_bytes ⟨.inr rfl, trivial⟩ ⟨⟨hzero, by simp [Value.ty]⟩, trivial⟩
    ⟨trivial, trivial⟩ (Nat.zero_le _)

theorem balance_of_isNumber (h : v.IsNumber n) :
    balance v = if n < UInt64.size then .ok n else .error (.unexpectedType "U64" v.ty) := by
  rw [balance, h.nat64?_eq]
  by_cases hn : n < UInt64.size
  · rw [if_pos hn, if_pos hn]
  · rw [if_neg hn, if_neg hn]
    rfl

end Read

/-- Pairs of texts are read back in their order as metadata, and their bytes can neither be cut short nor
extended. Metadata is a text or all pairs of a map of texts, and any other value is refused for its type.
A number is read back as a balance when it fits 64 bits, and otherwise refused for its type. -/
theorem stored_whole_or_refused :
    (∀ pairs : List (String × String), pairs.length < UInt32.size →
      (∀ p ∈ pairs, (Bytes.ofText p.1).length < UInt32.size ∧
        (Bytes.ofText p.2).length < UInt32.size) →
      (ofBytes (.map .string .string) (Value.ofPairs pairs).bytes >>= metadata) =
          .ok (.pairs pairs) ∧
        (∀ front, front <+: (Value.ofPairs pairs).bytes → front ≠ (Value.ofPairs pairs).bytes →
          ∃ needed left, ofBytes (.map .string .string) front =
            .error (.decode (.endOfInput needed left))) ∧
        ∀ more, more ≠ [] → ofBytes (.map .string .string) ((Value.ofPairs pairs).bytes ++ more) =
          .error (.decode (.malformed (.storedRest more.length)))) ∧
    (∀ v, (∀ s, metadata v = .ok (.raw s) ↔ v = .string s) ∧
      (∀ pairs, metadata v = .ok (.pairs pairs) ↔ v.MapsTexts pairs) ∧
      ((∀ s, v ≠ .string s) → (∀ pairs, ¬ v.MapsTexts pairs) →
        metadata v = .error (.unexpectedType "Map<String, String>" v.ty))) ∧
    ∀ n v, Value.IsNumber n v →
      (ofBytes v.ty v.bytes >>= balance) =
        if n < UInt64.size then .ok n else .error (.unexpectedType "U64" v.ty) := by
  refine ⟨fun pairs hcount hparts => ?_, fun v => ?_, fun n v h => ?_⟩
  · have hread := ofBytes_ofPairs hcount hparts
    refine ⟨bind_eq_ok_iff.mpr ⟨_, hread, ?_⟩, ofBytes_exact hread⟩
    exact metadata_eq_pairs_iff.mpr ⟨.string, .string, rfl⟩
  · exact ⟨fun s => metadata_eq_raw_iff, fun pairs => metadata_eq_pairs_iff, metadata_eq_unexpected⟩
  · rw [ofBytes_of_isNumber h]
    exact balance_of_isNumber h

/-- A pair that comes twice, a map of which one value is no text, and the largest number that fits 64 bits
with the one after it. -/
theorem stored_whole_or_refused_samples :
    let pairs := [("name", "a"), ("name", "a")]
    let mixed : Value := .map .string .any [(.string "name", .string "a"), (.string "id", .u8 7)]
    let large : Value := .u512 ⟨2 ^ 64, by decide⟩
    let bytes := (Value.ofPairs pairs).bytes
    (ofBytes (.map .string .string) bytes >>= metadata) = .ok (.pairs pairs) ∧
      (∃ needed left, ofBytes (.map .string .string) (bytes.take 5) =
        .error (.decode (.endOfInput needed left))) ∧
      ofBytes (.map .string .string) (bytes ++ [0]) =
        .error (.decode (.malformed (.storedRest 1))) ∧
      metadata mixed = .error (.unexpectedType "Map<String, String>" (.map .string .any)) ∧
      (ofBytes .u64 (Value.u64 (.ofNat (2 ^ 64 - 1))).bytes >>= balance) = .ok (2 ^ 64 - 1) ∧
      (ofBytes .u512 large.bytes >>= balance) = .error (.unexpectedType "U64" .u512) := by
  intro pairs mixed large bytes
  have hmixed (ps : List (String × String)) : ¬ mixed.MapsTexts ps := by
    rintro ⟨k, t, h⟩
    have hid : (Value.string "id", Value.u8 7) ∈
        ps.map fun p => (Value.string p.1, Value.string p.2) :=
      (Value.map.inj h).2.2 ▸ List.mem_cons_of_mem _ List.mem_cons_self
    simp at hid
  obtain ⟨hpairs, hcut, hextended⟩ := stored_whole_or_refused.1 pairs (by decide) (by decide)
  have hnumber := stored_whole_or_refused.2.2
  refine ⟨hpairs, ?_, ?_, ?_, ?_, ?_⟩
  · exact hcut _ (List.take_prefix 5 bytes) (by decide)
  · exact hextended [0] (by decide)
  · exact (stored_whole_or_refused.2.1 mixed).2.2 (by simp [mixed]) hmixed
  · exact (hnumber _ _ (.u64 (by decide))).trans (if_pos (by decide))
  · exact (hnumber _ large (.u512 (by decide))).trans (if_neg (by decide))

end State

end NftLedger
