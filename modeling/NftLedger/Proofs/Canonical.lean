import NftLedger.Proofs.RoundTrip

namespace NftLedger

theorem U512.toNat_ofNat_toNat {digits : Bytes} (short : digits.length ≤ 64) :
    (U512.ofNat digits.toNat).toNat = digits.toNat := by
  have hmono : 256 ^ digits.length ≤ 256 ^ 64 := Nat.pow_le_pow_right (by decide) short
  exact Nat.mod_eq_of_lt (digits.toNat_lt.trans_le hmono)

namespace Value

theorem encode_u512 {digits : Bytes} (short : digits.length ≤ 64) :
    (u512 (.ofNat digits.toNat)).encode .u512 =
      UInt8.ofNat (Bytes.minimal 64 digits.toNat).length :: Bytes.minimal 64 digits.toNat := by
  rw [encode_of_ne_any (by simp), bytes, U512.toNat_ofNat_toNat short]

theorem encode_pieces (item : Ty) (pieces : List Piece) :
    (list item (pieces.map (·.2))).encode (.list item) =
      Bytes.ofNat 4 pieces.length ++ pieces.flatMap fun p => p.2.encode item := by
  rw [encode_of_ne_any (by simp), bytes, itemBytes_eq, List.length_map, List.flatMap_map]

theorem encode_piecePairs (k v : Ty) (pieces : List (Piece × Piece)) :
    (map k v (pieces.map fun p => (p.1.2, p.2.2))).encode (.map k v) =
      Bytes.ofNat 4 pieces.length ++ pieces.flatMap fun p => p.1.2.encode k ++ p.2.2.encode v := by
  rw [encode_of_ne_any (by simp), bytes, entryBytes_eq, List.length_map, List.flatMap_map]

theorem encode_any {own : Ty} (typed : own ≠ .any) {v : Value} (hty : v.ty = own) :
    v.encode .any = envelope own (v.encode own) := by
  rw [encode_of_ne_any typed, ← hty]
  rfl

theorem length_envelope (own : Ty) (body : Bytes) :
    (envelope own body).length = 4 + body.length + own.descriptor.length := by
  simp [envelope, Bytes.withLength, Bytes.length_ofNat, Nat.add_assoc]

section Parts

variable {Part : Type} {code shorter : Part → Bytes} {parts : List Part} {count : Bytes}

theorem length_counted_le (h : ∀ p ∈ parts, (shorter p).length ≤ (code p).length) :
    (count ++ parts.flatMap shorter).length ≤ (count ++ parts.flatMap code).length := by
  simp only [List.length_append, List.length_flatMap]
  exact Nat.add_le_add_left (List.sum_le_sum h) _

theorem length_counted_lt (h : ∀ p ∈ parts, (shorter p).length ≤ (code p).length) {p : Part}
    (member : p ∈ parts) (hp : (shorter p).length < (code p).length) :
    (count ++ parts.flatMap shorter).length < (count ++ parts.flatMap code).length := by
  simp only [List.length_append, List.length_flatMap]
  exact Nat.add_lt_add_left (List.sum_lt_sum _ _ h ⟨p, member, hp⟩) _

end Parts

theorem length_encode_u512_le {digits : Bytes} (short : digits.length ≤ 64) :
    ((u512 (.ofNat digits.toNat)).encode .u512).length ≤ digits.length + 1 := by
  rw [encode_u512 short]
  exact Nat.succ_le_succ (Bytes.length_minimal_le_of_lt digits.toNat_lt)

/-- No spelling of a value is shorter than its bytes. -/
theorem Spells.length_encode_le {declared : Ty} {used : Bytes} {v : Value}
    (h : Spells declared used v) : (v.encode declared).length ≤ used.length := by
  induction h with
  | u512 digits short => exact length_encode_u512_le short
  | present inner bs v content ih => exact Nat.succ_le_succ ih
  | list item pieces short items ih =>
    rw [encode_pieces]
    exact length_counted_le ih
  | map k v pieces short keys values ihk ihv =>
    rw [encode_piecePairs]
    apply length_counted_le
    intro p hp
    simpa only [List.length_append] using Nat.add_le_add (ihk p hp) (ihv p hp)
  | any own body v typed short content ih =>
    rw [encode_any typed (ty_of_spells content typed), length_envelope, length_envelope]
    omega
  | _ => exact Nat.le_refl _

theorem length_encode_entry_le {k v : Ty} {p : Piece × Piece} (hk : Spells k p.1.1 p.1.2)
    (hv : Spells v p.2.1 p.2.2) :
    (p.1.2.encode k ++ p.2.2.encode v).length ≤ (p.1.1 ++ p.2.1).length := by
  simpa only [List.length_append] using Nat.add_le_add hk.length_encode_le hv.length_encode_le

theorem ty_of_padded {own : Ty} {used : Bytes} {v : Value} (h : Padded own used v)
    (typed : own ≠ .any) : v.ty = own := by
  cases h with
  | any => exact absurd rfl typed
  | _ => rfl

/-- A leading zero, in whatever part of a value, makes a spelling longer than it has to be. -/
theorem Padded.length_encode_lt {declared : Ty} {used : Bytes} {v : Value}
    (h : Padded declared used v) : (v.encode declared).length < used.length := by
  induction h with
  | u512 digits short =>
    have hle := length_encode_u512_le (Nat.le_of_lt short)
    simp only [List.length_cons, List.length_append, List.length_nil]
    omega
  | present inner bs v content ih => exact Nat.succ_lt_succ ih
  | item item pieces items p member padded ih =>
    rw [encode_pieces]
    exact length_counted_lt (fun p hp => (items p hp).length_encode_le) member ih
  | entryKey k v pieces keys values p member padded ih =>
    rw [encode_piecePairs]
    apply length_counted_lt (fun p hp => length_encode_entry_le (keys p hp) (values p hp)) member
    have hv := (values p member).length_encode_le
    simpa only [List.length_append] using Nat.add_lt_add_of_lt_of_le ih hv
  | entryValue k v pieces keys values p member padded ih =>
    rw [encode_piecePairs]
    apply length_counted_lt (fun p hp => length_encode_entry_le (keys p hp) (values p hp)) member
    have hk := (keys p member).length_encode_le
    simpa only [List.length_append] using Nat.add_lt_add_of_le_of_lt hk ih
  | any own body v typed content ih =>
    rw [encode_any typed (ty_of_padded content typed), length_envelope, length_envelope]
    omega

theorem u512_encode_or_padded {digits : Bytes} (short : digits.length ≤ 64) :
    (u512 (.ofNat digits.toNat)).encode .u512 = UInt8.ofNat digits.length :: digits ∨
      Padded .u512 (UInt8.ofNat digits.length :: digits) (.u512 (.ofNat digits.toNat)) := by
  rcases Bytes.minimal_toNat 64 digits short with hminimal | ⟨shorter, rfl⟩
  · exact .inl (by rw [encode_u512 short, hminimal])
  · rw [List.length_append, List.length_singleton] at short ⊢
    rw [Bytes.toNat_append_zero]
    exact .inr (.u512 shorter short)

/-- A spelling is the bytes of the value, or it has a leading zero. -/
theorem Spells.encode_or_padded {declared : Ty} {used : Bytes} {v : Value}
    (h : Spells declared used v) : v.encode declared = used ∨ Padded declared used v := by
  induction h with
  | u512 digits short => exact u512_encode_or_padded short
  | present inner bs v content ih =>
    exact ih.imp (congrArg (1 :: ·)) (.present inner bs v)
  | list item pieces short items ih =>
    -- all pieces are the bytes of their values, or one that is not has the zero
    by_cases hall : ∀ p ∈ pieces, p.2.encode item = p.1
    · exact .inl (by rw [encode_pieces, List.flatMap_congr hall])
    · push Not at hall
      obtain ⟨p, member, hp⟩ := hall
      exact .inr (.item item pieces items p member ((ih p member).resolve_left hp))
  | map k v pieces short keys values ihk ihv =>
    by_cases hkeys : ∀ p ∈ pieces, p.1.2.encode k = p.1.1
    · by_cases hvalues : ∀ p ∈ pieces, p.2.2.encode v = p.2.1
      · refine .inl ?_
        rw [encode_piecePairs]
        refine congrArg _ (List.flatMap_congr fun p hp => ?_)
        rw [hkeys p hp, hvalues p hp]
      · push Not at hvalues
        obtain ⟨p, member, hp⟩ := hvalues
        have hpadded := (ihv p member).resolve_left hp
        exact .inr (.entryValue k v pieces keys values p member hpadded)
    · push Not at hkeys
      obtain ⟨p, member, hp⟩ := hkeys
      have hpadded := (ihk p member).resolve_left hp
      exact .inr (.entryKey k v pieces keys values p member hpadded)
  | any own body v typed short content ih =>
    refine ih.imp (fun hbody => ?_) (.any own body v typed)
    rw [encode_any typed (ty_of_spells content typed), hbody]
  | _ => exact .inl rfl

theorem Padded.not_throughout {declared : Ty} {used : Bytes} {v : Value}
    (h : Padded declared used v) : ¬ v.Throughout (fun _ part => ∀ n, part ≠ .u512 n) declared := by
  intro hnone
  induction h with
  | u512 digits short => exact hnone.1 _ rfl
  | present inner bs v content ih => exact ih hnone.2
  | item item pieces items p member padded ih =>
    have hparts := parts_list.mp hnone.2
    exact ih (hparts p.2 (List.mem_map_of_mem member))
  | entryKey k v pieces keys values p member padded ih =>
    have hparts := parts_map.mp hnone.2
    exact ih (hparts (p.1.2, p.2.2) (List.mem_map_of_mem member)).1
  | entryValue k v pieces keys values p member padded ih =>
    have hparts := parts_map.mp hnone.2
    exact ih (hparts (p.1.2, p.2.2) (List.mem_map_of_mem member)).2
  | any own body v typed content ih => exact ih hnone

/-- Writing the value read never takes more bytes than reading it did. It gives the same bytes
exactly when no number of 512 bits in them has a leading zero, so always when there is no such
number. -/
theorem encode_of_read {declared : Ty} {used rest : Bytes} {v : Value}
    (h : read declared (used ++ rest) = .ok (v, rest)) :
    (v.encode declared).length ≤ used.length ∧
      (v.Throughout (fun _ part => ∀ n, part ≠ .u512 n) declared → v.encode declared = used) ∧
      (v.encode declared = used ↔ ¬ Padded declared used v) := by
  obtain ⟨spelled, heq, hspelled, -, -⟩ := read_eq_ok.mp h
  obtain rfl := List.append_cancel_right heq
  refine ⟨hspelled.length_encode_le, fun hnone => ?_, fun hsame hpadded => ?_, fun hminimal => ?_⟩
  · exact hspelled.encode_or_padded.resolve_right fun hpadded => hpadded.not_throughout hnone
  · exact absurd hpadded.length_encode_lt (by rw [hsame]; exact Nat.lt_irrefl _)
  · exact hspelled.encode_or_padded.resolve_right hminimal

/-- An envelope around a number with a leading zero. -/
theorem encode_of_read_padded :
    let used : Bytes := [4, 0, 0, 0, 1, 2, 5, 0, 13, 8]
    let v : Value := .option .u512 (some (.u512 (.ofNat 5)))
    read .any (used ++ [9]) = .ok (v, [9]) ∧ (v.encode .any).length ≤ used.length ∧
      (v.Throughout (fun _ part => ∀ n, part ≠ .u512 n) .any → v.encode .any = used) ∧
      (v.encode .any = used ↔ ¬ Padded .any used v) := by
  intro used v
  have h : read .any (used ++ [9]) = .ok (v, [9]) := by rfl
  exact ⟨h, encode_of_read h⟩

end Value

end NftLedger
