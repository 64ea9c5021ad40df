import NftLedger.Proofs.Limits

namespace NftLedger.Value

theorem encode_of_ne_any {declared : Ty} (h : declared ≠ .any) (v : Value) :
    v.encode declared = v.bytes := if_neg h

theorem itemBytes_eq (item : Ty) (items : List Value) :
    itemBytes item items = items.flatMap (·.encode item) := by
  induction items with
  | nil => rfl
  | cons v vs ih => rw [itemBytes, ih, List.flatMap_cons, encode]

theorem entryBytes_eq (k v : Ty) (entries : List (Value × Value)) :
    entryBytes k v entries = entries.flatMap fun e => e.1.encode k ++ e.2.encode v := by
  induction entries with
  | nil => rfl
  | cons e entries ih => rw [entryBytes, ih, List.flatMap_cons, encode, encode]

theorem spells_encode_of_spells_bytes {v : Value} {declared : Ty} (h : Spells v.ty v.bytes v)
    (hfits : Fits declared v) (hshort : Countable declared v) :
    Spells declared (v.encode declared) v := by
  by_cases hany : declared = .any
  · subst hany
    exact .any v.ty v.bytes v v.ty_ne_any (hshort.2 rfl) h
  · have hty : v.ty = declared := hfits.resolve_left hany
    rw [encode_of_ne_any hany]
    exact hty ▸ h

theorem spells_u512 (n : U512) : Spells .u512 (bytes (.u512 n)) (.u512 n) := by
  have h := Spells.u512 (Bytes.minimal 64 n.toNat) (Bytes.length_minimal_le 64 n.toNat)
  have hn : U512.ofNat (Bytes.toNat (Bytes.minimal 64 n.toNat)) = n := by
    rw [Bytes.toNat_minimal 64 n.toNat n.lt, U512.ofNat]
    congr
    exact Nat.mod_eq_of_lt n.lt
  rwa [hn] at h

/-- The bytes of a conforming value spell it. -/
theorem spells_encode (v : Value) {declared : Ty} (hv : v.Conforms declared)
    (hs : v.Sized declared) : Spells declared (v.encode declared) v := by
  induction v using parts_induction generalizing declared with
  | step v ih =>
    obtain ⟨hfits, hfitsParts⟩ := hv
    obtain ⟨hshort, hshortParts⟩ := hs
    refine spells_encode_of_spells_bytes ?_ hfits hshort
    cases v with
    | bool b => exact .bool b
    | u8 n => exact .u8 n
    | u32 n => exact .u32 n
    | u64 n => exact .u64 n
    | u512 n => exact spells_u512 n
    | string s => exact .string s hshort.1
    | key k => exact .key k
    | byteArray bs =>
      have hlength : bs.length < 2 ^ 32 := hshort.1
      exact .byteArray _ bs (by rw [UInt32.toNat_ofNat', Nat.mod_eq_of_lt hlength])
    | option inner content =>
      cases content with
      | none => exact .absent inner
      | some v => exact .present inner _ v (ih.1 hfitsParts hshortParts)
    | list item items =>
      rw [parts_list] at ih hfitsParts hshortParts
      have hitems : ∀ p ∈ items.map fun v => (v.encode item, v), Spells item p.1 p.2 := by
        rw [List.forall_mem_map]
        exact fun v hv => (ih v hv).1 (hfitsParts v hv) (hshortParts v hv)
      have h := Spells.list item _ (by simpa [extent] using hshort.1) hitems
      rw [ty, bytes, itemBytes_eq]
      simpa [List.flatMap_map, Function.comp_def] using h
    | map k v entries =>
      rw [parts_map] at ih hfitsParts hshortParts
      have hkeys : ∀ p ∈ entries.map fun e => ((e.1.encode k, e.1), (e.2.encode v, e.2)),
          Spells k p.1.1 p.1.2 := by
        rw [List.forall_mem_map]
        exact fun e he => (ih e he).1.1 (hfitsParts e he).1 (hshortParts e he).1
      have hvalues : ∀ p ∈ entries.map fun e => ((e.1.encode k, e.1), (e.2.encode v, e.2)),
          Spells v p.2.1 p.2.2 := by
        rw [List.forall_mem_map]
        exact fun e he => (ih e he).2.1 (hfitsParts e he).2 (hshortParts e he).2
      have h := Spells.map k v _ (by simpa [extent] using hshort.1) hkeys hvalues
      rw [ty, bytes, entryBytes_eq]
      simpa [List.flatMap_map, Function.comp_def] using h

/-- A conforming value is read back from its bytes, and what follows them is left, exactly when it
keeps the two limits; a limit that it breaks is the only thing that can go wrong. -/
theorem read_encode {v : Value} {declared : Ty} (hv : v.Conforms declared)
    (hs : v.Sized declared) (rest : Bytes) :
    (read declared (v.encode declared ++ rest) = .ok (v, rest) ↔
      v.Bounded ∧ v.need declared ≤ nestingLimit) ∧
    (¬ (v.Bounded ∧ v.need declared ≤ nestingLimit) →
      (nestingLimit < v.need declared ∧
        read declared (v.encode declared ++ rest) = .error .tooDeep) ∨
      (¬ v.Bounded ∧ ∃ count, CountRule.zeroWidthLimit < count ∧
        read declared (v.encode declared ++ rest) = .error (.malformed (.zeroWidth count)))) := by
  have h := readWithin_verdict CountRule.roomy_fair (spells_encode v hv hs) (nestingLimit + 1) rest
  rw [← read] at h
  cases hr : read declared (v.encode declared ++ rest) with
  | ok q =>
    rw [hr] at h
    cases h with
    | accepted hshallow hbounded =>
      have hlimits := And.intro hbounded (Nat.le_of_lt_succ hshallow)
      exact ⟨iff_of_true rfl hlimits, fun hbroken => absurd hlimits hbroken⟩
  | error e =>
    rw [hr] at h
    cases h with
    | tooDeep hdeep =>
      have hneed : nestingLimit < v.need declared := by omega
      exact ⟨iff_of_false (by simp) fun hlimits => by omega, fun _ => .inl ⟨hneed, rfl⟩⟩
    | tooMany hmany count hcount =>
      exact ⟨iff_of_false (by simp) fun hlimits => hmany hlimits.1,
        fun _ => .inr ⟨hmany, count, hcount, rfl⟩⟩

def assorted : Value :=
  .map .string .any [(.string "a", .list .u8 [.u8 1, .u8 2]),
    (.string "b", .option .any (some (.byteArray [7, 7])))]

theorem read_encode_assorted :
    assorted.Conforms .any ∧ assorted.Sized .any ∧
      read .any (assorted.encode .any ++ [9]) = .ok (assorted, [9]) := by
  have hv : assorted.Conforms .any := by decide
  have hs : assorted.Sized .any := by decide
  exact ⟨hv, hs, (read_encode hv hs [9]).1.mpr (by decide)⟩

end NftLedger.Value
