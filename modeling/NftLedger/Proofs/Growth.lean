import NftLedger.Proofs.Canonical

namespace NftLedger.Value

theorem sum_size_le {Part : Type} {code : Part → Bytes} {size : Part → Nat} {parts : List Part}
    {extra : Nat} (h : ∀ p ∈ parts, size p ≤ 513 * (code p).length + extra) :
    (parts.map size).sum ≤ 513 * (parts.flatMap code).length + extra * parts.length := by
  induction parts with
  | nil => simp
  | cons p parts ih =>
    obtain ⟨hp, hparts⟩ := List.forall_mem_cons.mp h
    have hrest := ih hparts
    simp only [List.map_cons, List.sum_cons, List.flatMap_cons, List.length_append,
      List.length_cons, Nat.mul_add, Nat.mul_one]
    omega

theorem nodesItems_eq (pieces : List Piece) :
    nodesItems (pieces.map (·.2)) = (pieces.map fun p => p.2.nodes).sum := by
  induction pieces with
  | nil => rfl
  | cons p pieces ih => rw [List.map_cons, nodesItems, ih, List.map_cons, List.sum_cons]

theorem nodesEntries_eq (pieces : List (Piece × Piece)) :
    nodesEntries (pieces.map fun p => (p.1.2, p.2.2)) =
      (pieces.map fun p => p.1.2.nodes + p.2.2.nodes).sum := by
  induction pieces with
  | nil => rfl
  | cons p pieces ih => rw [List.map_cons, nodesEntries, ih, List.map_cons, List.sum_cons]

/-- Either a value takes no bytes and is a single node, or its nodes are fewer than the bytes pay for.
The second bound leaves one node for the constructor around the value. -/
def Paid (t : Ty) (used : Bytes) (v : Value) : Prop :=
  t = .byteArray 0 ∧ v.nodes = 1 ∨ v.nodes < 513 * used.length

theorem Paid.nodes_le {t : Ty} {used : Bytes} {v : Value} (h : Paid t used v) :
    v.nodes ≤ 513 * used.length + 1 := by
  rcases h with ⟨-, h⟩ | h <;> omega

theorem Paid.nodes_lt {t : Ty} {used : Bytes} {v : Value} (h : Paid t used v)
    (hwidth : t ≠ .byteArray 0) : v.nodes < 513 * used.length :=
  h.resolve_left fun hzero => hwidth hzero.1

/-- The count of a collection pays for what its elements owe, up to two nodes for each of the most
elements without width that there can be. -/
theorem nodes_counted_lt {Part : Type} {code : Part → Bytes} {size : Part → Nat} {parts : List Part}
    {extra : Nat} (h : ∀ p ∈ parts, size p ≤ 513 * (code p).length + extra)
    (hlimit : extra * parts.length ≤ 2 * CountRule.zeroWidthLimit) :
    1 + (parts.map size).sum <
      513 * (Bytes.ofNat 4 parts.length ++ parts.flatMap code).length := by
  have hsum := sum_size_le h
  rw [CountRule.zeroWidthLimit] at hlimit
  rw [List.length_append, Bytes.length_ofNat]
  omega

theorem nodes_list_lt {item : Ty} {pieces : List Piece} (h : ∀ p ∈ pieces, Paid item p.1 p.2)
    (hlimit : item = .byteArray 0 → pieces.length ≤ CountRule.zeroWidthLimit) :
    (list item (pieces.map (·.2))).nodes <
      513 * (Bytes.ofNat 4 pieces.length ++ pieces.flatMap (·.1)).length := by
  rw [nodes, nodesItems_eq]
  by_cases hzero : item = .byteArray 0
  · have hcount := hlimit hzero
    exact nodes_counted_lt (fun p hp => (h p hp).nodes_le) (by omega)
  · have hitem (p : Piece) (hp : p ∈ pieces) : p.2.nodes ≤ 513 * p.1.length + 0 :=
      ((h p hp).nodes_lt hzero).le
    exact nodes_counted_lt hitem (by omega)

theorem nodes_map_lt {k v : Ty} {pieces : List (Piece × Piece)}
    (hkeys : ∀ p ∈ pieces, Paid k p.1.1 p.1.2) (hvalues : ∀ p ∈ pieces, Paid v p.2.1 p.2.2)
    (hlimit : k = .byteArray 0 ∧ v = .byteArray 0 → pieces.length ≤ CountRule.zeroWidthLimit) :
    (map k v (pieces.map fun p => (p.1.2, p.2.2))).nodes <
      513 * (Bytes.ofNat 4 pieces.length ++ pieces.flatMap fun p => p.1.1 ++ p.2.1).length := by
  rw [nodes, nodesEntries_eq]
  by_cases hzero : k = .byteArray 0 ∧ v = .byteArray 0
  · have hcount := hlimit hzero
    have hentry (p : Piece × Piece) (hp : p ∈ pieces) :
        p.1.2.nodes + p.2.2.nodes ≤ 513 * (p.1.1 ++ p.2.1).length + 2 := by
      have hkey := (hkeys p hp).nodes_le
      have hvalue := (hvalues p hp).nodes_le
      rw [List.length_append]
      omega
    exact nodes_counted_lt hentry (by omega)
  · -- the side with width has one node to spare for the other
    have hentry (p : Piece × Piece) (hp : p ∈ pieces) :
        p.1.2.nodes + p.2.2.nodes ≤ 513 * (p.1.1 ++ p.2.1).length + 0 := by
      have hkey := (hkeys p hp).nodes_le
      have hvalue := (hvalues p hp).nodes_le
      rw [List.length_append]
      rcases not_and_or.mp hzero with hwidth | hwidth
      · have hspare := (hkeys p hp).nodes_lt hwidth
        omega
      · have hspare := (hvalues p hp).nodes_lt hwidth
        omega
    exact nodes_counted_lt hentry (by omega)

theorem Spells.paid_of_scalar {t : Ty} {used : Bytes} {v : Value} (h : Spells t used v)
    (hone : v.nodes = 1) : Paid t used v := by
  by_cases hzero : t = .byteArray 0
  · exact .inl ⟨hzero, hone⟩
  · have hwidth := h.minWidth_le
    have hpos : t.minWidth ≠ 0 := fun h => hzero (minWidth_eq_zero_iff.mp h)
    right
    omega

/-- Every spelled value is paid for. The induction is on the spelling: a present content and an
envelope add bytes of their own to those of the value inside, a collection adds its count. -/
theorem Spells.paid {t : Ty} {used : Bytes} {v : Value} (h : Spells t used v) (hb : v.Bounded) :
    Paid t used v := by
  induction h with
  | bool b => exact (Spells.bool b).paid_of_scalar rfl
  | u8 n => exact (Spells.u8 n).paid_of_scalar rfl
  | u32 n => exact (Spells.u32 n).paid_of_scalar rfl
  | u64 n => exact (Spells.u64 n).paid_of_scalar rfl
  | u512 digits short => exact (Spells.u512 digits short).paid_of_scalar rfl
  | string s short => exact (Spells.string s short).paid_of_scalar rfl
  | key k => exact (Spells.key k).paid_of_scalar rfl
  | byteArray length bs exact => exact (Spells.byteArray length bs exact).paid_of_scalar rfl
  | absent inner => exact (Spells.absent inner).paid_of_scalar rfl
  | present inner bs v content ih =>
    have hcontent := (ih hb.2).nodes_le
    right
    rw [nodes, nodesContent, List.length_cons]
    omega
  | list item pieces short items ih =>
    obtain ⟨hlimit, hitems⟩ := bounded_list.mp hb
    rw [List.length_map] at hlimit
    rw [List.forall_mem_map] at hitems
    exact .inr (nodes_list_lt (fun p hp => ih p hp (hitems p hp)) hlimit)
  | map k v pieces short keys values ihk ihv =>
    obtain ⟨hlimit, hentries⟩ := bounded_map.mp hb
    rw [List.length_map] at hlimit
    rw [List.forall_mem_map] at hentries
    exact .inr (nodes_map_lt (fun p hp => ihk p hp (hentries p hp).1)
      (fun p hp => ihv p hp (hentries p hp).2) hlimit)
  | any own body v typed short content ih =>
    have hbody := (ih hb).nodes_le
    right
    rw [length_envelope]
    omega

/-- Reading never makes much of little: whatever the type, the value has at most 513 nodes for each
byte used and one more, which only an element without width needs. -/
theorem nodes_le_of_read {declared : Ty} {bs rest : Bytes} {v : Value}
    (h : read declared bs = .ok (v, rest)) :
    rest.length ≤ bs.length ∧ v.nodes ≤ 513 * (bs.length - rest.length) + 1 ∧
      (declared ≠ .byteArray 0 → v.nodes < 513 * (bs.length - rest.length)) := by
  obtain ⟨used, rfl, hused, -, hbounded⟩ := read_eq_ok.mp h
  have hpaid := hused.paid hbounded
  rw [List.length_append, Nat.add_sub_cancel]
  exact ⟨by omega, hpaid.nodes_le, hpaid.nodes_lt⟩

theorem nodes_le_of_read_zeroWidth :
    let used : Bytes := [4, 0, 0, 0, 64, 0, 0, 0, 17, 15, 0, 0, 0, 0, 15, 0, 0, 0, 0]
    let v : Value := .map (.byteArray 0) (.byteArray 0)
      (List.replicate 64 (.byteArray [], .byteArray []))
    read .any (used ++ [7]) = .ok (v, [7]) ∧ v.nodes = 129 ∧
      v.nodes ≤ 513 * (20 - 1) + 1 ∧ v.nodes < 513 * (20 - 1) := by
  intro used v
  have h : read .any (used ++ [7]) = .ok (v, [7]) := by decide +kernel
  obtain ⟨-, hle, hlt⟩ := nodes_le_of_read h
  exact ⟨h, by decide +kernel, hle, hlt (by decide)⟩

end NftLedger.Value
