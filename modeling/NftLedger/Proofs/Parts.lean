import NftLedger.Value.Conforms
import NftLedger.Value.Measure

namespace NftLedger.Value

variable {P : Ty → Value → Prop}

theorem parts_list {item : Ty} {items : List Value} :
    (list item items).Parts P ↔ ∀ v ∈ items, v.Throughout P item := by
  simp only [Parts]
  induction items with
  | nil => simp [PartsItems]
  | cons v vs ih => simp only [PartsItems, ih, List.forall_mem_cons, Throughout]

theorem parts_map {k v : Ty} {entries : List (Value × Value)} :
    (map k v entries).Parts P ↔ ∀ e ∈ entries, e.1.Throughout P k ∧ e.2.Throughout P v := by
  simp only [Parts]
  induction entries with
  | nil => simp [PartsEntries]
  | cons e entries ih => simp only [PartsEntries, ih, List.forall_mem_cons, Throughout, and_assoc]

section Induction

variable {motive : Value → Prop}

mutual
theorem parts_of_step (h : ∀ v, v.Parts (fun _ part => motive part) → motive v) :
    (v : Value) → v.Parts fun _ part => motive part
  | .option inner content => content_of_step h inner content
  | .list item items => items_of_step h item items
  | .map k v entries => entries_of_step h k v entries
  | .bool _ | .u8 _ | .u32 _ | .u64 _ | .u512 _ | .string _ | .key _ | .byteArray _ => trivial

theorem content_of_step (h : ∀ v, v.Parts (fun _ part => motive part) → motive v) (inner : Ty) :
    (content : Option Value) → PartsContent (fun _ part => motive part) inner content
  | none => trivial
  | some v => ⟨h v (parts_of_step h v), parts_of_step h v⟩

theorem items_of_step (h : ∀ v, v.Parts (fun _ part => motive part) → motive v) (item : Ty) :
    (items : List Value) → PartsItems (fun _ part => motive part) item items
  | [] => trivial
  | v :: vs => ⟨⟨h v (parts_of_step h v), parts_of_step h v⟩, items_of_step h item vs⟩

theorem entries_of_step (h : ∀ v, v.Parts (fun _ part => motive part) → motive v) (k v : Ty) :
    (entries : List (Value × Value)) → PartsEntries (fun _ part => motive part) k v entries
  | [] => trivial
  | (x, y) :: rest =>
    ⟨⟨h x (parts_of_step h x), parts_of_step h x⟩, ⟨h y (parts_of_step h y), parts_of_step h y⟩,
      entries_of_step h k v rest⟩
end

/-- Induction on values: what passes from all parts of a value to the value holds of every value. -/
theorem parts_induction (step : ∀ v, v.Parts (fun _ part => motive part) → motive v) (v : Value) :
    motive v :=
  step v (parts_of_step step v)

end Induction

theorem need_any (v : Value) : v.need .any = 1 + max v.ty.nesting v.levels := rfl

theorem need_of_ne_any {declared : Ty} (h : declared ≠ .any) (v : Value) :
    v.need declared = v.levels := if_neg h

theorem need_some_lt {inner : Ty} {v : Value} {budget : Nat} :
    (option inner (some v)).need (.option inner) < budget + 1 ↔ v.need inner < budget := by
  rw [need_of_ne_any (by simp), levels, levelsContent, need]
  omega

theorem need_list_lt {item : Ty} {items : List Value} {budget : Nat} :
    (list item items).need (.list item) < budget + 1 ↔ ∀ v ∈ items, v.need item < budget := by
  rw [need_of_ne_any (by simp), levels]
  induction items with
  | nil => simp [levelsItems]
  | cons v vs ih =>
    rw [levelsItems, Nat.max_lt, ih, List.forall_mem_cons, need]
    exact and_congr_left fun _ => by omega

theorem need_map_lt {k v : Ty} {entries : List (Value × Value)} {budget : Nat} :
    (map k v entries).need (.map k v) < budget + 1 ↔
      ∀ e ∈ entries, e.1.need k < budget ∧ e.2.need v < budget := by
  rw [need_of_ne_any (by simp), levels]
  induction entries with
  | nil => simp [levelsEntries]
  | cons e entries ih =>
    rw [levelsEntries, Nat.max_lt, Nat.max_lt, ih, List.forall_mem_cons, need, need]
    exact and_congr_left fun _ => by omega

theorem bounded_list {item : Ty} {items : List Value} :
    (list item items).Bounded ↔
      (item = .byteArray 0 → items.length ≤ CountRule.zeroWidthLimit) ∧ ∀ v ∈ items, v.Bounded :=
  and_congr_right' parts_list

theorem bounded_map {k v : Ty} {entries : List (Value × Value)} :
    (map k v entries).Bounded ↔
      (k = .byteArray 0 ∧ v = .byteArray 0 → entries.length ≤ CountRule.zeroWidthLimit) ∧
        ∀ e ∈ entries, e.1.Bounded ∧ e.2.Bounded :=
  and_congr_right' parts_map

end NftLedger.Value
