import NftLedger.Json.Shape
import NftLedger.Proofs.Named
import NftLedger.Proofs.Success

namespace NftLedger

namespace Json.Record

variable {α β : Type}

/-- A record is made from the values of its fields, and only if each of them passes. -/
class Lawful (r : Record α) : Prop where
  build_congr {members members' : List (String × Json)}
    (h : ∀ s ∈ r.slots, members.lookup s.name = members'.lookup s.name) :
    r.build members = r.build members'
  check_of_build {members : List (String × Json)} {x : α} (h : r.build members = .ok x) :
    ∀ s ∈ r.slots, ∀ j, members.lookup s.name = some j → s.check j = .ok ()

instance (x : α) : Lawful (pure x : Record α) where
  build_congr _ := rfl
  check_of_build _ _ hs := absurd hs List.not_mem_nil

instance (name : String) (shape : Shape α) : Lawful (required name shape) where
  build_congr h := by
    simp only [required, List.mem_singleton, forall_eq] at h ⊢
    rw [h]
  check_of_build h s hs j hj := by
    obtain rfl := List.mem_singleton.mp hs
    simp only [required, hj] at h
    exact map_eq_ok_iff.mpr ⟨_, h, rfl⟩

instance (name : String) (shape : Shape α) (default : α) :
    Lawful (withDefault name shape default) where
  build_congr h := by
    simp only [withDefault, List.mem_singleton, forall_eq] at h ⊢
    rw [h]
  check_of_build h s hs j hj := by
    obtain rfl := List.mem_singleton.mp hs
    simp only [withDefault, hj] at h
    exact map_eq_ok_iff.mpr ⟨_, h, rfl⟩

instance (name : String) (shape : Shape α) : Lawful (optional name shape) :=
  inferInstanceAs (Lawful (withDefault _ _ _))

section Steps

variable {f : Record (α → β)} {x : Record α} {members : List (String × Json)}

theorem build_seq (f : Record (α → β)) (x : Record α) (members : List (String × Json)) :
    (f <*> x).build members = f.build members >>= fun g => g <$> x.build members := rfl

theorem build_seq_eq_ok {b : β} : (f <*> x).build members = .ok b ↔
    ∃ g a, f.build members = .ok g ∧ x.build members = .ok a ∧ g a = b := by
  simp only [build_seq, bind_eq_ok_iff, map_eq_ok_iff, exists_and_left]

theorem build_map_eq_ok {g : α → β} {b : β} :
    (g <$> x).build members = .ok b ↔ ∃ a, x.build members = .ok a ∧ g a = b :=
  map_eq_ok_iff

instance (f : Record (α → β)) (x : Record α) [Lawful f] [Lawful x] : Lawful (f <*> x) where
  build_congr h := by
    obtain ⟨hf, hx⟩ := List.forall_mem_append.mp h
    rw [build_seq, build_seq, Lawful.build_congr hf, Lawful.build_congr hx]
  check_of_build h := by
    obtain ⟨g, a, hf, hx, -⟩ := build_seq_eq_ok.mp h
    exact List.forall_mem_append.mpr ⟨Lawful.check_of_build hf, Lawful.check_of_build hx⟩

instance (f : α → β) (x : Record α) [Lawful x] : Lawful (f <$> x) :=
  inferInstanceAs (Lawful (pure f <*> x))

end Steps

section Members

variable {r : Record α} {members members' : List (String × Json)} {x : α}

theorem check_eq_ok (h : ∀ m ∈ members, ∀ s ∈ r.slots, s.name = m.1 → s.check m.2 = .ok ()) :
    r.check members = .ok () := by
  induction members with
  | nil => rfl
  | cons m rest ih =>
    obtain ⟨name, j⟩ := m
    obtain ⟨hm, hrest⟩ := List.forall_mem_cons.mp h
    rw [check]
    cases hfind : r.slots.find? (·.name = name) with
    | none => exact ih hrest
    | some s =>
      have hname : s.name = name := by simpa using List.find?_some hfind
      have hs := hm s (List.mem_of_find?_eq_some hfind) hname
      exact bind_eq_ok_iff.mpr ⟨(), hs, ih hrest⟩

/-- Members of different names are read as a record exactly if the record can be made of them. -/
theorem ofMembers_eq_ok_iff [Lawful r] (h : (members.map (·.1)).Nodup) :
    r.ofMembers members = .ok x ↔ r.build members = .ok x := by
  constructor
  · intro hread
    obtain ⟨-, -, hbuild⟩ := bind_eq_ok_iff.mp hread
    exact hbuild
  · intro hbuild
    refine bind_eq_ok_iff.mpr ⟨(), check_eq_ok fun m hm s hs hname => ?_, hbuild⟩
    refine Lawful.check_of_build hbuild s hs m.2 ?_
    rw [lookup_eq_some_iff_mem h, hname]
    exact hm

theorem build_of_ofItems {name : String} {items : List Json} (h : r.ofItems name items = .ok x) :
    r.build ((r.slots.map (·.name)).zip items) = .ok x ∧ items.length ≤ r.slots.length := by
  obtain ⟨-, -, h⟩ := bind_eq_ok_iff.mp h
  split at h
  next => cases h
  next => cases h
  next y hbuild =>
    split at h
    next hlength =>
      cases h
      exact ⟨hbuild, hlength⟩
    next => cases h

theorem exists_build_of_shape {name : String} {j : Json} (h : r.shape name j = .ok x) :
    ∃ members, r.build members = .ok x := by
  cases j with
  | obj members =>
    obtain ⟨-, -, hbuild⟩ := bind_eq_ok_iff.mp h
    exact ⟨members, hbuild⟩
  | arr items => exact ⟨_, (build_of_ofItems h).1⟩
  | _ => cases h

def Builds (r : Record α) (members : List (String × Json)) (x : α) : Prop := r.build members = .ok x

theorem Builds.seq {f : Record (α → β)} {x : Record α} {g : α → β} {a : α}
    (hf : f.Builds members g) (hx : x.Builds members a) : (f <*> x).Builds members (g a) :=
  build_seq_eq_ok.mpr ⟨g, a, hf, hx, rfl⟩

theorem Builds.map {x : Record α} {a : α} (hx : x.Builds members a) (g : α → β) :
    (g <$> x).Builds members (g a) :=
  build_map_eq_ok.mpr ⟨a, hx, rfl⟩

theorem builds_required {name : String} {shape : Shape α} {j : Json} (hj : members.lookup name = some j)
    (hx : shape j = .ok x) : (required name shape).Builds members x := by
  simp only [Builds, required, hj]
  exact hx

theorem shape_of_builds [Lawful r] (h : (members.map (·.1)).Nodup)
    (hx : r.Builds members x) (title : String) : r.shape title (.obj members) = .ok x :=
  (ofMembers_eq_ok_iff h).mpr hx

end Members

end Json.Record

end NftLedger
