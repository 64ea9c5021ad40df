import Mathlib.Data.List.Forall2
import NftLedger.Key.Json
import NftLedger.Proofs.Success
import NftLedger.Ty.Json

namespace NftLedger

section Lists

variable {α β ε : Type} {f : α → Except ε β} {as : List α} {bs : List β}

theorem mapM_of_forall₂ (h : List.Forall₂ (fun a b => f a = .ok b) as bs) :
    as.mapM f = .ok bs := by
  induction h with
  | nil => rfl
  | cons hfirst _ ih =>
    rw [List.mapM_cons, hfirst, ih]
    rfl

theorem forall₂_of_mapM (h : as.mapM f = .ok bs) :
    List.Forall₂ (fun a b => f a = .ok b) as bs := by
  induction as generalizing bs with
  | nil =>
    cases h
    exact .nil
  | cons a as ih =>
    rw [List.mapM_cons] at h
    obtain ⟨b, hfirst, hrest⟩ := bind_eq_ok_iff.mp h
    obtain ⟨bs, hothers, hlist⟩ := bind_eq_ok_iff.mp hrest
    cases hlist
    exact .cons hfirst (ih hothers)

theorem mapM_map_eq_ok {g : β → α} (h : ∀ b ∈ bs, f (g b) = .ok b) : (bs.map g).mapM f = .ok bs :=
  mapM_of_forall₂ (List.forall₂_map_left_iff.mpr (List.forall₂_same.mpr h))

/-- One faulty item among good ones is the fault of the whole list, wherever it stands. -/
theorem mapM_insert_error {x : α} {e : ε} (has : as.mapM f = .ok bs) (hx : f x = .error e)
    (position : Nat) : (as.take position ++ x :: as.drop position).mapM f = .error e := by
  rw [← List.take_append_drop position as, List.mapM_append] at has
  rw [List.mapM_append, List.mapM_cons, hx]
  cases hfront : (as.take position).mapM f with
  | error e' => rw [hfront] at has; cases has
  | ok front => rfl

end Lists

namespace Json

theorem Shape.natural_natCast {name : String} {bound n : Nat} (h : n < bound) :
    Shape.natural name bound (.int n) = .ok n := by
  have hrange : 0 ≤ (n : Int) ∧ (n : Int) < bound := ⟨Int.natCast_nonneg n, Int.ofNat_lt.mpr h⟩
  rw [Shape.natural, if_pos hrange, Int.toNat_natCast]

theorem Shape.u8_toNat (n : UInt8) : Shape.u8 (.int n.toNat) = .ok n := by
  rw [Shape.u8, natural_natCast n.toNat_lt]
  exact congrArg Except.ok UInt8.ofNat_toNat

theorem Shape.u32_toNat (n : UInt32) : Shape.u32 (.int n.toNat) = .ok n := by
  rw [Shape.u32, natural_natCast n.toNat_lt]
  exact congrArg Except.ok UInt32.ofNat_toNat

theorem Shape.u64_toNat (n : UInt64) : Shape.u64 (.int n.toNat) = .ok n := by
  rw [Shape.u64, natural_natCast n.toNat_lt]
  exact congrArg Except.ok UInt64.ofNat_toNat

section Pair

variable {α β γ : Type} {first second : String}

theorem Record.check_pair (f : α → β → γ) (hne : first ≠ second) (readFirst : Shape α)
    (readSecond : Shape β) (j k : Json) :
    (f <$> .required first readFirst <*> .required second readSecond : Record γ).check
        [(first, j), (second, k)] = do
      let _ ← readFirst j
      let _ ← readSecond k
      return () := by
  simp only [Functor.map, Seq.seq, required, check, List.nil_append, List.cons_append,
    List.find?_cons, decide_true, hne, decide_false]
  cases readFirst j with
  | error e => rfl
  | ok a => cases readSecond k <;> rfl

theorem Record.build_pair (f : α → β → γ) (hne : first ≠ second) (readFirst : Shape α)
    (readSecond : Shape β) (j k : Json) :
    (f <$> .required first readFirst <*> .required second readSecond : Record γ).build
        [(first, j), (second, k)] = do
      let a ← readFirst j
      let b ← readSecond k
      return f a b := by
  simp only [Functor.map, Seq.seq, required, List.lookup_cons, beq_self_eq_true,
    beq_false_of_ne hne.symm]
  cases readFirst j with
  | error e => rfl
  | ok a => cases readSecond k <;> rfl

theorem Record.shape_pair (f : α → β → γ) (hne : first ≠ second) (readFirst : Shape α)
    (readSecond : Shape β) (name : String) (j k : Json) :
    Record.shape (f <$> .required first readFirst <*> .required second readSecond) name
        (.obj [(first, j), (second, k)]) = do
      let a ← readFirst j
      let b ← readSecond k
      return f a b := by
  rw [Record.shape, Record.ofMembers, check_pair f hne, build_pair f hne]
  cases readFirst j with
  | error e => rfl
  | ok a => cases readSecond k <;> rfl

end Pair

end Json

namespace Ty

theorem ofJson_byteArray (j : Json) :
    ofJson (.obj [("ByteArray", j)]) = byteArray <$> Json.Shape.u32 j := by
  cases j <;> simp [ofJson]

theorem ofJson_option (j : Json) : ofJson (.obj [("Option", j)]) = option <$> ofJson j := by
  cases j <;> simp [ofJson]

theorem ofJson_list (j : Json) : ofJson (.obj [("List", j)]) = list <$> ofJson j := by
  cases j <;> simp [ofJson]

theorem ofJson_map (j k : Json) :
    ofJson (.obj [("Map", .obj [("key", j), ("value", k)])]) = do
      let t ← ofJson j
      let u ← ofJson k
      return map t u := by
  simp only [ofJson, ofMembers]
  cases ofJson j with
  | error e => rfl
  | ok t => cases ofJson k <;> rfl

theorem ofJson_toJson (t : Ty) : ofJson t.toJson = .ok t := by
  induction t with
  | byteArray length =>
    rw [toJson, ofJson_byteArray, Json.Shape.u32_toNat]
    rfl
  | option inner ih =>
    rw [toJson, ofJson_option, ih]
    rfl
  | list item ih =>
    rw [toJson, ofJson_list, ih]
    rfl
  | map k v ihk ihv =>
    rw [toJson, ofJson_map, ihk, ihv]
    rfl
  | _ => rfl

end Ty

end NftLedger
