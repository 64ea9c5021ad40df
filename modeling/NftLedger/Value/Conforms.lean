import NftLedger.Value.Decode
import NftLedger.Value.Encode

namespace NftLedger.Value

mutual
/-- A property of all parts of a value, each with the type of the place where it stands. -/
def Parts (P : Ty → Value → Prop) : Value → Prop
  | .option inner content => PartsContent P inner content
  | .list item items => PartsItems P item items
  | .map k v entries => PartsEntries P k v entries
  | _ => True

def PartsContent (P : Ty → Value → Prop) (inner : Ty) : Option Value → Prop
  | none => True
  | some v => P inner v ∧ v.Parts P

def PartsItems (P : Ty → Value → Prop) (item : Ty) : List Value → Prop
  | [] => True
  | v :: vs => (P item v ∧ v.Parts P) ∧ PartsItems P item vs

def PartsEntries (P : Ty → Value → Prop) (keyType valueType : Ty) : List (Value × Value) → Prop
  | [] => True
  | (k, v) :: rest =>
    (P keyType k ∧ k.Parts P) ∧ (P valueType v ∧ v.Parts P) ∧ PartsEntries P keyType valueType rest
end

/-- A property of a value in a place of the declared type and of all its parts. -/
def Throughout (P : Ty → Value → Prop) (declared : Ty) (v : Value) : Prop :=
  P declared v ∧ v.Parts P

section Decidable

variable (P : Ty → Value → Prop) [∀ declared v, Decidable (P declared v)]

mutual
def decideParts : (v : Value) → Decidable (v.Parts P)
  | .option inner content => decideContent inner content
  | .list item items => decideItems item items
  | .map k v entries => decideEntries k v entries
  | .bool _ | .u8 _ | .u32 _ | .u64 _ | .u512 _ | .string _ | .key _ | .byteArray _ => .isTrue trivial

def decideContent (inner : Ty) : (content : Option Value) → Decidable (PartsContent P inner content)
  | none => .isTrue trivial
  | some v => @instDecidableAnd _ _ _ (decideParts v)

def decideItems (item : Ty) : (items : List Value) → Decidable (PartsItems P item items)
  | [] => .isTrue trivial
  | v :: vs =>
    @instDecidableAnd _ _ (@instDecidableAnd _ _ _ (decideParts v)) (decideItems item vs)

def decideEntries (k v : Ty) :
    (entries : List (Value × Value)) → Decidable (PartsEntries P k v entries)
  | [] => .isTrue trivial
  | (x, y) :: rest =>
    @instDecidableAnd _ _ (@instDecidableAnd _ _ _ (decideParts x))
      (@instDecidableAnd _ _ (@instDecidableAnd _ _ _ (decideParts y)) (decideEntries k v rest))
end

instance (declared : Ty) (v : Value) : Decidable (v.Throughout P declared) :=
  @instDecidableAnd _ _ _ (decideParts P v)

end Decidable

def Fits (declared : Ty) (v : Value) : Prop := declared = .any ∨ v.ty = declared

instance (declared : Ty) (v : Value) : Decidable (Fits declared v) :=
  inferInstanceAs (Decidable (_ ∨ _))

def Conforms (v : Value) (declared : Ty) : Prop := v.Throughout Fits declared

instance (v : Value) (declared : Ty) : Decidable (v.Conforms declared) :=
  inferInstanceAs (Decidable (v.Throughout Fits declared))

def extent : Value → Nat
  | .string s => (Bytes.ofText s).length
  | .byteArray bs => bs.length
  | .list _ items => items.length
  | .map _ _ entries => entries.length
  | _ => 0

/-- The extent of a value fits 32 bits, and so does the body of its envelope if it stands in one. -/
def Countable (declared : Ty) (v : Value) : Prop :=
  v.extent < UInt32.size ∧ (declared = .any → v.bytes.length < UInt32.size)

instance (declared : Ty) (v : Value) : Decidable (Countable declared v) :=
  inferInstanceAs (Decidable (_ ∧ _))

def Sized (v : Value) (declared : Ty) : Prop := v.Throughout Countable declared

instance (v : Value) (declared : Ty) : Decidable (v.Sized declared) :=
  inferInstanceAs (Decidable (v.Throughout Countable declared))

def WithinLimit : Value → Prop
  | .list item items => item = .byteArray 0 → items.length ≤ CountRule.zeroWidthLimit
  | .map k v entries =>
    k = .byteArray 0 ∧ v = .byteArray 0 → entries.length ≤ CountRule.zeroWidthLimit
  | _ => True

instance : DecidablePred WithinLimit
  | .list _ _ => inferInstanceAs (Decidable (_ → _))
  | .map _ _ _ => inferInstanceAs (Decidable (_ → _))
  | .bool _ | .u8 _ | .u32 _ | .u64 _ | .u512 _ | .string _ | .key _ | .byteArray _ | .option _ _ =>
    .isTrue trivial

def Bounded (v : Value) : Prop := v.Throughout (fun _ part => part.WithinLimit) v.ty

instance (v : Value) : Decidable v.Bounded :=
  inferInstanceAs (Decidable (v.Throughout (fun _ part => part.WithinLimit) v.ty))

def Exact : Value → Prop
  | .u512 n => n.toNat < Nat.pow 2 512
  | .byteArray bs => ∃ length, ty (.byteArray bs) = .byteArray length ∧ bs.length = length.toNat
  | _ => True

end NftLedger.Value
