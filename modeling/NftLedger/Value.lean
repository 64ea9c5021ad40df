import NftLedger.Key

namespace NftLedger

structure U512 where
  toNat : Nat
  lt : toNat < Nat.pow 256 64
deriving DecidableEq

def U512.ofNat (n : Nat) : U512 := ⟨n % Nat.pow 256 64, Nat.mod_lt _ (by decide)⟩

inductive Value
  | bool (b : Bool)
  | u8 (n : UInt8)
  | u32 (n : UInt32)
  | u64 (n : UInt64)
  | u512 (n : U512)
  | string (s : String)
  | key (k : Key)
  | byteArray (bytes : Bytes)
  | option (inner : Ty) (content : Option Value)
  | list (item : Ty) (items : List Value)
  | map (keyType valueType : Ty) (entries : List (Value × Value))

namespace Value

def ty : Value → Ty
  | .bool _ => .bool
  | .u8 _ => .u8
  | .u32 _ => .u32
  | .u64 _ => .u64
  | .u512 _ => .u512
  | .string _ => .string
  | .key _ => .key
  | .byteArray bytes => .byteArray (UInt32.ofNat bytes.length)
  | .option inner _ => .option inner
  | .list item _ => .list item
  | .map k v _ => .map k v

theorem ty_ne_any (v : Value) : v.ty ≠ .any := by
  cases v <;> simp [ty]

mutual
def same : Value → Value → Bool
  | .bool a, .bool b => a == b
  | .u8 a, .u8 b => a == b
  | .u32 a, .u32 b => a == b
  | .u64 a, .u64 b => a == b
  | .u512 a, .u512 b => a == b
  | .string a, .string b => a == b
  | .key a, .key b => a == b
  | .byteArray a, .byteArray b => a == b
  | .option t a, .option u b => t == u && sameContent a b
  | .list t as, .list u bs => t == u && sameItems as bs
  | .map k v as, .map l w bs => k == l && v == w && sameEntries as bs
  | _, _ => false

def sameContent : Option Value → Option Value → Bool
  | none, none => true
  | some a, some b => same a b
  | _, _ => false

def sameItems : List Value → List Value → Bool
  | [], [] => true
  | a :: as, b :: bs => same a b && sameItems as bs
  | _, _ => false

def sameEntries : List (Value × Value) → List (Value × Value) → Bool
  | [], [] => true
  | (a, x) :: as, (b, y) :: bs => same a b && same x y && sameEntries as bs
  | _, _ => false
end

mutual
theorem same_iff : (a b : Value) → (same a b = true ↔ a = b)
  | .option t a, b => by cases b <;> simp [same, sameContent_iff a]
  | .list t as, b => by cases b <;> simp [same, sameItems_iff as]
  | .map k v as, b => by cases b <;> simp [same, sameEntries_iff as, and_assoc]
  | .bool a, b => by cases b <;> simp [same]
  | .u8 a, b => by cases b <;> simp [same]
  | .u32 a, b => by cases b <;> simp [same]
  | .u64 a, b => by cases b <;> simp [same]
  | .u512 a, b => by cases b <;> simp [same]
  | .string a, b => by cases b <;> simp [same]
  | .key a, b => by cases b <;> simp [same]
  | .byteArray a, b => by cases b <;> simp [same]

theorem sameContent_iff : (a b : Option Value) → (sameContent a b = true ↔ a = b)
  | none, b => by cases b <;> simp [sameContent]
  | some a, b => by cases b <;> simp [sameContent, same_iff a]

theorem sameItems_iff : (as bs : List Value) → (sameItems as bs = true ↔ as = bs)
  | [], bs => by cases bs <;> simp [sameItems]
  | a :: as, bs => by cases bs <;> simp [sameItems, same_iff a, sameItems_iff as]

theorem sameEntries_iff : (as bs : List (Value × Value)) → (sameEntries as bs = true ↔ as = bs)
  | [], bs => by cases bs <;> simp [sameEntries]
  | (a, x) :: as, bs => by
    cases bs with
    | nil => simp [sameEntries]
    | cons b bs =>
      obtain ⟨b, y⟩ := b
      simp [sameEntries, same_iff a, same_iff x, sameEntries_iff as]
end

instance : DecidableEq Value := fun a b => decidable_of_iff _ (same_iff a b)

def text? : Value → Option String
  | .string s => some s
  | _ => none

def nat64? : Value → Option Nat
  | .u8 n => some n.toNat
  | .u32 n => some n.toNat
  | .u64 n => some n.toNat
  | .u512 n => if n.toNat < UInt64.size then some n.toNat else none
  | _ => none

def key? : Value → Option Key
  | .key k => some k
  | _ => none

def items? : Value → Option (List Value)
  | .list _ items => some items
  | _ => none

def entries? : Value → Option (List (Value × Value))
  | .map _ _ entries => some entries
  | _ => none

def isMap (v : Value) : Bool := v.entries?.isSome

def find? (v : Value) (k : Value) : Option Value := do
  let entries ← v.entries?
  (·.2) <$> entries.find? (·.1 = k)

def field? (v : Value) (name : String) : Option Value := v.find? (.string name)

def ofPairs (pairs : List (String × String)) : Value :=
  .map .string .string (pairs.map fun (k, v) => (.string k, .string v))

end Value

end NftLedger
