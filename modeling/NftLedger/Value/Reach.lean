import NftLedger.Value.Conforms
import NftLedger.Value.Spelling

namespace NftLedger

/-- Bytes that open a type so many levels below an outermost one. What stands there may be nothing. -/
inductive Ty.Reaches : Nat → Bytes → Prop
  | here (bs : Bytes) : Reaches 0 bs
  | option {n : Nat} {rest : Bytes} (inner : Reaches n rest) : Reaches (n + 1) (13 :: rest)
  | list {n : Nat} {rest : Bytes} (item : Reaches n rest) : Reaches (n + 1) (14 :: rest)
  | mapKey {n : Nat} {rest : Bytes} (key : Reaches n rest) : Reaches (n + 1) (17 :: rest)
  | mapValue {n : Nat} {rest : Bytes} (k : Ty) (value : Reaches n rest) :
    Reaches (n + 1) (17 :: (k.descriptor ++ rest))

namespace Value

def Stands (t : Ty) (p : Piece) : Prop := Spells t p.1 p.2 ∧ p.2.Bounded

def Admits (width count left : Nat) : Prop :=
  count < UInt32.size ∧ (width = 0 → count ≤ 1024) ∧ min (count * width) (UInt64.size - 1) ≤ left

mutual
/-- Bytes that open a value so many levels below one of the given type. -/
inductive Reaches : Ty → Nat → Bytes → Prop
  | here (t : Ty) (bs : Bytes) : Reaches t 0 bs
  | present {inner : Ty} {n : Nat} {rest : Bytes} (content : Reaches inner n rest) :
    Reaches (.option inner) (n + 1) (1 :: rest)
  | item {item : Ty} {n count : Nat} {rest : Bytes} (pieces : List Piece)
    (earlier : ∀ p ∈ pieces, Stands item p) (fewer : pieces.length < count)
    (admitted : Admits item.minWidth count (pieces.flatMap (·.1) ++ rest).length)
    (next : Reaches item n rest) :
    Reaches (.list item) (n + 1) (Bytes.ofNat 4 count ++ (pieces.flatMap (·.1) ++ rest))
  | entryKey {k v : Ty} {n count : Nat} {rest : Bytes} (pieces : List (Piece × Piece))
    (earlier : ∀ p ∈ pieces, Stands k p.1 ∧ Stands v p.2) (fewer : pieces.length < count)
    (admitted : Admits (k.minWidth + v.minWidth) count
      (pieces.flatMap (fun p => p.1.1 ++ p.2.1) ++ rest).length)
    (next : Reaches k n rest) :
    Reaches (.map k v) (n + 1)
      (Bytes.ofNat 4 count ++ (pieces.flatMap (fun p => p.1.1 ++ p.2.1) ++ rest))
  | entryValue {k v : Ty} {n count : Nat} {rest : Bytes} (pieces : List (Piece × Piece))
    (key : Piece) (earlier : ∀ p ∈ pieces, Stands k p.1 ∧ Stands v p.2) (stands : Stands k key)
    (fewer : pieces.length < count)
    (admitted : Admits (k.minWidth + v.minWidth) count
      (pieces.flatMap (fun p => p.1.1 ++ p.2.1) ++ (key.1 ++ rest)).length)
    (next : Reaches v n rest) :
    Reaches (.map k v) (n + 1)
      (Bytes.ofNat 4 count ++ (pieces.flatMap (fun p => p.1.1 ++ p.2.1) ++ (key.1 ++ rest)))
  | any {n : Nat} {bs : Bytes} (envelope : EnvelopeReaches n bs) : Reaches .any (n + 1) bs

/-- In a self-describing value, the descriptor and the body both start at the same level. -/
inductive EnvelopeReaches : Nat → Bytes → Prop
  | descriptor {n : Nat} {rest : Bytes} (body : Bytes) (short : body.length < UInt32.size)
    (own : Ty.Reaches n rest) : EnvelopeReaches n (body.withLength ++ rest)
  | content {own : Ty} {n : Nat} {body : Bytes} (rest : Bytes) (typed : own ≠ .any)
    (short : body.length < UInt32.size) (value : Reaches own n body) :
    EnvelopeReaches n (body.withLength ++ (own.descriptor ++ rest))
end

end Value

end NftLedger
