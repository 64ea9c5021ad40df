import NftLedger.Value.Encode

namespace NftLedger.Value

abbrev Piece := Bytes × Value

inductive Spells : Ty → Bytes → Value → Prop
  | bool (b : Bool) : Spells .bool [if b then 1 else 0] (.bool b)
  | u8 (n : UInt8) : Spells .u8 [n] (.u8 n)
  | u32 (n : UInt32) : Spells .u32 (Bytes.ofNat 4 n.toNat) (.u32 n)
  | u64 (n : UInt64) : Spells .u64 (Bytes.ofNat 8 n.toNat) (.u64 n)
  | u512 (digits : Bytes) (short : digits.length ≤ 64) :
    Spells .u512 (UInt8.ofNat digits.length :: digits) (.u512 (.ofNat digits.toNat))
  | string (s : String) (short : (Bytes.ofText s).length < UInt32.size) :
    Spells .string (Bytes.ofText s).withLength (.string s)
  | key (k : Key) : Spells .key k.bytes (.key k)
  | byteArray (length : UInt32) (bs : Bytes) (exact : bs.length = length.toNat) :
    Spells (.byteArray length) bs (.byteArray bs)
  | absent (inner : Ty) : Spells (.option inner) [0] (.option inner none)
  | present (inner : Ty) (bs : Bytes) (v : Value) (content : Spells inner bs v) :
    Spells (.option inner) (1 :: bs) (.option inner (some v))
  | list (item : Ty) (pieces : List Piece) (short : pieces.length < UInt32.size)
    (items : ∀ p ∈ pieces, Spells item p.1 p.2) :
    Spells (.list item) (Bytes.ofNat 4 pieces.length ++ pieces.flatMap (·.1))
      (.list item (pieces.map (·.2)))
  | map (k v : Ty) (pieces : List (Piece × Piece)) (short : pieces.length < UInt32.size)
    (keys : ∀ p ∈ pieces, Spells k p.1.1 p.1.2) (values : ∀ p ∈ pieces, Spells v p.2.1 p.2.2) :
    Spells (.map k v) (Bytes.ofNat 4 pieces.length ++ pieces.flatMap fun p => p.1.1 ++ p.2.1)
      (.map k v (pieces.map fun p => (p.1.2, p.2.2)))
  | any (own : Ty) (body : Bytes) (v : Value) (typed : own ≠ .any)
    (short : body.length < UInt32.size) (content : Spells own body v) :
    Spells .any (envelope own body) v

/-- A spelling with a leading zero in some number of 512 bits. Digits stand lowest first, so the zero
comes last. -/
inductive Padded : Ty → Bytes → Value → Prop
  | u512 (digits : Bytes) (short : digits.length < 64) :
    Padded .u512 (UInt8.ofNat (digits.length + 1) :: (digits ++ [0]))
      (.u512 (.ofNat digits.toNat))
  | present (inner : Ty) (bs : Bytes) (v : Value) (content : Padded inner bs v) :
    Padded (.option inner) (1 :: bs) (.option inner (some v))
  | item (item : Ty) (pieces : List Piece) (items : ∀ p ∈ pieces, Spells item p.1 p.2) (p : Piece)
    (member : p ∈ pieces) (padded : Padded item p.1 p.2) :
    Padded (.list item) (Bytes.ofNat 4 pieces.length ++ pieces.flatMap (·.1))
      (.list item (pieces.map (·.2)))
  | entryKey (k v : Ty) (pieces : List (Piece × Piece)) (keys : ∀ p ∈ pieces, Spells k p.1.1 p.1.2)
    (values : ∀ p ∈ pieces, Spells v p.2.1 p.2.2) (p : Piece × Piece) (member : p ∈ pieces)
    (padded : Padded k p.1.1 p.1.2) :
    Padded (.map k v) (Bytes.ofNat 4 pieces.length ++ pieces.flatMap fun p => p.1.1 ++ p.2.1)
      (.map k v (pieces.map fun p => (p.1.2, p.2.2)))
  | entryValue (k v : Ty) (pieces : List (Piece × Piece))
    (keys : ∀ p ∈ pieces, Spells k p.1.1 p.1.2) (values : ∀ p ∈ pieces, Spells v p.2.1 p.2.2)
    (p : Piece × Piece) (member : p ∈ pieces) (padded : Padded v p.2.1 p.2.2) :
    Padded (.map k v) (Bytes.ofNat 4 pieces.length ++ pieces.flatMap fun p => p.1.1 ++ p.2.1)
      (.map k v (pieces.map fun p => (p.1.2, p.2.2)))
  | any (own : Ty) (body : Bytes) (v : Value) (typed : own ≠ .any) (content : Padded own body v) :
    Padded .any (envelope own body) v

end NftLedger.Value
