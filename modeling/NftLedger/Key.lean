import NftLedger.Text.Hex
import NftLedger.Wire.Reader

namespace NftLedger

structure Address where
  bytes : Bytes
  length_bytes : bytes.length = 32
deriving DecidableEq

namespace Address

def ofBytes? (bs : Bytes) : Option Address :=
  if h : bs.length = 32 then some ⟨bs, h⟩ else none

def read : Reader Address := fun bs =>
  if h : 32 ≤ bs.length then .ok (⟨bs.take 32, by simp [h]⟩, bs.drop 32)
  else .error (.endOfInput 32 bs.length)

def hex (a : Address) : String := Hex.encode a.bytes

end Address

inductive Key
  | account (address : Address)
  | hash (address : Address)
  | uref (address : Address) (rights : UInt8)
deriving DecidableEq

namespace Key

def tag : Key → UInt8
  | account _ => 0
  | hash _ => 1
  | uref _ _ => 2

def address : Key → Address
  | account a => a
  | hash a => a
  | uref a _ => a

def rights? : Key → Option UInt8
  | uref _ rights => some rights
  | _ => none

def bytes (k : Key) : Bytes :=
  k.tag :: (k.address.bytes ++ k.rights?.toList)

def ofTag (tag : UInt8) : Reader Key :=
  if tag = 0 then account <$> Address.read
  else if tag = 1 then hash <$> Address.read
  else if tag = 2 then do
    let address ← Address.read
    return uref address (← Reader.byte)
  else .fail (.malformed (.keyTag tag))

def read : Reader Key := do ofTag (← Reader.byte)

end Key

end NftLedger
