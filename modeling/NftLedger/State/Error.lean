import NftLedger.Wire.Error

namespace NftLedger

inductive StateError
  | decode (e : DecodeError)
  | unexpectedType (expected : String) (found : Ty)
  | unknownDiscriminant (modality : String) (byte : UInt8)
deriving DecidableEq, Repr

def StateError.message : StateError → String
  | decode e => "decode error: " ++ e.message
  | unexpectedType expected found => "expected " ++ expected ++ ", found " ++ found.text
  | unknownDiscriminant modality byte =>
    "unknown " ++ modality ++ " discriminant " ++ toString byte.toNat

end NftLedger
