namespace NftLedger

structure PatternMismatch where
  field : String
  value : String
deriving DecidableEq, Repr

def PatternMismatch.message (e : PatternMismatch) : String :=
  e.field ++ " ('" ++ e.value ++ "') is not allowed"

end NftLedger
