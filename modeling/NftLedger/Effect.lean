import NftLedger.Ty
import NftLedger.Wire.Error

namespace NftLedger

structure NamedKey where
  name : String
  key : String
deriving DecidableEq, Repr

inductive Operation
  | write (declared : Ty) (bytes : Bytes)
  | addKeys (keys : List NamedKey)
  | other (name : String)
deriving DecidableEq, Repr

structure Transform where
  key : String
  operation : Operation
deriving DecidableEq, Repr

inductive Outcome
  | success
  | failure (message : String)
deriving DecidableEq, Repr

structure Effect where
  outcome : Outcome
  transforms : List Transform
deriving DecidableEq, Repr

structure Deploy where
  hash : String
  effect : Effect
deriving DecidableEq, Repr

inductive EffectError
  | failed (message : String)
  | noWrite (key : String)
  | decode (e : DecodeError)
deriving DecidableEq, Repr

def EffectError.message : EffectError → String
  | failed message => "no effect data: execution failed (" ++ message ++ ")"
  | noWrite key => "no write found for dictionary key " ++ key
  | decode e => "decode error: " ++ e.message

def Effect.applied (e : Effect) : Except EffectError (List Transform) :=
  match e.outcome with
  | .success => .ok e.transforms
  | .failure message => .error (.failed message)

end NftLedger
