import NftLedger.Effect
import NftLedger.Value.Decode

namespace NftLedger

def Transform.firstKey? (t : Transform) : Option String :=
  match t.operation with
  | .addKeys (k :: _) => some k.key
  | _ => none

def Transform.bytesAt? (key : String) (t : Transform) : Option Bytes :=
  match t.operation with
  | .write _ bytes => if t.key = key then some bytes else none
  | _ => none

def Value.newest? : Value → Option Value
  | .list _ items => items.getLast?
  | v => some v

def mintedId (transforms : List Transform) : Except EffectError (Option Value) :=
  match transforms.findSome? Transform.firstKey? with
  | none => .ok none
  | some key =>
    match transforms.findSome? (Transform.bytesAt? key) with
    | none => .error (.noWrite key)
    | some bytes =>
      match Value.readTagged .any bytes with
      | .ok (v, _) => .ok v.newest?
      | .error e => .error (.decode e)

def Effect.mintedId (e : Effect) : Except EffectError (Option Value) :=
  e.applied >>= NftLedger.mintedId

end NftLedger
