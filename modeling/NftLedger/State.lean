import NftLedger.Key.Text
import NftLedger.State.Error
import NftLedger.Value.Decode

namespace NftLedger.State

def ofBytes (declared : Ty) (bs : Bytes) : Except StateError Value :=
  match Value.read declared bs with
  | .error e => .error (.decode e)
  | .ok (v, []) => .ok v
  | .ok (_, rest) => .error (.decode (.malformed (.storedRest rest.length)))

def unexpected {α : Type} (expected : String) (v : Value) : Except StateError α :=
  .error (.unexpectedType expected v.ty)

def owner (v : Value) : Except StateError String :=
  match v.key? with
  | some k => .ok k.text
  | none => unexpected "Key" v

inductive Metadata
  | pairs (entries : List (String × String))
  | raw (text : String)
deriving DecidableEq, Repr

def textPair? (entry : Value × Value) : Option (String × String) := do
  return (← entry.1.text?, ← entry.2.text?)

def metadata (v : Value) : Except StateError Metadata :=
  match v with
  | .string s => .ok (.raw s)
  | .map _ _ entries =>
    match entries.mapM textPair? with
    | some pairs => .ok (.pairs pairs)
    | none => unexpected "Map<String, String>" v
  | v => unexpected "Map<String, String>" v

def balance (v : Value) : Except StateError Nat :=
  match v.nat64? with
  | some n => .ok n
  | none => unexpected "U64" v

def balanceItem (owner : Key) : String := owner.address.hex

end NftLedger.State
