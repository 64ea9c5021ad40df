import NftLedger.Named
import NftLedger.Value.Decode
import NftLedger.Value.Encode

namespace NftLedger

structure Arguments where
  entries : List (String × Value)
deriving DecidableEq

namespace Arguments

def empty : Arguments := ⟨[]⟩

def insert (args : Arguments) (name : String) (value : Value) : Arguments :=
  ⟨putNamed name value args.entries⟩

def insert? (args : Arguments) (name : String) (value : Option Value) : Arguments :=
  match value with
  | some v => args.insert name v
  | none => args

def get? (args : Arguments) (name : String) : Option Value := args.entries.lookup name

def names (args : Arguments) : List String := args.entries.map (·.1)

def size (args : Arguments) : Nat := args.entries.length

def ofList (entries : List (String × Value)) : Arguments :=
  entries.foldl (fun args (name, value) => args.insert name value) empty

def entryBytes (entry : String × Value) : Bytes :=
  (Bytes.ofText entry.1).withLength ++ entry.2.tagged

def bytes (args : Arguments) : Bytes :=
  Bytes.ofNat 4 args.entries.length ++ args.entries.flatMap entryBytes

def readEntry : Reader (String × Value) := Reader.pair Reader.text (Value.readTagged .any)

def read : Reader Arguments := do
  let count ← Reader.number 4
  return ofList (← Reader.many readEntry count)

end Arguments

end NftLedger
