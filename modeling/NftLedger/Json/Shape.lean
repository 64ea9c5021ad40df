import NftLedger.Json
import NftLedger.Text.Quoted

namespace NftLedger.Json

inductive Found
  | document (j : Json)
  | bareName

def Found.text : Found → String
  | .bareName => "unit variant"
  | .document .null => "null"
  | .document (.bool b) => "boolean `" ++ toString b ++ "`"
  | .document (.int n) => "integer `" ++ toString n ++ "`"
  | .document (.double d) => "floating point `" ++ String.ofList d.chars ++ "`"
  | .document (.str s) => "string " ++ Quoted.text s
  | .document (.arr _) => "sequence"
  | .document (.obj _) => "map"

inductive ShapeError
  | wrongType (found : Found) (expected : String)
  | wrongValue (found : Found) (expected : String)
  | missing (field : String)
  | tooFew (count : Nat) (record : String) (fields : Nat)
  | tooMany (count : Nat)
  | unknownName (name : String) (known : List String)
  | noToken
  | refused (reason : String)

def choices : List String → String
  | [a, b] => "`" ++ a ++ "` or `" ++ b ++ "`"
  | names => "one of " ++ ", ".intercalate (names.map fun n => "`" ++ n ++ "`")

def ShapeError.message : ShapeError → String
  | .wrongType found expected => "invalid type: " ++ found.text ++ ", expected " ++ expected
  | .wrongValue found expected => "invalid value: " ++ found.text ++ ", expected " ++ expected
  | .missing field => "missing field `" ++ field ++ "`"
  | .tooFew count record fields =>
    "invalid length " ++ toString count ++ ", expected struct " ++ record ++ " with " ++
      toString fields ++ (if fields = 1 then " element" else " elements")
  | .tooMany count =>
    "invalid length " ++ toString count ++ ", expected fewer elements in array"
  | .unknownName name known => "unknown variant `" ++ name ++ "`, expected " ++ choices known
  | .noToken => "no variant of enum TokenRef found in flattened data"
  | .refused reason => reason

abbrev Shape (α : Type) := Json → Except ShapeError α

namespace Shape

variable {α β : Type}

def mismatch (expected : String) : Shape α := fun j => .error (.wrongType (.document j) expected)

def document : Shape Json := .ok

def string : Shape String
  | .str s => .ok s
  | j => mismatch "a string" j

def bool : Shape Bool
  | .bool b => .ok b
  | j => mismatch "a boolean" j

def natural (name : String) (bound : Nat) : Shape Nat
  | .int n =>
    if 0 ≤ n ∧ n < bound then .ok n.toNat else .error (.wrongValue (.document (.int n)) name)
  | j => mismatch name j

def u8 : Shape UInt8 := fun j => UInt8.ofNat <$> natural "u8" UInt8.size j

def u32 : Shape UInt32 := fun j => UInt32.ofNat <$> natural "u32" UInt32.size j

def u64 : Shape UInt64 := fun j => UInt64.ofNat <$> natural "u64" UInt64.size j

def list (item : Shape α) : Shape (List α)
  | .arr items => items.mapM item
  | j => mismatch "a sequence" j

def optional (inner : Shape α) : Shape (Option α)
  | .null => .ok none
  | j => some <$> inner j

def checked (inner : Shape α) (check : α → Except String β) : Shape β := fun j => do
  match check (← inner j) with
  | .ok x => return x
  | .error reason => .error (.refused reason)

def single : List (String × Json) → Except ShapeError (String × Json)
  | [member] => .ok member
  | members => .error (.wrongValue (.document (.obj members)) "map with a single key")

end Shape

structure Slot where
  name : String
  check : Json → Except ShapeError Unit

/-- The fields of a record in their order, and the record made from the values given by name. -/
structure Record (α : Type) where
  slots : List Slot
  build : List (String × Json) → Except ShapeError α

namespace Record

variable {α β : Type}

def required (name : String) (shape : Shape α) : Record α where
  slots := [⟨name, fun j => (fun _ => ()) <$> shape j⟩]
  build members :=
    match members.lookup name with
    | some j => shape j
    | none => .error (.missing name)

def withDefault (name : String) (shape : Shape α) (default : α) : Record α where
  slots := [⟨name, fun j => (fun _ => ()) <$> shape j⟩]
  build members :=
    match members.lookup name with
    | some j => shape j
    | none => .ok default

def optional (name : String) (shape : Shape α) : Record (Option α) :=
  withDefault name (Shape.optional shape) none

instance : Applicative Record where
  pure x := ⟨[], fun _ => .ok x⟩
  seq f x :=
    ⟨f.slots ++ (x ()).slots, fun members => do
      let g ← f.build members
      g <$> (x ()).build members⟩

/-- Members that no field knows are ignored. -/
def check (r : Record α) : List (String × Json) → Except ShapeError Unit
  | [] => .ok ()
  | (name, j) :: rest => do
    match r.slots.find? (·.name = name) with
    | some slot => slot.check j
    | none => .ok ()
    r.check rest

/-- Faulty values are reported in the order of the members, then missing fields in theirs. -/
def ofMembers (r : Record α) (members : List (String × Json)) : Except ShapeError α := do
  r.check members
  r.build members

def ofItems (r : Record α) (name : String) (items : List Json) : Except ShapeError α := do
  let members := (r.slots.map (·.name)).zip items
  r.check members
  match r.build members with
  | .error (.missing _) => .error (.tooFew items.length name r.slots.length)
  | .error e => .error e
  | .ok x => if items.length ≤ r.slots.length then .ok x else .error (.tooMany items.length)

def shape (r : Record α) (name : String) : Shape α
  | .obj members => r.ofMembers members
  | .arr items => r.ofItems name items
  | j => Shape.mismatch ("struct " ++ name) j

end Record

end NftLedger.Json
