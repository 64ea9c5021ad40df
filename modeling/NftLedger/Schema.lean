import NftLedger.Json.Direct
import NftLedger.Json.Shape
import NftLedger.Named

namespace NftLedger

structure Property where
  name : String
  description : String
  required : Bool
deriving DecidableEq, Repr

structure Schema where
  properties : List (String × Property)
deriving DecidableEq, Repr

namespace Schema

def empty : Schema := ⟨[]⟩

def insert (s : Schema) (name : String) (property : Property) : Schema :=
  ⟨putNamed name property s.properties⟩

def get? (s : Schema) (name : String) : Option Property := s.properties.lookup name

def ofList (properties : List (String × Property)) : Schema :=
  properties.foldl (fun s (name, property) => s.insert name property) empty

end Schema

open NftLedger.Json (Record Scan Shape)

def Property.toJson (p : Property) : Json :=
  .obj [("name", .str p.name), ("description", .str p.description), ("required", .bool p.required)]

def Property.record : Record Property :=
  Property.mk <$> .required "name" Shape.string <*> .required "description" Shape.string <*>
    .required "required" Shape.bool

def Property.ofJson : Shape Property := record.shape "JsonSchemaEntry"

namespace Schema

def toJson (s : Schema) : Json :=
  .obj [("properties", .obj (s.properties.map fun (name, p) => (name, p.toJson)))]

def propertiesOfJson : Shape Schema
  | .obj members => ofList <$> members.mapM fun (name, j) => (name, ·) <$> Property.ofJson j
  | j => Shape.mismatch "a map of schema properties" j

def record : Record Schema := .required "properties" propertiesOfJson

def ofJson : Shape Schema := record.shape "JsonSchema"

end Schema

structure Property.Partial where
  name : Option String
  description : Option String
  required : Option Bool

def Property.Partial.fields : List (Scan.Field Property.Partial) :=
  [⟨"name", fun p => p.name.isSome,
      fun p => do return { p with name := ← Scan.expectString }⟩,
    ⟨"description", fun p => p.description.isSome,
      fun p => do return { p with description := ← Scan.expectString }⟩,
    ⟨"required", fun p => p.required.isSome,
      fun p => do return { p with required := ← Scan.expectBool }⟩]

def Property.scan : Scan Property := do
  let p ← Scan.record Property.Partial.fields ⟨none, none, none⟩
  return ⟨← Scan.given p.name, ← Scan.given p.description, ← Scan.given p.required⟩

namespace Schema

def scanProperty (name : String) (s : Schema) : Scan Schema := do
  Scan.colon
  return s.insert name (← Property.scan)

def field : Scan.Field (Option Schema) :=
  ⟨"properties", Option.isSome, fun _ => some <$> Scan.expectMembers scanProperty empty⟩

def scan : Scan Schema := do
  Scan.given (← Scan.record [field] none)

def ofText (text : String) : Except Json.Fault Schema := Scan.run scan text

end Schema

end NftLedger
