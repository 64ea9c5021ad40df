import NftLedger.Json.Shape

namespace NftLedger

inductive Token
  | id (n : UInt64)
  | hash (text : String)
deriving DecidableEq, Repr

namespace Token

open NftLedger.Json (Shape ShapeError)

def isHash : Token → Bool
  | id _ => false
  | hash _ => true

def itemKey : Token → String
  | id n => toString n.toNat
  | hash text => text

def names : List String := ["tokenId", "tokenHash"]

def member : Token → String × Json
  | id n => ("tokenId", .int n.toNat)
  | hash text => ("tokenHash", .str text)

def toJson (t : Token) : Json := .obj [t.member]

def ofMember (name : String) (j : Json) : Except ShapeError Token :=
  if name = "tokenId" then id <$> Shape.u64 j
  else if name = "tokenHash" then hash <$> Shape.string j
  else .error (.unknownName name names)

def ofJson : Shape Token
  | .str name =>
    if name ∈ names then .error (.wrongType .bareName "newtype variant")
    else .error (.unknownName name names)
  | .obj [(name, j)] => ofMember name j
  | .obj members => .error (.wrongValue (.document (.obj members)) "map with a single key")
  | j => Shape.mismatch "string or map" j

/-- The token among the members of a larger object: the first member with a name for one. -/
def ofMembers (members : List (String × Json)) : Except ShapeError Token :=
  match members.find? (·.1 ∈ names) with
  | some (name, j) => ofMember name j
  | none => .error .noToken

end Token

end NftLedger
