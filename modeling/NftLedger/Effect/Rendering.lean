import Mathlib.Data.List.Forall2
import NftLedger.Effect.Json
import NftLedger.Effect.Selection
import NftLedger.Value.Conforms
import NftLedger.Value.Measure

namespace NftLedger

def Hex.Spells (text : String) (bs : Bytes) : Prop := text.toList.map Char.toLower = chars bs

instance (text : String) (bs : Bytes) : Decidable (Hex.Spells text bs) :=
  inferInstanceAs (Decidable (_ = _))

/-- An object with these members, in any order and among any others. -/
inductive Json.Holds (wanted : List (String × Json)) : Json → Prop
  | obj (members : List (String × Json)) (nodup : (members.map (·.1)).Nodup)
    (subset : wanted ⊆ members) : Holds wanted (.obj members)

def NamedKey.Renders (k : NamedKey) : Json → Prop :=
  Json.Holds [("name", .str k.name), ("key", .str k.key)]

/-- An operation without a meaning here is its name, or an object with whatever it has under its
name. -/
inductive Operation.Renders : Operation → Json → Prop
  | write (declared : Ty) (bytes : Bytes) (text : String) (spelled : Hex.Spells text bytes)
    (content j : Json)
    (hcontent : content.Holds [("cl_type", declared.toJson), ("bytes", .str text)])
    (holds : j.Holds [("WriteCLValue", content)]) : Renders (.write declared bytes) j
  | addKeys (keys : List NamedKey) (items : List Json)
    (named : List.Forall₂ NamedKey.Renders keys items) (j : Json)
    (holds : j.Holds [("AddKeys", .arr items)]) (noWrite : j.field? "WriteCLValue" = none) :
    Renders (.addKeys keys) j
  | bare (name : String) : Renders (.other name) (.str name)
  | tagged (name : String) (content : Json) (notWrite : name ≠ "WriteCLValue")
    (notAddKeys : name ≠ "AddKeys") : Renders (.other name) (.obj [(name, content)])

def Transform.writeItem (key : String) (declared : Json) (text : String) : Json :=
  .obj [("key", .str key),
    ("transform", .obj [("WriteCLValue", .obj [("cl_type", declared), ("bytes", .str text)])])]

def Transform.Renders (t : Transform) (j : Json) : Prop :=
  ∃ operation, t.operation.Renders operation ∧
    j.Holds [("key", .str t.key), ("transform", operation)]

inductive Deploy.Message (hash : String) (transforms : List Transform) (message : Json) : Prop
  | processed (deploy result execution effect : Json) (items : List Json)
    (hmessage : message.Holds [("DeployProcessed", deploy)])
    (hdeploy : deploy.Holds [("deploy_hash", .str hash), ("execution_result", result)])
    (hresult : result.Holds [("Success", execution)])
    (hexecution : execution.Holds [("effect", effect)])
    (heffect : effect.Holds [("transforms", .arr items)])
    (hitems : List.Forall₂ Transform.Renders transforms items)

inductive Deploy.Renders (hash : String) (transforms : List Transform) (j : Json) : Prop
  | bare (h : Message hash transforms j) (noBody : j.field? "body" = none)
  | body (message : Json) (h : Message hash transforms message) (holds : j.Holds [("body", message)])

structure Value.Storable (m : Value) : Prop where
  map : ∃ k v entries, m = .map k v entries
  conforms : m.Conforms m.ty
  sized : m.Sized .any
  bounded : m.Bounded
  shallow : m.ty.nesting ≤ nestingLimit ∧ m.need m.ty ≤ nestingLimit

def Operation.Stores (op : Operation) (m : Value) : Prop :=
  m.Storable ∧ ∃ trailer, op = .write .any (m.tagged ++ trailer)

/-- A write without a type of its own stores a map or nothing that can be read. -/
inductive Operation.Expected : Operation → Prop
  | other (name : String) (notWrite : name ≠ "WriteCLValue") (notAddKeys : name ≠ "AddKeys") :
    Expected (.other name)
  | addKeys (keys : List NamedKey) : Expected (.addKeys keys)
  | typed (declared : Ty) (bytes : Bytes) (typed : declared ≠ .any) :
    Expected (.write declared bytes)
  | unreadable (bytes : Bytes) (e : DecodeError)
    (rejected : Value.readTagged .any bytes = .error e) : Expected (.write .any bytes)
  | stored (m : Value) (trailer : Bytes) (storable : m.Storable) :
    Expected (.write .any (m.tagged ++ trailer))

end NftLedger
