import NftLedger.Effect
import NftLedger.Text.Hex
import NftLedger.Ty.Json

namespace NftLedger

open NftLedger.Json (Record Shape ShapeError)

inductive EffectFault
  | shape (e : ShapeError)
  | hex (key : String) (fault : Hex.Fault)
  | missing (field : String)

def EffectFault.message : EffectFault → String
  | shape e => "deserialization error: " ++ e.message
  | hex key fault => "invalid hex in transform " ++ key ++ ": " ++ fault.message
  | missing field => "missing field: " ++ field

def EffectFault.ofShape {α : Type} (r : Except ShapeError α) : Except EffectFault α :=
  r.mapError shape

def NamedKey.ofJson : Shape NamedKey :=
  Record.shape (NamedKey.mk <$> .required "name" Shape.string <*> .required "key" Shape.string)
    "NamedKey"

def Transform.parts : Shape (String × Json) :=
  Record.shape (Prod.mk <$> .required "key" Shape.string <*> .required "transform" Shape.document)
    "RawTransform"

def Operation.writeParts : Shape (Ty × String) :=
  Record.shape (Prod.mk <$> .required "cl_type" Ty.ofJson <*> .required "bytes" Shape.string)
    "RawClValue"

/-- The operation on a key. A write counts before added keys, wherever they stand. -/
def Operation.ofJson (key : String) : Json → Except EffectFault Operation
  | .str name => .ok (.other name)
  | .obj members =>
    match members.lookup "WriteCLValue", members.lookup "AddKeys" with
    | some j, _ => do
      let (declared, text) ← EffectFault.ofShape (writeParts j)
      match Hex.decode text with
      | .ok bytes => return .write declared bytes
      | .error fault => .error (.hex key fault)
    | none, some j => addKeys <$> EffectFault.ofShape (Shape.list NamedKey.ofJson j)
    | none, none => .ok (.other ((members.head?.map (·.1)).getD ""))
  | _ => .error (.missing "transform")

def Transform.ofJson (j : Json) : Except EffectFault Transform := do
  let (key, operation) ← EffectFault.ofShape (parts j)
  return ⟨key, ← Operation.ofJson key operation⟩

def transformsOfJson (result : Json) : Except EffectFault (List Transform) :=
  match (result.field? "effect").bind (·.field? "transforms") with
  | some (.arr items) => items.mapM Transform.ofJson
  | some _ => .error (.missing "transforms")
  | none => .ok []

namespace Effect

def ofJson (j : Json) : Except EffectFault Effect :=
  match j.field? "Success", j.field? "Failure" with
  | some result, _ => (⟨.success, ·⟩) <$> transformsOfJson result
  | none, some result =>
    let message := ((result.field? "error_message").bind Json.text?).getD ""
    (⟨.failure message, ·⟩) <$> transformsOfJson result
  | none, none => .error (.missing "Success")

end Effect

def Deploy.ofJson? (j : Json) : Except EffectFault (Option Deploy) :=
  match ((j.field? "body").getD j).field? "DeployProcessed" with
  | none => .ok none
  | some processed =>
    match (processed.field? "deploy_hash").bind Json.text?,
      processed.field? "execution_result" with
    | none, _ => .error (.missing "deploy_hash")
    | some _, none => .error (.missing "execution_result")
    | some hash, some result => (fun e => some ⟨hash, e⟩) <$> Effect.ofJson result

end NftLedger
