import NftLedger.Json.Shape
import NftLedger.Key.Text

namespace NftLedger

open NftLedger.Json (Shape)

def PatternMismatch.orMessage {α : Type} (r : Except PatternMismatch α) : Except String α :=
  r.mapError PatternMismatch.message

def Key.toJson (k : Key) : Json := .str k.text

def Key.ofJson : Shape Key :=
  Shape.checked Shape.string fun s => PatternMismatch.orMessage (ofText s)

end NftLedger
