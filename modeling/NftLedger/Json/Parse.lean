import NftLedger.Json.Numeral
import NftLedger.Named

namespace NftLedger.Json

namespace Scan

def number : Scan Json := do
  match (← Numeral.scan).toJson? with
  | some j => return j
  | none => fail .unexpected

def valueWith (list object : Scan Json) : Scan Json :=
  dispatch .null .bool number (.str <$> string) list object

def valueWithin : Nat → Scan Json
  | 0 => valueWith (fail .unexpected) (fail .unexpected)
  | budget + 1 =>
    let value := valueWithin budget
    let member (name : String) (found : List (String × Json)) : Scan (List (String × Json)) := do
      colon
      return putNamed name (← value) found
    valueWith (.arr <$> elements value) (.obj <$> members string member [])

def nestingLimit : Nat := 127

def value : Scan Json := valueWithin nestingLimit

def skipWithin : Nat → Scan Unit
  | 0 => fail .ended
  | budget + 1 =>
    let member (_ : Unit) (_ : Unit) : Scan Unit := colon *> skipWithin budget
    dispatch () (fun _ => ()) Numeral.skip skipString
      ((fun _ => ()) <$> elements (skipWithin budget)) (members skipString member ())

def skip : Scan Unit := fun cs => skipWithin (cs.length + 1) cs

def run {α : Type} (reader : Scan α) (text : String) : Except Fault α := do
  let (x, rest) ← reader text.toList
  if rest.all isBlank then return x else .error .unexpected

end Scan

def parse (text : String) : Except Fault Json := Scan.run Scan.value text

end NftLedger.Json
