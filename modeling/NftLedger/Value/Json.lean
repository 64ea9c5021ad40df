import NftLedger.Json
import NftLedger.Key.Text
import NftLedger.Value

namespace NftLedger.Value

mutual
def toJson : Value → Json
  | .bool b => .bool b
  | .u8 n => .int n.toNat
  | .u32 n => .int n.toNat
  | .u64 n => .int n.toNat
  | .u512 n => .str (toString n.toNat)
  | .string s => .str s
  | .key k => .str k.text
  | .byteArray bs => .str (Hex.encode bs)
  | .option _ content => contentJson content
  | .list _ items => .arr (itemJson items)
  | .map _ _ entries => .arr (entryJson entries)

def contentJson : Option Value → Json
  | none => .null
  | some v => v.toJson

def itemJson : List Value → List Json
  | [] => []
  | v :: vs => v.toJson :: itemJson vs

def entryJson : List (Value × Value) → List Json
  | [] => []
  | (k, v) :: rest => .obj [("key", k.toJson), ("value", v.toJson)] :: entryJson rest
end

end NftLedger.Value
