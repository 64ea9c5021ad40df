import NftLedger.Text.Invisible

namespace NftLedger.Quoted

def escape (quote c : Char) : List Char :=
  match c with
  | '\x00' => ['\\', '0']
  | '\t' => ['\\', 't']
  | '\n' => ['\\', 'n']
  | '\r' => ['\\', 'r']
  | c =>
    if c = quote ∨ c = '\\' then ['\\', c]
    else if Text.isInvisible c then
      "\\u\x7b".toList ++ Nat.toDigits 16 c.toNat ++ "\x7d".toList
    else [c]

def char (c : Char) : String := String.ofList ('\'' :: escape '\'' c ++ ['\''])

def text (s : String) : String := String.ofList ('"' :: s.toList.flatMap (escape '"') ++ ['"'])

end NftLedger.Quoted
