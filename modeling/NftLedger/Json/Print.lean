import NftLedger.Json

namespace NftLedger.Json

def shortEscape? : Char → Option Char
  | '"' => some '"'
  | '\\' => some '\\'
  | '\x08' => some 'b'
  | '\t' => some 't'
  | '\n' => some 'n'
  | '\x0c' => some 'f'
  | '\r' => some 'r'
  | _ => none

def escape (c : Char) : List Char :=
  match shortEscape? c with
  | some e => ['\\', e]
  | none =>
    if c < ' ' then
      ['\\', 'u', '0', '0', Nat.digitChar (c.toNat / 16), Nat.digitChar (c.toNat % 16)]
    else [c]

def quoted (s : String) : List Char := '"' :: s.toList.flatMap escape ++ ['"']

mutual
def chars : Json → List Char
  | .null => "null".toList
  | .bool b => (if b then "true" else "false").toList
  | .int n => (toString n).toList
  | .double d => d.chars
  | .str s => quoted s
  | .arr items => '[' :: itemChars items ++ [']']
  | .obj members => '{' :: memberChars members ++ ['}']

def itemChars : List Json → List Char
  | [] => []
  | [j] => chars j
  | j :: k :: rest => chars j ++ ',' :: itemChars (k :: rest)

def memberChars : List (String × Json) → List Char
  | [] => []
  | [(name, j)] => quoted name ++ ':' :: chars j
  | (name, j) :: m :: rest => quoted name ++ ':' :: chars j ++ ',' :: memberChars (m :: rest)
end

def print (j : Json) : String := String.ofList j.chars

end NftLedger.Json
