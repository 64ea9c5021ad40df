import Mathlib.Data.List.Forall2
import NftLedger.Double.Rounding
import NftLedger.Json

namespace NftLedger.Json

inductive CharText : Char → List Char → Prop
  | plain (c : Char) (quote : c ≠ '"') (backslash : c ≠ '\\') (printable : ' ' ≤ c) : CharText c [c]
  | letter (c e : Char) (h : (c, e) ∈ [('"', '"'), ('\\', '\\'), ('\x08', 'b'), ('\t', 't'),
      ('\n', 'n'), ('\x0c', 'f'), ('\r', 'r')]) : CharText c ['\\', e]
  | code (c : Char) (control : c < ' ') (other : c ∉ ['\x08', '\t', '\n', '\x0c', '\r']) :
    CharText c ['\\', 'u', '0', '0', Nat.digitChar (c.toNat / 16), Nat.digitChar (c.toNat % 16)]

inductive StringText : String → List Char → Prop
  | mk (s : String) (texts : List (List Char)) (h : List.Forall₂ CharText s.toList texts) :
    StringText s ('"' :: texts.flatten ++ ['"'])

def Digits (cs : List Char) : Prop := cs ≠ [] ∧ ∀ c ∈ cs, c.isDigit = true

inductive DecimalText : List Char → ℚ → Prop
  | positional (whole fraction : List Char) (hwhole : Digits whole) (hfraction : Digits fraction)
    (zero : whole.head? = some '0' → whole = ['0']) :
    DecimalText (whole ++ '.' :: fraction)
      (Nat.ofDigitChars 10 (whole ++ fraction) 0 / 10 ^ fraction.length)
  | scientific (first : Char) (fraction : List Char) (h : Digits (first :: fraction))
    (negative : Bool) (power : Nat) :
    DecimalText (first :: (if fraction = [] then [] else '.' :: fraction) ++
        'e' :: (if negative then '-' else '+') :: Nat.toDigits 10 power)
      (Nat.ofDigitChars 10 (first :: fraction) 0 / 10 ^ fraction.length *
        10 ^ (if negative then -power else power : Int))

/-- The text of a document without blanks. Any decimal may stand for a number that is nearest to it;
members keep their order. -/
inductive Compact : Json → List Char → Prop
  | null : Compact .null "null".toList
  | false : Compact (.bool false) "false".toList
  | true : Compact (.bool true) "true".toList
  | int (n : Int) : Compact (.int n) (toString n).toList
  | double (d : Double) (text : List Char) (x : ℚ) (decimal : DecimalText text x)
    (nearest : d.Canonical → d.NearestEven x) :
    Compact (.double d) ((if d.negative then ['-'] else []) ++ text)
  | str (s : String) (text : List Char) (h : StringText s text) : Compact (.str s) text
  | arr (items : List Json) (texts : List (List Char)) (h : List.Forall₂ Compact items texts) :
    Compact (.arr items) ('[' :: [','].intercalate texts ++ [']'])
  | obj (members : List (String × Json)) (names texts : List (List Char))
    (hnames : List.Forall₂ StringText (members.map (·.1)) names)
    (htexts : List.Forall₂ Compact (members.map (·.2)) texts) :
    Compact (.obj members)
      ('{' :: [','].intercalate (List.zipWith (fun name text => name ++ ':' :: text) names texts) ++
        ['}'])

end NftLedger.Json
