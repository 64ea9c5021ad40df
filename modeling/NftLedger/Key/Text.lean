import NftLedger.Key
import NftLedger.Text.Pattern
import NftLedger.Text.Word

namespace NftLedger.Key

def kindWord : Key → String
  | account _ => "account-hash-"
  | hash _ => "hash-"
  | uref _ _ => "uref-"

def octalDigit (n : Nat) : Char := Char.ofNat (48 + n % 8)

def octal (rights : UInt8) : List Char :=
  [octalDigit (rights.toNat / 64), octalDigit (rights.toNat / 8), octalDigit rights.toNat]

def text (k : Key) : String :=
  k.kindWord ++ k.address.hex ++
    match k.rights? with
    | some rights => String.ofList ('-' :: octal rights)
    | none => ""

def octalValue? (c : Char) : Option Nat :=
  if '0' ≤ c ∧ c ≤ '7' then some (c.toNat - 48) else none

def octalNumber? (cs : List Char) : Option Nat :=
  cs.foldlM (fun n c => (8 * n + ·) <$> octalValue? c) 0

def rightsOf? : List Char → Option UInt8
  | [a, b, c] => do
    let n ← octalNumber? (if a = '+' then [b, c] else [a, b, c])
    if n < 256 then some (UInt8.ofNat n) else none
  | _ => none

def splitLastDash? : List Char → Option (List Char × List Char)
  | [] => none
  | c :: cs =>
    match splitLastDash? cs with
    | some (left, right) => some (c :: left, right)
    | none => if c = '-' then some ([], cs) else none

def addressOf? (cs : List Char) : Option Address :=
  (Hex.ofChars cs).toOption >>= Address.ofBytes?

def ofChars? (cs : List Char) : Option Key :=
  match Text.afterWord? "account-hash-".toList cs with
  | some rest => account <$> addressOf? rest
  | none =>
    match Text.afterWord? "hash-".toList cs with
    | some rest => hash <$> addressOf? rest
    | none => do
      let rest ← Text.afterWord? "uref-".toList cs
      let (address, rights) ← splitLastDash? rest
      return uref (← addressOf? address) (← rightsOf? rights)

def ofText (s : String) : Except PatternMismatch Key :=
  match ofChars? s.toList with
  | some k => .ok k
  | none => .error ⟨"Key", s⟩

end NftLedger.Key
