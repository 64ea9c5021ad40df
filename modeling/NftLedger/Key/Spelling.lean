import NftLedger.Identity.Spelling

namespace NftLedger.Key

def AddressSpelling (s : String) : Prop := s.toList.length = 64 ∧ Identity.HexDigits s

instance : DecidablePred AddressSpelling := fun _ => inferInstanceAs (Decidable (_ ∧ _))

def OctalDigit (c : Char) : Prop := '0' ≤ c ∧ c ≤ '7'

instance : DecidablePred OctalDigit := fun _ => inferInstanceAs (Decidable (_ ∧ _))

def octalSum (cs : List Char) : Nat := cs.foldl (fun n c => 8 * n + (c.toNat - '0'.toNat)) 0

def RightsSpelling (s : String) : Prop :=
  s.toList.length = 3 ∧ (∀ c ∈ s.toList, OctalDigit c) ∧ octalSum s.toList ≤ 255

inductive Spelling : String → Prop
  | account (digits : String) (address : AddressSpelling digits) :
    Spelling ("account-hash-" ++ digits)
  | hash (digits : String) (address : AddressSpelling digits) : Spelling ("hash-" ++ digits)
  | uref (digits rights : String) (address : AddressSpelling digits)
    (octal : RightsSpelling rights) : Spelling ("uref-" ++ digits ++ "-" ++ rights)

/-- The text has a plus sign where the other one has the first of three octal digits, a zero. -/
def Signed (s plain : String) : Prop :=
  ∃ (digits : String) (b c : Char), s = "uref-" ++ digits ++ "-" ++ String.ofList ['+', b, c] ∧
    plain = "uref-" ++ digits ++ "-" ++ String.ofList ['0', b, c]

end NftLedger.Key
