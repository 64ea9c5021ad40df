import NftLedger.Identity.Hash

namespace NftLedger.Identity

def lower (s : String) : String := String.ofList (s.toList.map Char.toLower)

@[simp]
theorem toList_lower (s : String) : (lower s).toList = s.toList.map Char.toLower :=
  String.toList_ofList

def Blank (s : String) : Prop := ∀ c ∈ s.toList, Text.isBlank c = true

instance : DecidablePred Blank := fun s => List.decidableBAll _ s.toList

def KindWord (s : String) : Prop := lower s ∈ kindWords

instance : DecidablePred KindWord := fun s => inferInstanceAs (Decidable (lower s ∈ kindWords))

/-- Some words for kinds go on with one of these texts after a shorter one. -/
def ProlongsKind (cs : List Char) : Prop := "package-".toList <+: cs ∨ "wasm".toList <+: cs

instance : DecidablePred ProlongsKind := fun _ => inferInstanceAs (Decidable (_ ∨ _))

def HexDigits (s : String) : Prop := ∀ c ∈ s.toList, isLowerHex c.toLower = true

instance : DecidablePred HexDigits := fun s => List.decidableBAll _ s.toList

inductive Spells (digits : String) : String → Prop
  | bare (before after : String) (front : Blank before) (back : Blank after) :
    Spells digits (before ++ digits ++ after)
  | kind (before word rest : String) (front : Blank before) (named : KindWord word)
    (spelt : Spells digits rest) : Spells digits (before ++ word ++ rest)

end NftLedger.Identity
