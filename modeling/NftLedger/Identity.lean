import NftLedger.Text.Blank
import NftLedger.Text.Word

namespace NftLedger.Identity

def kindWords : List String :=
  ["contract-package-wasm", "contract-package-", "contract-wasm-", "contract-", "account-hash-",
    "hash-"]

def dropKind? (cs : List Char) : Option (List Char) :=
  kindWords.findSome? fun word => Text.afterWord? word.toList cs

theorem length_of_dropKind? {cs rest : List Char} (h : dropKind? cs = some rest) :
    rest.length < cs.length := by
  obtain ⟨word, member, found⟩ := List.exists_of_findSome?_eq_some h
  rw [Text.afterWord?_eq_some_iff.mp found, List.length_append]
  have nonempty : 0 < word.toList.length := by
    simp only [kindWords, List.mem_cons, List.not_mem_nil, or_false] at member
    rcases member with rfl | rfl | rfl | rfl | rfl | rfl <;> decide
  omega

/-- Drops words for kinds, and the blanks behind each, as long as there are any. -/
def dropKinds (cs : List Char) : List Char :=
  match _h : dropKind? cs with
  | some rest => dropKinds (Text.trim rest)
  | none => cs
termination_by cs.length
decreasing_by exact Nat.lt_of_le_of_lt (Text.length_trim_le rest) (length_of_dropKind? _h)

def normalChars (cs : List Char) : List Char := dropKinds ((Text.trim cs).map Char.toLower)

def normalize (s : String) : String := String.ofList (normalChars s.toList)

def equals (a b : String) : Bool := normalize a = normalize b

end NftLedger.Identity
