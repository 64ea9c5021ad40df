import NftLedger.Call.Invocation

namespace NftLedger

def SessionChoice.wish (choice : SessionChoice) : CallForm :=
  if choice.wanted then .session else .entryPoint

def Install.Contradictory (i : Install) : Prop :=
  (i.identifierMode = .hash ∧ i.metadataMutability = .mutable) ∨
    (i.keyConvention = some .custom ∧ (i.accessKeyName = none ∨ i.hashKeyName = none))

namespace Call

def IsInstall : Call → Prop
  | install _ => True
  | _ => False

def EntryPointOnly : Call → Prop
  | setVariables _ | registerOwner _ | burn _ | approve _ | setApprovalForAll _ | setTokenMetadata _
  | migrate _ => True
  | _ => False

def SessionOnly : Call → Prop
  | balanceOf _ | ownerOf _ | getApproved _ | updatedReceipts => True
  | _ => False

/-- Code is given but not asked for, or the form asked for does not exist. An installation has one
form and does not ask. -/
def Misplaced (choice : SessionChoice) (c : Call) : Prop :=
  ¬ c.IsInstall ∧
    ((choice.code.isSome ∧ choice.wish = .entryPoint) ∨
      (c.EntryPointOnly ∧ choice.wish = .session) ∨ (c.SessionOnly ∧ choice.wish = .entryPoint))

def Contradictory : Call → Prop
  | install i => i.Contradictory
  | _ => False

def Conflicts (choice : SessionChoice) (c : Call) : Prop := c.Misplaced choice ∨ c.Contradictory

def NamesContract (form : CallForm) : Call → Prop
  | mint _ | transfer _ => form = .session
  | balanceOf _ | ownerOf _ | getApproved _ => True
  | _ => False

def LacksContract (contract : Option Contract) (form : CallForm) (c : Call) : Prop :=
  contract = none ∧ c.NamesContract form

def LacksCollection (form : CallForm) : Call → Prop
  | mint m => form = .session ∧ m.collectionName = none
  | _ => False

def LacksPackage (contract : Option Contract) : Call → Prop
  | updatedReceipts => contract.bind (·.package) = none
  | _ => False

/-- Two calls that ask different questions about the same token, under the same name. -/
def Sibling (c₁ c₂ : Call) : Prop :=
  ∃ q, (c₁ = ownerOf q ∧ c₂ = getApproved q) ∨ (c₁ = getApproved q ∧ c₂ = ownerOf q)

end Call

structure Invocation.Sends (inv : Invocation) (choice : SessionChoice) (c : Call) : Prop where
  session_iff : inv.form = .session ↔ c.IsInstall ∨ choice.wanted = true
  entryPoint (h : inv.form = .entryPoint) : inv.payload = .entryPoint c.entryPoint
  provided (h : inv.form = .session) (code : Bytes) (given : choice.code = some code) :
    inv.payload = .provided code
  bundled (h : inv.form = .session) (absent : choice.code = none) :
    ∃ name, c.sessionCode? = some name ∧ inv.payload = .bundled name

end NftLedger
