namespace NftLedger

/-- Gives a name its value in a list of named values: in place where the name is known, else at the
end. -/
def putNamed {α : Type} (name : String) (value : α) : List (String × α) → List (String × α)
  | [] => [(name, value)]
  | (n, v) :: rest => if n = name then (name, value) :: rest else (n, v) :: putNamed name value rest

def GivenLast {α : Type} (history : List (String × α)) (name : String) (value : α) : Prop :=
  ∃ before after, history = before ++ (name, value) :: after ∧ ∀ e ∈ after, e.1 ≠ name

end NftLedger
