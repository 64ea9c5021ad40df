import NftLedger.Value

namespace NftLedger.Value

mutual
/-- The number of scalars, absent contents and constructors with parts. -/
def nodes : Value → Nat
  | .option _ content => nodesContent content
  | .list _ items => 1 + nodesItems items
  | .map _ _ entries => 1 + nodesEntries entries
  | _ => 1

def nodesContent : Option Value → Nat
  | none => 1
  | some v => 1 + v.nodes

def nodesItems : List Value → Nat
  | [] => 0
  | v :: vs => v.nodes + nodesItems vs

def nodesEntries : List (Value × Value) → Nat
  | [] => 0
  | (k, v) :: rest => k.nodes + v.nodes + nodesEntries rest
end

/-- The levels below a place of declared type. An envelope adds one to the deeper of its descriptor
and its value. -/
def placedLevels (declared own : Ty) (levels : Nat) : Nat :=
  if declared = .any then 1 + max own.nesting levels else levels

mutual
def levels : Value → Nat
  | .option inner content => levelsContent inner content
  | .list item items => levelsItems item items
  | .map k v entries => levelsEntries k v entries
  | _ => 0

def levelsContent (inner : Ty) : Option Value → Nat
  | none => 0
  | some v => 1 + placedLevels inner v.ty v.levels

def levelsItems (item : Ty) : List Value → Nat
  | [] => 0
  | v :: vs => max (1 + placedLevels item v.ty v.levels) (levelsItems item vs)

def levelsEntries (keyType valueType : Ty) : List (Value × Value) → Nat
  | [] => 0
  | (k, v) :: rest =>
    max (max (1 + placedLevels keyType k.ty k.levels) (1 + placedLevels valueType v.ty v.levels))
      (levelsEntries keyType valueType rest)
end

def need (v : Value) (declared : Ty) : Nat := placedLevels declared v.ty v.levels

def Shallow (v : Value) : Prop := v.ty.nesting ≤ nestingLimit ∧ v.need v.ty ≤ nestingLimit

instance (v : Value) : Decidable v.Shallow := inferInstanceAs (Decidable (_ ∧ _))

end NftLedger.Value
