import NftLedger.Json.Parse

namespace NftLedger.Json.Scan

variable {α σ : Type}

def mismatch : Scan α :=
  dispatch () (fun _ => ()) ((fun _ => ()) <$> number) ((fun _ => ()) <$> string)
    (pure ()) (pure ()) *> fail .shape

def expectString : Scan String := do
  if (← peek) = '"' then advance *> string else mismatch

def expectBool : Scan Bool := do
  let c ← peek
  if c = 't' then advance *> word ['r', 'u', 'e'] *> pure true
  else if c = 'f' then advance *> word ['a', 'l', 's', 'e'] *> pure false
  else mismatch

def expectList (item : Scan α) : Scan (List α) := do
  if (← peek) = '[' then advance *> elements item else mismatch

def expectMembers (step : String → σ → Scan σ) (start : σ) : Scan σ := do
  if (← peek) = '{' then advance *> members string step start else mismatch

structure Field (σ : Type) where
  name : String
  taken : σ → Bool
  read : σ → Scan σ

def positional : List (Field σ) → Bool → σ → Scan σ
  | [], _, state => do
    if (← peek) = ']' then advance *> pure state else fail .unexpected
  | field :: rest, first, state => do
    let c ← peek
    if c = ']' then advance *> pure state
    else if first then positional rest false (← field.read state)
    else if c = ',' then
      advance
      positional rest false (← field.read state)
    else fail .unexpected

/-- A name that comes again is refused before its value is read; unknown names are passed over. -/
def named (fields : List (Field σ)) (name : String) (state : σ) : Scan σ :=
  match fields.find? (·.name = name) with
  | none => colon *> skip *> pure state
  | some field => if field.taken state then fail .shape else colon *> field.read state

def record (fields : List (Field σ)) (start : σ) : Scan σ := do
  let c ← peek
  if c = '{' then advance *> members string (named fields) start
  else if c = '[' then advance *> positional fields true start
  else mismatch

def given : Option α → Scan α
  | some x => pure x
  | none => fail .shape

end NftLedger.Json.Scan
