import NftLedger.Json
import NftLedger.Text.Utf8

namespace NftLedger.Json

/-- Why reading stopped: the text ended, it is no JSON, or it is JSON of another shape than asked
for. -/
inductive Fault
  | ended
  | unexpected
  | shape
deriving DecidableEq, Repr

abbrev Scan := StateT (List Char) (Except Fault)

namespace Scan

variable {α σ : Type}

def fail (e : Fault) : Scan α := fun _ => .error e

def isBlank (c : Char) : Bool := c = ' ' || c = '\n' || c = '\t' || c = '\r'

def peek : Scan Char := fun cs =>
  match cs.dropWhile isBlank with
  | [] => .error .ended
  | c :: rest => .ok (c, c :: rest)

def advance : Scan Unit := fun cs => .ok ((), cs.drop 1)

def word : List Char → Scan Unit
  | [] => pure ()
  | w :: ws => fun cs =>
    match cs with
    | [] => .error .ended
    | c :: cs => if c = w then word ws cs else .error .unexpected

def hexDigit? (c : Char) : Option Nat :=
  if '0' ≤ c ∧ c ≤ '9' then some (c.toNat - 48)
  else if 'a' ≤ c ∧ c ≤ 'f' then some (c.toNat - 87)
  else if 'A' ≤ c ∧ c ≤ 'F' then some (c.toNat - 55)
  else none

def hexUnit (cs : List Char) : Except Fault Nat :=
  if Utf8.length (cs.take 4) < 4 then .error .ended
  else
    match (cs.take 4).mapM hexDigit? with
    | some [a, b, c, d] => .ok (((a * 16 + b) * 16 + c) * 16 + d)
    | _ => .error .unexpected

def simpleEscape? : Char → Option Char
  | '"' => some '"'
  | '\\' => some '\\'
  | '/' => some '/'
  | 'b' => some '\x08'
  | 'f' => some '\x0c'
  | 'n' => some '\n'
  | 'r' => some '\r'
  | 't' => some '\t'
  | _ => none

def ofSurrogates (high low : Nat) : Char :=
  Char.ofNat (0x10000 + (high - 0xD800) * 0x400 + (low - 0xDC00))

def stringBody : List Char → Except Fault (List Char × List Char)
  | [] => .error .ended
  | '"' :: rest => .ok ([], rest)
  | ['\\'] => .error .ended
  | '\\' :: 'u' :: cs => do
    let high ← hexUnit cs
    if 0xDC00 ≤ high ∧ high ≤ 0xDFFF then .error .unexpected
    else if 0xD800 ≤ high ∧ high ≤ 0xDBFF then
      match cs with
      | _ :: _ :: _ :: _ :: '\\' :: 'u' :: tail =>
        let low ← hexUnit tail
        if 0xDC00 ≤ low ∧ low ≤ 0xDFFF then
          match tail with
          | _ :: _ :: _ :: _ :: rest =>
            let (s, rest) ← stringBody rest
            return (ofSurrogates high low :: s, rest)
          | _ => .error .unexpected
        else .error .unexpected
      | [_, _, _, _] => .error .ended
      | [_, _, _, _, '\\'] => .error .ended
      | _ => .error .unexpected
    else
      match cs with
      | _ :: _ :: _ :: _ :: rest =>
        let (s, rest) ← stringBody rest
        return (Char.ofNat high :: s, rest)
      | _ => .error .unexpected
  | '\\' :: e :: rest =>
    match simpleEscape? e with
    | some c => do
      let (s, rest) ← stringBody rest
      return (c :: s, rest)
    | none => .error .unexpected
  | c :: rest =>
    if c < ' ' then .error .unexpected
    else do
      let (s, rest) ← stringBody rest
      return (c :: s, rest)

def string : Scan String := fun cs => do
  let (s, rest) ← stringBody cs
  return (String.ofList s, rest)

/-- A string whose content does not matter: escapes need not stand for characters. -/
def skippedBody : List Char → Except Fault (List Char)
  | [] => .error .ended
  | '"' :: rest => .ok rest
  | ['\\'] => .error .ended
  | '\\' :: 'u' :: cs => do
    let _ ← hexUnit cs
    match cs with
    | _ :: _ :: _ :: _ :: rest => skippedBody rest
    | _ => .error .unexpected
  | '\\' :: e :: rest => if (simpleEscape? e).isSome then skippedBody rest else .error .unexpected
  | c :: rest => if c < ' ' then .error .unexpected else skippedBody rest

def skipString : Scan Unit := fun cs => do
  let rest ← skippedBody cs
  return ((), rest)

def colon : Scan Unit := do
  if (← peek) = ':' then advance else fail .unexpected

def elementsWithin (item : Scan α) : Nat → Bool → Scan (List α)
  | 0, _ => fail .ended
  | fuel + 1, first => do
    let c ← peek
    if c = ']' then
      advance
      return []
    else if first then
      let x ← item
      return x :: (← elementsWithin item fuel false)
    else if c = ',' then
      advance
      let x ← item
      return x :: (← elementsWithin item fuel false)
    else fail .unexpected

def elements (item : Scan α) : Scan (List α) := fun cs =>
  elementsWithin item (cs.length + 1) true cs

/-- The members of an object whose brace has been read, one for each unit of fuel. Every name takes
the state a step further, which includes reading the colon and the value. -/
def membersWithin (name : Scan α) (step : α → σ → Scan σ) : Nat → Bool → σ → Scan σ
  | 0, _, _ => fail .ended
  | fuel + 1, first, state => do
    let c ← peek
    if c = '}' then
      advance
      return state
    else
      let c ← if first then pure c
        else if c = ',' then do
          advance
          peek
        else fail .unexpected
      if c = '"' then
        advance
        let key ← name
        membersWithin name step fuel false (← step key state)
      else fail .unexpected

def members (name : Scan α) (step : α → σ → Scan σ) (start : σ) : Scan σ := fun cs =>
  membersWithin name step (cs.length + 1) true start cs

def dispatch (null : α) (bool : Bool → α) (number string list object : Scan α) : Scan α := do
  let c ← peek
  if c = '"' then advance *> string
  else if c = '[' then advance *> list
  else if c = '{' then advance *> object
  else if c = '-' ∨ c.isDigit then number
  else if c = 'n' then advance *> word ['u', 'l', 'l'] *> pure null
  else if c = 't' then advance *> word ['r', 'u', 'e'] *> pure (bool true)
  else if c = 'f' then advance *> word ['a', 'l', 's', 'e'] *> pure (bool false)
  else fail .unexpected

end Scan

end NftLedger.Json
