import NftLedger.Json.Direct
import NftLedger.Proofs.Quotation

namespace NftLedger.Json

def laterChars (ms : List (String × Json)) : List Char :=
  ms.flatMap fun m => ',' :: (quoted m.1 ++ ':' :: m.2.chars)

theorem memberChars_cons (name : String) (j : Json) (ms : List (String × Json)) :
    memberChars ((name, j) :: ms) = quoted name ++ ':' :: (j.chars ++ laterChars ms) := by
  induction ms generalizing name j with
  | nil => simp [memberChars, laterChars]
  | cons m ms ih => simp [memberChars, ih, laterChars]

theorem length_le_laterChars (ms : List (String × Json)) : ms.length ≤ (laterChars ms).length := by
  induction ms with
  | nil => exact Nat.zero_le _
  | cons m ms ih =>
    simp only [laterChars, List.flatMap_cons, List.length_append, List.length_cons] at ih ⊢
    omega

theorem chars_obj_append (ms : List (String × Json)) (rest : List Char) :
    (obj ms).chars ++ rest = '{' :: (memberChars ms ++ '}' :: rest) := by
  simp [chars]

namespace Scan

variable {α β σ : Type} {cs rest : List Char}

theorem colon_then {x : Scan α} {f : α → Scan β} {a : α} (h : x cs = .ok (a, rest)) :
    (colon >>= fun _ => x >>= f) (':' :: cs) = f a rest := by
  have hcolon : colon (':' :: cs) = .ok ((), cs) := rfl
  rw [bind_ok hcolon, bind_ok h]

theorem expectString_chars (s : String) (rest : List Char) :
    expectString ((str s).chars ++ rest) = .ok (s, rest) := by
  rw [chars, quoted_append]
  exact string_quoted s rest

theorem expectBool_chars (b : Bool) (rest : List Char) :
    expectBool ((bool b).chars ++ rest) = .ok (b, rest) := by
  cases b <;> rfl

/-- Members that take the state of a reader further, one after the other. -/
inductive Takes (step : String → σ → Scan σ) : σ → List (String × Json) → σ → Prop
  | nil (s : σ) : Takes step s [] s
  | cons {s next last : σ} {name : String} {j : Json} {ms : List (String × Json)}
    (member : ∀ rest, step name s (':' :: (j.chars ++ rest)) = .ok (next, rest))
    (later : Takes step next ms last) : Takes step s ((name, j) :: ms) last

variable {step : String → σ → Scan σ} {start last : σ} {ms : List (String × Json)}

theorem read_member {s next : σ} {name : String} {j : Json}
    (member : ∀ rest, step name s (':' :: (j.chars ++ rest)) = .ok (next, rest))
    (fuel : Nat) (rest : List Char) :
    (string >>= fun key => step key s >>= membersWithin string step fuel false)
        (name.toList.flatMap escape ++ '"' :: ':' :: (j.chars ++ rest)) =
      membersWithin string step fuel false next rest := by
  rw [bind_ok (string_quoted name _), bind_ok (member rest)]

theorem Takes.later_chars (h : Takes step start ms last) {fuel : Nat} (hfuel : ms.length < fuel)
    (rest : List Char) :
    membersWithin string step fuel false start (laterChars ms ++ '}' :: rest) =
      .ok (last, rest) := by
  induction h generalizing fuel with
  | nil s =>
    cases fuel with
    | zero => exact absurd hfuel (Nat.not_lt_zero _)
    | succ fuel => rfl
  | @cons s next last name j ms member later ih =>
    cases fuel with
    | zero => exact absurd hfuel (Nat.not_lt_zero _)
    | succ fuel =>
      have hchars : laterChars ((name, j) :: ms) ++ '}' :: rest =
          ',' :: '"' :: (name.toList.flatMap escape ++ '"' :: ':' ::
            (j.chars ++ (laterChars ms ++ '}' :: rest))) := by
        simp [laterChars, quoted]
      rw [hchars]
      exact (read_member member fuel _).trans (ih (Nat.lt_of_succ_lt_succ hfuel))

theorem Takes.members_chars (h : Takes step start ms last) (rest : List Char) :
    members string step start (memberChars ms ++ '}' :: rest) = .ok (last, rest) := by
  cases h with
  | nil => rfl
  | @cons _ next _ name j ms member later =>
    have hchars : memberChars ((name, j) :: ms) ++ '}' :: rest =
        '"' :: (name.toList.flatMap escape ++ '"' :: ':' ::
          (j.chars ++ (laterChars ms ++ '}' :: rest))) := by
      simp [memberChars_cons, quoted]
    rw [members, hchars]
    refine (read_member member _ _).trans (later.later_chars ?_ rest)
    have := length_le_laterChars ms
    simp only [List.length_cons, List.length_append]
    omega

theorem Takes.expectMembers_chars (h : Takes step start ms last) (rest : List Char) :
    expectMembers step start ((obj ms).chars ++ rest) = .ok (last, rest) := by
  rw [chars_obj_append]
  exact h.members_chars rest

theorem Takes.record_chars {fields : List (Field σ)} (h : Takes (named fields) start ms last)
    (rest : List Char) : record fields start ((obj ms).chars ++ rest) = .ok (last, rest) := by
  rw [chars_obj_append]
  exact h.members_chars rest

/-- The next member of a record, when its field is known and has no value yet. -/
theorem Takes.field {fields : List (Field σ)} {field : Field σ} {s next : σ} {name : String}
    {j : Json} (known : fields.find? (·.name = name) = some field) (free : field.taken s = false)
    (read : ∀ rest, field.read s (j.chars ++ rest) = .ok (next, rest))
    (later : Takes (named fields) next ms last) : Takes (named fields) s ((name, j) :: ms) last := by
  refine .cons (fun rest => ?_) later
  simp only [named, known, free]
  exact read rest

theorem valueWithin_bool (budget : Nat) (b : Bool) (rest : List Char) :
    valueWithin budget ((bool b).chars ++ rest) = .ok (bool b, rest) := by
  cases budget <;> cases b <;> rfl

/-- An object is read to the members whose names it has, each with what its value is read to. -/
theorem valueWithin_obj {budget : Nat} {f : Json → Json}
    (h : ∀ m ∈ ms, ∀ rest, valueWithin budget (m.2.chars ++ rest) = .ok (f m.2, rest))
    (rest : List Char) :
    valueWithin (budget + 1) ((obj ms).chars ++ rest) =
      .ok (obj (ms.foldl (fun put m => putNamed m.1 (f m.2) put) []), rest) := by
  have htakes (found : List (String × Json)) :
      Takes (fun name found => do
          colon
          return putNamed name (← valueWithin budget) found)
        found ms (ms.foldl (fun put m => putNamed m.1 (f m.2) put) found) := by
    induction ms generalizing found with
    | nil => exact .nil found
    | cons m ms ih =>
      obtain ⟨hm, hms⟩ := List.forall_mem_cons.mp h
      exact .cons (fun rest => colon_then (hm rest)) (ih hms _)
  rw [chars_obj_append]
  exact map_ok ((htakes []).members_chars rest)

end Scan

end NftLedger.Json
