import NftLedger.Json.Parse
import NftLedger.Json.Print

namespace NftLedger.Json

theorem quoted_append (s : String) (rest : List Char) :
    quoted s ++ rest = '"' :: (s.toList.flatMap escape ++ '"' :: rest) := by
  simp [quoted]

namespace Scan

variable {α β : Type} {cs rest : List Char}

theorem hexDigit?_digitChar : ∀ d < 16,
    hexDigit? (Nat.digitChar d) = some d ∧ (Nat.digitChar d).utf8Size = 1 := by decide

theorem hexUnit_control {n : Nat} (h : n < 32) (rest : List Char) :
    hexUnit ('0' :: '0' :: Nat.digitChar (n / 16) :: Nat.digitChar (n % 16) :: rest) = .ok n := by
  obtain ⟨hhigh, hhighSize⟩ := hexDigit?_digitChar (n / 16) (by omega)
  obtain ⟨hlow, hlowSize⟩ := hexDigit?_digitChar (n % 16) (by omega)
  have hzero : hexDigit? '0' = some 0 ∧ '0'.utf8Size = 1 := by decide
  have hdigits : ['0', '0', Nat.digitChar (n / 16), Nat.digitChar (n % 16)].mapM hexDigit? =
      some [0, 0, n / 16, n % 16] := by
    simp [hhigh, hlow, hzero.1]
  have hsize : ¬ Utf8.length ['0', '0', Nat.digitChar (n / 16), Nat.digitChar (n % 16)] < 4 := by
    simp [Utf8.length, hhighSize, hlowSize, hzero.2]
  have hsum : ((0 * 16 + 0) * 16 + n / 16) * 16 + n % 16 = n := by omega
  simp only [hexUnit, List.take_succ_cons, List.take_zero, if_neg hsize, hdigits, hsum]

theorem stringBody_plain {c : Char} (hquote : c ≠ '"') (hbackslash : c ≠ '\\') (hc : ¬ c < ' ')
    (rest : List Char) :
    stringBody (c :: rest) = (fun p => (c :: p.1, p.2)) <$> stringBody rest := by
  simp [stringBody, hbackslash, hc]

theorem stringBody_control {n : Nat} (h : n < 32) (rest : List Char) :
    stringBody ('\\' :: 'u' :: '0' :: '0' :: Nat.digitChar (n / 16) :: Nat.digitChar (n % 16) :: rest) =
      (fun p => (Char.ofNat n :: p.1, p.2)) <$> stringBody rest := by
  -- a control character is no half of a surrogate pair
  have hlow : ¬ (0xDC00 ≤ n ∧ n ≤ 0xDFFF) := by omega
  have hhigh : ¬ (0xD800 ≤ n ∧ n ≤ 0xDBFF) := by omega
  rw [stringBody, hexUnit_control h]
  show (if _ then _ else _) = _
  rw [if_neg hlow, if_neg hhigh]
  rfl

theorem simpleEscape?_of_shortEscape? {c e : Char} (h : shortEscape? c = some e) :
    simpleEscape? e = some c := by
  unfold shortEscape? at h
  split at h
  all_goals
    cases h
    try rfl

theorem stringBody_short {c e : Char} (h : simpleEscape? e = some c) (rest : List Char) :
    stringBody ('\\' :: e :: rest) = (fun p => (c :: p.1, p.2)) <$> stringBody rest := by
  have hu : e ≠ 'u' := by
    rintro rfl
    cases h
  simp [stringBody, h]

theorem stringBody_escape (c : Char) (rest : List Char) :
    stringBody (escape c ++ rest) = (fun p => (c :: p.1, p.2)) <$> stringBody rest := by
  rw [escape]
  cases h : shortEscape? c with
  | some e => exact stringBody_short (simpleEscape?_of_shortEscape? h) rest
  | none =>
    have hquote : c ≠ '"' := by
      rintro rfl
      cases h
    have hbackslash : c ≠ '\\' := by
      rintro rfl
      cases h
    by_cases hc : c < ' '
    · have hcontrol := stringBody_control (n := c.toNat) hc rest
      rw [Char.ofNat_toNat] at hcontrol
      simp only [if_pos hc]
      exact hcontrol
    · simp only [if_neg hc]
      exact stringBody_plain hquote hbackslash hc rest

theorem string_quoted (s : String) (rest : List Char) :
    string (s.toList.flatMap escape ++ '"' :: rest) = .ok (s, rest) := by
  have hbody (cs : List Char) : stringBody (cs.flatMap escape ++ '"' :: rest) = .ok (cs, rest) := by
    induction cs with
    | nil => rfl
    | cons c cs ih =>
      rw [List.flatMap_cons, List.append_assoc, stringBody_escape, ih]
      rfl
  rw [string, hbody]
  exact congrArg (fun t => Except.ok (t, rest)) String.ofList_toList

theorem bind_ok {x : Scan α} {f : α → Scan β} {a : α} (h : x cs = .ok (a, rest)) :
    (x >>= f) cs = f a rest := by
  show (x cs >>= fun p => f p.1 p.2) = _
  rw [h]
  rfl

theorem map_ok {x : Scan α} {f : α → β} {a : α} (h : x cs = .ok (a, rest)) :
    (f <$> x) cs = .ok (f a, rest) := by
  rw [map_eq_pure_bind, bind_ok h]
  rfl

/-- A whole text is read if its document is, whatever stands behind it. -/
theorem run_print {reader : Scan α} {j : Json} {x : α}
    (h : ∀ rest, reader (j.chars ++ rest) = .ok (x, rest)) : run reader j.print = .ok x := by
  have hchars : reader j.chars = .ok (x, []) := by simpa using h []
  rw [run, print, String.toList_ofList, hchars]
  rfl

theorem valueWithin_str (budget : Nat) (s : String) (rest : List Char) :
    valueWithin budget ((str s).chars ++ rest) = .ok (str s, rest) := by
  rw [chars, quoted_append]
  cases budget <;> exact map_ok (string_quoted s rest)

end Scan

theorem parse_print_str (s : String) : parse (print (.str s)) = .ok (.str s) :=
  Scan.run_print (Scan.valueWithin_str Scan.nestingLimit s)

end NftLedger.Json
