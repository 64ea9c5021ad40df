namespace NftLedger.Text

def afterWord? : List Char → List Char → Option (List Char)
  | [], cs => some cs
  | _ :: _, [] => none
  | w :: ws, c :: cs => if c = w then afterWord? ws cs else none

theorem afterWord?_eq_some_iff {word cs rest : List Char} :
    afterWord? word cs = some rest ↔ cs = word ++ rest := by
  induction word generalizing cs with
  | nil => simp [afterWord?]
  | cons w ws ih =>
    cases cs with
    | nil => simp [afterWord?]
    | cons c cs =>
      by_cases h : c = w
      · simp [afterWord?, h, ih]
      · simp [afterWord?, h]

end NftLedger.Text
