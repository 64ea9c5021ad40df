namespace NftLedger.Text

def blankRanges : List (Nat × Nat) :=
  [(0x09, 0x0D), (0x20, 0x20), (0x85, 0x85), (0xA0, 0xA0), (0x1680, 0x1680), (0x2000, 0x200A),
    (0x2028, 0x2029), (0x202F, 0x202F), (0x205F, 0x205F), (0x3000, 0x3000)]

def isBlank (c : Char) : Bool :=
  blankRanges.any fun (low, high) => low ≤ c.toNat && c.toNat ≤ high

def trimLeft (cs : List Char) : List Char := cs.dropWhile isBlank

def trimRight (cs : List Char) : List Char := (cs.reverse.dropWhile isBlank).reverse

def trim (cs : List Char) : List Char := trimRight (trimLeft cs)

theorem length_trim_le (cs : List Char) : (trim cs).length ≤ cs.length := by
  have left : (trimLeft cs).length ≤ cs.length := (List.dropWhile_sublist isBlank).length_le
  have right : ((trimLeft cs).reverse.dropWhile isBlank).length ≤ (trimLeft cs).reverse.length :=
    (List.dropWhile_sublist isBlank).length_le
  simp only [trim, trimRight, List.length_reverse] at right ⊢
  omega

end NftLedger.Text
