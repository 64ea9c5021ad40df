import NftLedger.Proofs.Hash
import NftLedger.Proofs.Key
import NftLedger.Proofs.Rights
import NftLedger.Value.Decode
import NftLedger.Value.Encode

namespace NftLedger.Key

open Identity (lower)

section Texts

theorem splitLastDash?_eq_none {cs : List Char} (h : '-' ∉ cs) : splitLastDash? cs = none := by
  induction cs with
  | nil => rfl
  | cons c cs ih =>
    rw [List.mem_cons, not_or] at h
    rw [splitLastDash?, ih h.2]
    exact if_neg (Ne.symm h.1)

theorem splitLastDash?_append {right : List Char} (h : '-' ∉ right) (left : List Char) :
    splitLastDash? (left ++ '-' :: right) = some (left, right) := by
  induction left with
  | nil =>
    rw [List.nil_append, splitLastDash?, splitLastDash?_eq_none h]
    rfl
  | cons c left ih => rw [List.cons_append, splitLastDash?, ih]

theorem append_of_splitLastDash? {cs left right : List Char}
    (h : splitLastDash? cs = some (left, right)) : cs = left ++ '-' :: right := by
  fun_induction splitLastDash? cs generalizing left with
  | case1 => cases h
  | case2 c cs front back hcs ih =>
    cases h
    rw [ih hcs, List.cons_append]
  | case3 cs =>
    cases h
    rfl
  | case4 => cases h

theorem addressOf?_eq_some_iff {cs : List Char} {a : Address} :
    addressOf? cs = some a ↔ cs.map Char.toLower = Hex.chars a.bytes := by
  rw [← Hex.ofChars_eq_ok, addressOf?]
  cases Hex.ofChars cs with
  | error fault => simp [Except.toOption]
  | ok bs =>
    change Address.ofBytes? bs = some a ↔ _
    rw [Except.ok.injEq]
    exact Address.ofBytes?_eq_some_iff

theorem addressOf?_toList {digits : String} {a : Address} :
    addressOf? digits.toList = some a ↔ lower digits = a.hex := by
  rw [addressOf?_eq_some_iff, lower, Address.hex, Hex.encode, String.ofList_inj]

theorem ofChars?_account (cs : List Char) :
    ofChars? ("account-hash-".toList ++ cs) = (addressOf? cs).map account := by
  rw [ofChars?, Text.afterWord?_eq_some_iff.mpr rfl]
  rfl

theorem ofChars?_hash (cs : List Char) :
    ofChars? ("hash-".toList ++ cs) = (addressOf? cs).map hash := by
  have haccount : Text.afterWord? "account-hash-".toList ("hash-".toList ++ cs) = none := rfl
  have hhash : Text.afterWord? "hash-".toList ("hash-".toList ++ cs) = some cs :=
    Text.afterWord?_eq_some_iff.mpr rfl
  simp only [ofChars?, haccount, hhash]
  rfl

theorem ofChars?_uref (cs : List Char) :
    ofChars? ("uref-".toList ++ cs) = (splitLastDash? cs).bind fun p =>
      (addressOf? p.1).bind fun a => (rightsOf? p.2).map (uref a) := by
  have haccount : Text.afterWord? "account-hash-".toList ("uref-".toList ++ cs) = none := rfl
  have hhash : Text.afterWord? "hash-".toList ("uref-".toList ++ cs) = none := rfl
  have huref : Text.afterWord? "uref-".toList ("uref-".toList ++ cs) = some cs :=
    Text.afterWord?_eq_some_iff.mpr rfl
  simp only [ofChars?, haccount, hhash, huref, Option.bind_eq_bind, Option.bind_some,
    Option.map_eq_bind]
  rfl

theorem exists_kindWord_append {s : String} {k : Key} (h : ofChars? s.toList = some k) :
    ∃ rest, s = k.kindWord ++ rest := by
  have hword {word : String} {rest : List Char}
      (h : Text.afterWord? word.toList s.toList = some rest) : ∃ rest, s = word ++ rest := by
    refine ⟨String.ofList rest, String.toList_inj.mp ?_⟩
    rw [String.toList_append, String.toList_ofList (l := rest)]
    exact Text.afterWord?_eq_some_iff.mp h
  rw [ofChars?] at h
  split at h
  next rest hrest =>
    obtain ⟨a, -, rfl⟩ := Option.map_eq_some_iff.mp h
    exact hword hrest
  next =>
    split at h
    next rest hrest =>
      obtain ⟨a, -, rfl⟩ := Option.map_eq_some_iff.mp h
      exact hword hrest
    next =>
      obtain ⟨rest, hrest, h⟩ := Option.bind_eq_some_iff.mp h
      obtain ⟨p, -, h⟩ := Option.bind_eq_some_iff.mp h
      obtain ⟨a, -, h⟩ := Option.bind_eq_some_iff.mp h
      obtain ⟨rights, -, h⟩ := Option.bind_eq_some_iff.mp h
      cases h
      exact hword hrest

theorem toList_uref (digits tail : String) :
    ("uref-" ++ digits ++ "-" ++ tail).toList =
      "uref-".toList ++ (digits.toList ++ '-' :: tail.toList) := by
  simp only [String.toList_append, List.append_assoc]
  rfl

section Plain

variable {wrap : Address → Key} {word s : String} {a : Address}

theorem ofChars?_eq_some_wrap_iff (hwrap : Function.Injective wrap)
    (hword : ∀ a, (wrap a).kindWord = word)
    (hread : ∀ cs, ofChars? (word.toList ++ cs) = (addressOf? cs).map wrap) :
    ofChars? s.toList = some (wrap a) ↔ ∃ digits, s = word ++ digits ∧ lower digits = a.hex := by
  constructor
  · intro h
    obtain ⟨digits, rfl⟩ := exists_kindWord_append h
    rw [hword, String.toList_append, hread] at h
    obtain ⟨_, haddress, heq⟩ := Option.map_eq_some_iff.mp h
    obtain rfl := hwrap heq
    exact ⟨digits, by rw [hword], addressOf?_toList.mp haddress⟩
  · rintro ⟨digits, rfl, address⟩
    rw [String.toList_append, hread, addressOf?_toList.mpr address, Option.map_some]

theorem ofChars?_eq_account_iff :
    ofChars? s.toList = some (account a) ↔
      ∃ digits, s = "account-hash-" ++ digits ∧ lower digits = a.hex :=
  ofChars?_eq_some_wrap_iff (fun _ _ => account.inj) (fun _ => rfl) ofChars?_account

theorem ofChars?_eq_hash_iff :
    ofChars? s.toList = some (hash a) ↔ ∃ digits, s = "hash-" ++ digits ∧ lower digits = a.hex :=
  ofChars?_eq_some_wrap_iff (fun _ _ => hash.inj) (fun _ => rfl) ofChars?_hash

end Plain

theorem ofChars?_eq_uref_iff {s : String} {a : Address} {rights : UInt8} :
    ofChars? s.toList = some (uref a rights) ↔ ∃ digits tail,
      s = "uref-" ++ digits ++ "-" ++ tail ∧ lower digits = a.hex ∧
        rightsOf? tail.toList = some rights := by
  constructor
  · intro h
    obtain ⟨rest, rfl⟩ := exists_kindWord_append h
    rw [kindWord, String.toList_append, ofChars?_uref] at h
    obtain ⟨⟨digits, tail⟩, hsplit, h⟩ := Option.bind_eq_some_iff.mp h
    obtain ⟨_, haddress, h⟩ := Option.bind_eq_some_iff.mp h
    obtain ⟨_, hrights, heq⟩ := Option.map_eq_some_iff.mp h
    cases heq
    refine ⟨String.ofList digits, String.ofList tail, ?_, ?_, ?_⟩
    · rw [← String.toList_inj, toList_uref, String.toList_append, append_of_splitLastDash? hsplit,
        String.toList_ofList (l := digits), String.toList_ofList (l := tail)]
      rfl
    · rwa [← addressOf?_toList, String.toList_ofList]
    · rwa [String.toList_ofList]
  · rintro ⟨digits, tail, rfl, address, hrights⟩
    rw [toList_uref, ofChars?_uref, splitLastDash?_append (dash_notMem_of_rightsOf? hrights),
      Option.bind_some, addressOf?_toList.mpr address, Option.bind_some, hrights, Option.map_some]

end Texts

/-- Texts of a key with its address in either letter case. -/
inductive Spells : Key → String → Prop
  | account (a : Address) (digits : String) (address : lower digits = a.hex) :
    Spells (.account a) ("account-hash-" ++ digits)
  | hash (a : Address) (digits : String) (address : lower digits = a.hex) :
    Spells (.hash a) ("hash-" ++ digits)
  | uref (a : Address) (rights : UInt8) (digits : String) (address : lower digits = a.hex) :
    Spells (.uref a rights) ("uref-" ++ digits ++ "-" ++ String.ofList (octal rights))

variable {k : Key} {s plain : String}

theorem ofText_eq_ok_iff : ofText s = .ok k ↔ ofChars? s.toList = some k := by
  rw [ofText]
  cases ofChars? s.toList <;> simp

theorem ofText_of_spells (h : Spells k s) : ofText s = .ok k := by
  rw [ofText_eq_ok_iff]
  cases h with
  | account a digits address => exact ofChars?_eq_account_iff.mpr ⟨digits, rfl, address⟩
  | hash a digits address => exact ofChars?_eq_hash_iff.mpr ⟨digits, rfl, address⟩
  | uref a rights digits address =>
    refine ofChars?_eq_uref_iff.mpr ⟨digits, _, rfl, address, ?_⟩
    exact rightsOf?_eq_some_iff.mpr (.inl String.toList_ofList)

/-- Three characters behind a dash are the rights, whatever stands before the dash. -/
theorem exists_uref_of_ofText {digits tail : String}
    (h : ofText ("uref-" ++ digits ++ "-" ++ tail) = .ok k) (hlength : tail.toList.length = 3) :
    ∃ a rights, k = uref a rights ∧ lower digits = a.hex ∧ rightsOf? tail.toList = some rights := by
  rw [ofText_eq_ok_iff, toList_uref, ofChars?_uref] at h
  obtain ⟨⟨left, right⟩, hsplit, h⟩ := Option.bind_eq_some_iff.mp h
  obtain ⟨a, haddress, h⟩ := Option.bind_eq_some_iff.mp h
  obtain ⟨rights, hrights, rfl⟩ := Option.map_eq_some_iff.mp h
  have hright : tail.toList.length = right.length := hlength.trans (length_of_rightsOf? hrights).symm
  obtain ⟨rfl, hsame⟩ := List.append_inj' (append_of_splitLastDash? hsplit) (by simp [hright])
  obtain ⟨-, rfl⟩ := List.cons.inj hsame
  exact ⟨a, rights, rfl, addressOf?_toList.mp haddress, hrights⟩

/-- A plus sign in place of a leading zero does not matter. -/
theorem ofText_eq_ok_iff_spells :
    ofText s = .ok k ↔ Spells k s ∨ ∃ plain, Signed s plain ∧ Spells k plain := by
  constructor
  · intro h
    rw [ofText_eq_ok_iff] at h
    cases k with
    | account a =>
      obtain ⟨digits, rfl, address⟩ := ofChars?_eq_account_iff.mp h
      exact .inl (.account a digits address)
    | hash a =>
      obtain ⟨digits, rfl, address⟩ := ofChars?_eq_hash_iff.mp h
      exact .inl (.hash a digits address)
    | uref a rights =>
      obtain ⟨digits, tail, rfl, address, hrights⟩ := ofChars?_eq_uref_iff.mp h
      rcases rightsOf?_eq_some_iff.mp hrights with htail | ⟨b, c, hoctal, htail⟩
      · obtain rfl : tail = String.ofList (octal rights) := by rw [← htail, String.ofList_toList]
        exact .inl (.uref a rights digits address)
      · obtain rfl : tail = String.ofList ['+', b, c] := by rw [← htail, String.ofList_toList]
        have hplain := Spells.uref a rights digits address
        rw [hoctal] at hplain
        exact .inr ⟨_, ⟨digits, b, c, rfl, rfl⟩, hplain⟩
  · rintro (h | ⟨plain, ⟨digits, b, c, rfl, rfl⟩, h⟩)
    · exact ofText_of_spells h
    · have hthree : (String.ofList ['0', b, c]).toList.length = 3 := by rw [String.toList_ofList]; rfl
      obtain ⟨a, rights, rfl, address, hrights⟩ := exists_uref_of_ofText (ofText_of_spells h) hthree
      rw [String.toList_ofList] at hrights
      have hoctal : octal rights = ['0', b, c] := by
        rcases rightsOf?_eq_some_iff.mp hrights with hplain | ⟨_, _, _, hsigned⟩
        · exact hplain.symm
        · exact absurd (List.cons.inj hsigned).1 (by decide)
      rw [ofText_eq_ok_iff]
      refine ofChars?_eq_uref_iff.mpr ⟨digits, _, rfl, address, ?_⟩
      rw [String.toList_ofList]
      exact rightsOf?_eq_some_iff.mpr (.inr ⟨b, c, hoctal, rfl⟩)

theorem addressSpelling_iff {digits : String} :
    AddressSpelling digits ↔ ∃ a : Address, lower digits = a.hex := by
  constructor
  · rintro ⟨hlength, hhex⟩
    have hlower : ∀ c ∈ digits.toList.map Char.toLower, isLowerHex c = true := by
      rw [List.forall_mem_map]
      exact hhex
    have htwice : (digits.toList.map Char.toLower).length = 2 * 32 := by rwa [List.length_map]
    obtain ⟨bs, hbs, hchars⟩ := Hex.exists_chars htwice hlower
    exact ⟨⟨bs, hbs⟩, congrArg String.ofList hchars.symm⟩
  · rintro ⟨a, address⟩
    have hchars : digits.toList.map Char.toLower = Hex.chars a.bytes :=
      String.ofList_injective address
    constructor
    · have hlength := congrArg List.length hchars
      rwa [List.length_map, Hex.length_chars, a.length_bytes] at hlength
    · intro c hc
      exact Hex.isLowerHex_of_mem_chars _ (hchars ▸ List.mem_map_of_mem hc)

theorem exists_spells_iff : (∃ k, Spells k s) ↔ Spelling s := by
  constructor
  · rintro ⟨k, h⟩
    cases h with
    | account a digits address => exact .account digits (addressSpelling_iff.mpr ⟨a, address⟩)
    | hash a digits address => exact .hash digits (addressSpelling_iff.mpr ⟨a, address⟩)
    | uref a rights digits address =>
      have hrights : RightsSpelling (String.ofList (octal rights)) :=
        rightsSpelling_iff.mpr ⟨rights, rfl⟩
      exact .uref digits _ (addressSpelling_iff.mpr ⟨a, address⟩) hrights
  · intro h
    cases h with
    | account digits address =>
      obtain ⟨a, address⟩ := addressSpelling_iff.mp address
      exact ⟨_, .account a digits address⟩
    | hash digits address =>
      obtain ⟨a, address⟩ := addressSpelling_iff.mp address
      exact ⟨_, .hash a digits address⟩
    | uref digits rights address hrights =>
      obtain ⟨a, address⟩ := addressSpelling_iff.mp address
      obtain ⟨rights, rfl⟩ := rightsSpelling_iff.mp hrights
      exact ⟨_, .uref a rights digits address⟩

theorem lower_append (s t : String) : lower (s ++ t) = lower s ++ lower t := by
  rw [lower, String.toList_append, List.map_append, String.ofList_append]
  rfl

theorem text_uref (a : Address) (rights : UInt8) :
    (uref a rights).text = "uref-" ++ a.hex ++ "-" ++ String.ofList (octal rights) := by
  rw [← String.toList_inj, toList_uref]
  change ("uref-" ++ a.hex ++ String.ofList ('-' :: octal rights)).toList = _
  simp only [String.toList_append, List.append_assoc]
  rw [String.toList_ofList (l := octal rights), String.toList_ofList (l := '-' :: octal rights)]

theorem text_of_spells (h : Spells k s) : k.text = lower s := by
  cases h with
  | account a digits address =>
    have hword : lower "account-hash-" = "account-hash-" := by decide
    rw [lower_append, hword, address]
    exact String.append_empty
  | hash a digits address =>
    have hword : lower "hash-" = "hash-" := by decide
    rw [lower_append, hword, address]
    exact String.append_empty
  | uref a rights digits address =>
    have hword : lower "uref-" = "uref-" ∧ lower "-" = "-" := by decide
    rw [lower_append, lower_append, lower_append, hword.1, hword.2, address, lower_octal]
    exact text_uref a rights

theorem spells_text (k : Key) : Spells k k.text := by
  have hhex (a : Address) : lower a.hex = a.hex := by
    rw [lower, Address.hex, Hex.encode, String.toList_ofList, Hex.toLower_chars]
  cases k with
  | account a =>
    have h := Spells.account a a.hex (hhex a)
    rwa [← String.append_empty (s := "account-hash-" ++ a.hex)] at h
  | hash a =>
    have h := Spells.hash a a.hex (hhex a)
    rwa [← String.append_empty (s := "hash-" ++ a.hex)] at h
  | uref a rights =>
    rw [text_uref]
    exact .uref a rights a.hex (hhex a)

theorem ofText_text (k : Key) : ofText k.text = .ok k := ofText_of_spells k.spells_text

theorem ofJson_toJson (k : Key) : ofJson k.toJson = .ok k :=
  Json.Shape.checked_eq_ok rfl (congrArg PatternMismatch.orMessage k.ofText_text)

theorem text_injective : Function.Injective text := fun k k' h => by
  have hk := k.ofText_text
  rw [h, k'.ofText_text] at hk
  exact (Except.ok.inj hk).symm

theorem spells_iff : Spells k s ↔ Spelling s ∧ k.text = lower s := by
  constructor
  · exact fun h => ⟨exists_spells_iff.mp ⟨k, h⟩, text_of_spells h⟩
  · rintro ⟨hs, htext⟩
    obtain ⟨k', h⟩ := exists_spells_iff.mpr hs
    obtain rfl : k = k' := text_injective (htext.trans (text_of_spells h).symm)
    exact h

theorem ofText_eq_error_iff {e : PatternMismatch} :
    ofText s = .error e ↔ e = ⟨"Key", s⟩ ∧ ¬ ∃ k, ofText s = .ok k := by
  rw [ofText]
  cases ofChars? s.toList <;> simp [eq_comm]

/-- Every form of a key gives the key back. -/
theorem forms_faithful (k : Key) :
    ofText k.text = .ok k ∧
      (Json.parse k.toJson.print = .ok k.toJson ∧ ofJson k.toJson = .ok k) ∧
      (∀ rest, Key.read (k.bytes ++ rest) = .ok (k, rest)) ∧
      (∀ rest, Value.read .key ((Value.key k).encode .key ++ rest) = .ok (.key k, rest)) ∧
      k.bytes.length = (match k with | uref _ _ => 34 | _ => 33) ∧
      ∀ other : Key, other.text = k.text ↔ other = k := by
  have hread (rest : Bytes) : Key.read (k.bytes ++ rest) = .ok (k, rest) := read_eq_ok.mpr rfl
  refine ⟨k.ofText_text, ⟨Json.parse_print_str k.text, k.ofJson_toJson⟩, hread, fun rest => ?_, ?_,
    fun other => text_injective.eq_iff⟩
  · exact Reader.map_eq_ok.mpr ⟨k, hread rest, rfl⟩
  · have hlength := k.address.length_bytes
    cases k <;> simp_all [bytes, rights?, address]

def sampleAddress : Address := ⟨List.replicate 32 0, rfl⟩

/-- A text is read as a key exactly when, with a zero for a plus sign in front of two octal digits, it
is a spelling of the key, whose text is then that spelling in lower case. -/
theorem ofText_spelling (s : String) :
    (∀ k, ofText s = .ok k ↔ ∃ plain, (plain = s ∨ Signed s plain) ∧ Spelling plain ∧
      k.text = lower plain) ∧
    (∀ e, ofText s = .error e ↔ e = ⟨"Key", s⟩ ∧
      ¬ ∃ plain, (plain = s ∨ Signed s plain) ∧ Spelling plain) := by
  have hok (k : Key) : ofText s = .ok k ↔ ∃ plain, (plain = s ∨ Signed s plain) ∧ Spelling plain ∧
      k.text = lower plain := by
    rw [ofText_eq_ok_iff_spells]
    simp only [← spells_iff, or_and_right, exists_or, exists_eq_left]
  refine ⟨hok, fun e => ?_⟩
  have hread : (∃ k, ofText s = .ok k) ↔
      ∃ plain, (plain = s ∨ Signed s plain) ∧ Spelling plain := by
    simp only [hok, ← spells_iff]
    simp only [← exists_spells_iff]
    constructor
    · rintro ⟨k, plain, hs, h⟩
      exact ⟨plain, hs, k, h⟩
    · rintro ⟨plain, hs, k, h⟩
      exact ⟨k, plain, hs, h⟩
  rw [ofText_eq_error_iff, hread]

def signedText : String :=
  "uref-0000000000000000000000000000000000000000000000000000000000000000-+07"

theorem ofText_signedText :
    ofText signedText = .ok (uref sampleAddress 7) ∧ ¬ Spelling signedText ∧
      (uref sampleAddress 7).text ≠ lower signedText := by
  have hread : ofText signedText = .ok (uref sampleAddress 7) := by rfl
  have htext : (uref sampleAddress 7).text ≠ lower signedText := by decide +kernel
  refine ⟨hread, ?_, htext⟩
  intro h
  obtain ⟨k, hk⟩ := exists_spells_iff.mpr h
  have hsame := (ofText_of_spells hk).symm.trans hread
  cases hsame
  exact htext (text_of_spells hk)

end NftLedger.Key
