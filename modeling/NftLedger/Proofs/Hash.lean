import NftLedger.Proofs.Hex
import NftLedger.Proofs.KindWords
import NftLedger.Proofs.Quotation

namespace NftLedger

namespace Hex

theorem exists_digit {c : Char} (h : isLowerHex c = true) : ∃ n < 16, digit n = c := by
  rcases isLowerHex_iff.mp h with ⟨hlow, hhigh⟩ | ⟨hlow, hhigh⟩
  · have hn : c.toNat - 48 < 10 := by omega
    refine ⟨c.toNat - 48, by omega, Char.toNat_inj.mp ?_⟩
    rw [toNat_digit _ (by omega), if_pos hn]
    omega
  · have hn : ¬ c.toNat - 87 < 10 := by omega
    refine ⟨c.toNat - 87, by omega, Char.toNat_inj.mp ?_⟩
    rw [toNat_digit _ (by omega), if_neg hn]
    omega

theorem isLowerHex_digit : ∀ n < 16, isLowerHex (digit n) = true := by decide

theorem isLowerHex_of_mem_chars {bs : Bytes} : ∀ c ∈ chars bs, isLowerHex c = true := by
  induction bs with
  | nil => simp [chars]
  | cons b bs ih =>
    have hb := b.toNat_lt
    rw [chars, List.forall_mem_cons, List.forall_mem_cons]
    exact ⟨isLowerHex_digit _ (by omega), isLowerHex_digit _ (by omega), ih⟩

theorem toLower_of_isLowerHex {c : Char} (h : isLowerHex c = true) : c.toLower = c := by
  have hhex := isLowerHex_iff.mp h
  exact Text.toLower_eq_self (by omega)

theorem toLower_chars (bs : Bytes) : (chars bs).map Char.toLower = chars bs := by
  rw [List.map_congr_left fun c hc => toLower_of_isLowerHex (isLowerHex_of_mem_chars c hc),
    List.map_id']

theorem decode_encode (bs : Bytes) : decode (encode bs) = .ok bs := by
  apply decode_of_toLower
  rw [encode, String.toList_ofList, toLower_chars]

theorem exists_chars {cs : List Char} {count : Nat} (hlength : cs.length = 2 * count)
    (h : ∀ c ∈ cs, isLowerHex c = true) : ∃ bs, bs.length = count ∧ chars bs = cs := by
  -- two digits make a byte
  induction count generalizing cs with
  | zero =>
    obtain rfl := List.length_eq_zero_iff.mp hlength
    exact ⟨[], rfl, rfl⟩
  | succ count ih =>
    obtain ⟨high, cs, rfl⟩ := List.exists_cons_of_length_pos (show 0 < cs.length by omega)
    rw [List.length_cons] at hlength
    obtain ⟨low, rest, rfl⟩ := List.exists_cons_of_length_pos (show 0 < cs.length by omega)
    rw [List.length_cons] at hlength
    simp only [List.forall_mem_cons] at h
    obtain ⟨hhigh, hlow, hrest⟩ := h
    obtain ⟨m, hm, rfl⟩ := exists_digit hhigh
    obtain ⟨n, hn, rfl⟩ := exists_digit hlow
    have hcount : rest.length = 2 * count := by omega
    obtain ⟨bs, rfl, rfl⟩ := ih hcount hrest
    have hbyte : (UInt8.ofNat (16 * m + n)).toNat = 16 * m + n :=
      UInt8.toNat_ofNat_of_lt (by change _ < 256; omega)
    refine ⟨UInt8.ofNat (16 * m + n) :: bs, rfl, ?_⟩
    rw [chars, hbyte, show (16 * m + n) / 16 = m by omega, show (16 * m + n) % 16 = n by omega]

end Hex

theorem Json.Shape.checked_eq_ok {α β : Type} {inner : Shape α} {check : α → Except String β}
    {j : Json} {a : α} {b : β} (hinner : inner j = .ok a) (hcheck : check a = .ok b) :
    checked inner check j = .ok b := by
  simp only [checked, hinner, bind, Except.bind, hcheck]
  rfl

/-- The digits of an address: 64 of them, in lower case. -/
def AddressDigits (s : String) : Prop :=
  s.toList.length = 64 ∧ ∀ c ∈ s.toList, isLowerHex c = true

namespace HashText

variable (h : HashText)

theorem addressDigits : AddressDigits h.digits :=
  ⟨h.length_digits, List.all_eq_true.mp h.all_digits⟩

theorem toLower_of_mem {c : Char} (hc : c ∈ h.digits.toList) : c.toLower = c :=
  Hex.toLower_of_isLowerHex (h.addressDigits.2 c hc)

theorem toLower_digits : h.digits.toList.map Char.toLower = h.digits.toList := by
  rw [List.map_congr_left fun c => h.toLower_of_mem, List.map_id']

theorem ofText?_eq_some_iff {s : String} {h : HashText} :
    ofText? s = some h ↔ Identity.normalize s = h.digits := by
  rw [ofText?]
  split
  next hs =>
    rw [Option.some_inj]
    constructor
    · rintro rfl
      rfl
    · intro hdigits
      cases h
      cases hdigits
      rfl
  next hs =>
    refine ⟨by simp, fun hdigits => ?_⟩
    rw [hdigits] at hs
    exact absurd ⟨h.length_digits, h.all_digits⟩ hs

theorem isSome_ofText? {s : String} :
    (ofText? s).isSome ↔ AddressDigits (Identity.normalize s) := by
  rw [Option.isSome_iff_exists]
  constructor
  · rintro ⟨h, hs⟩
    rw [ofText?_eq_some_iff.mp hs]
    exact h.addressDigits
  · intro hs
    exact ⟨⟨_, hs.1, List.all_eq_true.mpr hs.2⟩, ofText?_eq_some_iff.mpr rfl⟩

/-- The digits are read, and as 32 bytes, so the zero address stands in for nothing. -/
theorem decode_and_encode :
    Hex.decode h.digits = .ok h.address.bytes ∧ Hex.encode h.address.bytes = h.digits := by
  have hpairs : h.digits.toList.length = 2 * 32 := h.length_digits
  obtain ⟨bs, hlength, hchars⟩ := Hex.exists_chars hpairs h.addressDigits.2
  have hdecode : Hex.decode h.digits = .ok bs :=
    Hex.decode_of_toLower (h.toLower_digits.trans hchars.symm)
  have hbytes : h.bytes = bs := by rw [bytes, hdecode]; rfl
  have haddress : h.address.bytes = bs := by
    rw [address, hbytes, Address.ofBytes?, dif_pos hlength, Option.getD_some]
  rw [haddress, Hex.encode, hchars, String.ofList_toList]
  exact ⟨hdecode, rfl⟩

theorem text_toKey : h.toKey.text = h.text := by
  change "hash-" ++ Hex.encode h.address.bytes ++ "" = "hash-" ++ h.digits
  rw [h.decode_and_encode.2, String.append_empty]

theorem normalize_text : Identity.normalize h.text = h.digits := by
  have hdigits : Identity.HexDigits h.digits := by
    intro c hc
    rw [h.toLower_of_mem hc]
    exact h.addressDigits.2 c hc
  have hspells : Identity.Spells h.digits h.text := by
    have hnothing : Identity.Blank "" := by decide
    have hbare : Identity.Spells h.digits ("" ++ h.digits ++ "") :=
      .bare "" "" hnothing hnothing
    have hkind := Identity.Spells.kind "" "hash-" _ hnothing (by decide) hbare
    simpa only [text, String.empty_append, String.append_empty] using hkind
  have hlower : Identity.lower h.digits = h.digits := by
    rw [Identity.lower, h.toLower_digits, String.ofList_toList]
  rw [Identity.normalize_of_spells hdigits hspells, hlower]

end HashText

section Faithful

open NftLedger.Json (Shape)

variable {ι : Type}

/-- A kind of hash, with its readers and writers, that tells hashes apart by their addresses
alone. -/
structure Faithful (field : String) (ofText : String → Except PatternMismatch ι)
    (ofJson : Shape ι) (toJson : ι → Json) (hash : ι → HashText) : Prop where
  accepts_iff : ∀ s, (∃ i, ofText s = .ok i) ↔ AddressDigits (Identity.normalize s)
  refuses : ∀ s, ¬ AddressDigits (Identity.normalize s) → ofText s = .error ⟨field, s⟩
  digits_eq : ∀ s i, ofText s = .ok i → (hash i).digits = Identity.normalize s
  decode_eq : ∀ i, Hex.decode (hash i).digits = .ok (hash i).address.bytes
  encode_eq : ∀ i, Hex.encode (hash i).address.bytes = (hash i).digits
  ofText_text : ∀ i, ofText (hash i).text = .ok i
  parse_print : ∀ i, Json.parse (toJson i).print = .ok (toJson i)
  ofJson_toJson : ∀ i, ofJson (toJson i) = .ok i
  text_key : ∀ i, (hash i).toKey.text = (hash i).text
  spelt_iff : ∀ i s, (hash i).isSpelt s = true ↔ ofText s = .ok i
  eq_of_address : ∀ i j, (hash i).address = (hash j).address → i = j

variable {field : String} {ofText : String → Except PatternMismatch ι} {ofJson : Shape ι}
  {toJson : ι → Json} {hash : ι → HashText}

theorem faithful_of_wrap (wrap : HashText → ι) (hash_wrap : ∀ h, hash (wrap h) = h)
    (wrap_hash : ∀ i, wrap (hash i) = i)
    (hofText : ∀ s, ofText s = (HashText.ofText? s).elim (.error ⟨field, s⟩) fun h => .ok (wrap h))
    (hofJson : ofJson = Shape.checked Shape.string fun s => PatternMismatch.orMessage (ofText s))
    (htoJson : ∀ i, toJson i = .str (hash i).text) :
    Faithful field ofText ofJson toJson hash := by
  have hok (s : String) (i : ι) : ofText s = .ok i ↔ Identity.normalize s = (hash i).digits := by
    rw [hofText, ← HashText.ofText?_eq_some_iff]
    cases HashText.ofText? s with
    | none => simp
    | some h =>
      rw [Option.elim_some, Except.ok.injEq, Option.some_inj]
      constructor
      · rintro rfl
        exact (hash_wrap h).symm
      · rintro rfl
        exact wrap_hash i
  have htext (i : ι) : ofText (hash i).text = .ok i := (hok _ i).mpr (hash i).normalize_text
  constructor
  case accepts_iff =>
    intro s
    rw [← HashText.isSome_ofText?, Option.isSome_iff_exists]
    simp only [hok, HashText.ofText?_eq_some_iff]
    constructor
    · rintro ⟨i, hi⟩
      exact ⟨hash i, hi⟩
    · rintro ⟨h, hh⟩
      exact ⟨wrap h, by rw [hh, hash_wrap]⟩
  case refuses =>
    intro s hs
    rw [← HashText.isSome_ofText?, Option.not_isSome_iff_eq_none] at hs
    rw [hofText, hs, Option.elim_none]
  case digits_eq => exact fun s i h => ((hok s i).mp h).symm
  case decode_eq => exact fun i => (hash i).decode_and_encode.1
  case encode_eq => exact fun i => (hash i).decode_and_encode.2
  case ofText_text => exact htext
  case parse_print =>
    intro i
    rw [htoJson]
    exact Json.parse_print_str _
  case ofJson_toJson =>
    intro i
    rw [htoJson, hofJson]
    exact Json.Shape.checked_eq_ok rfl (congrArg PatternMismatch.orMessage (htext i))
  case text_key => exact fun i => (hash i).text_toKey
  case spelt_iff =>
    intro i s
    rw [hok, HashText.isSpelt, decide_eq_true_eq]
  case eq_of_address =>
    intro i j h
    have hdigits : (hash i).digits = (hash j).digits := by
      rw [← (hash i).decode_and_encode.2, h, (hash j).decode_and_encode.2]
    have hj : ofText (hash i).text = .ok j :=
      (hok _ j).mpr ((hash i).normalize_text.trans hdigits)
    exact Except.ok.inj ((htext i).symm.trans hj)

end Faithful

/-- Identities of contracts and of packages are faithful to their 32 bytes. Every spelling of 64
hexadecimal digits is read, and nothing else; the bytes behind a hash are those of its digits; and
its text, its document, its key and its address each determine it. -/
theorem hashes_faithful :
    Faithful "ContractHash" ContractHash.ofText ContractHash.ofJson ContractHash.toJson
        ContractHash.hash ∧
      Faithful "ContractPackageHash" PackageHash.ofText PackageHash.ofJson PackageHash.toJson
        PackageHash.hash := by
  constructor
  · refine faithful_of_wrap ContractHash.mk (fun _ => rfl) (fun _ => rfl) (fun s => ?_) rfl
      (fun _ => rfl)
    rw [ContractHash.ofText]
    cases HashText.ofText? s <;> rfl
  · refine faithful_of_wrap PackageHash.mk (fun _ => rfl) (fun _ => rfl) (fun s => ?_) rfl
      (fun _ => rfl)
    rw [PackageHash.ofText]
    cases HashText.ofText? s <;> rfl

end NftLedger
