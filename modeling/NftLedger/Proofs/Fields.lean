import Mathlib.Data.List.Nodup
import NftLedger.Call.Content
import NftLedger.Proofs.Compact
import NftLedger.Proofs.Hash
import NftLedger.Proofs.History
import NftLedger.Proofs.Outcome

namespace NftLedger

namespace Value

inductive Sent : Value → Prop
  | bool (b : Bool) : Sent (.bool b)
  | u8 (n : UInt8) : Sent (.u8 n)
  | u64 (n : UInt64) : Sent (.u64 n)
  | string (s : String) : Sent (.string s)
  | key (k : Key) : Sent (.key k)
  | keys (ks : List Key) : Sent (.list .key (ks.map .key))

theorem Sent.conforms {v : Value} (h : v.Sent) : v.Conforms .any := by
  cases h with
  | keys ks =>
    refine ⟨.inl rfl, parts_list.mpr ?_⟩
    rw [List.forall_mem_map]
    exact fun k _ => ⟨.inr rfl, trivial⟩
  | _ => exact ⟨.inl rfl, trivial⟩

theorem Sent.bounded {v : Value} (h : v.Sent) : v.Bounded := by
  cases h with
  | keys ks =>
    refine bounded_list.mpr ⟨fun hwidth => ?_, ?_⟩
    · cases hwidth
    · rw [List.forall_mem_map]
      exact fun k _ => ⟨trivial, trivial⟩
  | _ => exact ⟨trivial, trivial⟩

theorem Sent.shallow {v : Value} (h : v.Sent) : v.Shallow := by
  cases h with
  | keys ks =>
    have hown : 1 ≤ nestingLimit := by decide
    refine ⟨hown, Nat.le_of_lt_succ (need_list_lt.mpr ?_)⟩
    rw [List.forall_mem_map]
    exact fun k _ => hown
  | _ => exact ⟨Nat.zero_le _, Nat.zero_le _⟩

end Value

namespace Content

def value : Content → Value
  | flag b => .bool b
  | number n => .u64 n
  | choice n => .u8 n
  | text s => .string s
  | document j => .string j.print
  | schema s => .string s.toJson.print
  | key k => .key k
  | hash h => .key h.toKey
  | hashes hs => .list .key (hs.map fun h => .key h.toKey)

theorem sent_value (x : Content) : x.value.Sent := by
  cases x with
  | flag b => exact .bool b
  | number n => exact .u64 n
  | choice n => exact .u8 n
  | text s => exact .string s
  | document j => exact .string _
  | schema s => exact .string _
  | key k => exact .key k
  | hash h => exact .key _
  | hashes hs =>
    have h := Value.Sent.keys (hs.map HashText.toKey)
    rwa [List.map_map] at h

theorem shows_value (x : Content) : x.Shows x.value := by
  cases x with
  | flag b => exact .flag b
  | number n => exact .number n
  | choice n => exact .choice n
  | text s => exact .text s
  | document j => exact .document j _ j.compact_print
  | schema s => exact .schema s _ s.toJson.compact_print
  | key k => exact .key k
  | hash h => exact .hash h h.address h.decode_and_encode.2
  | hashes hs =>
    have h := Shows.hashes hs (hs.map HashText.address) ?_
    · rwa [List.map_map] at h
    · rw [List.map_map]
      exact List.map_congr_left fun h _ => h.decode_and_encode.2

end Content

theorem whitelistValue_eq (hashes : List ContractHash) :
    whitelistValue hashes = (Content.hashes (hashes.map ContractHash.hash)).value := by
  rw [Content.value, List.map_map]
  rfl

theorem Modality.toValue_eq {α : Type} [DecidableEq α] [Modality α] [Numbered α] (x : α) :
    toValue x = .u8 (Numbered.number x) :=
  congrArg Value.u8 (Numbered.byte_eq x)

namespace Field

theorem mem_all (f : Field) : f ∈ all := by
  cases f <;> decide

theorem nodup_names : (all.map name).Nodup := by decide

theorem name_injective : Function.Injective name := fun f g h =>
  List.inj_on_of_nodup_map nodup_names (mem_all f) (mem_all g) h

theorem length_name_lt (f : Field) : (Bytes.ofText f.name).length < UInt32.size := by
  cases f <;> decide

variable {α : Type} {value? : Field → Option α} {fields more : List Field}

theorem lines_nil : lines value? [] = [] := rfl

theorem lines_cons (f : Field) :
    lines value? (f :: fields) = ((value? f).map (f.name, ·)).toList ++ lines value? fields := by
  cases h : value? f <;> simp [lines, h]

theorem lines_append : lines value? (fields ++ more) = lines value? fields ++ lines value? more :=
  List.filterMap_append

theorem mem_lines {e : String × α} (h : e ∈ lines value? fields) :
    ∃ f ∈ fields, f.name = e.1 ∧ value? f = some e.2 := by
  obtain ⟨f, hf, he⟩ := List.mem_filterMap.mp h
  obtain ⟨v, hv, rfl⟩ := Option.map_eq_some_iff.mp he
  exact ⟨f, hf, rfl, hv⟩

theorem length_lines_le : (lines value? fields).length ≤ fields.length :=
  List.length_filterMap_le _ _

theorem nodup_names_lines (h : fields.Nodup) : ((lines value? fields).map (·.1)).Nodup := by
  rw [lines, List.map_filterMap]
  refine h.filterMap fun f g name hf hg => name_injective ?_
  rw [Option.mem_def, Option.map_map, Option.map_eq_some_iff] at hf hg
  obtain ⟨_, -, rfl⟩ := hf
  obtain ⟨_, -, hname⟩ := hg
  exact hname.symm

theorem lookup_lines (h : fields.Nodup) (f : Field) :
    (lines value? fields).lookup f.name = if f ∈ fields then value? f else none := by
  ext v
  rw [lookup_eq_some_iff_mem (nodup_names_lines h)]
  constructor
  · intro hv
    obtain ⟨g, hg, hname, hvalue⟩ := mem_lines hv
    obtain rfl := name_injective hname
    rwa [if_pos hg]
  · intro hv
    obtain ⟨hf, hvalue⟩ := Option.ite_none_right_eq_some.mp hv
    exact List.mem_filterMap.mpr ⟨f, hf, by rw [hvalue, Option.map_some]⟩

end Field

variable {contract : Option Contract} {choice : SessionChoice} {form : CallForm} {c : Call}
  {inv : Invocation} {args : List (String × Value)} {f : Field} {v : Value}

namespace Call

def value? (contract : Option Contract) (c : Call) (f : Field) : Option Value :=
  (c.content? contract f).map Content.value

def sent (contract : Option Contract) (form : CallForm) (c : Call) : List (String × Value) :=
  Field.lines (c.value? contract) (c.fields form)

theorem sent_of_value? (h : c.value? contract f = some v) : v.Sent := by
  obtain ⟨x, -, rfl⟩ := Option.map_eq_some_iff.mp h
  exact x.sent_value

theorem nodup_fields (c : Call) (form : CallForm) : (c.fields form).Nodup := by
  cases c <;> cases form <;> simp [fields, plainFields, sessionFields]

theorem length_fields_le (c : Call) (form : CallForm) : (c.fields form).length ≤ 20 := by
  cases c <;> cases form <;> simp [fields, plainFields, sessionFields]

theorem fields_of_no_sessionFields (h : c.sessionFields = []) (form : CallForm) :
    c.fields form = c.plainFields := by
  cases form with
  | entryPoint => rfl
  | session => rw [fields, h, List.append_nil]

theorem sent_install (i : Install) : (install i).sent contract form = i.arguments := by
  -- both sides become one appended option for each field, a mandatory one being `some`
  rw [sent, fields_of_no_sessionFields rfl, plainFields]
  simp only [Field.lines_cons, Field.lines_nil, value?, content?, ownContent?, Install.content?,
    Option.map_map, Option.map_some, Option.toList_some, List.append_nil]
  rw [Install.arguments]
  simp only [presentArgument, List.cons_append, List.nil_append, List.append_assoc,
    Modality.toValue_eq, whitelistValue_eq]
  rfl

theorem sent_setVariables (w : Variables) : (setVariables w).sent contract form = w.arguments := by
  rw [sent, fields_of_no_sessionFields rfl, plainFields]
  simp only [Field.lines_cons, Field.lines_nil, value?, content?, ownContent?, Option.map_map,
    List.append_nil]
  simp only [Variables.arguments, presentArgument, whitelistValue_eq]
  rfl

theorem arguments_eq_sent (h : c.arguments contract form = .ok args) :
    args = c.sent contract form := by
  -- a call that lacks something has no arguments, so only the complete cases are left by `cases h`
  cases c with
  | install i =>
    rw [arguments] at h
    split at h
    · cases h
    · cases h
      exact (sent_install i).symm
  | setVariables w =>
    cases h
    exact (sent_setVariables w).symm
  | mint m =>
    obtain ⟨owner, metadata, collectionName⟩ := m
    cases form with
    | entryPoint =>
      cases h
      rfl
    | session =>
      cases contract <;> cases collectionName <;> cases h
      rfl
  | transfer t =>
    obtain ⟨target, source, token⟩ := t
    cases form with
    | entryPoint =>
      cases h
      cases token <;> rfl
    | session =>
      cases contract <;> cases h
      cases token <;> rfl
  | burn token =>
    cases h
    cases form <;> cases token <;> rfl
  | approve a =>
    obtain ⟨operator, token⟩ := a
    cases h
    cases form <;> cases token <;> rfl
  | balanceOf q =>
    cases contract <;> cases h
    cases form <;> rfl
  | ownerOf q | getApproved q =>
    obtain ⟨keyName, token⟩ := q
    cases contract <;> cases h
    cases form <;> cases token <;> rfl
  | updatedReceipts =>
    obtain - | ⟨hash, - | package⟩ := contract <;> cases h
    cases form <;> rfl
  | registerOwner _ | setApprovalForAll _ | setTokenMetadata _ | migrate _ =>
    cases h
    cases form <;> rfl

theorem isSome_hashMode (t : Token) : (t.content? .hashMode).isSome := by
  cases t <;> rfl

theorem namesContract_session (h : c.NamesContract .entryPoint) : c.NamesContract .session := by
  cases c <;> simp_all [NamesContract]

theorem isSome_plainFields (hcontract : c.NamesContract .entryPoint → contract.isSome)
    (hpackage : ¬ c.LacksPackage contract) :
    ∀ f ∈ c.plainFields, f.optional = false → (c.content? contract f).isSome := by
  cases c with
  | balanceOf q =>
    have h := hcontract trivial
    simp [plainFields, content?, ownContent?, h]
  | ownerOf q | getApproved q =>
    have h := hcontract trivial
    simp [plainFields, content?, ownContent?, Field.optional, isSome_hashMode, h]
  | updatedReceipts =>
    have h := Option.isSome_iff_ne_none.mpr hpackage
    simpa [plainFields, content?, Option.isSome_bind, Field.optional] using h
  | transfer t =>
    simp [plainFields, content?, ownContent?, Field.optional, isSome_hashMode]
  | install i => simp [plainFields, content?, ownContent?, Field.optional, Install.content?]
  | _ => simp [plainFields, content?, ownContent?, Field.optional]

theorem isSome_sessionFields (hcontract : c.NamesContract .session → contract.isSome)
    (hcollection : ¬ c.LacksCollection .session) :
    ∀ f ∈ c.sessionFields, (c.content? contract f).isSome := by
  cases c with
  | mint m =>
    have h := hcontract rfl
    have hname := Option.isSome_iff_ne_none.mpr fun hnone => hcollection ⟨rfl, hnone⟩
    simp [sessionFields, content?, ownContent?, h, hname]
  | transfer t =>
    have h := hcontract rfl
    simp [sessionFields, content?, h]
  | _ => exact List.forall_mem_nil _

/-- A call that is not refused says something in every field that it may not leave out. -/
theorem isSome_content? (h : c.arguments contract form = .ok args) :
    ∀ f ∈ c.fields form, f.optional = false → (c.content? contract f).isSome := by
  -- the only fields that may say nothing without being optional are those whose lack is a fault
  have hcollected := arguments_collected contract form c
  rw [h] at hcollected
  cases hcollected with
  | complete _ consistent named collection package =>
    have hcontract (h : c.NamesContract form) : contract.isSome :=
      Option.isSome_iff_ne_none.mpr fun hnone => named ⟨hnone, h⟩
    cases form with
    | entryPoint => exact isSome_plainFields hcontract package
    | session =>
      have hplain := isSome_plainFields (fun h => hcontract (namesContract_session h)) package
      refine List.forall_mem_append.mpr ⟨hplain, fun f hf _ => ?_⟩
      exact isSome_sessionFields hcontract collection f hf

theorem token_fields {t : Token} (contract : Option Contract) (form : CallForm)
    (h : c.token? = some t) :
    (.tokenId ∈ c.fields form ∧ c.content? contract .tokenId = t.content? .tokenId) ∧
      .tokenHash ∈ c.fields form ∧ c.content? contract .tokenHash = t.content? .tokenHash := by
  cases c <;> cases h <;> cases form <;> simp [fields, plainFields, content?, ownContent?]

theorem noToken_fields (form : CallForm) (h : c.token? = none) :
    .tokenId ∉ c.fields form ∧ .tokenHash ∉ c.fields form := by
  cases c <;> cases h <;> cases form <;> simp [fields, plainFields, sessionFields]

theorem hashMode_content? {x : Content} (h : c.content? contract .hashMode = some x) :
    ∃ t, c.token? = some t ∧ t.content? .hashMode = some x := by
  cases c with
  | burn t => exact ⟨t, rfl, h⟩
  | transfer a => exact ⟨a.token, rfl, h⟩
  | approve a => exact ⟨a.token, rfl, h⟩
  | ownerOf q | getApproved q => exact ⟨q.token, rfl, h⟩
  | _ => cases h

theorem sent_session (c : Call) : c.sent contract .session =
    c.sent contract .entryPoint ++ Field.lines (c.value? contract) c.sessionFields :=
  Field.lines_append

theorem nodup_names_sent (contract : Option Contract) (form : CallForm) (c : Call) :
    ((c.sent contract form).map (·.1)).Nodup :=
  Field.nodup_names_lines (c.nodup_fields form)

theorem entries_of_arguments (h : c.arguments contract form = .ok args) :
    (Arguments.ofList args).entries = c.sent contract form := by
  obtain rfl := arguments_eq_sent h
  rw [Arguments.ofList_of_nodup (nodup_names_sent contract form c)]

theorem prepare_entryPoint (contract : Option Contract) (h : c.support = .either) :
    ∃ args, c.prepare contract .entryPoint =
      .ok ⟨.entryPoint, .entryPoint c.entryPoint, Arguments.ofList args⟩ ∧
        c.arguments contract .entryPoint = .ok args := by
  cases c <;> cases h <;> exact ⟨_, rfl, rfl⟩

theorem extends_entryPoint (h : c.support = .either)
    (hargs : c.arguments contract .session = .ok args) :
    ∃ plain, c.prepare contract .entryPoint = .ok plain ∧ (Arguments.ofList args).entries =
      plain.args.entries ++ Field.lines (c.value? contract) c.sessionFields := by
  obtain ⟨plain, hprepare, hplain⟩ := prepare_entryPoint contract h
  refine ⟨_, hprepare, ?_⟩
  rw [entries_of_arguments hargs, entries_of_arguments hplain, sent_session]

theorem exists_value? (hargs : c.arguments contract form = .ok args) (hf : f ∈ c.fields form)
    (hneeded : f.optional = false) : ∃ v, c.value? contract f = some v := by
  obtain ⟨x, hx⟩ := Option.isSome_iff_exists.mp (isSome_content? hargs f hf hneeded)
  exact ⟨x.value, by rw [value?, hx, Option.map_some]⟩

theorem shows_sent (contract : Option Contract) (form : CallForm) (c : Call) :
    List.Forall₂ (fun e line => e.1 = line.1 ∧ line.2.Shows e.2) (c.sent contract form)
      (c.lines contract form) := by
  have hsent : c.sent contract form =
      (c.lines contract form).map fun line => (line.1, line.2.value) := by
    rw [sent, lines, Field.lines, Field.lines, List.map_filterMap]
    simp only [value?, Option.map_map, Function.comp_def]
  rw [hsent, List.forall₂_map_left_iff]
  exact List.forall₂_same.mpr fun line _ => ⟨rfl, line.2.shows_value⟩

section Sent

variable {args : Arguments} (h : args.entries = c.sent contract form)

include h

theorem nodup_of_sent : args.names.Nodup := by
  rw [Arguments.names, h]
  exact nodup_names_sent contract form c

theorem get?_name_of_sent (f : Field) :
    args.get? f.name = if f ∈ c.fields form then c.value? contract f else none := by
  rw [Arguments.get?, h]
  exact Field.lookup_lines (c.nodup_fields form) f

theorem get?_of_content? {x : Content} (hf : f ∈ c.fields form)
    (hx : c.content? contract f = some x) : args.get? f.name = some x.value := by
  rw [get?_name_of_sent h, if_pos hf, value?, hx, Option.map_some]

theorem get?_eq_none (hnone : f ∈ c.fields form → c.content? contract f = none) :
    args.get? f.name = none := by
  rw [get?_name_of_sent h]
  split
  next hf => rw [value?, hnone hf, Option.map_none]
  next => rfl

theorem mem_names_of_sent (hf : f ∈ c.fields form) (hsome : (c.content? contract f).isSome) :
    f.name ∈ args.names := by
  obtain ⟨x, hx⟩ := Option.isSome_iff_exists.mp hsome
  have hfound := get?_of_content? h hf hx
  refine Classical.not_not.mp fun hmissing => ?_
  rw [Arguments.get?_eq_none_iff.mpr hmissing] at hfound
  cases hfound

theorem get?_token_of_sent {t : Token} (ht : c.token? = some t) :
    args.get? "token_id" = (t.content? .tokenId).map Content.value ∧
      args.get? "token_hash" = (t.content? .tokenHash).map Content.value := by
  obtain ⟨hid, hhash⟩ := token_fields contract form ht
  have hgetId := get?_name_of_sent h .tokenId
  have hgetHash := get?_name_of_sent h .tokenHash
  rw [if_pos hid.1, value?, hid.2] at hgetId
  rw [if_pos hhash.1, value?, hhash.2] at hgetHash
  exact ⟨hgetId, hgetHash⟩

theorem get?_noToken_of_sent (ht : c.token? = none) :
    args.get? "token_id" = none ∧ args.get? "token_hash" = none := by
  obtain ⟨hid, hhash⟩ := noToken_fields form ht
  exact ⟨get?_eq_none (f := .tokenId) h (absurd · hid),
    get?_eq_none (f := .tokenHash) h (absurd · hhash)⟩

theorem hashMode_of_sent (hv : args.get? "is_hash_identifier_mode" = some v) :
    v = .bool (args.get? "token_hash").isSome := by
  have hmode := (get?_name_of_sent h .hashMode).symm.trans hv
  split at hmode
  · obtain ⟨x, hx, rfl⟩ := Option.map_eq_some_iff.mp hmode
    obtain ⟨t, ht, hflag⟩ := hashMode_content? hx
    rw [(get?_token_of_sent h ht).2]
    cases t <;> cases hflag <;> rfl
  · cases hmode

theorem read_of_sent (hsized : ∀ e ∈ args.entries, e.2.Sized .any) (rest : Bytes) :
    Arguments.read (args.bytes ++ rest) = .ok (args, rest) := by
  have hentry : ∀ e ∈ args.entries, (Bytes.ofText e.1).length < UInt32.size ∧ e.2.Sent := by
    intro e he
    rw [h] at he
    obtain ⟨f, -, hname, hv⟩ := Field.mem_lines he
    exact ⟨hname ▸ f.length_name_lt, sent_of_value? hv⟩
  have hcount : args.entries.length < UInt32.size := by
    have hlines : (c.sent contract form).length ≤ 20 :=
      Field.length_lines_le.trans (c.length_fields_le form)
    rw [h]
    exact Nat.lt_of_le_of_lt hlines (by decide)
  have hlists := Arguments.lists_bytes hcount (fun e he => (hentry e he).1)
    (fun e he => (hentry e he).2.conforms) hsized
  exact Arguments.read_bytes (nodup_of_sent h) hlists (fun e he => (hentry e he).2.shallow)
    (fun e he => (hentry e he).2.bounded) rest

end Sent

/-- What is prepared carries the call: every field in its place, once, with its own value. -/
theorem carries_of_prepare (h : c.prepare contract choice = .ok inv) : inv.Carries contract c := by
  obtain ⟨-, -, args, hargs, hinv⟩ := prepare_eq_ok_iff.mp h
  have hentries : inv.args.entries = c.sent contract inv.form := by
    rw [hinv, entries_of_arguments hargs]
  constructor
  case entries =>
    rw [hentries]
    exact shows_sent contract inv.form c
  case inserted => rw [hargs, hentries, arguments_eq_sent hargs]
  case nodup => exact nodup_of_sent hentries
  case present => exact fun f hf x hx => ⟨x.value, get?_of_content? hentries hf hx, x.shows_value⟩
  case absent => exact fun f hnone => get?_eq_none hentries hnone
  case required =>
    intro f hf hneeded
    exact mem_names_of_sent hentries hf (isSome_content? hargs f hf hneeded)
  case tokenId => exact fun n ht => get?_token_of_sent hentries ht
  case tokenHash => exact fun text ht => (get?_token_of_sent hentries ht).symm
  case noToken => exact get?_noToken_of_sent hentries
  case hashMode => exact fun v hv => hashMode_of_sent hentries hv
  case mint =>
    rintro m rfl hsession
    rw [hsession] at hargs
    obtain ⟨plain, hprepare, hextra⟩ := extends_entryPoint rfl hargs
    obtain ⟨callee, hcallee⟩ := exists_value? (f := .contractHash) hargs (by simp [fields, sessionFields]) rfl
    obtain ⟨name, hname⟩ := exists_value? (f := .collectionName) hargs (by simp [fields, sessionFields]) rfl
    refine ⟨plain, callee, name, hprepare, ?_⟩
    rw [hinv, hextra]
    simp [sessionFields, Field.lines, hcallee, hname, Field.name]
  case transfer =>
    rintro t rfl hsession
    rw [hsession] at hargs
    obtain ⟨plain, hprepare, hextra⟩ := extends_entryPoint rfl hargs
    obtain ⟨callee, hcallee⟩ := exists_value? (f := .contractHash) hargs (by simp [fields, sessionFields]) rfl
    refine ⟨plain, callee, hprepare, ?_⟩
    rw [hinv, hextra]
    simp [sessionFields, Field.lines, hcallee, Field.name]
  case readable => exact read_of_sent hentries

def sampleAddress : Address := ⟨List.replicate 32 17, by decide⟩

def sampleContract : Contract :=
  ⟨⟨"aaaaaaaaaaaaaaaaaaaaaaaaaaaaaaaaaaaaaaaaaaaaaaaaaaaaaaaaaaaaaaaa", by decide, by decide⟩, none⟩

def sampleMetadata : Json :=
  .obj [("name", .str "a \"b\"\n"), ("share", .double ⟨false, 7205759403792794, 1018⟩),
    ("traits", .arr [.int (-3), .bool true, .null])]

def sampleMint : Mint := ⟨.account sampleAddress, sampleMetadata, some "Stones"⟩

def sampleTransfer : Transfer := ⟨.account sampleAddress, .hash sampleAddress, .hash "7f"⟩

def sampleInstallation : Install where
  collectionName := "Stones"
  collectionSymbol := "ST"
  totalTokenSupply := 10
  ownershipMode := .transferable
  nftKind := .digital
  jsonSchema := ⟨[("color", ⟨"color", "", true⟩)]⟩
  metadataKind := .customValidated
  identifierMode := .ordinal
  metadataMutability := .mutable
  mintingMode := none
  allowMinting := some false
  whitelistMode := some .locked
  holderMode := some .mixed
  contractWhitelist := some [sampleContract.hash, sampleContract.hash]
  burnMode := some .nonBurnable
  reverseLookupMode := some .transfersOnly
  eventsMode := some .ces
  keyConvention := some .standard
  accessKeyName := none
  hashKeyName := none

def sampleCallee : Address := ⟨List.replicate 32 170, by decide⟩

/-- Session code for a mint and for a transfer of a token named by its hash, and an installation. -/
theorem carries_of_prepare_samples :
    let metadata :=
      "\x7b\"name\":\"a \\\"b\\\"\\n\",\"share\":0.1,\"traits\":[-3,true,null]\x7d"
    let mint : Invocation := ⟨.session, .bundled "mint_call.wasm",
      ⟨[("token_owner", .key (.account sampleAddress)),
        ("token_meta_data", .string metadata),
        ("nft_contract_hash", .key (.hash sampleCallee)),
        ("collection_name", .string "Stones")]⟩⟩
    let transfer : Invocation := ⟨.session, .bundled "transfer_call.wasm",
      ⟨[("target_key", .key (.account sampleAddress)), ("source_key", .key (.hash sampleAddress)),
        ("is_hash_identifier_mode", .bool true), ("token_hash", .string "7f"),
        ("nft_contract_hash", .key (.hash sampleCallee))]⟩⟩
    let install : Invocation := ⟨.session, .bundled "contract.wasm",
      ⟨[("collection_name", .string "Stones"), ("collection_symbol", .string "ST"),
        ("total_token_supply", .u64 10), ("ownership_mode", .u8 2), ("nft_kind", .u8 1),
        ("json_schema", .string ("\x7b\"properties\":\x7b\"color\":\x7b\"name\":\"color\"," ++
          "\"description\":\"\",\"required\":true\x7d\x7d\x7d")),
        ("nft_metadata_kind", .u8 3), ("identifier_mode", .u8 0), ("metadata_mutability", .u8 1),
        ("allow_minting", .bool false), ("whitelist_mode", .u8 1), ("holder_mode", .u8 2),
        ("contract_whitelist", .list .key [.key (.hash sampleCallee), .key (.hash sampleCallee)]),
        ("burn_mode", .u8 1), ("owner_reverse_lookup_mode", .u8 2), ("events_mode", .u8 2),
        ("named_key_convention", .u8 1)]⟩⟩
    ((Call.mint sampleMint).prepare (some sampleContract) .bundled = .ok mint ∧
      mint.Carries (some sampleContract) (.mint sampleMint) ∧
      Arguments.read (mint.args.bytes ++ [9]) = .ok (mint.args, [9])) ∧
    ((Call.transfer sampleTransfer).prepare (some sampleContract) .bundled = .ok transfer ∧
      transfer.Carries (some sampleContract) (.transfer sampleTransfer)) ∧
    (Call.install sampleInstallation).prepare none .entryPoint = .ok install ∧
      install.Carries none (.install sampleInstallation) := by
  intro metadata mint transfer install
  have hmint : (Call.mint sampleMint).prepare (some sampleContract) .bundled = .ok mint := by
    have hprint : sampleMetadata.print = metadata := by decide +kernel
    simp only [mint, ← hprint]
    rfl
  have htransfer : (Call.transfer sampleTransfer).prepare (some sampleContract) .bundled =
    .ok transfer := by rfl
  have hinstall : (Call.install sampleInstallation).prepare none .entryPoint = .ok install := by rfl
  have hsized : ∀ e ∈ mint.args.entries, e.2.Sized .any := by decide
  exact ⟨⟨hmint, carries_of_prepare hmint, (carries_of_prepare hmint).readable hsized [9]⟩,
    ⟨htransfer, carries_of_prepare htransfer⟩, hinstall, carries_of_prepare hinstall⟩

end Call

end NftLedger
