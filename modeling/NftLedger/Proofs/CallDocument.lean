import NftLedger.Proofs.Schema
import NftLedger.Proofs.Token

namespace NftLedger

open Json
open Json.Record (Ensures builds_required ensures_pure ensures_required ensures_shape shape_of_builds)

theorem whitelist_form : Form whitelistJson whitelistOfJson := ContractHash.form.list

def Install.table (i : Install) : List (String × Option Json) :=
  [("collectionName", some (.str i.collectionName)),
    ("collectionSymbol", some (.str i.collectionSymbol)),
    ("totalTokenSupply", some (.int i.totalTokenSupply.toNat)),
    ("ownershipMode", some (Modality.toJson i.ownershipMode)),
    ("nftKind", some (Modality.toJson i.nftKind)),
    ("jsonSchema", some i.jsonSchema.toJson),
    ("nftMetadataKind", some (Modality.toJson i.metadataKind)),
    ("identifierMode", some (Modality.toJson i.identifierMode)),
    ("metadataMutability", some (Modality.toJson i.metadataMutability)),
    ("mintingMode", i.mintingMode.map Modality.toJson),
    ("allowMinting", i.allowMinting.map Json.bool),
    ("whitelistMode", i.whitelistMode.map Modality.toJson),
    ("holderMode", i.holderMode.map Modality.toJson),
    ("contractWhitelist", i.contractWhitelist.map whitelistJson),
    ("burnMode", i.burnMode.map Modality.toJson),
    ("ownerReverseLookupMode", i.reverseLookupMode.map Modality.toJson),
    ("eventsMode", i.eventsMode.map Modality.toJson),
    ("namedKeyConvention", i.keyConvention.map Modality.toJson),
    ("accessKeyName", i.accessKeyName.map Json.str),
    ("hashKeyName", i.hashKeyName.map Json.str)]

namespace Call

def table : Call → List (String × Option Json)
  | install i => i.table
  | setVariables v =>
    [("allowMinting", v.allowMinting.map Json.bool),
      ("contractWhitelist", v.contractWhitelist.map whitelistJson)]
  | registerOwner owner => [("tokenOwner", some owner.toJson)]
  | mint m =>
    [("owner", some m.owner.toJson), ("meta", some m.metadata),
      ("collectionName", m.collectionName.map Json.str)]
  | burn token => [(token.member.1, some token.member.2)]
  | transfer t =>
    [("target", some t.target.toJson), ("source", some t.source.toJson),
      (t.token.member.1, some t.token.member.2)]
  | approve a => [("operator", some a.operator.toJson), (a.token.member.1, some a.token.member.2)]
  | setApprovalForAll a =>
    [("tokenOwner", some a.owner.toJson), ("approveAll", some (.bool a.approve)),
      ("operator", some a.operator.toJson)]
  | setTokenMetadata metadata => [("tokenMetaData", some metadata)]
  | migrate collectionName => [("collectionName", some (.str collectionName))]
  | balanceOf q => [("tokenOwner", some q.owner.toJson), ("keyName", some (.str q.keyName))]
  | ownerOf q | getApproved q =>
    [("keyName", some (.str q.keyName)), (q.token.member.1, some q.token.member.2)]
  | updatedReceipts => []

theorem argsJson_eq (c : Call) : c.argsJson = .obj (present c.table) := by
  cases c with
  | install i =>
    simp only [argsJson, table, Install.toJson, Install.table, present_some, present_map,
      present_nil, List.append_nil, List.append_assoc]
    rfl
  | setVariables v =>
    simp only [argsJson, table, Variables.toJson, present_map, present_nil, List.append_nil]
  | mint m =>
    simp only [argsJson, table, Mint.toJson, present_some, present_map, present_nil,
      List.append_nil]
    rfl
  | _ => rfl

theorem nodup_names_table (c : Call) : (c.table.map (·.1)).Nodup := by
  cases c with
  | install i => simp [table, Install.table]
  | burn token => cases token <;> simp [table]
  | transfer t => cases h : t.token <;> simp [table, h, Token.member]
  | approve a => cases h : a.token <;> simp [table, h, Token.member]
  | ownerOf q => cases h : q.token <;> simp [table, h, Token.member]
  | getApproved q => cases h : q.token <;> simp [table, h, Token.member]
  | _ => simp [table]

/-- The schema of an installation gives no name twice. -/
def WellNamed : Call → Prop
  | install i => i.jsonSchema.Distinct
  | _ => True

def metadata? : Call → Option Json
  | mint m => some m.metadata
  | setTokenMetadata metadata => some metadata
  | _ => none

/-- Nothing but the metadata of a token is ever written as null. -/
theorem metadata?_of_null {c : Call} {name : String} (h : (name, some .null) ∈ c.table) :
    c.metadata? = some .null := by
  have htoken (t : Token) : t.member.2 ≠ .null := by cases t <;> simp [Token.member]
  have hkey (k : Key) : k.toJson ≠ .null := Key.form.ne_null k
  cases c with
  | install i =>
    simp [table, Install.table, Modality.toJson, Schema.toJson, whitelistJson] at h
  | setVariables v => simp [table, whitelistJson] at h
  | mint m =>
    obtain ⟨-, hmeta⟩ : name = "meta" ∧ .null = m.metadata := by
      simpa [table, (hkey _).symm] using h
    rw [metadata?, hmeta]
  | setTokenMetadata metadata =>
    obtain ⟨-, hmeta⟩ : name = "tokenMetaData" ∧ .null = metadata := by simpa [table] using h
    rw [metadata?, hmeta]
  | _ => simp [table, (hkey _).symm, (htoken _).symm] at h

theorem tag_eq_entryPoint (c : Call) : c.tag = c.entryPoint := by
  cases c <;> rfl

theorem nodup_readers : (readers.map (·.1)).Nodup := by
  simp [readers]

theorem ofJson_eq_ok_iff {name : String} {args : Json} {c : Call} :
    ofJson name args = .ok c ↔ ∃ read, (name, read) ∈ readers ∧ read args = .ok c := by
  simp only [← lookup_eq_some_iff_mem nodup_readers, ofJson]
  cases readers.lookup name <;> simp

end Call

instance : Install.record.Lawful := by
  unfold Install.record
  infer_instance

instance : Variables.record.Lawful := by
  unfold Variables.record
  infer_instance

instance : Mint.record.Lawful := by
  unfold Mint.record
  infer_instance

instance : ApproveAll.record.Lawful := by
  unfold ApproveAll.record
  infer_instance

instance : BalanceQuery.record.Lawful := by
  unfold BalanceQuery.record
  infer_instance

theorem Install.builds_table (i : Install) (h : i.jsonSchema.Distinct) :
    record.Builds (present i.table) i := by
  have hnodup : (i.table.map (·.1)).Nodup := Call.nodup_names_table (.install i)
  have here {name : String} {v : Option Json} (h : i.table.lookup name = some v) :
      (present i.table).lookup name = v := lookup_present hnodup h
  refine .seq (.seq (.seq (.seq (.seq (.seq (.seq (.seq (.seq (.seq (.seq (.seq (.seq (.seq (.seq
    (.seq (.seq (.seq (.seq (.map ?_ _) ?_) ?_) ?_) ?_) ?_) ?_) ?_) ?_) ?_) ?_) ?_) ?_) ?_) ?_) ?_)
    ?_) ?_) ?_) ?_
  · exact form_text.required (here rfl)
  · exact form_text.required (here rfl)
  · exact form_u64.required (here rfl)
  · exact Modality.form.required (here rfl)
  · exact Modality.form.required (here rfl)
  · exact builds_required (here rfl) (Schema.ofJson_toJson h)
  · exact Modality.form.required (here rfl)
  · exact Modality.form.required (here rfl)
  · exact Modality.form.required (here rfl)
  · exact Modality.form.optional (here rfl)
  · exact form_bool.optional (here rfl)
  · exact Modality.form.optional (here rfl)
  · exact Modality.form.optional (here rfl)
  · exact whitelist_form.optional (here rfl)
  · exact Modality.form.optional (here rfl)
  · exact Modality.form.optional (here rfl)
  · exact Modality.form.optional (here rfl)
  · exact Modality.form.optional (here rfl)
  · exact form_text.optional (here rfl)
  · exact form_text.optional (here rfl)

theorem Transfer.ofJson_toJson (t : Transfer) : ofJson t.toJson = .ok t := by
  have hnames : ([("target", t.target.toJson), ("source", t.source.toJson), t.token.member].map
      (·.1)).Nodup := nodup_present (Call.nodup_names_table (.transfer t))
  have hplain : ∀ m ∈ [("target", t.target.toJson), ("source", t.source.toJson)],
      m.1 ∉ Token.names := by simp [Token.names]
  exact withToken_eq_ok (x := (t.target, t.source)) hnames
    (.seq (.map (Key.form.required rfl) _) (Key.form.required rfl))
    (t.token.ofMembers_append_member hplain []) "TransferArgs"

theorem Approve.ofJson_toJson (a : Approve) : ofJson a.toJson = .ok a := by
  have hnames : ([("operator", a.operator.toJson), a.token.member].map (·.1)).Nodup :=
    nodup_present (Call.nodup_names_table (.approve a))
  have hplain : ∀ m ∈ [("operator", a.operator.toJson)], m.1 ∉ Token.names := by simp [Token.names]
  exact withToken_eq_ok hnames (Key.form.required rfl)
    (a.token.ofMembers_append_member hplain []) "ApproveArgs"

theorem TokenQuery.ofJson_toJson (q : TokenQuery) : ofJson q.toJson = .ok q := by
  have hnames : ([("keyName", .str q.keyName), q.token.member].map (·.1)).Nodup :=
    nodup_present (Call.nodup_names_table (.ownerOf q))
  have hplain : ∀ m ∈ [("keyName", Json.str q.keyName)], m.1 ∉ Token.names := by simp [Token.names]
  exact withToken_eq_ok hnames (form_text.required rfl)
    (q.token.ofMembers_append_member hplain []) "StoreTokenQueryArgs"

namespace Call

theorem ofJson_table (c : Call) (h : c.WellNamed) :
    ofJson c.entryPoint (.obj (present c.table)) = .ok c := by
  have hnames : ((present c.table).map (·.1)).Nodup := nodup_present c.nodup_names_table
  have here {name : String} {v : Option Json} (h : c.table.lookup name = some v) :
      (present c.table).lookup name = v := lookup_present c.nodup_names_table h
  cases c with
  | install i =>
    exact map_eq_ok_iff.mpr ⟨i, shape_of_builds hnames (i.builds_table h) "InstallArgs", rfl⟩
  | setVariables v =>
    have hv : Variables.record.Builds (present (setVariables v).table) v :=
      .seq (.map (form_bool.optional (here rfl)) _) (whitelist_form.optional (here rfl))
    exact map_eq_ok_iff.mpr ⟨v, shape_of_builds hnames hv "ConfigurableVariables", rfl⟩
  | registerOwner owner =>
    exact shape_of_builds hnames (.map (Key.form.required (here rfl)) _) "RegisterArgs"
  | mint m =>
    have hm : Mint.record.Builds (present (mint m).table) m :=
      .seq (.seq (.map (Key.form.required (here rfl)) _) (builds_required (here rfl) rfl))
        (form_text.optional (here rfl))
    exact map_eq_ok_iff.mpr ⟨m, shape_of_builds hnames hm "MintArgs", rfl⟩
  | burn token =>
    have hfound : Token.ofMembers [token.member] = .ok token :=
      token.ofMembers_append_member (List.forall_mem_nil _) []
    exact withToken_eq_ok (r := pure ()) (x := ()) hnames rfl hfound "BurnArgs"
  | transfer t => exact map_eq_ok_iff.mpr ⟨t, t.ofJson_toJson, rfl⟩
  | approve a => exact map_eq_ok_iff.mpr ⟨a, a.ofJson_toJson, rfl⟩
  | setApprovalForAll a =>
    have ha : ApproveAll.record.Builds (present (setApprovalForAll a).table) a :=
      .seq (.seq (.map (Key.form.required (here rfl)) _) (form_bool.required (here rfl)))
        (Key.form.required (here rfl))
    exact map_eq_ok_iff.mpr ⟨a, shape_of_builds hnames ha "ApproveAllArgs", rfl⟩
  | setTokenMetadata metadata =>
    exact shape_of_builds hnames (.map (builds_required (here rfl) rfl) _) "TokenMetadataArgs"
  | migrate collectionName =>
    exact shape_of_builds hnames (.map (form_text.required (here rfl)) _) "MigrateArgs"
  | balanceOf q =>
    have hq : BalanceQuery.record.Builds (present (balanceOf q).table) q :=
      .seq (.map (Key.form.required (here rfl)) _) (form_text.required (here rfl))
    exact map_eq_ok_iff.mpr ⟨q, shape_of_builds hnames hq "StoreBalanceOfArgs", rfl⟩
  | ownerOf q | getApproved q => exact map_eq_ok_iff.mpr ⟨q, q.ofJson_toJson, rfl⟩
  | updatedReceipts => rfl

end Call

theorem Install.ensures_distinct : record.Ensures fun i => i.jsonSchema.Distinct := by
  -- the schema is the sixth of twenty arguments, and of the others nothing is needed
  iterate 14 refine Ensures.skip ?_
  refine Ensures.seq (ensures_required Schema.ensures_distinct "jsonSchema") ?_
  iterate 4 refine Ensures.skip ?_
  refine Ensures.map ?_
  intro _ _ _ _ _ schema hschema
  intros
  exact hschema

namespace Call

theorem forall_readers_ensures :
    ∀ p ∈ readers, p.2.Ensures fun c => c.tag = p.1 ∧ c.WellNamed := by
  simp only [readers, List.forall_mem_cons]
  refine ⟨?_, ?_, ?_, ?_, ?_, ?_, ?_, ?_, ?_, ?_, ?_, ?_, ?_, ?_, List.forall_mem_nil _⟩
  · exact (ensures_shape Install.ensures_distinct _).map fun _ h => ⟨rfl, h⟩
  · exact Shape.ensures_map (fun _ => ⟨rfl, trivial⟩) _
  · exact ensures_shape (Ensures.map fun _ => ⟨rfl, trivial⟩) _
  · exact Shape.ensures_map (fun _ => ⟨rfl, trivial⟩) _
  · exact withToken_ensures (fun _ _ => ⟨rfl, trivial⟩) _
  · exact Shape.ensures_map (fun _ => ⟨rfl, trivial⟩) _
  · exact Shape.ensures_map (fun _ => ⟨rfl, trivial⟩) _
  · exact Shape.ensures_map (fun _ => ⟨rfl, trivial⟩) _
  · exact ensures_shape (Ensures.map fun _ => ⟨rfl, trivial⟩) _
  · exact ensures_shape (Ensures.map fun _ => ⟨rfl, trivial⟩) _
  · exact Shape.ensures_map (fun _ => ⟨rfl, trivial⟩) _
  · exact Shape.ensures_map (fun _ => ⟨rfl, trivial⟩) _
  · exact Shape.ensures_map (fun _ => ⟨rfl, trivial⟩) _
  · exact ensures_shape (ensures_pure ⟨rfl, trivial⟩) _

theorem ensures_of_ofJson {name : String} {args : Json} {c : Call} (h : ofJson name args = .ok c) :
    c.entryPoint = name ∧ c.WellNamed := by
  obtain ⟨read, hmem, hread⟩ := ofJson_eq_ok_iff.mp h
  rw [← tag_eq_entryPoint]
  exact forall_readers_ensures _ hmem hread

theorem ofJson_argsJson_iff (c : Call) : ofJson c.entryPoint c.argsJson = .ok c ↔ c.WellNamed := by
  constructor
  · exact fun h => (ensures_of_ofJson h).2
  · intro h
    rw [argsJson_eq]
    exact c.ofJson_table h

/-- The document of a call has its entry point and, by name, the arguments that are there. The same
call is read from it, unless a schema gives a name twice, which no call that was read does. -/
theorem documents_faithful :
    (∀ c : Call, c.toJson = .obj [("call", .str c.entryPoint), ("args", c.argsJson)] ∧
      (∃ members, c.argsJson = .obj members ∧ (members.map (·.1)).Nodup ∧
        ∀ name, (name, .null) ∈ members → c.metadata? = some .null) ∧
      (ofJson c.entryPoint c.argsJson = .ok c ↔ c.WellNamed)) ∧
    ∀ name args c, ofJson name args = .ok c →
      c.entryPoint = name ∧ c.WellNamed ∧ ofJson name c.argsJson = .ok c := by
  constructor
  · intro c
    refine ⟨by rw [toJson, tag_eq_entryPoint], ⟨present c.table, c.argsJson_eq, ?_, ?_⟩, c.ofJson_argsJson_iff⟩
    · exact nodup_present c.nodup_names_table
    · exact fun name h => metadata?_of_null (mem_present.mp h)
  · intro name args c h
    obtain ⟨rfl, hnamed⟩ := ensures_of_ofJson h
    exact ⟨rfl, hnamed, c.ofJson_argsJson_iff.mpr hnamed⟩

def sampleInstall : Install where
  collectionName := "Stones"
  collectionSymbol := "ST"
  totalTokenSupply := 10
  ownershipMode := .transferable
  nftKind := .digital
  jsonSchema := ⟨[("color", ⟨"color", "", true⟩), ("age", ⟨"age", "", false⟩)]⟩
  metadataKind := .customValidated
  identifierMode := .ordinal
  metadataMutability := .mutable
  mintingMode := none
  allowMinting := some false
  whitelistMode := none
  holderMode := none
  contractWhitelist := some []
  burnMode := none
  reverseLookupMode := none
  eventsMode := none
  keyConvention := none
  accessKeyName := none
  hashKeyName := none

def sampleItems : List Json :=
  [.str "Stones", .str "ST", .int 10, .int 2, .int 1, sampleInstall.jsonSchema.toJson, .int 3, .int 0,
    .int 1, .null, .bool false, .null, .null, .arr []]

theorem documents_faithful_install :
    ofJson "install" (.arr sampleItems) = .ok (.install sampleInstall) ∧
      ofJson "install" (Call.install sampleInstall).argsJson = .ok (.install sampleInstall) := by
  have hread : ofJson "install" (.arr sampleItems) = .ok (.install sampleInstall) := by rfl
  exact ⟨hread, (documents_faithful.2 _ _ _ hread).2.2⟩

end Call

end NftLedger
