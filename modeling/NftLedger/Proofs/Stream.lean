import NftLedger.Effect.Rendering
import NftLedger.Proofs.Envelope
import NftLedger.Proofs.Hex
import NftLedger.Proofs.Record
import NftLedger.Proofs.Selection
import NftLedger.Proofs.Shape

namespace NftLedger

open NftLedger.Json (Record Shape)

section Holds

variable {α β γ : Type} {wanted : List (String × Json)} {document j k : Json} {first second : String}

theorem Json.holds_self {members : List (String × Json)} (h : (members.map (·.1)).Nodup) :
    (Json.obj members).Holds members :=
  .obj members h (List.Subset.refl members)

theorem Json.Holds.field? (h : document.Holds wanted) (hj : (first, j) ∈ wanted) :
    document.field? first = some j := by
  cases h with
  | obj members nodup subset => exact (lookup_eq_some_iff_mem nodup).mpr (subset hj)

theorem Json.Holds.fields? (h : document.Holds [(first, j), (second, k)]) :
    document.field? first = some j ∧ document.field? second = some k :=
  ⟨h.field? (by simp), h.field? (by simp)⟩

theorem Json.Holds.shape_pair {a : α} {b : β} (h : document.Holds [(first, j), (second, k)])
    (readFirst : Shape α) (readSecond : Shape β) (hfirst : readFirst j = .ok a)
    (hsecond : readSecond k = .ok b) (f : α → β → γ) (name : String) :
    Record.shape (f <$> .required first readFirst <*> .required second readSecond) name document =
      .ok (f a b) := by
  obtain ⟨hj, hk⟩ := h.fields?
  cases h with
  | obj members nodup subset =>
    exact Record.shape_of_builds nodup
      (.seq (.map (Record.builds_required hj hfirst) f) (Record.builds_required hk hsecond)) name

end Holds

theorem NamedKey.ofJson_of_renders {k : NamedKey} {j : Json} (h : k.Renders j) :
    NamedKey.ofJson j = .ok k :=
  Json.Holds.shape_pair h Shape.string Shape.string rfl rfl NamedKey.mk "NamedKey"

theorem Operation.ofJson_write {j content : Json} (key : String)
    (h : j.field? "WriteCLValue" = some content) :
    ofJson key j = (EffectFault.ofShape (writeParts content)).bind fun parts =>
      match Hex.decode parts.2 with
      | .ok bytes => .ok (write parts.1 bytes)
      | .error fault => .error (.hex key fault) := by
  cases j with
  | obj members =>
    rw [Json.field?] at h
    simp only [ofJson, h]
    rfl
  | _ => cases h

theorem Operation.ofJson_addKeys {j content : Json} (key : String)
    (hwrite : j.field? "WriteCLValue" = none) (h : j.field? "AddKeys" = some content) :
    ofJson key j = addKeys <$> EffectFault.ofShape (Shape.list NamedKey.ofJson content) := by
  cases j with
  | obj members =>
    rw [Json.field?] at hwrite h
    simp only [ofJson, hwrite, h]
  | _ => cases h

theorem Operation.ofJson_of_renders (key : String) {op : Operation} {j : Json} (h : op.Renders j) :
    ofJson key j = .ok op := by
  cases h with
  | write declared bytes text spelled content j hcontent holds =>
    have hparts : writeParts content = .ok (declared, text) :=
      hcontent.shape_pair Ty.ofJson Shape.string declared.ofJson_toJson rfl Prod.mk "RawClValue"
    rw [ofJson_write key (holds.field? List.mem_cons_self), hparts]
    simp only [EffectFault.ofShape, Except.mapError, Except.bind, Hex.decode_of_toLower spelled]
  | addKeys keys items named j holds noWrite =>
    have hkeys : Shape.list NamedKey.ofJson (.arr items) = .ok keys :=
      mapM_of_forall₂ (named.flip.imp fun _ _ => NamedKey.ofJson_of_renders)
    rw [ofJson_addKeys key noWrite (holds.field? List.mem_cons_self), hkeys]
    rfl
  | bare name => rfl
  | tagged name content notWrite notAddKeys =>
    simp [ofJson, List.lookup_cons, beq_false_of_ne notWrite.symm, beq_false_of_ne notAddKeys.symm]

theorem Transform.renders_writeItem {declared : Ty} {bytes : Bytes} {text : String} (key : String)
    (h : Hex.Spells text bytes) :
    Renders ⟨key, .write declared bytes⟩ (writeItem key declared.toJson text) := by
  have hwrite := Operation.Renders.write declared bytes text h _
    (.obj [("WriteCLValue", .obj [("cl_type", declared.toJson), ("bytes", .str text)])])
    (Json.holds_self (by simp)) (Json.holds_self (by simp))
  exact ⟨_, hwrite, Json.holds_self (by simp)⟩

theorem Transform.ofJson_of_holds {key : String} {operation j : Json}
    (h : j.Holds [("key", .str key), ("transform", operation)]) :
    ofJson j = Transform.mk key <$> Operation.ofJson key operation := by
  have hparts : parts j = .ok (key, operation) :=
    h.shape_pair Shape.string Shape.document rfl rfl Prod.mk "RawTransform"
  rw [ofJson, hparts]
  rfl

theorem Transform.ofJson_of_renders {t : Transform} {j : Json} (h : t.Renders j) :
    ofJson j = .ok t := by
  obtain ⟨operation, hoperation, holds⟩ := h
  rw [ofJson_of_holds holds, Operation.ofJson_of_renders t.key hoperation]
  rfl

theorem Transform.mapM_of_renders {transforms : List Transform} {items : List Json}
    (h : List.Forall₂ Transform.Renders transforms items) :
    items.mapM Transform.ofJson = .ok transforms :=
  mapM_of_forall₂ (h.flip.imp fun _ _ => Transform.ofJson_of_renders)

section Deploy

variable {hash : String} {transforms : List Transform} {j message : Json}

theorem Deploy.ofJson?_of_message (h : Message hash transforms message)
    (hj : (j.field? "body").getD j = message) :
    ofJson? j = .ok (some ⟨hash, .success, transforms⟩) := by
  obtain ⟨deploy, result, execution, effect, items, hmessage, hdeploy, hresult, hexecution, heffect,
    hitems⟩ := h
  have hread : transformsOfJson execution = .ok transforms := by
    rw [transformsOfJson, hexecution.field? List.mem_cons_self, Option.bind_some,
      heffect.field? List.mem_cons_self]
    exact Transform.mapM_of_renders hitems
  have hresult : Effect.ofJson result = .ok ⟨.success, transforms⟩ := by
    simp only [Effect.ofJson, hresult.field? List.mem_cons_self, hread]
    rfl
  rw [ofJson?, hj, hmessage.field? List.mem_cons_self]
  simp only [hdeploy.fields?, Option.bind_some, Json.text?, hresult]
  rfl

theorem Deploy.ofJson?_of_renders (h : Deploy.Renders hash transforms j) :
    ofJson? j = .ok (some ⟨hash, .success, transforms⟩) := by
  cases h with
  | bare h noBody => exact ofJson?_of_message h (by rw [noBody, Option.getD_none])
  | body message h holds =>
    have hbody := holds.field? List.mem_cons_self
    exact ofJson?_of_message h (by rw [hbody, Option.getD_some])

end Deploy

theorem Value.Storable.readTagged {m : Value} (h : m.Storable) (trailer : Bytes) :
    Value.readTagged .any (m.tagged ++ trailer) = .ok (m, trailer) :=
  readTagged_tagged h.conforms h.sized h.bounded h.shallow.1 h.shallow.2 trailer

/-- An expected transform has the map that it stores as its payload, if it stores one. -/
theorem Transform.writes_iff_stores {t : Transform} (h : t.operation.Expected) {payload : Value} :
    t.Writes payload ↔ t.operation.Stores payload := by
  constructor
  · rintro ⟨bytes, rest, k, v, entries, hwrite, hread, hmap⟩
    rw [hwrite] at h
    cases h with
    | typed _ _ typed => exact absurd rfl typed
    | unreadable _ e rejected => rw [rejected] at hread; cases hread
    | stored m trailer storable =>
      rw [storable.readTagged] at hread
      obtain ⟨rfl, rfl⟩ := Prod.mk.inj (Except.ok.inj hread)
      exact ⟨storable, trailer, hwrite⟩
  · rintro ⟨storable, trailer, hwrite⟩
    obtain ⟨k, v, entries, hm⟩ := storable.map
    exact ⟨_, trailer, k, v, entries, hwrite, storable.readTagged trailer, hm⟩

theorem Effect.events_eq (transforms : List Transform) (target : String) (f : EventFilter) :
    events transforms target f = transforms.filterMap fun t =>
      (EffectScan.result? (Value.namesContract f.keys.identityKey (Identity.normalize target)) t).bind
        fun r => f.event? r.2 := by
  rw [events, payloads, EffectScan.results, List.filterMap_map, List.filterMap_filterMap]
  rfl

theorem Effect.events_selects_stored {transforms : List Transform}
    (h : ∀ t ∈ transforms, t.operation.Expected) (target : String) (f : EventFilter) :
    Selects (fun t e => ∃ m, t.operation.Stores m ∧ m.Names f.keys.identityKey target ∧
      f.Recognizes m e) transforms (events transforms target f) := by
  rw [events_eq]
  apply selects_filterMap
  intro t ht e
  simp only [Option.bind_eq_some_iff, EffectScan.result?_eq_some_iff,
    Transform.payload?_eq_some_iff, Value.namesContract_eq_true_iff,
    EventFilter.event?_eq_some_iff, Transform.writes_iff_stores (h t ht)]
  constructor
  · rintro ⟨r, ⟨-, hstores, hnames⟩, hevent⟩
    exact ⟨r.2, hstores, hnames, hevent⟩
  · rintro ⟨m, hstores, hnames, hevent⟩
    exact ⟨(t, m), ⟨rfl, hstores, hnames⟩, hevent⟩

/-- From a message to its events. The message of a node about a successful deploy is read as just the
transforms written into it. The events extracted are those of the maps that the transforms store, in
order, where a map names the target and is of a recognized kind. -/
theorem Deploy.ofJson?_and_extract_of_renders {hash : String} {transforms : List Transform} {j : Json}
    (hj : Deploy.Renders hash transforms j) (h : ∀ t ∈ transforms, t.operation.Expected) :
    Deploy.ofJson? j = .ok (some ⟨hash, .success, transforms⟩) ∧
      ∀ target f, ∃ events matched,
        Effect.extract ⟨.success, transforms⟩ target f = .ok ⟨matched, events⟩ ∧
        (matched = true ↔ events ≠ []) ∧
        Selects (fun t e => ∃ m, t.operation.Stores m ∧ m.Names f.keys.identityKey target ∧
          f.Recognizes m e) transforms events := by
  refine ⟨Deploy.ofJson?_of_renders hj, fun target f => ?_⟩
  refine ⟨_, _, Effect.extract_success transforms target f, ?_,
    Effect.events_selects_stored h target f⟩
  simp

def mintPayload : Value :=
  .ofPairs [("cep78_contract_package", "hash-0f"), ("event_type", "Mint")]

theorem storable_mintPayload : mintPayload.Storable where
  map := ⟨_, _, _, rfl⟩
  conforms := by decide +kernel
  sized := by decide +kernel
  bounded := by decide +kernel
  shallow := by decide +kernel

def mintTransforms : List Transform :=
  [⟨"hash-01", .other "Identity"⟩, ⟨"balance-02", .other "AddUInt512"⟩,
    ⟨"hash-01", .addKeys [⟨"events", "uref-03-007"⟩]⟩, ⟨"uref-03-007", .write .u8 [0xab]⟩,
    ⟨"dictionary-04", .write .any [17, 10]⟩,
    ⟨"dictionary-05", .write .any (mintPayload.tagged ++ [0x42])⟩]

def mintContent : Json :=
  .obj [("bytes", .str (Hex.encode (mintPayload.tagged ++ [0x42]))), ("parsed", .null),
    ("cl_type", .str "Any")]

def mintItems : List Json :=
  [.obj [("key", .str "hash-01"), ("transform", .str "Identity")],
    .obj [("transform", .obj [("AddUInt512", .str "100")]), ("key", .str "balance-02")],
    .obj [("key", .str "hash-01"), ("transform", .obj [("AddKeys",
      .arr [.obj [("key", .str "uref-03-007"), ("name", .str "events")]])])],
    Transform.writeItem "uref-03-007" (.str "U8") "aB",
    Transform.writeItem "dictionary-04" (.str "Any") "110A",
    .obj [("key", .str "dictionary-05"), ("transform", .obj [("WriteCLValue", mintContent)])]]

theorem renders_mintItems : List.Forall₂ Transform.Renders mintTransforms mintItems := by
  have hkeys : List.Forall₂ NamedKey.Renders [⟨"events", "uref-03-007"⟩]
      [.obj [("key", .str "uref-03-007"), ("name", .str "events")]] :=
    .cons (.obj _ (by decide) (by simp)) .nil
  have hcontent : mintContent.Holds
      [("cl_type", .str "Any"), ("bytes", .str (Hex.encode (mintPayload.tagged ++ [0x42])))] :=
    .obj _ (by decide) (by simp)
  refine .cons ⟨_, .bare "Identity", Json.holds_self (by decide)⟩ ?_
  refine .cons ⟨_, .tagged "AddUInt512" (.str "100") (by decide) (by decide),
    .obj _ (by decide) (by simp)⟩ ?_
  refine .cons ⟨_, .addKeys _ _ hkeys _ (Json.holds_self (by decide)) rfl, Json.holds_self (by decide)⟩ ?_
  refine .cons (Transform.renders_writeItem "uref-03-007" (by decide)) ?_
  refine .cons (Transform.renders_writeItem "dictionary-04" (by decide)) ?_
  exact .cons ⟨_, .write .any _ _ (by decide +kernel) _ _ hcontent (Json.holds_self (by decide)),
    Json.holds_self (by decide)⟩ .nil

def mintExecution : Json :=
  .obj [("cost", .str "100000000"), ("transfers", .arr []),
    ("effect", .obj [("operations", .arr []), ("transforms", .arr mintItems)])]

def mintDeploy : Json :=
  .obj [("deploy_hash", .str "9a"), ("block_hash", .str "ffee"),
    ("execution_result", .obj [("Success", mintExecution)])]

theorem message_mintDeploy :
    Deploy.Message "9a" mintTransforms (.obj [("DeployProcessed", mintDeploy)]) := by
  refine .processed mintDeploy (.obj [("Success", mintExecution)]) mintExecution
    (.obj [("operations", .arr []), ("transforms", .arr mintItems)]) mintItems
    (.obj _ ?_ ?_) (.obj _ ?_ ?_) (.obj _ ?_ ?_) (.obj _ ?_ ?_) (.obj _ ?_ ?_) renders_mintItems
  all_goals simp

theorem ofJson?_and_extract_mint :
    let j := Json.obj [("body", .obj [("DeployProcessed", mintDeploy)])]
    Deploy.Renders "9a" mintTransforms j ∧ (∀ t ∈ mintTransforms, t.operation.Expected) ∧
      Deploy.ofJson? j = .ok (some ⟨"9a", .success, mintTransforms⟩) ∧
      ∀ target f, ∃ events matched,
        Effect.extract ⟨.success, mintTransforms⟩ target f = .ok ⟨matched, events⟩ ∧
        (matched = true ↔ events ≠ []) ∧
        Selects (fun t e => ∃ m, t.operation.Stores m ∧ m.Names f.keys.identityKey target ∧
          f.Recognizes m e) mintTransforms events := by
  intro j
  have hj : Deploy.Renders "9a" mintTransforms j :=
    .body _ message_mintDeploy (.obj _ (by simp) (by simp))
  have hexpected : ∀ t ∈ mintTransforms, t.operation.Expected := by
    rw [mintTransforms]
    simp only [List.forall_mem_cons, List.not_mem_nil, false_implies, implies_true, and_true]
    refine ⟨.other _ (by decide) (by decide), .other _ (by decide) (by decide), .addKeys _,
      .typed _ _ (by decide), .unreadable _ _ rfl, .stored _ _ storable_mintPayload⟩
  exact ⟨hj, hexpected, Deploy.ofJson?_and_extract_of_renders hj hexpected⟩

end NftLedger
