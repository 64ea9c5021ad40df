import NftLedger.Proofs.Stream

namespace NftLedger

namespace Json

def update (name : String) (change : Json → Json) : Json → Json
  | .obj members => .obj (members.map fun m => (m.1, if m.1 = name then change m.2 else m.2))
  | j => j

def insertItem (position : Nat) (item : Json) : Json → Json
  | .arr items => .arr (items.take position ++ item :: items.drop position)
  | j => j

theorem field?_update (name other : String) (change : Json → Json) (j : Json) :
    (j.update name change).field? other =
      (j.field? other).map fun k => if other = name then change k else k := by
  cases j with
  | obj members =>
    simp only [update, field?]
    induction members with
    | nil => rfl
    | cons m members ih =>
      obtain ⟨n, k⟩ := m
      rw [List.map_cons, List.lookup_cons, List.lookup_cons, ih]
      cases hn : other == n with
      | true =>
        obtain rfl := eq_of_beq hn
        rfl
      | false => rfl
  | _ => rfl

theorem field?_update_self (name : String) (change : Json → Json) (j : Json) :
    (j.update name change).field? name = (j.field? name).map change := by
  rw [field?_update]
  simp only [if_true]

end Json

/-- The member that holds the execution: a success counts before a failure. -/
def Effect.branch (result : Json) : String :=
  if (result.field? "Success").isSome then "Success" else "Failure"

def Effect.items? (result : Json) : Option Json :=
  ((result.field? (branch result)).bind (·.field? "effect")).bind (·.field? "transforms")

def Effect.insertItem (position : Nat) (item result : Json) : Json :=
  result.update (branch result) fun execution => execution.update "effect" fun effect =>
    effect.update "transforms" (Json.insertItem position item)

theorem Operation.writeParts_eq (declared : Json) (text : String) :
    writeParts (.obj [("cl_type", declared), ("bytes", .str text)]) = do
      let t ← Ty.ofJson declared
      return (t, text) :=
  Json.Record.shape_pair Prod.mk (by decide) _ _ _ _ _

theorem Transform.ofJson_writeItem {declared : Json} {fault : Json.ShapeError}
    (h : Ty.ofJson declared = .error fault) (key text : String) :
    ofJson (writeItem key declared text) = .error (.shape fault) := by
  have hparts : Operation.writeParts (.obj [("cl_type", declared), ("bytes", .str text)]) =
      .error fault := by
    rw [Operation.writeParts_eq, h]
    rfl
  rw [writeItem, ofJson_of_holds (Json.holds_self (by simp)), Operation.ofJson_write key rfl, hparts]
  rfl

theorem transformsOfJson_insert {execution : Json} {items : List Json} {transforms : List Transform}
    (hitems : (execution.field? "effect").bind (·.field? "transforms") = some (.arr items))
    (haccepted : transformsOfJson execution = .ok transforms) {item : Json} {e : EffectFault}
    (h : Transform.ofJson item = .error e) (position : Nat) :
    transformsOfJson (execution.update "effect" fun effect =>
      effect.update "transforms" (Json.insertItem position item)) = .error e := by
  obtain ⟨effect, heffect, htransforms⟩ := Option.bind_eq_some_iff.mp hitems
  have hread : items.mapM Transform.ofJson = .ok transforms := by
    rwa [transformsOfJson, hitems] at haccepted
  rw [transformsOfJson, Json.field?_update_self, heffect, Option.map_some, Option.bind_some,
    Json.field?_update_self, htransforms, Option.map_some, Json.insertItem]
  exact mapM_insert_error hread h position

namespace Effect

theorem branch_update (result : Json) (name : String) (change : Json → Json) :
    branch (result.update name change) = branch result := by
  rw [branch, branch, Json.field?_update, Option.isSome_map]

theorem ofJson_of_branch {result execution : Json}
    (h : result.field? (branch result) = some execution) :
    ∃ outcome, ofJson result = (Effect.mk outcome) <$> transformsOfJson execution := by
  rw [branch] at h
  cases hsuccess : result.field? "Success" with
  | some success =>
    rw [hsuccess] at h
    obtain rfl : success = execution := Option.some.inj (hsuccess.symm.trans h)
    exact ⟨.success, by rw [ofJson, hsuccess]⟩
  | none =>
    rw [hsuccess] at h
    have hfailure : result.field? "Failure" = some execution := h
    exact ⟨_, by rw [ofJson, hsuccess, hfailure]⟩

theorem transformsOfJson_of_branch {result execution : Json} {e : Effect}
    (hbranch : result.field? (branch result) = some execution) (h : ofJson result = .ok e) :
    transformsOfJson execution = .ok e.transforms := by
  obtain ⟨outcome, hread⟩ := ofJson_of_branch hbranch
  rw [hread] at h
  cases ht : transformsOfJson execution with
  | error fault => rw [ht] at h; cases h
  | ok transforms => rw [ht] at h; cases h; rfl

theorem ofJson_update_branch {result execution : Json} {change : Json → Json} {fault : EffectFault}
    (hbranch : result.field? (branch result) = some execution)
    (h : transformsOfJson (change execution) = .error fault) :
    ofJson (result.update (branch result) change) = .error fault := by
  have hchanged : (result.update (branch result) change).field?
      (branch (result.update (branch result) change)) = some (change execution) := by
    rw [branch_update, Json.field?_update_self, hbranch, Option.map_some]
  obtain ⟨outcome, hread⟩ := ofJson_of_branch hchanged
  rw [hread, h]
  rfl

theorem ofJson_insertItem_error {result item : Json} {e : Effect} {items : List Json}
    {fault : EffectFault} (haccepted : ofJson result = .ok e)
    (hitems : items? result = some (.arr items)) (hitem : Transform.ofJson item = .error fault)
    (position : Nat) : ofJson (insertItem position item result) = .error fault := by
  rw [items?, Option.bind_assoc] at hitems
  obtain ⟨execution, hbranch, hitems⟩ := Option.bind_eq_some_iff.mp hitems
  have hread := transformsOfJson_of_branch hbranch haccepted
  exact ofJson_update_branch hbranch (transformsOfJson_insert hitems hread hitem position)

/-- One write of an unknown type in an effect that can be read makes it one that cannot. -/
theorem ofJson_insertItem_of_unknown_type {result : Json} {e : Effect} {items : List Json}
    (haccepted : ofJson result = .ok e) (hitems : items? result = some (.arr items))
    {declared : Json} {fault : Json.ShapeError} (hunknown : Ty.ofJson declared = .error fault)
    (position : Nat) (key text : String) :
    ofJson (insertItem position (Transform.writeItem key declared text) result) =
      .error (.shape fault) := by
  have hitem := Transform.ofJson_writeItem hunknown key text
  exact ofJson_insertItem_error haccepted hitems hitem position

def mintItem : Json :=
  Transform.writeItem "dictionary-05" (.str "Any") (Hex.encode mintPayload.tagged)

def mintTransform : Transform := ⟨"dictionary-05", .write .any mintPayload.tagged⟩

def mintResult : Json := .obj [("Success", .obj [("effect", .obj [("transforms", .arr [mintItem])])])]

theorem ofJson_mintResult : ofJson mintResult = .ok ⟨.success, [mintTransform]⟩ := by
  have hitem : Transform.ofJson mintItem = .ok mintTransform :=
    Transform.ofJson_of_renders (Transform.renders_writeItem "dictionary-05" (by decide +kernel))
  have hopen : ofJson mintResult = (Effect.mk .success) <$> [mintItem].mapM Transform.ofJson := rfl
  rw [hopen, List.mapM_cons, hitem]
  rfl

theorem ofJson_insertItem_public_key :
    ofJson mintResult = .ok ⟨.success, [mintTransform]⟩ ∧
      items? mintResult = some (.arr [mintItem]) ∧
      Ty.ofJson (.str "PublicKey") = .error (.unknownName "PublicKey" Ty.names) ∧
      ofJson (insertItem 0 (Transform.writeItem "uref-06-007" (.str "PublicKey") "00") mintResult) =
        .error (.shape (.unknownName "PublicKey" Ty.names)) := by
  have hitems : items? mintResult = some (.arr [mintItem]) := rfl
  have hunknown : Ty.ofJson (.str "PublicKey") = .error (.unknownName "PublicKey" Ty.names) := rfl
  exact ⟨ofJson_mintResult, hitems, hunknown,
    ofJson_insertItem_of_unknown_type ofJson_mintResult hitems hunknown 0 "uref-06-007" "00"⟩

theorem insertItem_unknown_type_hides_mint :
    (∃ e, ofJson mintResult = .ok e ∧
      e.extract "0f" .standard = .ok ⟨true, [⟨"Mint", mintPayload⟩]⟩) ∧
    ¬ ∃ e, ofJson (insertItem 1 (Transform.writeItem "uref-06-007" (.str "I32") "00") mintResult) =
      .ok e := by
  refine ⟨⟨_, ofJson_mintResult, by decide +kernel⟩, ?_⟩
  have hunknown : Ty.ofJson (.str "I32") = .error (.unknownName "I32" Ty.names) := rfl
  have hitem := Transform.ofJson_writeItem hunknown "uref-06-007" "00"
  have hitems : items? mintResult = some (.arr [mintItem]) := rfl
  rintro ⟨e, he⟩
  rw [ofJson_insertItem_error ofJson_mintResult hitems hitem 1] at he
  cases he

end Effect

end NftLedger
