import NftLedger.Call.Requirements

namespace NftLedger

namespace SessionChoice

variable {choice : SessionChoice}

theorem wish_eq_session_iff : choice.wish = .session ↔ choice.wanted = true := by
  rw [wish]
  cases choice.wanted <;> simp

theorem wish_eq_entryPoint_iff : choice.wish = .entryPoint ↔ choice.wanted = false := by
  rw [wish]
  cases choice.wanted <;> simp

end SessionChoice

open SessionChoice

theorem Install.conflict?_eq_none_iff {i : Install} : i.conflict? = none ↔ ¬ i.Contradictory := by
  rw [conflict?, Contradictory]
  by_cases hhash : i.identifierMode = .hash ∧ i.metadataMutability = .mutable
  · simp [hhash]
  · simp [hhash]

namespace Call

variable {contract : Option Contract} {choice : SessionChoice} {form : CallForm} {c : Call}
  {inv : Invocation}

theorem support_eq_installer_iff : c.support = .installer ↔ c.IsInstall := by
  cases c <;> simp [support, IsInstall]

theorem support_eq_entryPointOnly_iff : c.support = .entryPointOnly ↔ c.EntryPointOnly := by
  cases c <;> simp [support, EntryPointOnly]

theorem support_eq_sessionOnly_iff : c.support = .sessionOnly ↔ c.SessionOnly := by
  cases c <;> simp [support, SessionOnly]

theorem form_of_misplaced (h : c.Misplaced choice) :
    ∃ what, c.form choice = .error (.conflict what) := by
  obtain ⟨hc, h⟩ := h
  rw [form, if_neg (mt support_eq_installer_iff.mp hc)]
  by_cases hcode : (!choice.wanted && choice.code.isSome) = true
  · rw [if_pos hcode]
    exact ⟨_, rfl⟩
  · rw [if_neg hcode]
    rcases h with ⟨hgiven, hwish⟩ | ⟨honly, hwish⟩ | ⟨honly, hwish⟩
    · exact absurd (by simp [wish_eq_entryPoint_iff.mp hwish, hgiven]) hcode
    · rw [support_eq_entryPointOnly_iff.mpr honly, wish_eq_session_iff.mp hwish]
      exact ⟨_, rfl⟩
    · rw [support_eq_sessionOnly_iff.mpr honly, wish_eq_entryPoint_iff.mp hwish]
      exact ⟨_, rfl⟩

theorem form_of_isInstall (h : c.IsInstall) : c.form choice = .ok .session :=
  if_pos (support_eq_installer_iff.mpr h)

theorem form_of_placed (h : ¬ c.Misplaced choice) (hc : ¬ c.IsInstall) :
    c.form choice = .ok choice.wish := by
  have hplaced := not_or.mp fun h' => h ⟨hc, h'⟩
  obtain ⟨hcode, hform⟩ := hplaced
  rw [← support_eq_entryPointOnly_iff, ← support_eq_sessionOnly_iff] at hform
  rw [wish_eq_entryPoint_iff] at hcode hform
  rw [wish_eq_session_iff] at hform
  rw [form, if_neg (mt support_eq_installer_iff.mp hc), wish]
  cases hs : c.support <;> cases hw : choice.wanted <;> simp_all

/-- What comes of collecting the arguments. -/
inductive Collected (contract : Option Contract) (form : CallForm) (c : Call) :
    Except CallError (List (String × Value)) → Prop
  | conflict (what : Conflict) (contradictory : c.Contradictory) :
    Collected contract form c (.error (.conflict what))
  | noContract (consistent : ¬ c.Contradictory) (lacks : c.LacksContract contract form) :
    Collected contract form c (.error (.missing .contractHash))
  | noCollection (consistent : ¬ c.Contradictory) (named : ¬ c.LacksContract contract form)
    (lacks : c.LacksCollection form) : Collected contract form c (.error (.missing .collectionName))
  | noPackage (consistent : ¬ c.Contradictory) (named : ¬ c.LacksContract contract form)
    (collection : ¬ c.LacksCollection form) (lacks : c.LacksPackage contract) :
    Collected contract form c (.error (.missing .packageHash))
  | complete (args : List (String × Value)) (consistent : ¬ c.Contradictory)
    (named : ¬ c.LacksContract contract form) (collection : ¬ c.LacksCollection form)
    (package : ¬ c.LacksPackage contract) : Collected contract form c (.ok args)

theorem arguments_collected (contract : Option Contract) (form : CallForm) (c : Call) :
    Collected contract form c (c.arguments contract form) := by
  -- a call that does not name the contract can only be refused for reasons of its own
  have hfree {c : Call} (args : List (String × Value)) (h : ¬ c.NamesContract form)
      (hconsistent : ¬ c.Contradictory) (hcollection : ¬ c.LacksCollection form)
      (hpackage : ¬ c.LacksPackage contract) : Collected contract form c (.ok args) :=
    .complete args hconsistent (fun h' => h h'.2) hcollection hpackage
  cases c with
  | install i =>
    rw [arguments]
    cases hi : i.conflict? with
    | none => exact hfree _ id (Install.conflict?_eq_none_iff.mp hi) id id
    | some what =>
      have hcontradictory : i.Contradictory := Classical.not_not.mp fun h => by
        rw [Install.conflict?_eq_none_iff.mpr h] at hi
        cases hi
      exact .conflict what hcontradictory
  | mint m =>
    obtain ⟨owner, metadata, collectionName⟩ := m
    cases form with
    | entryPoint => exact hfree _ (by simp [NamesContract]) id (by simp [LacksCollection]) id
    | session =>
      cases contract with
      | none => exact .noContract id ⟨rfl, rfl⟩
      | some k =>
        cases collectionName with
        | none => exact .noCollection id (by simp [LacksContract]) ⟨rfl, rfl⟩
        | some name => exact .complete _ id (by simp [LacksContract]) (by simp [LacksCollection]) id
  | transfer t =>
    cases form with
    | entryPoint => exact hfree _ (by simp [NamesContract]) id id id
    | session =>
      cases contract with
      | none => exact .noContract id ⟨rfl, rfl⟩
      | some k => exact .complete _ id (by simp [LacksContract]) id id
  | balanceOf q | ownerOf q | getApproved q =>
    cases contract with
    | none => exact .noContract id ⟨rfl, trivial⟩
    | some k => exact .complete _ id (by simp [LacksContract]) id id
  | updatedReceipts =>
    rw [arguments]
    cases hp : contract.bind (·.package) with
    | none =>
      rw [packageArgument, hp]
      exact .noPackage id (fun h => h.2) id hp
    | some p =>
      rw [packageArgument, hp]
      exact hfree _ id id id (by simp [LacksPackage, hp])
  | _ => exact hfree _ id id id id

theorem form_eq_ok (h : c.form choice = .ok form) :
    ¬ c.Misplaced choice ∧ (c.IsInstall ∧ form = .session ∨ ¬ c.IsInstall ∧ form = choice.wish) := by
  have hplaced : ¬ c.Misplaced choice := by
    intro hmisplaced
    obtain ⟨what, hform⟩ := form_of_misplaced hmisplaced
    rw [hform] at h
    cases h
  refine ⟨hplaced, ?_⟩
  by_cases hc : c.IsInstall
  · rw [form_of_isInstall hc] at h
    exact .inl ⟨hc, (Except.ok.inj h).symm⟩
  · rw [form_of_placed hplaced hc] at h
    exact .inr ⟨hc, (Except.ok.inj h).symm⟩

theorem session_iff_of_form (h : c.form choice = .ok form) :
    form = .session ↔ c.IsInstall ∨ choice.wanted = true := by
  rcases (form_eq_ok h).2 with ⟨hc, rfl⟩ | ⟨hc, rfl⟩
  · exact iff_of_true rfl (.inl hc)
  · exact wish_eq_session_iff.trans (or_iff_right hc).symm

/-- The arguments are those of the form asked for. An installation has the same in both forms. -/
theorem arguments_of_form (contract : Option Contract) (h : c.form choice = .ok form) :
    c.arguments contract form = c.arguments contract choice.wish := by
  rcases (form_eq_ok h).2 with ⟨hc, -⟩ | ⟨-, rfl⟩
  · cases c with
    | install i => rfl
    | _ => exact hc.elim
  · rfl

theorem exists_form (h : ¬ c.Misplaced choice) : ∃ form, c.form choice = .ok form := by
  by_cases hc : c.IsInstall
  · exact ⟨_, form_of_isInstall hc⟩
  · exact ⟨_, form_of_placed h hc⟩

theorem sessionCode?_eq_none_iff : c.sessionCode? = none ↔ c.EntryPointOnly := by
  cases c <;> simp [sessionCode?, EntryPointOnly]

theorem not_isInstall_of_entryPointOnly (h : c.EntryPointOnly) : ¬ c.IsInstall := by
  cases c <;> simp_all [EntryPointOnly, IsInstall]

/-- Session code is never missing: a call without bundled code is not sent as session code. -/
theorem exists_payload (h : c.form choice = .ok form) : ∃ p, c.payload choice form = .ok p := by
  cases form with
  | entryPoint => exact ⟨_, rfl⟩
  | session =>
    rw [payload]
    cases hcode : choice.code with
    | some code => exact ⟨_, rfl⟩
    | none =>
      cases hname : c.sessionCode? with
      | some name => exact ⟨_, rfl⟩
      | none =>
        have honly := sessionCode?_eq_none_iff.mp hname
        have hc := not_isInstall_of_entryPointOnly honly
        have hwanted := ((session_iff_of_form h).mp rfl).resolve_left hc
        have hwish := wish_eq_session_iff.mpr hwanted
        exact absurd ⟨hc, .inr (.inl ⟨honly, hwish⟩)⟩ (form_eq_ok h).1

theorem prepare_of_form_error {e : CallError} (h : c.form choice = .error e) :
    c.prepare contract choice = .error e := by
  rw [prepare, h]
  rfl

theorem prepare_of_form {p : Payload} (h : c.form choice = .ok form)
    (hp : c.payload choice form = .ok p) :
    c.prepare contract choice =
      (c.arguments contract choice.wish).map fun args => ⟨form, p, Arguments.ofList args⟩ := by
  rw [prepare, h, ← arguments_of_form contract h]
  change (c.arguments contract form).bind _ = _
  cases c.arguments contract form with
  | error e => rfl
  | ok args =>
    change (c.payload choice form).bind _ = _
    rw [hp]
    rfl

theorem prepare_eq_ok_iff :
    c.prepare contract choice = .ok inv ↔
      c.form choice = .ok inv.form ∧ c.payload choice inv.form = .ok inv.payload ∧
        ∃ args, c.arguments contract inv.form = .ok args ∧ inv.args = Arguments.ofList args := by
  constructor
  · intro h
    cases hform : c.form choice with
    | error e =>
      rw [prepare_of_form_error hform] at h
      cases h
    | ok form =>
      obtain ⟨p, hp⟩ := exists_payload hform
      rw [prepare_of_form hform hp, ← arguments_of_form contract hform] at h
      cases hargs : c.arguments contract form with
      | error e =>
        rw [hargs] at h
        cases h
      | ok args =>
        rw [hargs] at h
        cases h
        exact ⟨rfl, hp, args, hargs, rfl⟩
  · rintro ⟨hform, hp, args, hargs, hinv⟩
    rw [prepare_of_form hform hp, ← arguments_of_form contract hform, hargs]
    cases inv
    cases hinv
    rfl

theorem sends_of_prepare (h : c.prepare contract choice = .ok inv) : inv.Sends choice c := by
  obtain ⟨hform, hp, -⟩ := prepare_eq_ok_iff.mp h
  refine ⟨session_iff_of_form hform, fun hentry => ?_, fun hsession code hcode => ?_,
    fun hsession hcode => ?_⟩
  · rw [hentry] at hp
    exact (Except.ok.inj hp).symm
  · rw [hsession, payload, hcode] at hp
    exact (Except.ok.inj hp).symm
  · rw [hsession, payload, hcode] at hp
    cases hname : c.sessionCode? with
    | none =>
      rw [hname] at hp
      cases hp
    | some name =>
      rw [hname] at hp
      exact ⟨name, rfl, (Except.ok.inj hp).symm⟩

/-- The outcome of every call, with each fault exactly when the faults that go before it are absent.
Nothing else can go wrong, and what is sent has the form asked for, with the code given before the
bundled one. -/
theorem prepare_outcome (contract : Option Contract) (choice : SessionChoice) (c : Call) :
    ((∃ what, c.prepare contract choice = .error (.conflict what)) ↔ c.Conflicts choice) ∧
    (c.prepare contract choice = .error (.missing .contractHash) ↔
      ¬ c.Conflicts choice ∧ c.LacksContract contract choice.wish) ∧
    (c.prepare contract choice = .error (.missing .collectionName) ↔
      ¬ c.Conflicts choice ∧ ¬ c.LacksContract contract choice.wish ∧
        c.LacksCollection choice.wish) ∧
    (c.prepare contract choice = .error (.missing .packageHash) ↔
      ¬ c.Conflicts choice ∧ ¬ c.LacksContract contract choice.wish ∧
        ¬ c.LacksCollection choice.wish ∧ c.LacksPackage contract) ∧
    ((∃ inv, c.prepare contract choice = .ok inv) ↔
      ¬ c.Conflicts choice ∧ ¬ c.LacksContract contract choice.wish ∧
        ¬ c.LacksCollection choice.wish ∧ ¬ c.LacksPackage contract) ∧
    ∀ inv, c.prepare contract choice = .ok inv → inv.Sends choice c := by
  by_cases hmisplaced : c.Misplaced choice
  · obtain ⟨what, hform⟩ := form_of_misplaced hmisplaced
    have hconflicts : c.Conflicts choice := .inl hmisplaced
    rw [prepare_of_form_error hform]
    simp [hconflicts]
  · obtain ⟨form, hform⟩ := exists_form hmisplaced
    obtain ⟨p, hp⟩ := exists_payload hform
    have hsends : ∀ inv, c.prepare contract choice = .ok inv → inv.Sends choice c :=
      fun inv => sends_of_prepare
    have hcollected := arguments_collected contract choice.wish c
    rw [prepare_of_form hform hp] at hsends ⊢
    generalize c.arguments contract choice.wish = collected at hcollected hsends ⊢
    cases hcollected with
    | conflict what contradictory =>
      have hconflicts : c.Conflicts choice := .inr contradictory
      simp [Except.map, hconflicts]
    | noContract consistent lacks =>
      have hconflicts := not_or_intro hmisplaced consistent
      simp [Except.map, Conflicts, hconflicts, lacks]
    | noCollection consistent named lacks =>
      have hconflicts := not_or_intro hmisplaced consistent
      simp [Except.map, Conflicts, hconflicts, named, lacks]
    | noPackage consistent named collection lacks =>
      have hconflicts := not_or_intro hmisplaced consistent
      simp [Except.map, Conflicts, hconflicts, named, collection, lacks]
    | complete args consistent named collection package =>
      have hconflicts := not_or_intro hmisplaced consistent
      refine ⟨?_, ?_, ?_, ?_, ?_, hsends⟩ <;>
        simp [Except.map, Conflicts, hconflicts, named, collection, package]

theorem prepare_outcome_burn :
    let inv : Invocation := ⟨.entryPoint, .entryPoint "burn", ⟨[("token_id", .u64 4)]⟩⟩
    (burn (.id 4)).prepare none .entryPoint = .ok inv ∧ inv.Sends .entryPoint (burn (.id 4)) := by
  intro inv
  have h : (burn (.id 4)).prepare none .entryPoint = .ok inv := rfl
  exact ⟨h, (prepare_outcome none .entryPoint (burn (.id 4))).2.2.2.2.2 inv h⟩

end Call

end NftLedger
