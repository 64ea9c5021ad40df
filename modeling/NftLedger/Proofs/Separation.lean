import NftLedger.Proofs.Fields

namespace NftLedger.Call

variable {contract : Option Contract} {choice : SessionChoice} {c c₁ c₂ : Call} {inv : Invocation}

/-- Bundled code belongs to one entry point, except that of the two queries about a token. -/
theorem entryPoint_of_sessionCode? {name : String} (h₁ : c₁.sessionCode? = some name)
    (h₂ : c₂.sessionCode? = some name) :
    c₁.entryPoint = c₂.entryPoint ∨
      ∃ p q, (c₁ = ownerOf p ∧ c₂ = getApproved q) ∨ (c₁ = getApproved p ∧ c₂ = ownerOf q) := by
  cases c₁ <;> cases h₁ <;> cases c₂ <;> simp_all [sessionCode?, entryPoint]

theorem entryPoint_or_query (hcode : choice.code = none) (h₁ : inv.Sends choice c₁)
    (h₂ : inv.Sends choice c₂) :
    c₁.entryPoint = c₂.entryPoint ∨
      ∃ p q, (c₁ = ownerOf p ∧ c₂ = getApproved q) ∨ (c₁ = getApproved p ∧ c₂ = ownerOf q) := by
  cases hform : inv.form with
  | entryPoint =>
    have hpayload := (h₁.entryPoint hform).symm.trans (h₂.entryPoint hform)
    exact .inl (Payload.entryPoint.inj hpayload)
  | session =>
    obtain ⟨name₁, hname₁, hpayload₁⟩ := h₁.bundled hform hcode
    obtain ⟨name₂, hname₂, hpayload₂⟩ := h₂.bundled hform hcode
    obtain rfl := Payload.bundled.inj (hpayload₁.symm.trans hpayload₂)
    exact entryPoint_of_sessionCode? hname₁ hname₂

theorem value?_of_sent {form : CallForm} {f : Field}
    (h : c₁.sent contract form = c₂.sent contract form) (h₁ : f ∈ c₁.fields form)
    (h₂ : f ∈ c₂.fields form) : c₁.value? contract f = c₂.value? contract f := by
  have hfound₁ : (c₁.sent contract form).lookup f.name = c₁.value? contract f :=
    (Field.lookup_lines (c₁.nodup_fields form) f).trans (if_pos h₁)
  have hfound₂ : (c₂.sent contract form).lookup f.name = c₂.value? contract f :=
    (Field.lookup_lines (c₂.nodup_fields form) f).trans (if_pos h₂)
  rw [← hfound₁, ← hfound₂, h]

theorem Token.eq_of_content? {t u : Token}
    (hid : (t.content? .tokenId).map Content.value = (u.content? .tokenId).map Content.value)
    (hhash : (t.content? .tokenHash).map Content.value = (u.content? .tokenHash).map Content.value) :
    t = u := by
  cases t <;> cases u <;> simp_all [Token.content?, Content.value]

theorem mem_fields_of_plain {f : Field} (h : f ∈ c.plainFields) (form : CallForm) :
    f ∈ c.fields form := by
  cases form with
  | entryPoint => exact h
  | session => exact List.mem_append_left _ h

theorem eq_of_sent_query {form : CallForm} {p q : TokenQuery}
    (h : (ownerOf p).sent contract form = (getApproved q).sent contract form) : p = q := by
  have hvalue (f : Field) (hf : f ∈ (ownerOf p).plainFields) :
      (ownerOf p).value? contract f = (getApproved q).value? contract f :=
    value?_of_sent h (mem_fields_of_plain hf form) (mem_fields_of_plain hf form)
  obtain ⟨name, token⟩ := p
  obtain ⟨name', token'⟩ := q
  obtain rfl : name = name' := by
    simpa [value?, content?, ownContent?, Content.value] using hvalue .keyName (by simp [plainFields])
  obtain rfl : token = token' :=
    Token.eq_of_content? (hvalue .tokenId (by simp [plainFields]))
      (hvalue .tokenHash (by simp [plainFields]))
  rfl

theorem eq_of_prepare_query {p q : TokenQuery} (hp : (ownerOf p).prepare contract choice = .ok inv)
    (hq : (getApproved q).prepare contract choice = .ok inv) : p = q := by
  obtain ⟨-, -, args, hargs, hinv⟩ := prepare_eq_ok_iff.mp hp
  obtain ⟨-, -, args', hargs', hinv'⟩ := prepare_eq_ok_iff.mp hq
  have hsent : (ownerOf p).sent contract inv.form = (getApproved q).sent contract inv.form := by
    rw [← entries_of_arguments hargs, ← entries_of_arguments hargs', ← hinv, ← hinv']
  exact eq_of_sent_query hsent

theorem wanted_of_sessionOnly (honly : c.SessionOnly) (h : c.prepare contract choice = .ok inv) :
    choice.wanted = true := by
  obtain ⟨hform, -⟩ := prepare_eq_ok_iff.mp h
  by_cases hwanted : choice.wanted = true
  · exact hwanted
  · have hwish := SessionChoice.wish_eq_entryPoint_iff.mpr (Bool.eq_false_of_not_eq_true hwanted)
    have hc : ¬ c.IsInstall := by
      cases c <;> simp_all [SessionOnly, IsInstall]
    exact absurd ⟨hc, .inr (.inr ⟨honly, hwish⟩)⟩ (form_eq_ok hform).1

/-- The two queries are prepared alike, whatever session code is given. -/
theorem prepare_query (contract : Option Contract) (h : choice.wanted = true) (q : TokenQuery) :
    (ownerOf q).prepare contract choice = (getApproved q).prepare contract choice := by
  obtain ⟨wanted, code⟩ := choice
  cases h
  cases code <;> rfl

/-- With bundled code, two calls of different entry points are prepared alike exactly when they are the
two queries about one token. -/
theorem prepare_alike_iff (hcode : choice.code = none) (h : c₁.prepare contract choice = .ok inv) :
    c₂.prepare contract choice = .ok inv ∧ c₁.entryPoint ≠ c₂.entryPoint ↔ c₁.Sibling c₂ := by
  constructor
  · -- the name of an entry point tells the call, the code only that it is one of the queries;
    -- their arguments are compared field by field
    rintro ⟨h₂, hne⟩
    have hquery := entryPoint_or_query hcode (sends_of_prepare h) (sends_of_prepare h₂)
    rcases hquery.resolve_left hne with ⟨p, q, ⟨rfl, rfl⟩ | ⟨rfl, rfl⟩⟩
    · obtain rfl := eq_of_prepare_query h h₂
      exact ⟨p, .inl ⟨rfl, rfl⟩⟩
    · obtain rfl := eq_of_prepare_query h₂ h
      exact ⟨q, .inr ⟨rfl, rfl⟩⟩
  · rintro ⟨q, ⟨rfl, rfl⟩ | ⟨rfl, rfl⟩⟩
    · have honly : (ownerOf q).SessionOnly := trivial
      rw [← prepare_query contract (wanted_of_sessionOnly honly h) q]
      exact ⟨h, by simp [entryPoint]⟩
    · have honly : (getApproved q).SessionOnly := trivial
      rw [prepare_query contract (wanted_of_sessionOnly honly h) q]
      exact ⟨h, by simp [entryPoint]⟩

def sampleQuery : TokenQuery := ⟨"stored", .id 3⟩

theorem prepare_alike_sample : ∃ inv,
    (ownerOf sampleQuery).prepare (some sampleContract) .bundled = .ok inv ∧
      (getApproved sampleQuery).prepare (some sampleContract) .bundled = .ok inv ∧
        (ownerOf sampleQuery).entryPoint ≠ (getApproved sampleQuery).entryPoint :=
  ⟨_, rfl, (prepare_alike_iff rfl rfl).mpr ⟨sampleQuery, .inl ⟨rfl, rfl⟩⟩⟩

/-- What is sent for an owner and for an approved operator is the same. -/
theorem entryPoint_not_determined :
    ¬ ∀ c₁ c₂ : Call, ∀ contract choice inv, choice.code = none →
      c₁.prepare contract choice = .ok inv → c₂.prepare contract choice = .ok inv →
        c₁.entryPoint = c₂.entryPoint := by
  intro h
  have hname := h (ownerOf sampleQuery) (getApproved sampleQuery) (some sampleContract) .bundled _ rfl
    rfl rfl
  exact absurd hname (by decide)

end NftLedger.Call
