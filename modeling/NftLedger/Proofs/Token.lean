import NftLedger.Proofs.Form

namespace NftLedger

open Json

namespace Token

theorem ofMember_member (t : Token) : ofMember t.member.1 t.member.2 = .ok t := by
  cases t with
  | id n => exact map_eq_ok_iff.mpr ⟨n, Shape.u64_toNat n, rfl⟩
  | hash text => rfl

theorem member_mem_names (t : Token) : t.member.1 ∈ names := by
  cases t <;> simp [member, names]

theorem eq_or_eq_of_mem_names {t t' : Token} (h : t.member.1 ≠ t'.member.1) {name : String}
    (hname : name ∈ names) : name = t.member.1 ∨ name = t'.member.1 := by
  cases t <;> cases t' <;> simp_all [member, names, or_comm]

/-- Two tokens take both names, so none is left for the members around them. -/
theorem front_notMem_names {front middle back : List (String × Json)} {t t' : Token}
    (h : ((front ++ t.member :: (middle ++ t'.member :: back)).map (·.1)).Nodup) :
    ∀ m ∈ front, m.1 ∉ names := by
  simp only [List.map_append, List.map_cons, List.nodup_append, List.nodup_cons, List.mem_append,
    List.mem_cons] at h
  obtain ⟨-, ⟨ht, -⟩, hfront⟩ := h
  have hne : t.member.1 ≠ t'.member.1 := fun heq => ht (.inr (.inl heq))
  intro m hm hmem
  have hm := hfront m.1 (List.mem_map_of_mem hm)
  rcases eq_or_eq_of_mem_names hne hmem with heq | heq
  · exact hm _ (.inl rfl) heq
  · exact hm _ (.inr (.inr (.inl rfl))) heq

theorem lookup_cons_member {name : String} (h : name ∉ names) (t : Token)
    (members : List (String × Json)) : (t.member :: members).lookup name = members.lookup name := by
  have hne : name ≠ t.member.1 := fun heq => h (heq ▸ t.member_mem_names)
  rw [List.lookup_cons, beq_false_of_ne hne]

/-- A token is found behind members that name none, whatever comes after it. -/
theorem ofMembers_append_member (t : Token) {front : List (String × Json)}
    (h : ∀ m ∈ front, m.1 ∉ names) (back : List (String × Json)) :
    ofMembers (front ++ t.member :: back) = .ok t := by
  have hfront : front.find? (·.1 ∈ names) = none := List.find?_eq_none.mpr (by simpa using h)
  rw [ofMembers, List.find?_append, hfront, Option.none_or, List.find?_cons_of_pos]
  · exact t.ofMember_member
  · exact decide_eq_true t.member_mem_names

end Token

section WithToken

variable {α β γ : Type} {r : Record α} {f : α → Token → β} {x : α} {t : Token} {b : β}
  {members : List (String × Json)}

theorem withToken_eq_ok_iff (name : String) : withToken name r f (.obj members) = .ok b ↔
    ∃ x t, r.ofMembers members = .ok x ∧ Token.ofMembers members = .ok t ∧ f x t = b := by
  simp only [withToken, bind_eq_ok_iff, pure_eq_ok_iff, exists_and_left]

theorem map_withToken_eq_ok_iff (name : String) {g : β → γ} {c : γ} :
    g <$> withToken name r f (.obj members) = .ok c ↔
      ∃ x t, r.ofMembers members = .ok x ∧ Token.ofMembers members = .ok t ∧ g (f x t) = c := by
  simp only [map_eq_ok_iff, withToken_eq_ok_iff]
  constructor
  · rintro ⟨_, ⟨x, t, hx, ht, rfl⟩, rfl⟩
    exact ⟨x, t, hx, ht, rfl⟩
  · rintro ⟨x, t, hx, ht, rfl⟩
    exact ⟨_, ⟨x, t, hx, ht, rfl⟩, rfl⟩

theorem withToken_eq_ok [Record.Lawful r] (h : (members.map (·.1)).Nodup) (hx : r.Builds members x)
    (ht : Token.ofMembers members = .ok t) (name : String) :
    withToken name r f (.obj members) = .ok (f x t) :=
  (withToken_eq_ok_iff _).mpr ⟨x, t, (Record.ofMembers_eq_ok_iff h).mpr hx, ht, rfl⟩

theorem withToken_ensures {P : β → Prop} (h : ∀ x t, P (f x t)) (name : String) :
    (withToken name r f).Ensures P := by
  intro j b hb
  cases j with
  | obj members =>
    obtain ⟨x, t, -, -, rfl⟩ := (withToken_eq_ok_iff _).mp hb
    exact h x t
  | _ => cases hb

end WithToken

end NftLedger
