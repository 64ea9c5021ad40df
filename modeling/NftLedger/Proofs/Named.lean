import Mathlib.Data.Finset.Card
import NftLedger.Named

namespace NftLedger

variable {α : Type} {name other : String} {value : α} {entries history : List (String × α)}

theorem lookup_eq_some_iff_mem (h : (entries.map (·.1)).Nodup) :
    entries.lookup name = some value ↔ (name, value) ∈ entries := by
  induction entries with
  | nil => simp
  | cons e rest ih =>
    obtain ⟨n, v⟩ := e
    rw [List.map_cons, List.nodup_cons] at h
    rw [List.lookup_cons, List.mem_cons]
    by_cases hn : name = n
    · subst hn
      have hrest : (name, value) ∉ rest := fun hmem =>
        h.1 (List.mem_map.mpr ⟨(name, value), hmem, rfl⟩)
      simp [hrest, eq_comm]
    · simp [beq_false_of_ne hn, hn, ih h.2]

theorem not_mem_names_iff : name ∉ entries.map (·.1) ↔ ∀ e ∈ entries, e.1 ≠ name := by
  rw [List.mem_map, not_exists]
  exact forall_congr' fun e => not_and

theorem lookup_eq_none_iff_names : entries.lookup name = none ↔ name ∉ entries.map (·.1) := by
  rw [not_mem_names_iff, List.lookup_eq_none_iff]
  refine forall₂_congr fun e _ => ?_
  rw [bne_iff_ne]
  exact ne_comm

theorem names_putNamed_of_mem (h : name ∈ entries.map (·.1)) :
    (putNamed name value entries).map (·.1) = entries.map (·.1) := by
  induction entries with
  | nil => cases h
  | cons e rest ih =>
    obtain ⟨n, v⟩ := e
    rw [putNamed]
    by_cases hn : n = name
    · rw [if_pos hn, hn, List.map_cons, List.map_cons]
    · have hrest : name ∈ rest.map (·.1) := (List.mem_cons.mp h).resolve_left (Ne.symm hn)
      rw [if_neg hn, List.map_cons, List.map_cons, ih hrest]

theorem putNamed_of_new (h : name ∉ entries.map (·.1)) :
    putNamed name value entries = entries ++ [(name, value)] := by
  induction entries with
  | nil => rfl
  | cons e rest ih =>
    obtain ⟨n, v⟩ := e
    rw [List.map_cons, List.mem_cons, not_or] at h
    rw [putNamed, if_neg (Ne.symm h.1), ih h.2, List.cons_append]

theorem names_prefix_putNamed (name : String) (value : α) (entries : List (String × α)) :
    entries.map (·.1) <+: (putNamed name value entries).map (·.1) := by
  by_cases h : name ∈ entries.map (·.1)
  · rw [names_putNamed_of_mem h]
  · rw [putNamed_of_new h, List.map_append]
    exact List.prefix_append _ _

theorem map_putNamed {β : Type} (f : α → β) (name : String) (value : α)
    (entries : List (String × α)) :
    (putNamed name value entries).map (Prod.map id f) =
      putNamed name (f value) (entries.map (Prod.map id f)) := by
  induction entries with
  | nil => rfl
  | cons e rest ih =>
    rw [putNamed, List.map_cons, Prod.map_apply, putNamed, apply_ite (List.map _), List.map_cons,
      List.map_cons, ih]
    rfl

theorem lookup_putNamed_self (name : String) (value : α) (entries : List (String × α)) :
    (putNamed name value entries).lookup name = some value := by
  induction entries with
  | nil => simp [putNamed]
  | cons e rest ih =>
    obtain ⟨n, v⟩ := e
    rw [putNamed]
    by_cases hn : n = name
    · simp [hn]
    · rw [if_neg hn, List.lookup_cons, ih, beq_false_of_ne (Ne.symm hn)]

theorem lookup_putNamed_of_ne (h : other ≠ name) (value : α) (entries : List (String × α)) :
    (putNamed name value entries).lookup other = entries.lookup other := by
  induction entries with
  | nil => simp [putNamed, h]
  | cons e rest ih =>
    obtain ⟨n, v⟩ := e
    rw [putNamed]
    by_cases hn : n = name
    · subst hn
      simp [List.lookup_cons, beq_false_of_ne h]
    · rw [if_neg hn, List.lookup_cons, List.lookup_cons, ih]

theorem mem_of_mem_putNamed {e : String × α} (h : e ∈ putNamed name value entries) :
    e = (name, value) ∨ e ∈ entries := by
  induction entries with
  | nil => exact .inl (List.mem_singleton.mp h)
  | cons e' rest ih =>
    obtain ⟨n, v⟩ := e'
    rw [putNamed] at h
    by_cases hn : n = name
    · rw [if_pos hn] at h
      exact (List.mem_cons.mp h).imp_right (List.mem_cons_of_mem _)
    · rw [if_neg hn] at h
      rcases List.mem_cons.mp h with rfl | h
      · exact .inr List.mem_cons_self
      · exact (ih h).imp_right (List.mem_cons_of_mem _)

theorem nodup_putNamed (h : (entries.map (·.1)).Nodup) (name : String) (value : α) :
    ((putNamed name value entries).map (·.1)).Nodup := by
  by_cases hname : name ∈ entries.map (·.1)
  · rwa [names_putNamed_of_mem hname]
  · rw [putNamed_of_new hname, List.map_append, List.map_singleton, ← List.concat_eq_append]
    exact h.concat hname

theorem map_foldl_putNamed {β : Type} (f : α → β) (history entries : List (String × α)) :
    (history.foldl (fun put e => putNamed e.1 e.2 put) entries).map (Prod.map id f) =
      (history.map (Prod.map id f)).foldl (fun put e => putNamed e.1 e.2 put)
        (entries.map (Prod.map id f)) := by
  rw [List.foldl_map]
  exact (List.foldl_hom _ fun put e => (map_putNamed f e.1 e.2 put).symm).symm

theorem nodup_foldl_putNamed (history : List (String × α)) :
    ((history.foldl (fun put e => putNamed e.1 e.2 put) []).map (·.1)).Nodup := by
  induction history using List.reverseRecOn with
  | nil => exact List.nodup_nil
  | append_singleton history e ih =>
    rw [List.foldl_append]
    exact nodup_putNamed ih e.1 e.2

theorem foldl_putNamed_of_nodup (h : (entries.map (·.1)).Nodup) :
    entries.foldl (fun put e => putNamed e.1 e.2 put) [] = entries := by
  induction entries using List.reverseRecOn with
  | nil => rfl
  | append_singleton entries e ih =>
    rw [List.map_append, List.nodup_append] at h
    obtain ⟨hentries, -, hdistinct⟩ := h
    have hnew : e.1 ∉ entries.map (·.1) := fun hmem => hdistinct e.1 hmem e.1 (by simp) rfl
    rw [List.foldl_append, ih hentries, List.foldl_cons, List.foldl_nil, putNamed_of_new hnew]

theorem getElem?_putNamed {i : Nat} {e : String × α} (h : e.1 ≠ name)
    (hi : entries[i]? = some e) : (putNamed name value entries)[i]? = some e := by
  induction entries generalizing i with
  | nil => simp at hi
  | cons e' rest ih =>
    obtain ⟨n, v⟩ := e'
    rw [putNamed]
    cases i with
    | zero =>
      obtain rfl : (n, v) = e := by simpa using hi
      rw [if_neg h, List.getElem?_cons_zero]
    | succ i =>
      rw [List.getElem?_cons_succ] at hi
      split
      · rw [List.getElem?_cons_succ, hi]
      · rw [List.getElem?_cons_succ, ih hi]

theorem not_givenLast_nil : ¬ GivenLast [] name value := by
  rintro ⟨before, after, h, -⟩
  simp at h

/-- The latest of a history decides about its own name and about no other. -/
theorem givenLast_append {latest : String × α} :
    GivenLast (history ++ [latest]) name value ↔
      latest = (name, value) ∨ latest.1 ≠ name ∧ GivenLast history name value := by
  constructor
  · rintro ⟨before, after, h, hafter⟩
    rcases List.eq_nil_or_concat after with rfl | ⟨after, e, rfl⟩
    · exact .inl (List.append_inj' h rfl |>.2 |> List.singleton_inj.mp)
    · rw [List.concat_eq_append, ← List.cons_append, ← List.append_assoc] at h
      obtain ⟨rfl, he⟩ := List.append_inj' h rfl
      obtain rfl := List.singleton_inj.mp he
      refine .inr ⟨hafter latest (by simp), before, after, rfl, fun e he => hafter e ?_⟩
      simp [he]
  · rintro (rfl | ⟨hne, before, after, rfl, hafter⟩)
    · exact ⟨history, [], rfl, by simp⟩
    · refine ⟨before, after ++ [latest], by simp, fun e he => ?_⟩
      rcases List.mem_append.mp he with he | he
      · exact hafter e he
      · exact List.mem_singleton.mp he ▸ hne

theorem eraseDups_append_singleton (names : List String) (name : String) :
    (names ++ [name]).eraseDups =
      if name ∈ names then names.eraseDups else names.eraseDups ++ [name] := by
  rw [List.eraseDups_append]
  by_cases h : name ∈ names <;> simp [List.removeAll, h, List.eraseDups_cons]

/-- A name that is put takes its place among the names as they first came. -/
theorem names_putNamed {names : List String} (h : entries.map (·.1) = names.eraseDups)
    (name : String) (value : α) :
    (putNamed name value entries).map (·.1) = (names ++ [name]).eraseDups := by
  have hiff : name ∈ entries.map (·.1) ↔ name ∈ names := by rw [h, List.mem_eraseDups]
  rw [eraseDups_append_singleton]
  by_cases hname : name ∈ names
  · rw [if_pos hname, names_putNamed_of_mem (hiff.mpr hname), h]
  · rw [if_neg hname, putNamed_of_new (mt hiff.mp hname), List.map_append, h, List.map_singleton]

theorem lookup_putNamed_iff_givenLast
    (h : ∀ name value, entries.lookup name = some value ↔ GivenLast history name value)
    (name : String) (value : α) (other : String) (found : α) :
    (putNamed name value entries).lookup other = some found ↔
      GivenLast (history ++ [(name, value)]) other found := by
  rw [givenLast_append, Prod.mk.injEq]
  by_cases hother : other = name
  · subst hother
    simp [lookup_putNamed_self]
  · rw [lookup_putNamed_of_ne hother, h]
    simp [Ne.symm hother]

theorem names_foldl_putNamed (history : List (String × α)) :
    (history.foldl (fun put e => putNamed e.1 e.2 put) []).map (·.1) =
      (history.map (·.1)).eraseDups := by
  induction history using List.reverseRecOn with
  | nil => rfl
  | append_singleton history e ih =>
    rw [List.foldl_append, List.map_append]
    exact names_putNamed ih e.1 e.2

theorem lookup_foldl_putNamed_iff (history : List (String × α)) (name : String) (value : α) :
    (history.foldl (fun put e => putNamed e.1 e.2 put) []).lookup name = some value ↔
      GivenLast history name value := by
  induction history using List.reverseRecOn generalizing name value with
  | nil => exact iff_of_false (by simp) not_givenLast_nil
  | append_singleton history e ih =>
    rw [List.foldl_append]
    exact lookup_putNamed_iff_givenLast ih e.1 e.2 name value

end NftLedger
