import NftLedger.Effect.Selection
import NftLedger.Proofs.Identity

namespace NftLedger

theorem selects_filterMap {α β : Type} {R : α → β → Prop} {as : List α} {f : α → Option β}
    (h : ∀ a ∈ as, ∀ b, f a = some b ↔ R a b) :
    Selects R as (as.filterMap f) := by
  induction as with
  | nil => exact .nil
  | cons a as ih =>
    obtain ⟨ha, has⟩ := List.forall_mem_cons.mp h
    cases hf : f a with
    | none =>
      rw [List.filterMap_cons_none hf]
      refine .skip (fun b hb => ?_) (ih has)
      rw [← ha, hf] at hb
      cases hb
    | some b =>
      rw [List.filterMap_cons_some hf]
      exact .take ((ha b).mp hf) (ih has)

namespace Value

theorem field?_eq_some_iff {payload found : Value} {name : String} :
    payload.field? name = some found ↔ payload.Holds name found := by
  cases payload with
  | map k v entries =>
    have hfind : (map k v entries).field? name =
        (entries.find? (·.1 = .string name)).map (·.2) := rfl
    rw [hfind, Option.map_eq_some_iff]
    constructor
    · rintro ⟨⟨key, _⟩, hentry, rfl⟩
      obtain ⟨hkey, before, after, rfl, hbefore⟩ := List.find?_eq_some_iff_append.mp hentry
      obtain rfl : key = .string name := by simpa using hkey
      exact ⟨k, v, before, after, rfl, fun e he => by simpa using hbefore e he⟩
    · rintro ⟨_, _, before, after, heq, hbefore⟩
      obtain ⟨-, -, rfl⟩ := Value.map.inj heq
      refine ⟨(.string name, found), List.find?_eq_some_iff_append.mpr ⟨by simp, ?_⟩, rfl⟩
      exact ⟨before, after, rfl, fun e he => by simpa using hbefore e he⟩
  | _ => simp [field?, find?, entries?, Holds]

theorem namesContract_eq_true_iff {identityKey target : String} {payload : Value} :
    payload.namesContract identityKey (Identity.normalize target) = true ↔
      payload.Names identityKey target := by
  have hspelt (s : String) : Identity.equals s (Identity.normalize target) = true ↔
      Identity.normalize s = Identity.normalize target := by
    rw [Identity.equals_normalize, Identity.equals, decide_eq_true_eq]
  rw [namesContract]
  constructor
  · intro h
    split at h
    next s hs => exact ⟨_, s, field?_eq_some_iff.mp hs, .inl rfl, (hspelt s).mp h⟩
    next k hk => exact ⟨_, k.text, field?_eq_some_iff.mp hk, .inr ⟨k, rfl, rfl⟩, (hspelt _).mp h⟩
    next => cases h
  · rintro ⟨found, s, hfound, hform, hs⟩
    rw [field?_eq_some_iff.mpr hfound]
    rcases hform with rfl | ⟨k, rfl, rfl⟩
    · exact (hspelt s).mpr hs
    · exact (hspelt k.text).mpr hs

theorem isMap_iff {v : Value} : v.isMap = true ↔ ∃ keyType valueType entries,
    v = .map keyType valueType entries := by
  cases v <;> simp [isMap, entries?]

end Value

theorem Transform.payload?_eq_some_iff {t : Transform} {payload : Value} :
    t.payload? = some payload ↔ t.Writes payload := by
  rw [payload?]
  constructor
  · intro h
    split at h
    next bytes hwrite =>
      split at h
      next v rest hread =>
        split at h
        next hmap =>
          obtain rfl := Option.some.inj h
          obtain ⟨k, t', entries, hv⟩ := Value.isMap_iff.mp hmap
          exact ⟨bytes, rest, k, t', entries, hwrite, hread, hv⟩
        next => cases h
      next => cases h
    next => cases h
  · rintro ⟨bytes, rest, k, v, entries, hwrite, hread, rfl⟩
    simp [hwrite, hread, Value.isMap, Value.entries?]

theorem EventFilter.event?_eq_some_iff {f : EventFilter} {payload : Value} {e : Event} :
    f.event? payload = some e ↔ f.Recognizes payload e := by
  have hkind (name : String) : (payload.field? f.keys.eventKindKey).bind Value.text? = some name ↔
      payload.Holds f.keys.eventKindKey (.string name) := by
    rw [← Value.field?_eq_some_iff, Option.bind_eq_some_iff]
    constructor
    · rintro ⟨v, hv, hname⟩
      cases v <;> simp_all [Value.text?]
    · exact fun h => ⟨_, h, rfl⟩
  simp only [event?, Option.bind_eq_bind, Option.bind_eq_some_iff, hkind, recognizes,
    decide_eq_true_eq, Option.ite_none_right_eq_some, Option.some.injEq, Recognizes]
  exact exists_congr fun name => and_congr_right' (and_congr_right' eq_comm)

namespace EffectScan

theorem result?_eq_some_iff {accepts : Value → Bool} {t : Transform} {r : Transform × Value} :
    result? accepts t = some r ↔ r.1 = t ∧ t.payload? = some r.2 ∧ accepts r.2 = true := by
  simp only [result?, Option.bind_eq_bind, Option.bind_eq_some_iff,
    Option.ite_none_right_eq_some, Option.some.injEq]
  constructor
  · rintro ⟨v, hv, haccepts, rfl⟩
    exact ⟨rfl, hv, haccepts⟩
  · rintro ⟨rfl, hv, haccepts⟩
    exact ⟨r.2, hv, haccepts, rfl⟩

theorem nextIn_spec (accepts : Value → Bool) (ts : List Transform) :
    (nextIn accepts ts).1 = (ts.filterMap (result? accepts)).head? ∧
      (nextIn accepts ts).2.filterMap (result? accepts) =
        (ts.filterMap (result? accepts)).tail := by
  induction ts with
  | nil => exact ⟨rfl, rfl⟩
  | cons t ts ih =>
    rw [nextIn, List.filterMap_cons, result?]
    cases t.payload? with
    | none => exact ih
    | some v =>
      by_cases h : accepts v
      · simp [h]
      · simpa [h] using ih

theorem next_spec (s : EffectScan) :
    s.next.1 = s.results.head? ∧ s.next.2.results = s.results.tail :=
  nextIn_spec s.accepts s.remaining

theorem results_after (s : EffectScan) (n : Nat) : (s.after n).results = s.results.drop n := by
  induction n with
  | zero => rfl
  | succ n ih => rw [after, (next_spec _).2, ih, List.tail_drop]

theorem call_eq (s : EffectScan) (n : Nat) : s.call n = s.results[n]? := by
  rw [call, (next_spec _).1, results_after, List.head?_drop]

theorem toList_eq (s : EffectScan) : s.toList = s.results := by
  fun_induction toList s with
  | case1 s found rest h ih =>
    have hspec := nextIn_spec s.accepts s.remaining
    rw [h] at hspec
    have hrest : results ⟨rest, s.accepts⟩ = s.results.tail := hspec.2
    rw [ih, hrest]
    exact List.cons_head?_tail hspec.1.symm
  | case2 s rest h =>
    have hspec := nextIn_spec s.accepts s.remaining
    rw [h] at hspec
    exact (List.head?_eq_none_iff.mp hspec.1.symm).symm

end EffectScan

namespace Effect

theorem scan_success (transforms : List Transform) (target : String) (keys : PayloadKeys) :
    scan ⟨.success, transforms⟩ target keys =
      .ok ⟨transforms, Value.namesContract keys.identityKey (Identity.normalize target)⟩ := rfl

def payloads (transforms : List Transform) (target : String) (keys : PayloadKeys) :
    List (Transform × Value) :=
  EffectScan.results
    ⟨transforms, Value.namesContract keys.identityKey (Identity.normalize target)⟩

def events (transforms : List Transform) (target : String) (f : EventFilter) : List Event :=
  ((payloads transforms target f.keys).map (·.2)).filterMap f.event?

theorem payloads_selects (transforms : List Transform) (target : String) (keys : PayloadKeys) :
    Selects (fun t r => r.1 = t ∧ t.Writes r.2 ∧ r.2.Names keys.identityKey target) transforms
      (payloads transforms target keys) := by
  apply selects_filterMap
  intro t _ r
  rw [EffectScan.result?_eq_some_iff, Transform.payload?_eq_some_iff,
    Value.namesContract_eq_true_iff]

theorem events_selects (transforms : List Transform) (target : String) (f : EventFilter) :
    Selects f.Recognizes ((payloads transforms target f.keys).map (·.2))
      (events transforms target f) :=
  selects_filterMap fun _ _ _ => EventFilter.event?_eq_some_iff

theorem events_append (a b : List Transform) (target : String) (f : EventFilter) :
    events (a ++ b) target f = events a target f ++ events b target f := by
  simp only [events, payloads, EffectScan.results, List.filterMap_append, List.map_append]

theorem extract_success (transforms : List Transform) (target : String) (f : EventFilter) :
    extract ⟨.success, transforms⟩ target f =
      .ok ⟨!(events transforms target f).isEmpty, events transforms target f⟩ := by
  rw [events, List.filterMap_map, payloads, ← EffectScan.toList_eq]
  rfl

/-- A failed execution has no data. In a successful one the calls of a scan give, in the order of the
transforms, the payloads that name the target, and the extraction gives the recognized events among
them; so what one stretch of transforms holds does not depend on what comes before or after it. -/
theorem scan_and_extract_select (target : String) (f : EventFilter) :
    (∀ message transforms,
      scan ⟨.failure message, transforms⟩ target f.keys = .error (.failed message) ∧
        extract ⟨.failure message, transforms⟩ target f = .error (.failed message)) ∧
    (∀ transforms, ∃ s found events matched,
      scan ⟨.success, transforms⟩ target f.keys = .ok s ∧
        Selects (fun t r => r.1 = t ∧ t.Writes r.2 ∧ r.2.Names f.keys.identityKey target)
          transforms found ∧
        (∀ n, s.call n = found[n]?) ∧
        Selects f.Recognizes (found.map (·.2)) events ∧
        extract ⟨.success, transforms⟩ target f = .ok ⟨matched, events⟩ ∧
        (matched = true ↔ events ≠ [])) ∧
    ∀ a b, ∃ x y, extract ⟨.success, a⟩ target f = .ok x ∧
      extract ⟨.success, b⟩ target f = .ok y ∧
      extract ⟨.success, a ++ b⟩ target f =
        .ok ⟨x.matched || y.matched, x.events ++ y.events⟩ := by
  refine ⟨fun message transforms => ⟨rfl, rfl⟩, fun transforms => ?_, fun a b => ?_⟩
  · refine ⟨_, _, events transforms target f, !(events transforms target f).isEmpty,
      scan_success transforms target f.keys, payloads_selects transforms target f.keys,
      EffectScan.call_eq _, events_selects transforms target f,
      extract_success transforms target f, ?_⟩
    simp
  · refine ⟨_, _, extract_success a target f, extract_success b target f, ?_⟩
    rw [extract_success, events_append]
    cases events a target f <;> rfl

end Effect

end NftLedger
