import NftLedger.Proofs.Success
import NftLedger.Schema.History

namespace NftLedger

open Json (Scan)

namespace Json.Scan

variable {α σ τ : Type} {g : σ → τ}

theorem fail_map (g : σ → τ) (e : Fault) : g <$> (fail e : Scan σ) = fail e := rfl

theorem mismatch_map (g : σ → τ) : g <$> (mismatch : Scan σ) = mismatch := by
  simp only [mismatch, seqRight_eq_bind, map_bind, fail_map]

theorem given_map (g : σ → τ) (s : Option σ) : given (s.map g) = g <$> given s := by
  cases s with
  | none => rfl
  | some s => exact (map_pure g s).symm

theorem membersWithin_map {name : Scan α} {step : α → σ → Scan σ} {step' : α → τ → Scan τ}
    (h : ∀ key s, step' key (g s) = g <$> step key s) (fuel : Nat) (first : Bool) (s : σ) :
    membersWithin name step' fuel first (g s) = g <$> membersWithin name step fuel first s := by
  induction fuel generalizing first s with
  | zero => rfl
  | succ fuel ih =>
    simp only [membersWithin, map_bind, apply_ite (g <$> ·), fail_map, map_pure]
    simp only [h, bind_map_left, ih]

theorem members_map {name : Scan α} {step : α → σ → Scan σ} {step' : α → τ → Scan τ}
    (h : ∀ key s, step' key (g s) = g <$> step key s) (s : σ) :
    members name step' (g s) = g <$> members name step s := by
  funext cs
  show membersWithin name step' _ true (g s) cs = (g <$> membersWithin name step _ true s) cs
  rw [membersWithin_map h]

theorem expectMembers_map {step : String → σ → Scan σ} {step' : String → τ → Scan τ}
    (h : ∀ key s, step' key (g s) = g <$> step key s) (s : σ) :
    expectMembers step' (g s) = g <$> expectMembers step s := by
  simp only [expectMembers, map_bind, apply_ite (g <$> ·), mismatch_map, seqRight_eq_bind,
    members_map h]

/-- Two readers of one field, where a map of states takes one to the other. -/
structure Field.Maps (g : σ → τ) (field : Field σ) (field' : Field τ) : Prop where
  name : field'.name = field.name
  taken (s : σ) : field'.taken (g s) = field.taken s
  read (s : σ) : field'.read (g s) = g <$> field.read s

variable {field : Field σ} {field' : Field τ}

theorem Field.Maps.named (h : field.Maps g field') (name : String) (s : σ) :
    Scan.named [field'] name (g s) = g <$> Scan.named [field] name s := by
  by_cases hname : field.name = name
  · simp only [Scan.named, List.find?_cons, h.name, hname, decide_true, h.taken, h.read,
      apply_ite (g <$> ·), fail_map, seqRight_eq_bind, map_bind]
  · simp only [Scan.named, List.find?_cons, List.find?_nil, h.name, hname, decide_false,
      seqRight_eq_bind, map_bind, map_pure]

theorem Field.Maps.positional (h : field.Maps g field') (s : σ) :
    Scan.positional [field'] true (g s) = g <$> Scan.positional [field] true s := by
  simp only [Scan.positional, h.read, apply_ite (g <$> ·), fail_map, seqRight_eq_bind, map_bind,
    map_pure, bind_map_left]

theorem Field.Maps.record (h : field.Maps g field') (s : σ) :
    Scan.record [field'] (g s) = g <$> Scan.record [field] s := by
  simp only [Scan.record, map_bind, apply_ite (g <$> ·), mismatch_map, seqRight_eq_bind,
    members_map h.named, h.positional]

theorem run_map (g : σ → τ) (reader : Scan σ) (text : String) :
    run (g <$> reader) text = g <$> run reader text := by
  unfold run
  rw [map_eq_pure_bind]
  show (reader text.toList >>= fun p => pure (g p.1, p.2)) >>= _ = _
  simp only [bind_assoc, pure_bind, map_bind, apply_ite (g <$> ·), map_pure]
  rfl

end Json.Scan

namespace Schema

open Json.Scan

variable {σ τ : Type} {g : σ → τ} {put : σ → String → Property → σ}
  {put' : τ → String → Property → τ}

theorem gather_map (h : ∀ s name p, put' (g s) name p = g (put s name p)) (start : σ) :
    gather put' (g start) = g <$> gather put start := by
  have hproperty (name : String) (s : σ) :
      gatherProperty put' name (g s) = g <$> gatherProperty put name s := by
    simp only [gatherProperty, map_bind, map_pure, h]
  have hfield : (gatherField put start).Maps (Option.map g) (gatherField put' (g start)) := by
    refine ⟨rfl, fun s => Option.isSome_map, fun s => ?_⟩
    show some <$> expectMembers (gatherProperty put') (g start) =
      Option.map g <$> some <$> expectMembers (gatherProperty put) start
    rw [expectMembers_map hproperty, ← comp_map, ← comp_map]
    rfl
  have hrecord : Json.Scan.record [gatherField put' (g start)] none = _ := hfield.record none
  rw [gather, hrecord, gather, bind_map_left, map_bind]
  exact congrArg _ (funext (given_map g))

theorem insert_ofList (given : List (String × Property)) (name : String) (p : Property) :
    (ofList given).insert name p = ofList (given ++ [(name, p)]) := by
  simp only [ofList, List.foldl_append, List.foldl_cons, List.foldl_nil]

theorem ofText_eq (text : String) : ofText text = ofList <$> listed text := by
  have hscan : scan = ofList <$> gather (fun given name p => given ++ [(name, p)]) [] :=
    gather_map insert_ofList []
  rw [ofText, hscan, run_map, listed]

end Schema

end NftLedger
