import NftLedger.Call.Field
import NftLedger.Proofs.Token

namespace NftLedger

open Json (Record)

/-- The entry points whose arguments name one token. -/
def tokenCalls : List String := ["burn", "transfer", "approve", "owner_of", "get_approved"]

/-- The same call for another token. -/
def Call.naming (token : Token) : Call → Call
  | burn _ => burn token
  | transfer t => transfer { t with token }
  | approve a => approve { a with token }
  | ownerOf q => ownerOf { q with token }
  | getApproved q => getApproved { q with token }
  | c => c

/-- The arguments of an entry point are a record and a token. -/
structure ReadsToken {α : Type} (name : String) (r : Record α) (f : α → Token → Call) : Prop where
  lawful : r.Lawful
  apart : ∀ s ∈ r.slots, s.name ∉ Token.names
  ofJson_eq_ok_iff (members : List (String × Json)) (c : Call) :
    Call.ofJson name (.obj members) = .ok c ↔
      ∃ x t, r.ofMembers members = .ok x ∧ Token.ofMembers members = .ok t ∧ f x t = c
  naming (x : α) (t t' : Token) : (f x t).naming t' = f x t'
  token? (x : α) (t : Token) : (f x t).token? = some t

theorem readsToken_burn : ReadsToken "burn" (pure ()) fun _ => Call.burn where
  lawful := inferInstance
  apart _ hs := absurd hs List.not_mem_nil
  ofJson_eq_ok_iff _ _ := withToken_eq_ok_iff "BurnArgs"
  naming _ _ _ := rfl
  token? _ _ := rfl

theorem readsToken_transfer : ReadsToken "transfer"
    (Prod.mk <$> .required "target" Key.ofJson <*> .required "source" Key.ofJson)
    fun p token => Call.transfer ⟨p.1, p.2, token⟩ where
  lawful := inferInstance
  apart := by simp [Functor.map, Seq.seq, Record.required, Token.names]
  ofJson_eq_ok_iff _ _ := map_withToken_eq_ok_iff "TransferArgs"
  naming _ _ _ := rfl
  token? _ _ := rfl

theorem readsToken_approve : ReadsToken "approve" (.required "operator" Key.ofJson)
    fun operator token => Call.approve ⟨operator, token⟩ where
  lawful := inferInstance
  apart := by simp [Record.required, Token.names]
  ofJson_eq_ok_iff _ _ := map_withToken_eq_ok_iff "ApproveArgs"
  naming _ _ _ := rfl
  token? _ _ := rfl

theorem readsToken_query {name : String} {wrap : TokenQuery → Call}
    (hread : ∀ j, Call.ofJson name j = wrap <$> TokenQuery.ofJson j)
    (hnaming : ∀ q t, (wrap q).naming t = wrap { q with token := t })
    (htoken : ∀ q, (wrap q).token? = some q.token) :
    ReadsToken name (.required "keyName" Json.Shape.string)
      fun keyName token => wrap ⟨keyName, token⟩ where
  lawful := inferInstance
  apart := by simp [Record.required, Token.names]
  ofJson_eq_ok_iff _ _ := by
    rw [hread]
    exact map_withToken_eq_ok_iff "StoreTokenQueryArgs"
  naming _ _ _ := hnaming _ _
  token? _ _ := htoken _

theorem exists_readsToken {name : String} (h : name ∈ tokenCalls) :
    ∃ (α : Type) (r : Record α) (f : α → Token → Call), ReadsToken name r f := by
  simp only [tokenCalls, List.mem_cons, List.not_mem_nil, or_false] at h
  rcases h with rfl | rfl | rfl | rfl | rfl
  · exact ⟨_, _, _, readsToken_burn⟩
  · exact ⟨_, _, _, readsToken_transfer⟩
  · exact ⟨_, _, _, readsToken_approve⟩
  · have h : ReadsToken "owner_of" _ _ :=
      readsToken_query (fun _ => rfl) (fun _ _ => rfl) (fun _ => rfl)
    exact ⟨_, _, _, h⟩
  · have h : ReadsToken "get_approved" _ _ :=
      readsToken_query (fun _ => rfl) (fun _ _ => rfl) (fun _ => rfl)
    exact ⟨_, _, _, h⟩

/-- Of two tokens the call is about the one that comes first, whatever stands before, between and
behind them. -/
theorem Call.names_first_token {name : String} {front middle back : List (String × Json)}
    {t first second : Token} {c : Call} (hname : name ∈ tokenCalls)
    (hread : Call.ofJson name (.obj (t.member :: (front ++ (middle ++ back)))) = .ok c)
    (hnames : ((front ++ first.member :: (middle ++ second.member :: back)).map (·.1)).Nodup) :
    Call.ofJson name (.obj (front ++ first.member :: (middle ++ second.member :: back))) =
        .ok (c.naming first) ∧
      (c.naming first).token? = some first := by
  obtain ⟨α, r, f, hr⟩ := exists_readsToken hname
  obtain ⟨x, t', hx, -, rfl⟩ := (hr.ofJson_eq_ok_iff _ _).mp hread
  have : r.Lawful := hr.lawful
  have hbuild : r.build (front ++ first.member :: (middle ++ second.member :: back)) = .ok x := by
    obtain ⟨-, -, hbuild⟩ := bind_eq_ok_iff.mp hx
    rw [← hbuild]
    refine Record.Lawful.build_congr fun s hs => ?_
    simp only [List.lookup_append, Token.lookup_cons_member (hr.apart s hs)]
  rw [hr.naming]
  refine ⟨(hr.ofJson_eq_ok_iff _ _).mpr ⟨x, first, ?_, ?_, rfl⟩, hr.token? x first⟩
  · exact (Record.ofMembers_eq_ok_iff hnames).mpr hbuild
  · exact first.ofMembers_append_member (Token.front_notMem_names hnames) _

def sampleOwner : Key := .account ⟨List.replicate 32 7, rfl⟩

theorem Call.names_first_token_transfer :
    ofJson "transfer" (.obj [("memo", .null), (Token.hash "abc").member,
        ("source", sampleOwner.toJson), (Token.id 7).member, ("target", sampleOwner.toJson)]) =
      .ok (.transfer ⟨sampleOwner, sampleOwner, .hash "abc"⟩) := by
  have hread : ofJson "transfer" (.obj ((Token.id 1).member :: ([("memo", .null)] ++
      ([("source", sampleOwner.toJson)] ++ [("target", sampleOwner.toJson)])))) =
      .ok (.transfer ⟨sampleOwner, sampleOwner, .id 1⟩) := by rfl
  exact (names_first_token (by decide) hread (by decide)).1

/-- The order decides which token is burnt. An object that is nothing but a token may not have two. -/
theorem Call.burn_two_tokens :
    ofJson "burn" (.obj [(Token.id 7).member, (Token.hash "abc").member]) = .ok (.burn (.id 7)) ∧
      ofJson "burn" (.obj [(Token.hash "abc").member, (Token.id 7).member]) =
        .ok (.burn (.hash "abc")) ∧
      ∃ e, Token.ofJson (.obj [(Token.id 7).member, (Token.hash "abc").member]) = .error e :=
  ⟨by rfl, by rfl, _, rfl⟩

end NftLedger
