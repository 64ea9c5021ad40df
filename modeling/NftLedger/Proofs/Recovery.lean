import NftLedger.Proofs.Form
import NftLedger.Proofs.Parts
import NftLedger.Value.Recovery

namespace NftLedger

open NftLedger.Json (Record Shape)

theorem U512.ofDecimal?_toString (n : U512) : ofDecimal? (toString n.toNat) = some n := by
  have hdigits : (Nat.toDigits 10 n.toNat).all Char.isDigit = true :=
    List.all_eq_true.mpr fun c hc => Nat.isDigit_of_mem_toDigits (by decide) (by decide) hc
  have hread : Nat.ofDigitChars 10 (Nat.toDigits 10 n.toNat) 0 = n.toNat :=
    Nat.ofDigitChars_ten_toDigits
  simp only [ofDecimal?, Nat.toString_eq_ofList_toDigits, String.toList_ofList, hdigits, hread,
    n.lt, and_self, dif_pos]

theorem Json.Shape.spelling_str {α : Type} {expected s : String} {read : String → Option α} {x : α}
    (h : read s = some x) : spelling expected read (.str s) = .ok x := by
  simp only [spelling, text?, Option.bind_eq_bind, Option.bind_some, h]

theorem Ty.ne_any_of_legible {t : Ty} (h : t.Legible) : t ≠ .any := by
  rintro rfl
  exact h

namespace Value

variable {t : Ty} {v : Value}

theorem itemJson_eq (items : List Value) : itemJson items = items.map toJson := by
  induction items with
  | nil => rfl
  | cons v vs ih => rw [itemJson, ih, List.map_cons]

theorem entryJson_eq (entries : List (Value × Value)) :
    entryJson entries = entries.map entryToJson := by
  induction entries with
  | nil => rfl
  | cons e entries ih => rw [entryJson, ih, List.map_cons, entryToJson]

theorem entryOfJson_toJson {key value : Shape Value} {e : Value × Value}
    (hkey : key e.1.toJson = .ok e.1) (hvalue : value e.2.toJson = .ok e.2) :
    entryOfJson key value (entryToJson e) = .ok e := by
  rw [entryOfJson, entryToJson, Record.shape_pair _ (by decide), hkey, hvalue]
  rfl

/-- Only an absent option is rendered as null. -/
theorem toJson_ne_null (h : v.ty.isOption = false) : v.toJson ≠ .null := by
  cases v with
  | option inner content => cases h
  | _ => simp [toJson]

theorem Conforms.ty_eq (hv : v.Conforms t) (ht : t.Legible) : v.ty = t :=
  hv.1.resolve_left (Ty.ne_any_of_legible ht)

/-- A value of a legible type is recovered from its document. The induction is on the parts of the
value, each of which is read with the type of its place; in a legible type that is its own type. -/
theorem ofJson_toJson (hv : v.Conforms t) (ht : t.Legible) : ofJson t v.toJson = .ok v := by
  induction v using parts_induction generalizing t with
  | step v ih =>
    obtain rfl : v.ty = t := hv.ty_eq ht
    have hparts := hv.2
    cases v with
    | bool b => rfl
    | u8 n => exact map_eq_ok_iff.mpr ⟨n, Shape.u8_toNat n, rfl⟩
    | u32 n => exact map_eq_ok_iff.mpr ⟨n, Shape.u32_toNat n, rfl⟩
    | u64 n => exact map_eq_ok_iff.mpr ⟨n, Shape.u64_toNat n, rfl⟩
    | u512 n => exact map_eq_ok_iff.mpr ⟨n, Shape.spelling_str n.ofDecimal?_toString, rfl⟩
    | string s => rfl
    | key k => exact map_eq_ok_iff.mpr ⟨k, k.ofJson_toJson, rfl⟩
    | byteArray bs =>
      have hbytes : (Hex.decode (Hex.encode bs)).toOption = some bs :=
        congrArg Except.toOption (Hex.decode_encode bs)
      exact map_eq_ok_iff.mpr ⟨bs, Shape.spelling_str hbytes, rfl⟩
    | option inner content =>
      cases content with
      | none => rfl
      | some v =>
        have hread : ofJson inner v.toJson = .ok v := ih.1 hparts ht.2
        -- a present content that is rendered as null would be read as absent
        have hpresent : v.toJson ≠ .null :=
          toJson_ne_null (by rw [Conforms.ty_eq hparts ht.2]; exact ht.1)
        refine map_eq_ok_iff.mpr ⟨some v, ?_, rfl⟩
        change Shape.optional (ofJson inner) v.toJson = _
        rw [Shape.optional_of_ne_null hpresent, hread]
        rfl
    | list item items =>
      rw [parts_list] at ih hparts
      have hread : ∀ v ∈ items, ofJson item v.toJson = .ok v :=
        fun v hv => (ih v hv).1 (hparts v hv) ht
      refine map_eq_ok_iff.mpr ⟨items, ?_, rfl⟩
      rw [toJson, itemJson_eq]
      exact mapM_map_eq_ok hread
    | map k l entries =>
      rw [parts_map] at ih hparts
      have hread : ∀ e ∈ entries, entryOfJson (ofJson k) (ofJson l) (entryToJson e) = .ok e :=
        fun e he => entryOfJson_toJson ((ih e he).1.1 (hparts e he).1 ht.1)
          ((ih e he).2.1 (hparts e he).2 ht.2)
      refine map_eq_ok_iff.mpr ⟨entries, ?_, rfl⟩
      rw [toJson, entryJson_eq]
      exact mapM_map_eq_ok hread

theorem conforms_self (h : v.Parts Fits) : v.Conforms v.ty := ⟨.inr rfl, h⟩

theorem exists_conforms (t : Ty) : ∃ v : Value, v.Conforms t := by
  cases t with
  | bool => exact ⟨.bool false, conforms_self trivial⟩
  | u8 => exact ⟨.u8 0, conforms_self trivial⟩
  | u32 => exact ⟨.u32 0, conforms_self trivial⟩
  | u64 => exact ⟨.u64 0, conforms_self trivial⟩
  | u512 => exact ⟨.u512 (.ofNat 0), conforms_self trivial⟩
  | string => exact ⟨.string "", conforms_self trivial⟩
  | key => exact ⟨.key (.hash Key.sampleAddress), conforms_self trivial⟩
  | byteArray length =>
    refine ⟨.byteArray (List.replicate length.toNat 0), .inr ?_, trivial⟩
    rw [ty, List.length_replicate, UInt32.ofNat_toNat]
  | option inner => exact ⟨.option inner none, conforms_self trivial⟩
  | list item => exact ⟨.list item [], conforms_self trivial⟩
  | map k l => exact ⟨.map k l [], conforms_self trivial⟩
  | any => exact ⟨.bool false, .inl rfl, trivial⟩

end Value

namespace Ty

open Value (conforms_self exists_conforms)

variable {t u k l : Ty} {f : Value → Value} {x : Value}

/-- Two values of the type have the same document. -/
def Ambiguous (t : Ty) : Prop :=
  ∃ v w : Value, v.Conforms t ∧ w.Conforms t ∧ v.toJson = w.toJson ∧ v ≠ w

/-- Putting values of one type into values of another, which tell them apart but whose documents show
no more of them than their own documents do. -/
structure Surrounds (t u : Ty) (f : Value → Value) : Prop where
  conforms (v : Value) (hv : v.Conforms t) : (f v).Conforms u
  toJson_congr (v w : Value) (h : v.toJson = w.toJson) : (f v).toJson = (f w).toJson
  injective (v w : Value) (h : f v = f w) : v = w

theorem surrounds_some (inner : Ty) :
    Surrounds inner (.option inner) fun v => .option inner (some v) where
  conforms _ hv := conforms_self hv
  toJson_congr _ _ h := h
  injective _ _ h := by simpa using h

theorem surrounds_item (item : Ty) : Surrounds item (.list item) fun v => .list item [v] where
  conforms _ hv := conforms_self ⟨hv, trivial⟩
  toJson_congr _ _ h := by simp only [Value.toJson, Value.itemJson, h]
  injective _ _ h := by simpa using h

theorem surrounds_key (hx : x.Conforms l) :
    Surrounds k (.map k l) fun v => .map k l [(v, x)] where
  conforms _ hv := conforms_self ⟨hv, hx, trivial⟩
  toJson_congr _ _ h := by simp only [Value.toJson, Value.entryJson, h]
  injective _ _ h := by simpa using h

theorem surrounds_value (hx : x.Conforms k) :
    Surrounds l (.map k l) fun v => .map k l [(x, v)] where
  conforms _ hv := conforms_self ⟨hx, hv, trivial⟩
  toJson_congr _ _ h := by simp only [Value.toJson, Value.entryJson, h]
  injective _ _ h := by simpa using h

theorem Ambiguous.around (h : t.Ambiguous) (hf : Surrounds t u f) : u.Ambiguous := by
  obtain ⟨v, w, hv, hw, hjson, hne⟩ := h
  exact ⟨f v, f w, hf.conforms v hv, hf.conforms w hw, hf.toJson_congr v w hjson,
    fun h => hne (hf.injective v w h)⟩

theorem ambiguous_any : Ambiguous .any :=
  ⟨.u8 0, .u32 0, ⟨.inl rfl, trivial⟩, ⟨.inl rfl, trivial⟩, rfl, by simp⟩

theorem ambiguous_option_option (t : Ty) : Ambiguous (.option (.option t)) := by
  have habsent : (Value.option t none).Conforms (.option t) := conforms_self trivial
  exact ⟨.option (.option t) none, .option (.option t) (some (.option t none)),
    conforms_self trivial, conforms_self habsent, rfl, by simp⟩

theorem legible_or_ambiguous (t : Ty) : t.Legible ∨ t.Ambiguous := by
  induction t with
  | any => exact .inr ambiguous_any
  | option inner ih =>
    rcases ih with hinner | hinner
    · cases inner with
      | option t => exact .inr (ambiguous_option_option t)
      | _ => exact .inl ⟨rfl, hinner⟩
    · exact .inr (hinner.around (surrounds_some inner))
  | list item ih => exact ih.imp_right fun hitem => hitem.around (surrounds_item item)
  | map k l ihk ihl =>
    -- a map needs some key to show an ambiguous value, and some value to show an ambiguous key
    rcases ihk with hk | hk
    · rcases ihl with hl | hl
      · exact .inl ⟨hk, hl⟩
      · obtain ⟨x, hx⟩ := exists_conforms k
        exact .inr (hl.around (surrounds_value hx))
    · obtain ⟨x, hx⟩ := exists_conforms l
      exact .inr (hk.around (surrounds_key hx))
  | _ => exact .inl trivial

end Ty

namespace Value

/-- Once the type is known, the document of a value determines the value, which can be recovered from
it. This holds of the legible types and of no others. -/
theorem toJson_faithful (t : Ty) :
    (t.Legible ↔
      ∀ v w : Value, v.Conforms t → w.Conforms t → v.toJson = w.toJson → v = w) ∧
    (t.Legible ↔ ∀ v : Value, v.Conforms t → ofJson t v.toJson = .ok v) := by
  have recovered (ht : t.Legible) (v : Value) (hv : v.Conforms t) : ofJson t v.toJson = .ok v :=
    ofJson_toJson hv ht
  have determined (h : ∀ v : Value, v.Conforms t → ofJson t v.toJson = .ok v) (v w : Value)
      (hv : v.Conforms t) (hw : w.Conforms t) (hjson : v.toJson = w.toJson) : v = w := by
    have hread := h v hv
    rw [hjson, h w hw] at hread
    exact (Except.ok.inj hread).symm
  have legible
      (h : ∀ v w : Value, v.Conforms t → w.Conforms t → v.toJson = w.toJson → v = w) :
      t.Legible := by
    rcases t.legible_or_ambiguous with ht | ⟨v, w, hv, hw, hjson, hne⟩
    · exact ht
    · exact absurd (h v w hv hw hjson) hne
  exact ⟨⟨fun ht => determined (recovered ht), legible⟩,
    ⟨recovered, fun h => legible (determined h)⟩⟩

/-- A name given twice, with the largest number and with nothing, in either order. -/
theorem toJson_faithful_repeated :
    let t : Ty := .map .string (.option .u512)
    let largest : U512 := .ofNat (Nat.pow 256 64 - 1)
    let given := (string "a", option .u512 (some (.u512 largest)))
    let absent := (string "a", option .u512 none)
    let v := map .string (.option .u512) [given, absent]
    let w := map .string (.option .u512) [absent, given]
    t.Legible ∧ v.Conforms t ∧ w.Conforms t ∧ v.toJson ≠ w.toJson ∧
      ofJson t v.toJson = .ok v ∧ ofJson t w.toJson = .ok w := by
  intro t largest given absent v w
  have ht : t.Legible := by decide
  have hv : v.Conforms t := by decide
  have hw : w.Conforms t := by decide
  have hne : v ≠ w := by simp [v, w, given, absent]
  obtain ⟨determined, recovered⟩ := toJson_faithful t
  exact ⟨ht, hv, hw, fun h => hne (determined.mp ht v w hv hw h), recovered.mp ht v hv,
    recovered.mp ht w hw⟩

end Value

end NftLedger
