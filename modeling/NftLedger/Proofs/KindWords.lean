import NftLedger.Identity.Spelling
import NftLedger.Proofs.Identity

namespace NftLedger

namespace Text

variable {front back cs : List Char}

theorem trim_blank_append (h : ∀ c ∈ front, isBlank c = true) (cs : List Char) :
    trim (front ++ cs) = trim cs := by
  rw [trim, trimLeft, List.dropWhile_append_of_pos h]
  rfl

theorem trimRight_append_blank (h : ∀ c ∈ back, isBlank c = true) (cs : List Char) :
    trimRight (cs ++ back) = trimRight cs := by
  rw [trimRight, List.reverse_append, List.dropWhile_append_of_pos (by simpa using h)]
  rfl

theorem trim_eq_nil (h : ∀ c ∈ cs, isBlank c = true) : trim cs = [] := by
  rw [trim, trimLeft, List.dropWhile_eq_nil_iff.mpr h]
  rfl

theorem trim_append_blank (h : ∀ c ∈ back, isBlank c = true) (cs : List Char) :
    trim (cs ++ back) = trim cs := by
  by_cases hcs : ∀ c ∈ cs, isBlank c = true
  · rw [trim_eq_nil hcs, trim_eq_nil (List.forall_mem_append.mpr ⟨hcs, h⟩)]
  · rw [← List.dropWhile_eq_nil_iff, ← List.isEmpty_iff] at hcs
    rw [trim, trimLeft, List.dropWhile_append, if_neg hcs]
    exact trimRight_append_blank h _

theorem trim_trimRight (cs : List Char) : trim (trimRight cs) = trim cs := by
  have hback : ∀ c ∈ cs.rtakeWhile isBlank, isBlank c = true := fun c => List.mem_rtakeWhile_imp
  have hcs : trimRight cs ++ cs.rtakeWhile isBlank = cs := List.rdropWhile_append_rtakeWhile
  rw [← trim_append_blank hback, hcs]

theorem trimLeft_append_solid (hne : front ≠ []) (h : ∀ c ∈ front, isBlank c = false)
    (cs : List Char) : trimLeft (front ++ cs) = front ++ cs := by
  obtain ⟨c, front, rfl⟩ := List.exists_cons_of_ne_nil hne
  exact List.dropWhile_cons_of_neg (by simp [h c])

theorem trimRight_append_solid (h : ∀ c ∈ front, isBlank c = false) (cs : List Char) :
    trimRight (front ++ cs) = front ++ trimRight cs := by
  have hfront : front.reverse.dropWhile isBlank = front.reverse := by
    apply List.dropWhile_eq_self_iff.mpr
    intro hl
    exact Bool.eq_false_iff.mp (h _ (List.mem_reverse.mp (List.getElem_mem hl)))
  rw [trimRight, List.reverse_append, List.dropWhile_append, hfront, trimRight]
  split
  next hnil => rw [List.isEmpty_iff.mp hnil]; simp
  next => simp

theorem trim_append_solid (hne : front ≠ []) (h : ∀ c ∈ front, isBlank c = false)
    (cs : List Char) : trim (front ++ cs) = front ++ trimRight cs := by
  rw [trim, trimLeft_append_solid hne h, trimRight_append_solid h]

theorem trim_solid (h : ∀ c ∈ cs, isBlank c = false) : trim cs = cs := by
  by_cases hne : cs = []
  · rw [hne]
    rfl
  · have htrim := trim_append_solid hne h []
    rwa [List.append_nil, show trimRight [] = [] from rfl, List.append_nil] at htrim

theorem isUpper_eq_false {c : Char} (h : c.toLower = c) : c.isUpper = false := by
  have hlower := toNat_toLower c
  rw [h] at hlower
  split at hlower
  next => omega
  next hcase => exact decide_eq_false hcase

end Text

theorem isLowerHex_iff {c : Char} :
    isLowerHex c = true ↔ 48 ≤ c.toNat ∧ c.toNat ≤ 57 ∨ 97 ≤ c.toNat ∧ c.toNat ≤ 102 := by
  rw [isLowerHex, Bool.or_eq_true, Bool.and_eq_true, Bool.and_eq_true]
  simp only [decide_eq_true_eq]
  exact Iff.rfl

namespace Identity

theorem dropKind?_eq_none_iff {cs : List Char} :
    dropKind? cs = none ↔ ∀ word ∈ kindWords, ¬ word.toList <+: cs := by
  rw [dropKind?, List.findSome?_eq_none_iff]
  refine forall₂_congr fun word _ => ?_
  rw [Option.eq_none_iff_forall_ne_some]
  simp only [ne_eq, Text.afterWord?_eq_some_iff, ← not_exists]
  exact not_congr (exists_congr fun rest => eq_comm)

/-- Words stand before those that they prolong: none begins a later one, and one that a later word
begins goes on with one of two texts. -/
theorem kindWords_ordered : kindWords.Pairwise fun longer word =>
    ¬ longer.toList <+: word.toList ∧
      (word.toList <+: longer.toList → ProlongsKind (longer.toList.drop word.toList.length)) := by
  decide

theorem ProlongsKind.mono {cs ds : List Char} (h : ProlongsKind cs) (hle : cs <+: ds) :
    ProlongsKind ds :=
  h.imp (·.trans hle) (·.trans hle)

theorem dropKind?_append {word : String} (hword : word ∈ kindWords) {rest : List Char}
    (hrest : ¬ ProlongsKind rest) : dropKind? (word.toList ++ rest) = some rest := by
  obtain ⟨before, after, hsplit⟩ := List.append_of_mem hword
  have hordered := kindWords_ordered
  rw [hsplit, List.pairwise_append] at hordered
  refine List.findSome?_eq_some_iff.mpr
    ⟨before, word, after, hsplit, Text.afterWord?_eq_some_iff.mpr rfl, fun longer hlonger => ?_⟩
  obtain ⟨hnot, hprolongs⟩ := hordered.2.2 longer hlonger word (by simp)
  rw [Option.eq_none_iff_forall_ne_some]
  intro rest' hafter
  have hlong : longer.toList <+: word.toList ++ rest :=
    ⟨rest', (Text.afterWord?_eq_some_iff.mp hafter).symm⟩
  -- both words begin the text, so one begins the other; the order leaves one way round
  obtain ⟨more, hmore⟩ := (List.prefix_or_prefix_of_prefix hlong
    (List.prefix_append word.toList rest)).resolve_left hnot
  have hmoreRest : more <+: rest := by
    rwa [← hmore, List.prefix_append_right_inj] at hlong
  have hmoreProlongs := hprolongs ⟨more, hmore⟩
  rw [← hmore, List.drop_left] at hmoreProlongs
  exact hrest (hmoreProlongs.mono hmoreRest)

theorem dropKinds_of_some {cs rest : List Char} (h : dropKind? cs = some rest) :
    dropKinds cs = dropKinds (Text.trim rest) := by
  rw [dropKinds]
  split
  next rest' hsome => rw [Option.some.inj (hsome.symm.trans h)]
  next hnone => rw [h] at hnone; cases hnone

theorem solid_of_lower {cs : List Char} {word : String} (hword : word ∈ kindWords)
    (hcs : cs.map Char.toLower = word.toList) : cs ≠ [] ∧ ∀ c ∈ cs, Text.isBlank c = false := by
  have hsolid : ∀ word ∈ kindWords,
      word.toList ≠ [] ∧ word.toList.any Text.isBlank = false := by decide
  obtain ⟨hne, hblank⟩ := hsolid word hword
  rw [List.any_eq_false] at hblank
  constructor
  · rintro rfl
    exact hne hcs.symm
  · intro c hc
    rw [← Text.isBlank_toLower, ← Bool.not_eq_true]
    exact hblank _ (hcs ▸ List.mem_map_of_mem hc)

theorem normalChars_kind {before word rest after : List Char} {kind : String}
    (hbefore : ∀ c ∈ before, Text.isBlank c = true) (hkind : kind ∈ kindWords)
    (hword : word.map Char.toLower = kind.toList)
    (hafter : ∀ c ∈ after, Text.isBlank c = true)
    (hrest : ¬ ProlongsKind (rest.map Char.toLower)) :
    normalChars (before ++ (word ++ (rest ++ after))) = normalChars rest := by
  obtain ⟨hne, hsolid⟩ := solid_of_lower hkind hword
  have htrimmed : (Text.trimRight rest).map Char.toLower <+: rest.map Char.toLower :=
    (List.rdropWhile_prefix Text.isBlank rest).map Char.toLower
  have hdrop := dropKind?_append hkind fun h => hrest (h.mono htrimmed)
  calc normalChars (before ++ (word ++ (rest ++ after)))
      = dropKinds ((Text.trim (word ++ rest)).map Char.toLower) := by
        rw [normalChars, Text.trim_blank_append hbefore, ← List.append_assoc,
          Text.trim_append_blank hafter]
    _ = dropKinds (kind.toList ++ (Text.trimRight rest).map Char.toLower) := by
        rw [Text.trim_append_solid hne hsolid, List.map_append, hword]
    _ = dropKinds ((Text.trim (Text.trimRight rest)).map Char.toLower) := by
        rw [dropKinds_of_some hdrop, Text.trim_map_toLower]
    _ = normalChars rest := by rw [Text.trim_trimRight, normalChars]

section Digits

variable {digits : String}

theorem isBlank_of_hex {c : Char} (h : isLowerHex c.toLower = true) : Text.isBlank c = false := by
  rw [← Text.isBlank_toLower]
  rw [isLowerHex_iff] at h
  exact Text.isBlank_eq_false (by omega) (by omega)

theorem dropKind?_hex {cs : List Char} (h : ∀ c ∈ cs, isLowerHex c = true) :
    dropKind? cs = none := by
  have hwords : ∀ word ∈ kindWords, ¬ word.toList.all isLowerHex = true := by decide
  rw [dropKind?_eq_none_iff]
  intro word hword hfront
  exact hwords word hword (List.all_eq_true.mpr fun c hc => h c (hfront.mem hc))

theorem normalChars_digits {before after : List Char} (hdigits : HexDigits digits)
    (hbefore : ∀ c ∈ before, Text.isBlank c = true) (hafter : ∀ c ∈ after, Text.isBlank c = true) :
    normalChars (before ++ (digits.toList ++ after)) = (lower digits).toList := by
  have hsolid : ∀ c ∈ digits.toList, Text.isBlank c = false := fun c hc =>
    isBlank_of_hex (hdigits c hc)
  have hlower : ∀ c ∈ digits.toList.map Char.toLower, isLowerHex c = true := by
    rwa [List.forall_mem_map]
  rw [normalChars, Text.trim_blank_append hbefore, Text.trim_append_blank hafter,
    Text.trim_solid hsolid, dropKinds_of_none (dropKind?_hex hlower), toList_lower]

theorem head?_of_spells {s : String} (hdigits : HexDigits digits) (h : Spells digits s) {c : Char}
    (hc : s.toList.head? = some c) :
    Text.isBlank c = true ∨ isLowerHex c.toLower = true ∨ c.toLower = 'h' := by
  cases h with
  | bare before after front back =>
    simp only [String.toList_append, List.head?_append, Option.or_eq_some_iff] at hc
    rcases hc with (hc | ⟨-, hc⟩) | ⟨-, hc⟩
    · exact .inl (front c (List.mem_of_head? hc))
    · exact .inr (.inl (hdigits c (List.mem_of_head? hc)))
    · exact .inl (back c (List.mem_of_head? hc))
  | kind before word rest front named spelt =>
    have hheads : ∀ kind ∈ kindWords,
        kind.toList.head?.any (fun c => isLowerHex c || c = 'h') = true := by decide
    obtain ⟨d, hd, hkind⟩ := (Option.any_eq_true _ _).mp (hheads _ named)
    rw [toList_lower, List.head?_map, Option.map_eq_some_iff] at hd
    obtain ⟨c', hhead, rfl⟩ := hd
    simp only [String.toList_append, List.head?_append, Option.or_eq_some_iff, hhead] at hc
    rcases hc with (hc | ⟨-, hc⟩) | ⟨hc, -⟩
    · exact .inl (front c (List.mem_of_head? hc))
    · obtain rfl := Option.some.inj hc
      right
      simpa using hkind
    · simp at hc

theorem not_prolongsKind_of_spells {s : String} (hdigits : HexDigits digits) (h : Spells digits s) :
    ¬ ProlongsKind (lower s).toList := by
  have hhead (d : Char) (hd : (lower s).toList.head? = some d) :
      Text.isBlank d = true ∨ isLowerHex d = true ∨ d = 'h' := by
    rw [toList_lower, List.head?_map, Option.map_eq_some_iff] at hd
    obtain ⟨c, hc, rfl⟩ := hd
    rw [Text.isBlank_toLower]
    exact head?_of_spells hdigits h hc
  rintro (⟨rest, hrest⟩ | ⟨rest, hrest⟩)
  · exact absurd (hhead 'p' (by rw [← hrest]; rfl)) (by decide)
  · exact absurd (hhead 'w' (by rw [← hrest]; rfl)) (by decide)

theorem normalize_kind {before word s after : String} (hbefore : Blank before)
    (hword : KindWord word) (hafter : Blank after) (hs : ¬ ProlongsKind (lower s).toList) :
    normalize (before ++ word ++ s ++ after) = normalize s := by
  rw [toList_lower] at hs
  have h := normalChars_kind hbefore hword (toList_lower word).symm hafter hs
  rw [normalize, normalize, ← h]
  simp only [String.toList_append, List.append_assoc]

theorem normalize_of_spells {s : String} (hdigits : HexDigits digits) (h : Spells digits s) :
    normalize s = lower digits := by
  induction h with
  | bare before after front back =>
    have h := normalChars_digits hdigits front back
    rw [normalize, String.toList_append, String.toList_append, List.append_assoc, h,
      String.ofList_toList]
  | kind before word rest front named spelt ih =>
    have hnothing : Blank "" := by simp [Blank]
    have h := normalize_kind front named hnothing (not_prolongsKind_of_spells hdigits spelt)
    rw [String.append_empty] at h
    rw [h, ih]

end Digits

theorem normalize_plain (s : String) :
    normalize (normalize s) = normalize s ∧
      Text.trim (normalize s).toList = (normalize s).toList ∧
      (∀ c ∈ (normalize s).toList, c.isUpper = false) ∧
      ∀ word ∈ kindWords, ¬ word.toList <+: (normalize s).toList := by
  have ⟨hplain, hnone⟩ := dropKinds_spec (plain_map_toLower s.toList)
  have hnormal : (normalize s).toList = dropKinds ((Text.trim s.toList).map Char.toLower) := by
    rw [normalize, String.toList_ofList, normalChars]
  rw [hnormal]
  exact ⟨normalize_normalize s, hplain.1, fun c hc => Text.isUpper_eq_false (hplain.2 c hc),
    dropKind?_eq_none_iff.mp hnone⟩

/-- Common spellings are stable and the same for all spellings. A word for a kind leaves no trace
unless the text behind it makes it a longer word; so all spellings of hexadecimal digits, under any
stack of words, have the digits themselves, in lower case, as their common spelling, and two of them
are equal exactly when the digits agree up to case. -/
theorem normalize_absorbs :
    (∀ s, normalize (normalize s) = normalize s ∧
      Text.trim (normalize s).toList = (normalize s).toList ∧
      (∀ c ∈ (normalize s).toList, c.isUpper = false) ∧
      ∀ word ∈ kindWords, ¬ word.toList <+: (normalize s).toList) ∧
    (∀ before word s after, Blank before → KindWord word → Blank after →
      ¬ ProlongsKind (lower s).toList → normalize (before ++ word ++ s ++ after) = normalize s) ∧
    (∀ digits s, HexDigits digits → Spells digits s → normalize s = lower digits) ∧
    ∀ digits digits' s s', HexDigits digits → HexDigits digits' → Spells digits s →
      Spells digits' s' → (equals s s' = true ↔ lower digits = lower digits') := by
  refine ⟨normalize_plain, fun before word s after hbefore hword hafter hs =>
    normalize_kind hbefore hword hafter hs, fun digits s => normalize_of_spells,
    fun digits digits' s s' hdigits hdigits' h h' => ?_⟩
  rw [equals, decide_eq_true_eq, normalize_of_spells hdigits h, normalize_of_spells hdigits' h']

/-- Two words, of which the first would go on if there were no blank behind it. -/
theorem normalize_absorbs_stacked :
    let s := " " ++ "CONTRACT-" ++ ("\u00a0" ++ "Contract-Wasm-" ++ ("" ++ "0aBC" ++ "\t"))
    HexDigits "0aBC" ∧ Spells "0aBC" s ∧ normalize s = "0abc" ∧
      (equals s "hash-0ABC" = true ↔ lower "0aBC" = lower "0ABC") := by
  intro s
  have hdigits : HexDigits "0aBC" := by decide
  have hdigits' : HexDigits "0ABC" := by decide
  have hs : Spells "0aBC" s :=
    .kind _ _ _ (by decide) (by decide)
      (.kind _ _ _ (by decide) (by decide) (.bare _ _ (by decide) (by decide)))
  have hs' : Spells "0ABC" "hash-0ABC" :=
    .kind "" "hash-" _ (by decide) (by decide) (.bare "" "" (by decide) (by decide))
  obtain ⟨-, -, hnormal, hequal⟩ := normalize_absorbs
  exact ⟨hdigits, hs, hnormal _ _ hdigits hs, hequal _ _ _ _ hdigits hdigits' hs hs'⟩

end Identity

end NftLedger
