import DesignTokens.Proofs.Reference.Tidy

namespace DesignTokens

/-- A text with each placeholder replaced.  A placeholder that is the whole text takes the value as
it is, any other takes its text. -/
def substituteText (value : String → Json) (s : String) : Json :=
  match Piece.ofText s.toList with
  | [.hole inner] => value (Piece.target inner)
  | pieces => .str <| String.ofList <| pieces.flatMap fun p =>
    match p with
    | .plain text => text
    | .hole inner => (value (Piece.target inner)).spliceText.toList

/-- A text with those placeholders replaced that have a value; the others are left as they are
written. -/
def substituteSomeText (value : String → Option Json) (s : String) : Json :=
  match Piece.ofText s.toList with
  | [.hole inner] => (value (Piece.target inner)).getD (.str s)
  | pieces => .str <| String.ofList <| pieces.flatMap fun p =>
    match p with
    | .plain text => text
    | .hole inner =>
      match value (Piece.target inner) with
      | some w => w.spliceText.toList
      | none => (Piece.hole inner).source

def hasMarginText (s : String) : Bool :=
  decide ((referencedPaths s).length < 2) ||
    (Piece.ofText s.toList).any fun p => p.target?.isNone

namespace Json

/-- A value with the placeholders of all its strings replaced. -/
def substitute (value : String → Json) (v : Json) : Json := v.mapTexts (substituteText value)

/-- A value with those placeholders replaced that have a value. -/
def substituteSome (value : String → Option Json) (v : Json) : Json :=
  v.mapTexts (substituteSomeText value)

/-- Each string with two or more placeholders has a character outside them. -/
def hasMargin (v : Json) : Bool := v.texts.all hasMarginText

/-- The same, or none of the placeholders of a string stands for the empty text. -/
def hasMarginWith (value : String → Json) (v : Json) : Bool :=
  v.texts.all fun s =>
    hasMarginText s || (referencedPaths s).all fun ref => (value ref).spliceText != ""

end Json

namespace Reference

variable {first second both : Replacement} {v : Json}

theorem fillText_eq_substituteSomeText {s : String} {value : String → Option Json}
    (h : ∀ ref ∈ referencedPaths s, (first ref).1 = value ref) :
    (fillText first s).1 = substituteSomeText value s := by
  rw [substituteSomeText]
  rcases fillText_cases first s with ⟨inner, hps, hfirst⟩ | ⟨hmany, hfirst⟩
  · rw [hfirst, hps, h _ (mem_referencedPaths.mpr ⟨inner, by simp [hps], rfl⟩)]
  · rw [hfirst, fillPieces_fst]
    split
    · next inner hps => exact absurd hps (hmany inner)
    · rw [Piece.sourceAll, List.flatMap_map]
      refine congrArg (fun cs => Json.str (String.ofList cs)) ?_
      refine List.flatMap_congr fun p hp => ?_
      cases p with
      | plain text => rfl
      | hole inner =>
        rw [filled, h _ (mem_referencedPaths.mpr ⟨inner, hp, rfl⟩)]
        dsimp only
        cases value (Piece.target inner) <;> rfl

theorem fill_eq_substituteSome {value : String → Option Json}
    (h : ∀ ref ∈ v.references, (first ref).1 = value ref) :
    (fill first v).1 = v.substituteSome value := by
  rw [fill_fst_eq_mapTexts]
  exact Json.mapTexts_congr v fun s hs => fillText_eq_substituteSomeText fun ref href =>
    h ref (Json.mem_references.mpr ⟨s, hs, href⟩)

theorem substituteSomeText_some (value : String → Json) :
    substituteSomeText (fun ref => some (value ref)) = substituteText value := by
  funext s
  rw [substituteSomeText, substituteText]
  rfl

theorem fill_eq_substitute {value : String → Json}
    (h : ∀ ref ∈ v.references, (first ref).1 = some (value ref)) :
    (fill first v).1 = v.substitute value := by
  rw [fill_eq_substituteSome h, Json.substituteSome, substituteSomeText_some, Json.substitute]

end Reference

namespace Json

variable {value : String → Json} {v : Json}

theorem substitute_of_ofText_eq {s : String} {inner : List Char}
    (h : Piece.ofText s.toList = [.hole inner]) :
    (str s).substitute value = value (Piece.target inner) := by
  rw [substitute, mapTexts, substituteText, h]

theorem substitute_of_not_hasReference (h : v.hasReference = false) : v.substitute value = v := by
  have hfill : (Reference.fill (fun ref => (some (value ref), [])) v).1 = v.substitute value :=
    Reference.fill_eq_substitute fun _ _ => rfl
  rw [← hfill, Reference.fill_of_not_hasReference v h]

theorem hasReference_substitute_eq_false_iff : (v.substitute value).hasReference = false ↔
    ∀ s ∈ v.texts, (substituteText value s).hasReference = false := by
  simp only [hasReference_eq_false_iff, substitute, texts_mapTexts, List.mem_flatMap,
    forall_exists_index, and_imp]
  exact ⟨fun h s hs text htext => h text s hs htext, fun h text s hs htext => h s hs text htext⟩

theorem substituteText_of_ne {s : String} (h : ∀ inner, Piece.ofText s.toList ≠ [.hole inner]) :
    substituteText value s = .str (String.ofList ((Piece.ofText s.toList).flatMap fun p =>
      match p with
      | .plain text => text
      | .hole inner => (value (Piece.target inner)).spliceText.toList)) := by
  rw [substituteText]
  split
  · next inner hps => exact absurd hps (h inner)
  · rfl

theorem of_hasReference_substituteText {s : String}
    (h : (substituteText value s).hasReference = false) : isProperText s = true ∧
      ∀ ref ∈ splicedPaths s, openBrace ∉ (value ref).spliceText.toList := by
  by_cases hone : ∃ inner, Piece.ofText s.toList = [.hole inner]
  · obtain ⟨inner, hps⟩ := hone
    rw [isProperText, splicedPaths, hps]
    exact ⟨rfl, List.forall_mem_nil _⟩
  · have hmany : ∀ inner, Piece.ofText s.toList ≠ [.hole inner] := not_exists.mp hone
    rw [substituteText_of_ne hmany, hasReference_eq_false_iff] at h
    have hclear := h _ (List.mem_singleton_self _)
    simp only [String.toList_ofList, List.mem_flatMap, not_exists, not_and] at hclear
    rw [isProperText, List.all_eq_true, splicedPaths_of_ne hmany]
    refine ⟨fun p hp => ?_, fun ref href => ?_⟩
    · cases p with
      | plain text => simpa using hclear _ hp
      | hole inner => rfl
    · obtain ⟨inner, hinner, rfl⟩ := mem_referencedPaths.mp href
      exact hclear _ hinner

theorem isProper_of_substitute (h : (v.substitute value).hasReference = false) :
    v.isProper = true := by
  rw [isProper_iff]
  exact fun s hs =>
    (of_hasReference_substituteText (hasReference_substitute_eq_false_iff.mp h s hs)).1

theorem openBrace_not_mem_of_substitute (h : (v.substitute value).hasReference = false)
    {ref : String} (href : ref ∈ v.spliced) : openBrace ∉ (value ref).spliceText.toList := by
  obtain ⟨s, hs, hin⟩ := List.mem_flatMap.mp href
  exact (of_hasReference_substituteText (hasReference_substitute_eq_false_iff.mp h s hs)).2 ref hin

theorem hasMarginWith_of_hasMargin (h : v.hasMargin = true) : v.hasMarginWith value = true := by
  rw [hasMargin, List.all_eq_true] at h
  rw [hasMarginWith, List.all_eq_true]
  exact fun s hs => by simp [h s hs]

theorem hasMargin_of_not_hasReference (h : v.hasReference = false) : v.hasMargin = true := by
  rw [hasMargin, List.all_eq_true]
  intro s hs
  simp [hasMarginText, referencedPaths_eq_nil (hasReference_eq_false_iff.mp h s hs)]

end Json

namespace Reference

variable {first second both : Replacement} {v : Json}

theorem sourceAll_map_filled_prependPlain (cs : List Char) (ps : List Piece) :
    Piece.sourceAll ((Piece.prependPlain cs ps).map (filled first)) =
      cs ++ Piece.sourceAll (ps.map (filled first)) := by
  induction cs with
  | nil => rfl
  | cons c cs ih =>
    rw [Piece.prependPlain_cons, List.cons_append, ← ih]
    generalize Piece.prependPlain cs ps = qs
    cases qs with
    | nil => rfl
    | cons q qs => cases q <;> rfl

theorem exists_fill_append {replace : Replacement} {start rest : String} (hne : start.toList ≠ [])
    (hstart : openBrace ∉ start.toList) :
    ∃ filled, (fill replace (.str (start ++ rest))).1 = .str (start ++ filled) := by
  have hps : Piece.ofText (start ++ rest).toList =
      Piece.prependPlain start.toList (Piece.ofText rest.toList) := by
    rw [String.toList_append, Piece.ofText_append hstart]
  rw [fill]
  rcases fillText_cases replace (start ++ rest) with ⟨inner, hone, _⟩ | ⟨_, hfill⟩
  · obtain ⟨c, cs, hcs⟩ := List.exists_cons_of_ne_nil hne
    rw [hps, hcs, Piece.prependPlain_cons] at hone
    generalize Piece.prependPlain cs (Piece.ofText rest.toList) = ps at hone
    cases ps with
    | nil => cases hone
    | cons p ps => cases p <;> cases hone
  · refine ⟨String.ofList (Piece.sourceAll ((Piece.ofText rest.toList).map (filled replace))), ?_⟩
    rw [hfill, hps, fillPieces_fst, sourceAll_map_filled_prependPlain, String.ofList_append,
      String.ofList_toList]

theorem sourceAll_map_filled_joinAll (ps : List Piece) :
    Piece.sourceAll ((Piece.joinAll ps).map (filled first)) =
      Piece.sourceAll (ps.map (filled first)) := by
  induction ps with
  | nil => rfl
  | cons p ps ih =>
    rw [Piece.joinAll, List.foldr_cons, ← Piece.joinAll]
    cases p with
    | plain text =>
      rw [Piece.join, sourceAll_map_filled_prependPlain, ih]
      rfl
    | hole inner => rw [Piece.join, List.map_cons, Piece.sourceAll_cons, ih]; rfl

def LeavesMargin (replace : Replacement) (v : Json) : Prop :=
  ∀ s ∈ v.texts, hasMarginText s = true ∨
    ∀ ref ∈ referencedPaths s, ∀ w, (replace ref).1 = some w → w.spliceText ≠ ""

theorem leavesMargin_of_hasMarginWith {value : String → Json} (h : v.hasMarginWith value = true)
    (hvalue : ∀ ref ∈ v.references, ∀ w, (first ref).1 = some w → w = value ref) :
    LeavesMargin first v := by
  rw [Json.hasMarginWith, List.all_eq_true] at h
  intro s hs
  have hmargin := h s hs
  rw [Bool.or_eq_true, List.all_eq_true] at hmargin
  refine hmargin.imp id fun hfull ref href w hw => ?_
  rw [hvalue ref (Json.mem_references.mpr ⟨s, hs, href⟩) w hw]
  simpa using hfull ref href

theorem plain_notMem_of_joinAll_eq_hole {ps : List Piece} {inner text : List Char}
    (h : Piece.joinAll ps = [.hole inner]) (hne : text ≠ []) : .plain text ∉ ps := by
  intro hmem
  obtain ⟨whole, _, hin⟩ := Piece.exists_plain_mem_joinAll ⟨text, hne, hmem⟩
  simp [h] at hin

theorem length_lt_two_of_hasMarginText {s : String} (h : hasMarginText s = true)
    (hholes : ∀ p ∈ Piece.ofText s.toList, p.target?.isSome = true) :
    (Piece.ofText s.toList).length < 2 := by
  have hlength : (referencedPaths s).length = (Piece.ofText s.toList).length :=
    List.filterMap_length_eq_length.mpr hholes
  rw [hasMarginText, hlength, Bool.or_eq_true, decide_eq_true_eq, List.any_eq_true] at h
  refine h.elim id ?_
  rintro ⟨p, hp, htarget⟩
  have hsome := hholes p hp
  cases hp' : p.target? <;> simp [hp'] at htarget hsome

theorem length_eq_one_of_joinAll_eq_hole {ps : List Piece} {inner : List Char}
    (hone : Piece.joinAll (ps.map (filled first)) = [.hole inner])
    (hholes : ∀ p ∈ ps, p.target?.isSome = true)
    (hfull : ∀ inner, .hole inner ∈ ps → ∀ w, (first (Piece.target inner)).1 = some w →
      w.spliceText ≠ "") : ps.length = 1 := by
  have hleft : ∀ p ∈ ps.map (filled first), p.target?.isSome = true := by
    intro q hq
    obtain ⟨p, hp, rfl⟩ := List.mem_map.mp hq
    cases p with
    | plain text => cases hholes _ hp
    | hole inner =>
      cases hr : (first (Piece.target inner)).1 with
      | none => simp [filled, hr, Piece.target?]
      | some w =>
        have hne := hfull inner hp w hr
        rw [filled, hr] at hq
        exact absurd hq (plain_notMem_of_joinAll_eq_hole hone (by simpa using hne))
  have hcount := List.filterMap_length_eq_length.mpr hleft
  rw [← Piece.filterMap_target?_joinAll, hone, List.length_map] at hcount
  exact hcount.symm

theorem joinAll_filled_ne_hole {s : String}
    (hmargin : hasMarginText s = true ∨
      ∀ ref ∈ referencedPaths s, ∀ w, (first ref).1 = some w → w.spliceText ≠ "")
    (hmany : ∀ inner, Piece.ofText s.toList ≠ [.hole inner]) (inner : List Char) :
    Piece.joinAll ((Piece.ofText s.toList).map (filled first)) ≠ [.hole inner] := by
  intro hone
  have hholes : ∀ p ∈ Piece.ofText s.toList, p.target?.isSome = true := by
    intro p hp
    cases p with
    | plain text =>
      have hmem : Piece.plain text ∈ (Piece.ofText s.toList).map (filled first) :=
        List.mem_map.mpr ⟨.plain text, hp, rfl⟩
      exact absurd hmem (plain_notMem_of_joinAll_eq_hole hone (Piece.ne_nil_of_plain_mem hp))
    | hole inner => rfl
  have hfew : (Piece.ofText s.toList).length < 2 := by
    rcases hmargin with hmargin | hfull
    · exact length_lt_two_of_hasMarginText hmargin hholes
    · have hlength := length_eq_one_of_joinAll_eq_hole hone hholes fun inner hinner =>
        hfull _ (mem_referencedPaths.mpr ⟨inner, hinner, rfl⟩)
      omega
  cases hps : Piece.ofText s.toList with
  | nil =>
    rw [hps] at hone
    cases hone
  | cons p rest =>
    rw [hps, List.length_cons] at hfew
    obtain rfl : rest = [] := List.length_eq_zero_iff.mp (by omega)
    cases p with
    | plain text => cases hholes (.plain text) (by simp [hps])
    | hole only => exact hmany only hps

theorem filled_filled {p : Piece} (h : ∀ ref, p.target? = some ref →
    (both ref).1 = ((first ref).1).or (second ref).1) :
    filled second (filled first p) = filled both p := by
  cases p with
  | plain text => rfl
  | hole inner =>
    have hboth := h _ rfl
    simp only [filled, hboth]
    cases (first (Piece.target inner)).1 <;> rfl

theorem fill_fillText {s : String} (hs : isProperText s = true)
    (hmargin : LeavesMargin first (.str s)) (hclean : Clean first (.str s))
    (hboth : ∀ ref ∈ referencedPaths s, (both ref).1 = ((first ref).1).or (second ref).1) :
    (fill second (fillText first s).1).1 = (fillText both s).1 := by
  have hstr : ∀ text : String, fill second (.str text) = fillText second text := fun _ => by
    rw [fill]
  rcases fillText_cases first s with ⟨inner, hps, hfirst⟩ | ⟨hmany, hfirst⟩
  · have hin : Piece.target inner ∈ referencedPaths s :=
      mem_referencedPaths.mpr ⟨inner, by simp [hps], rfl⟩
    have honly : ∀ replace : Replacement, (fillText replace s).1 =
        (replace (Piece.target inner)).1.getD (.str s) := by
      intro replace
      rw [fillText, hps]
    rw [hfirst, honly both, hboth _ hin]
    cases hr : (first (Piece.target inner)).1 with
    | none => rw [Option.getD_none, hstr, honly second, Option.none_or]
    | some w =>
      rw [Option.getD_some, fill_of_not_hasReference w (hclean.whole _ hin w hr)]
      rfl
  · have hspliced : ∀ ref ∈ referencedPaths s, ∀ w, (first ref).1 = some w →
        openBrace ∉ w.spliceText.toList := fun ref href => hclean.spliced ref
      (by simpa [splicedPaths_of_ne hmany] using href)
    -- the text between the two steps has the filled pieces, and is not one placeholder
    have hpieces : Piece.ofText (fillPieces first (Piece.ofText s.toList)).1 =
        Piece.joinAll ((Piece.ofText s.toList).map (filled first)) :=
      (ofText_fillPieces (isProperText_iff.mp hs) hspliced).2
    have hmapped : ((Piece.ofText s.toList).map (filled first)).map (filled second) =
        (Piece.ofText s.toList).map (filled both) := by
      rw [List.map_map]
      refine List.map_congr_left fun p hp => filled_filled fun ref href => ?_
      exact hboth ref (List.mem_filterMap.mpr ⟨p, hp, href⟩)
    rw [hfirst, hstr]
    have hcases := fillText_cases second
      (String.ofList (fillPieces first (Piece.ofText s.toList)).1)
    rw [String.toList_ofList] at hcases
    rcases hcases with ⟨inner, hps, _⟩ | ⟨_, hsecond⟩
    · exact absurd (hpieces.symm.trans hps) (joinAll_filled_ne_hole
        (hmargin s (List.mem_singleton_self s)) hmany inner)
    · rcases fillText_cases both s with ⟨inner, hps, _⟩ | ⟨_, hfilled⟩
      · exact absurd hps (hmany inner)
      · rw [hsecond, hfilled, hpieces, fillPieces_fst, fillPieces_fst,
          sourceAll_map_filled_joinAll, hmapped]

/-- Replacing some references first and others afterwards. -/
theorem fill_fill (hv : v.isProper = true) (hmargin : LeavesMargin first v)
    (hclean : Clean first v)
    (hboth : ∀ ref ∈ v.references, (both ref).1 = ((first ref).1).or (second ref).1) :
    (fill second (fill first v).1).1 = (fill both v).1 := by
  rw [Json.isProper_iff] at hv
  rw [fill_fst_eq_mapTexts v, fill_fst_eq_mapTexts, Json.mapTexts_mapTexts, fill_fst_eq_mapTexts]
  refine Json.mapTexts_congr v fun s hs => ?_
  rw [← fill_fst_eq_mapTexts]
  refine fill_fillText (hv s hs) (fun text htext => ?_) (hclean.text hs) fun ref href =>
    hboth ref (Json.mem_references.mpr ⟨s, hs, href⟩)
  obtain rfl := List.mem_singleton.mp htext
  exact hmargin text hs

end Reference

end DesignTokens
