import DesignTokens.Proofs.Reference.Fill

namespace DesignTokens

def isProperText (s : String) : Bool :=
  (Piece.ofText s.toList).all fun p =>
    match p with
    | .plain text => !text.contains openBrace
    | .hole _ => true

/-- The paths that the placeholders of a text name, unless it is one placeholder and nothing
else. -/
def splicedPaths (s : String) : List String :=
  match Piece.ofText s.toList with
  | [.hole _] => []
  | _ => referencedPaths s

namespace Json

def isScalar : Json → Bool
  | .arr _ | .obj _ => false
  | _ => true

/-- A scalar that refers to nothing. -/
def isPlain (v : Json) : Bool := v.isScalar && !v.hasReference

/-- A scalar in which every opening brace opens a placeholder. -/
def isTidy : Json → Bool
  | .str s => isProperText s
  | v => v.isScalar

def isProper (v : Json) : Bool := v.texts.all isProperText

def spliced (v : Json) : List String := v.texts.flatMap splicedPaths

end Json

theorem isProperText_iff {s : String} :
    isProperText s = true ↔ ∀ p ∈ Piece.ofText s.toList, p.Proper := by
  rw [isProperText, List.all_eq_true]
  refine forall₂_congr fun p hp => ?_
  cases p with
  | plain text => simp [Piece.Proper]
  | hole inner => simpa using Piece.proper_of_hole_mem hp

theorem Piece.ofText_of_not_mem {cs : List Char} (h : openBrace ∉ cs) :
    Piece.ofText cs = Piece.prependPlain cs [] := by
  rw [← List.append_nil cs, Piece.ofText_append h, List.append_nil]
  rfl

theorem referencedPaths_eq_nil {text : String} (h : openBrace ∉ text.toList) :
    referencedPaths text = [] := by
  simp [referencedPaths, Piece.ofText_of_not_mem h]

theorem isProperText_of_not_mem {s : String} (h : openBrace ∉ s.toList) :
    isProperText s = true := by
  rw [isProperText_iff, Piece.ofText_of_not_mem h]
  exact Piece.proper_prependPlain h (by simp)

theorem openBrace_not_mem_of_isProperText {s : String} (h : isProperText s = true)
    (href : referencedPaths s = []) : openBrace ∉ s.toList := by
  intro hbrace
  rw [← Piece.sourceAll_ofText s.toList] at hbrace
  obtain ⟨p, hp, hmem⟩ := List.mem_flatMap.mp hbrace
  cases p with
  | plain text => exact isProperText_iff.mp h _ hp hmem
  | hole inner =>
    have htarget : Piece.target inner ∈ referencedPaths s :=
      mem_referencedPaths.mpr ⟨inner, hp, rfl⟩
    rw [href] at htarget
    cases htarget

theorem splicedPaths_of_ne {s : String} (h : ∀ inner, Piece.ofText s.toList ≠ [.hole inner]) :
    splicedPaths s = referencedPaths s := by
  rw [splicedPaths]
  split
  · next inner hps => exact absurd hps (h inner)
  · rfl

theorem referencedPaths_of_splicedPaths {s ref : String} (h : ref ∈ splicedPaths s) :
    ref ∈ referencedPaths s := by
  rw [splicedPaths] at h
  split at h
  · cases h
  · exact h

namespace Json

variable {v : Json}

theorem isProper_iff : v.isProper = true ↔ ∀ s ∈ v.texts, isProperText s = true := by
  rw [isProper, List.all_eq_true]

theorem isPlain_iff : v.isPlain = true ↔ v.isScalar = true ∧ v.hasReference = false := by
  simp [isPlain]

@[simp] theorem spliced_str (s : String) : (str s).spliced = splicedPaths s := by
  simp [spliced, texts]

theorem isTidy_iff : v.isTidy = true ↔ v.isScalar = true ∧ v.isProper = true := by
  cases v <;> simp [isTidy, isScalar, isProper, texts]

theorem isTidy.isScalar (h : v.isTidy = true) : v.isScalar = true := (isTidy_iff.mp h).1

theorem isTidy.isProper (h : v.isTidy = true) : v.isProper = true := (isTidy_iff.mp h).2

theorem isProper_of_hasReference_eq_false (h : v.hasReference = false) : v.isProper = true :=
  isProper_iff.mpr fun s hs => isProperText_of_not_mem (hasReference_eq_false_iff.mp h s hs)

theorem references_eq_nil (h : v.hasReference = false) : v.references = [] := by
  rw [List.eq_nil_iff_forall_not_mem]
  intro ref hmem
  rw [hasReference_of_mem_references v hmem] at h
  cases h

theorem hasReference_of_references_eq_nil (h : v.isProper = true) (href : v.references = []) :
    v.hasReference = false := by
  rw [isProper_iff] at h
  rw [references_eq_flatMap, List.flatMap_eq_nil_iff] at href
  exact hasReference_eq_false_iff.mpr fun s hs =>
    openBrace_not_mem_of_isProperText (h s hs) (href s hs)

theorem isPlain_of_isTidy (h : v.isTidy = true) (href : v.references = []) : v.isPlain = true :=
  isPlain_iff.mpr ((isTidy_iff.mp h).imp_right fun hproper =>
    hasReference_of_references_eq_nil hproper href)

theorem openBrace_not_mem_spliceText (h : v.isPlain = true) :
    openBrace ∉ v.spliceText.toList := by
  obtain ⟨hscalar, href⟩ := isPlain_iff.mp h
  cases v with
  | null => decide
  | bool b => cases b <;> decide
  | num n => simpa [spliceText, compact, compactChars] using n.openBrace_not_mem_text
  | str s => simpa [spliceText, hasReference] using href
  | arr items => simp [isScalar] at hscalar
  | obj entries => simp [isScalar] at hscalar

theorem mem_references_of_mem_spliced {ref : String} (h : ref ∈ v.spliced) :
    ref ∈ v.references := by
  obtain ⟨s, hs, hin⟩ := List.mem_flatMap.mp h
  exact mem_references.mpr ⟨s, hs, referencedPaths_of_splicedPaths hin⟩

end Json

namespace Reference

variable {replace : Replacement}

theorem fillText_of_forall_eq_none {s : String}
    (h : ∀ ref ∈ referencedPaths s, (replace ref).1 = none) : (fillText replace s).1 = .str s := by
  have hfilled : ∀ p ∈ Piece.ofText s.toList, filled replace p = p := by
    intro p hp
    cases p with
    | plain text => rfl
    | hole inner => rw [filled, h _ (mem_referencedPaths.mpr ⟨inner, hp, rfl⟩)]
  rcases fillText_cases replace s with ⟨inner, hps, hfill⟩ | ⟨_, hfill⟩
  · rw [hfill, h _ (mem_referencedPaths.mpr ⟨inner, by simp [hps], rfl⟩), Option.getD_none]
  · rw [hfill, fillPieces_fst, List.map_congr_left hfilled, List.map_id', Piece.sourceAll_ofText,
      String.ofList_toList]

theorem fill_of_forall_eq_none (v : Json) (h : ∀ ref ∈ v.references, (replace ref).1 = none) :
    (fill replace v).1 = v := by
  rw [fill_fst_eq_mapTexts]
  refine .trans (Json.mapTexts_congr v fun s hs => ?_) v.mapTexts_str
  exact fillText_of_forall_eq_none fun ref href => h ref (Json.mem_references.mpr ⟨s, hs, href⟩)

theorem fill_of_references_eq_nil (v : Json) (h : v.references = []) :
    fill replace v = (v, []) := by
  apply Prod.ext
  · exact fill_of_forall_eq_none v (by simp [h])
  · rw [fill_snd, h]
    rfl

theorem fill_of_not_hasReference (v : Json) (h : v.hasReference = false) :
    fill replace v = (v, []) :=
  fill_of_references_eq_nil v (Json.references_eq_nil h)

/-- No opening brace comes into a value when its references are replaced, neither with a value nor
with a text. -/
structure Clean (replace : Replacement) (v : Json) : Prop where
  whole : ∀ ref ∈ v.references, ∀ w, (replace ref).1 = some w → w.hasReference = false
  spliced : ∀ ref ∈ v.spliced, ∀ w, (replace ref).1 = some w → openBrace ∉ w.spliceText.toList

theorem clean_of_isPlain {v : Json}
    (h : ∀ ref ∈ v.references, ∀ w, (replace ref).1 = some w → w.isPlain = true) :
    Clean replace v where
  whole := fun ref href w hw => (Json.isPlain_iff.mp (h ref href w hw)).2
  spliced := fun ref href w hw =>
    Json.openBrace_not_mem_spliceText (h ref (Json.mem_references_of_mem_spliced href) w hw)

theorem Clean.text {v : Json} (h : Clean replace v) {s : String} (hs : s ∈ v.texts) :
    Clean replace (.str s) where
  whole := fun ref href => h.whole ref (Json.mem_references.mpr ⟨s, hs, href⟩)
  spliced := fun ref href => h.spliced ref
    (List.mem_flatMap.mpr ⟨s, hs, by simpa using href⟩)

theorem ofText_fillPieces {ps : List Piece} (hps : ∀ p ∈ ps, p.Proper)
    (h : ∀ ref ∈ ps.filterMap Piece.target?, ∀ w, (replace ref).1 = some w →
      openBrace ∉ w.spliceText.toList) :
    (∀ p ∈ ps.map (filled replace), p.Proper) ∧
      Piece.ofText (fillPieces replace ps).1 = Piece.joinAll (ps.map (filled replace)) := by
  have hproper : ∀ p ∈ ps.map (filled replace), p.Proper := by
    intro q hq
    obtain ⟨p, hp, rfl⟩ := List.mem_map.mp hq
    cases p with
    | plain text => exact hps _ hp
    | hole inner =>
      rw [filled]
      split
      · next w hw => exact h _ (List.mem_filterMap.mpr ⟨_, hp, rfl⟩) w hw
      · exact hps _ hp
  exact ⟨hproper, by rw [fillPieces_fst, Piece.ofText_sourceAll hproper]⟩

theorem filterMap_target?_filled (ps : List Piece) :
    (ps.map (filled replace)).filterMap Piece.target? =
      (ps.filterMap Piece.target?).filter fun ref => (replace ref).1.isNone := by
  induction ps with
  | nil => rfl
  | cons p ps ih =>
    cases p with
    | plain text => simpa [filled] using ih
    | hole inner =>
      cases hr : (replace (Piece.target inner)).1 with
      | none => simp [filled, hr, ih]
      | some w => simp [filled, hr, ih]

theorem fillText_proper {s : String} (hs : isProperText s = true)
    (hclean : Clean replace (.str s)) :
    (fillText replace s).1.isProper = true ∧
      (fillText replace s).1.references =
        (referencedPaths s).filter (fun ref => (replace ref).1.isNone) ∧
      ∀ ref ∈ (fillText replace s).1.spliced, ref ∈ splicedPaths s := by
  rcases fillText_cases replace s with ⟨inner, hps, hfill⟩ | ⟨hmany, hfill⟩
  · have hrefs : referencedPaths s = [Piece.target inner] := by simp [referencedPaths, hps]
    rw [hfill, hrefs]
    cases hr : (replace (Piece.target inner)).1 with
    | none => simp [Json.isProper, Json.texts, Json.references, Json.spliced, hs, hrefs, hr]
    | some w =>
      have hw := hclean.whole _ (by simp [Json.references, hrefs]) w hr
      refine ⟨Json.isProper_of_hasReference_eq_false hw, ?_, fun ref href => ?_⟩
      · simp [Json.references_eq_nil hw, hr]
      · have href := Json.mem_references_of_mem_spliced href
        rw [Option.getD_some, Json.references_eq_nil hw] at href
        cases href
  · have hspliced : ∀ ref ∈ referencedPaths s, ∀ w, (replace ref).1 = some w →
        openBrace ∉ w.spliceText.toList := fun ref href =>
      hclean.spliced ref (by simpa [splicedPaths_of_ne hmany] using href)
    obtain ⟨hproper, htext⟩ := ofText_fillPieces (isProperText_iff.mp hs) hspliced
    have hrefs : referencedPaths (String.ofList (fillPieces replace (Piece.ofText s.toList)).1) =
        (referencedPaths s).filter fun ref => (replace ref).1.isNone := by
      rw [referencedPaths, String.toList_ofList, htext, Piece.filterMap_target?_joinAll,
        filterMap_target?_filled]
      rfl
    rw [hfill]
    refine ⟨?_, hrefs, fun ref href => ?_⟩
    · rw [Json.isProper, Json.texts, List.all_cons, List.all_nil, Bool.and_true, isProperText_iff,
        String.toList_ofList, htext]
      exact Piece.proper_joinAll hproper
    · have hleft := Json.mem_references_of_mem_spliced href
      rw [Json.references, hrefs] at hleft
      rw [splicedPaths_of_ne hmany]
      exact List.mem_of_mem_filter hleft

section Proper

variable {v : Json} (hv : v.isProper = true) (hclean : Clean replace v)

include hv hclean

theorem isProper_fill : (fill replace v).1.isProper = true := by
  rw [Json.isProper_iff] at hv ⊢
  rw [fill_fst_eq_mapTexts, Json.texts_mapTexts]
  intro text htext
  obtain ⟨s, hs, hin⟩ := List.mem_flatMap.mp htext
  have hproper := (fillText_proper (hv s hs) (hclean.text hs)).1
  rw [Json.isProper_iff] at hproper
  exact hproper text hin

/-- Filling a proper value takes out the references that are replaced. -/
theorem references_fill : (fill replace v).1.references =
    v.references.filter fun ref => (replace ref).1.isNone := by
  rw [Json.isProper_iff] at hv
  rw [references_fill_fst, Json.references_eq_flatMap, List.filter_flatMap]
  exact List.flatMap_congr fun s hs => (fillText_proper (hv s hs) (hclean.text hs)).2.1

theorem mem_spliced_of_fill {ref : String} (h : ref ∈ (fill replace v).1.spliced) :
    ref ∈ v.spliced := by
  rw [Json.isProper_iff] at hv
  rw [Json.spliced, fill_fst_eq_mapTexts, Json.texts_mapTexts, List.flatMap_assoc] at h
  obtain ⟨s, hs, hin⟩ := List.mem_flatMap.mp h
  exact List.mem_flatMap.mpr ⟨s, hs, (fillText_proper (hv s hs) (hclean.text hs)).2.2 ref hin⟩

end Proper

theorem isScalar_fill {v : Json} (hv : v.isScalar = true)
    (h : ∀ ref ∈ v.references, ∀ w, (replace ref).1 = some w → w.isScalar = true) :
    (fill replace v).1.isScalar = true := by
  cases v with
  | str s =>
    rw [fill]
    rcases fillText_cases replace s with ⟨inner, hps, hfill⟩ | ⟨_, hfill⟩
    · rw [hfill]
      cases hr : (replace (Piece.target inner)).1 with
      | none => rfl
      | some w => exact h _ (mem_referencedPaths.mpr ⟨inner, by simp [hps], rfl⟩) w hr
    · rw [hfill]
      rfl
  | _ => exact hv

theorem fill_tidy {v : Json} (hv : v.isTidy = true)
    (h : ∀ ref ∈ v.references, ∀ w, (replace ref).1 = some w → w.isPlain = true) :
    (fill replace v).1.isTidy = true ∧
      (fill replace v).1.references = v.references.filter fun ref => (replace ref).1.isNone := by
  obtain ⟨hscalar, hproper⟩ := Json.isTidy_iff.mp hv
  have hclean := clean_of_isPlain h
  exact ⟨Json.isTidy_iff.mpr ⟨isScalar_fill hscalar fun ref href w hw =>
    (Json.isPlain_iff.mp (h ref href w hw)).1, isProper_fill hproper hclean⟩,
    references_fill hproper hclean⟩

end Reference

end DesignTokens
