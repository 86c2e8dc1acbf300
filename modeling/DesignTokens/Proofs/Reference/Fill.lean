import DesignTokens.Proofs.Json.NumberText
import DesignTokens.Proofs.Json.Texts
import DesignTokens.Proofs.Reference.Pieces
import Mathlib.Data.List.Basic

namespace DesignTokens

mutual

/-- The reference paths that the strings inside a value name. -/
def Json.references : Json → List String
  | .str s => referencedPaths s
  | .arr items => Json.itemReferences items
  | .obj entries => Json.entryReferences entries
  | _ => []

def Json.itemReferences : List Json → List String
  | [] => []
  | item :: rest => item.references ++ Json.itemReferences rest

def Json.entryReferences : List (String × Json) → List String
  | [] => []
  | (_, value) :: rest => value.references ++ Json.entryReferences rest

end

theorem mem_referencedPaths {ref text : String} :
    ref ∈ referencedPaths text ↔
      ∃ inner, .hole inner ∈ Piece.ofText text.toList ∧ Piece.target inner = ref := by
  rw [referencedPaths, List.mem_filterMap]
  constructor
  · rintro ⟨p, hp, htarget⟩
    cases p with
    | plain cs => simp [Piece.target?] at htarget
    | hole inner => exact ⟨inner, hp, by simpa [Piece.target?] using htarget⟩
  · rintro ⟨inner, hp, htarget⟩
    exact ⟨.hole inner, hp, by simpa [Piece.target?] using htarget⟩

mutual

theorem Json.references_eq_flatMap : ∀ v : Json, v.references = v.texts.flatMap referencedPaths
  | .null | .bool _ | .num _ => rfl
  | .str s => by simp [references, texts]
  | .arr items => Json.itemReferences_eq_flatMap items
  | .obj entries => Json.entryReferences_eq_flatMap entries

theorem Json.itemReferences_eq_flatMap : ∀ items : List Json,
    Json.itemReferences items = (Json.itemTexts items).flatMap referencedPaths
  | [] => rfl
  | item :: rest => by
    rw [itemReferences, itemTexts, List.flatMap_append, item.references_eq_flatMap,
      itemReferences_eq_flatMap rest]

theorem Json.entryReferences_eq_flatMap : ∀ entries : List (String × Json),
    Json.entryReferences entries = (Json.entryTexts entries).flatMap referencedPaths
  | [] => rfl
  | (_, value) :: rest => by
    rw [entryReferences, entryTexts, List.flatMap_append, value.references_eq_flatMap,
      entryReferences_eq_flatMap rest]

end

theorem Json.mem_references {v : Json} {ref : String} :
    ref ∈ v.references ↔ ∃ s ∈ v.texts, ref ∈ referencedPaths s := by
  rw [references_eq_flatMap, List.mem_flatMap]

mutual

theorem Json.hasReference_eq_any : ∀ v : Json,
    v.hasReference = v.texts.any (·.toList.contains openBrace)
  | .null | .bool _ | .num _ => rfl
  | .str _ => (Bool.or_false _).symm
  | .arr items => Json.anyHasReference_eq_any items
  | .obj entries => Json.anyEntryHasReference_eq_any entries

theorem Json.anyHasReference_eq_any : ∀ items : List Json,
    Json.anyHasReference items = (Json.itemTexts items).any (·.toList.contains openBrace)
  | [] => rfl
  | item :: rest => by
    rw [anyHasReference, itemTexts, List.any_append, item.hasReference_eq_any,
      anyHasReference_eq_any rest]

theorem Json.anyEntryHasReference_eq_any : ∀ entries : List (String × Json),
    Json.anyEntryHasReference entries = (Json.entryTexts entries).any (·.toList.contains openBrace)
  | [] => rfl
  | (_, value) :: rest => by
    rw [anyEntryHasReference, entryTexts, List.any_append, value.hasReference_eq_any,
      anyEntryHasReference_eq_any rest]

end

theorem Json.hasReference_eq_false_iff {v : Json} :
    v.hasReference = false ↔ ∀ s ∈ v.texts, openBrace ∉ s.toList := by
  simp [hasReference_eq_any]

theorem openBrace_mem_of_hole_mem {inner cs : List Char} (h : .hole inner ∈ Piece.ofText cs) :
    openBrace ∈ cs := by
  rw [← Piece.sourceAll_ofText cs]
  exact List.mem_flatMap.mpr ⟨_, h, List.mem_cons_self⟩

theorem Json.hasReference_of_mem_references {ref : String} (v : Json) (h : ref ∈ v.references) :
    v.hasReference = true := by
  obtain ⟨s, hs, href⟩ := mem_references.mp h
  obtain ⟨inner, hinner, _⟩ := mem_referencedPaths.mp href
  by_contra hclear
  rw [Bool.not_eq_true, hasReference_eq_false_iff] at hclear
  exact hclear s hs (openBrace_mem_of_hole_mem hinner)

theorem Json.hasReference_of_ofText_eq {text : String} {inner : List Char}
    (h : Piece.ofText text.toList = [.hole inner]) : (Json.str text).hasReference = true := by
  apply hasReference_of_mem_references
  exact mem_referencedPaths.mpr ⟨inner, by rw [h]; exact List.mem_singleton_self _, rfl⟩

namespace Reference

variable {replace : Replacement}

def filled (replace : Replacement) : Piece → Piece
  | .plain text => .plain text
  | .hole inner =>
    match (replace (Piece.target inner)).1 with
    | some value => .plain value.spliceText.toList
    | none => .hole inner

theorem fillPieces_fst (ps : List Piece) :
    (fillPieces replace ps).1 = Piece.sourceAll (ps.map (filled replace)) := by
  induction ps with
  | nil => rfl
  | cons p ps ih =>
    cases p with
    | plain text => simp [fillPieces, ih, filled, Piece.source]
    | hole inner =>
      rw [List.map_cons, Piece.sourceAll_cons, ← ih]
      simp only [fillPieces, filled]
      cases (replace (Piece.target inner)).1 <;> rfl

theorem fillPieces_snd (ps : List Piece) :
    (fillPieces replace ps).2 =
      (ps.filterMap Piece.target?).flatMap fun ref => (replace ref).2 := by
  induction ps with
  | nil => rfl
  | cons p ps ih => cases p <;> simp [fillPieces, ih]

theorem fillText_cases (replace : Replacement) (text : String) :
    (∃ inner, Piece.ofText text.toList = [.hole inner] ∧
      fillText replace text = ((replace (Piece.target inner)).1.getD (.str text),
        (replace (Piece.target inner)).2)) ∨
    ((∀ inner, Piece.ofText text.toList ≠ [.hole inner]) ∧
      fillText replace text =
        (.str (String.ofList (fillPieces replace (Piece.ofText text.toList)).1),
          (fillPieces replace (Piece.ofText text.toList)).2)) := by
  rw [fillText]
  split
  · next inner h => exact .inl ⟨inner, h, rfl⟩
  · next h => exact .inr ⟨h, rfl⟩

theorem fillText_snd (text : String) :
    (fillText replace text).2 = (referencedPaths text).flatMap fun ref => (replace ref).2 := by
  rcases fillText_cases replace text with ⟨inner, hps, h⟩ | ⟨_, h⟩
  · simp [h, referencedPaths, hps]
  · rw [h, referencedPaths, fillPieces_snd]

mutual

theorem fill_snd : ∀ v : Json, (fill replace v).2 = v.references.flatMap fun ref => (replace ref).2
  | .null => rfl
  | .bool _ => rfl
  | .num _ => rfl
  | .str s => fillText_snd s
  | .arr items => fillItems_snd items
  | .obj entries => fillEntries_snd entries

theorem fillItems_snd : ∀ items : List Json,
    (fillItems replace items).2 =
      (Json.itemReferences items).flatMap fun ref => (replace ref).2
  | [] => rfl
  | item :: rest => by
    simp only [fillItems, Json.itemReferences, List.flatMap_append]
    rw [fill_snd, fillItems_snd]

theorem fillEntries_snd : ∀ entries : List (String × Json),
    (fillEntries replace entries).2 =
      (Json.entryReferences entries).flatMap fun ref => (replace ref).2
  | [] => rfl
  | (key, value) :: rest => by
    simp only [fillEntries, Json.entryReferences, List.flatMap_append]
    rw [fill_snd, fillEntries_snd]

end

mutual

theorem fill_fst_eq_mapTexts : ∀ v : Json,
    (fill replace v).1 = v.mapTexts fun s => (fillText replace s).1
  | .null | .bool _ | .num _ | .str _ => rfl
  | .arr items => congrArg Json.arr (fillItems_fst_eq_mapItemTexts items)
  | .obj entries => congrArg Json.obj (fillEntries_fst_eq_mapEntryTexts entries)

theorem fillItems_fst_eq_mapItemTexts : ∀ items : List Json,
    (fillItems replace items).1 = Json.mapItemTexts (fun s => (fillText replace s).1) items
  | [] => rfl
  | item :: rest => by
    rw [Json.mapItemTexts, ← fill_fst_eq_mapTexts item, ← fillItems_fst_eq_mapItemTexts rest]
    rfl

theorem fillEntries_fst_eq_mapEntryTexts : ∀ entries : List (String × Json),
    (fillEntries replace entries).1 = Json.mapEntryTexts (fun s => (fillText replace s).1) entries
  | [] => rfl
  | (key, value) :: rest => by
    rw [Json.mapEntryTexts, ← fill_fst_eq_mapTexts value, ← fillEntries_fst_eq_mapEntryTexts rest]
    rfl

end

theorem references_fill_fst (v : Json) : (fill replace v).1.references =
    v.texts.flatMap fun s => (fillText replace s).1.references := by
  simp only [fill_fst_eq_mapTexts, Json.references_eq_flatMap, Json.texts_mapTexts,
    List.flatMap_assoc]

section Congr

variable {first second : Replacement}

theorem fillText_fst_congr {text : String}
    (h : ∀ ref ∈ referencedPaths text, (first ref).1 = (second ref).1) :
    (fillText first text).1 = (fillText second text).1 := by
  have hfilled : ∀ p ∈ Piece.ofText text.toList, filled first p = filled second p := by
    intro p hp
    cases p with
    | plain text => rfl
    | hole inner => rw [filled, filled, h _ (mem_referencedPaths.mpr ⟨inner, hp, rfl⟩)]
  rcases fillText_cases first text with ⟨inner, hps, hfirst⟩ | ⟨hmany, hfirst⟩
  · have hin : Piece.target inner ∈ referencedPaths text :=
      mem_referencedPaths.mpr ⟨inner, by simp [hps], rfl⟩
    rw [fillText, fillText, hps]
    simp only [h _ hin]
  · rcases fillText_cases second text with ⟨inner, hps, _⟩ | ⟨_, hsecond⟩
    · exact absurd hps (hmany inner)
    · rw [hfirst, hsecond, fillPieces_fst, fillPieces_fst, List.map_congr_left hfilled]

theorem fill_fst_congr (v : Json) (h : ∀ ref ∈ v.references, (first ref).1 = (second ref).1) :
    (fill first v).1 = (fill second v).1 := by
  rw [fill_fst_eq_mapTexts, fill_fst_eq_mapTexts]
  refine Json.mapTexts_congr v fun s hs => fillText_fst_congr fun ref href => ?_
  exact h ref (Json.mem_references.mpr ⟨s, hs, href⟩)

theorem fill_congr {v : Json} (h : ∀ ref ∈ v.references, first ref = second ref) :
    fill first v = fill second v := by
  apply Prod.ext
  · exact fill_fst_congr v fun ref href => congrArg Prod.fst (h ref href)
  · rw [fill_snd, fill_snd]
    exact List.flatMap_congr fun ref href => congrArg Prod.snd (h ref href)

end Congr

theorem mem_references_fillText {ref text : String} (h : ref ∈ referencedPaths text)
    (hkept : (replace ref).1 = none) : ref ∈ (fillText replace text).1.references := by
  obtain ⟨inner, hmem, rfl⟩ := mem_referencedPaths.mp h
  rcases fillText_cases replace text with ⟨only, hps, hfill⟩ | ⟨_, hfill⟩
  · obtain rfl : inner = only := by simpa [hps] using hmem
    rw [hfill, hkept]
    exact h
  · rw [hfill, fillPieces_fst]
    refine mem_referencedPaths.mpr ⟨inner, ?_, rfl⟩
    have hstays : .hole inner ∈ (Piece.ofText text.toList).map (filled replace) :=
      List.mem_map.mpr ⟨_, hmem, by simp [filled, hkept]⟩
    obtain ⟨before, after, hsplit⟩ := List.append_of_mem hstays
    have hfound := Piece.hole_mem_ofText (Piece.proper_of_hole_mem hmem) (Piece.sourceAll before)
      (Piece.sourceAll after)
    simpa [hsplit, Piece.sourceAll] using hfound

theorem mem_references_fill {ref : String} (hkept : (replace ref).1 = none) (v : Json)
    (h : ref ∈ v.references) : ref ∈ (fill replace v).1.references := by
  obtain ⟨s, hs, href⟩ := Json.mem_references.mp h
  rw [references_fill_fst]
  exact List.mem_flatMap.mpr ⟨s, hs, mem_references_fillText href hkept⟩

theorem fill_fst_mono {first second : Replacement} {v : Json}
    (hclear : (fill first v).1.hasReference = false)
    (h : ∀ ref ∈ v.references, ∀ w, (first ref).1 = some w → (second ref).1 = some w) :
    (fill second v).1 = (fill first v).1 := by
  refine fill_fst_congr v fun ref href => ?_
  cases hfirst : (first ref).1 with
  | none =>
    have hleft := Json.hasReference_of_mem_references _ (mem_references_fill hfirst v href)
    rw [hclear] at hleft
    cases hleft
  | some w => exact h ref href w hfirst

end Reference

end DesignTokens
