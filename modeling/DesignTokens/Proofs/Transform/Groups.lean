import DesignTokens.Platform.Registry
import DesignTokens.Proofs.Entries
import DesignTokens.Proofs.Transform.Values

namespace DesignTokens

namespace Transform

variable {setting : Setting} {options : Entries Json} {t : Token}

theorem foldl_step_of_kind_ne {transforms : List Transform} {referencing : Bool}
    (h : ∀ transform ∈ transforms, transform.kind ≠ .group) :
    transforms.foldl (fun t transform => transform.step setting .group referencing t) t = t := by
  induction transforms with
  | nil => rfl
  | cons transform rest ih =>
    rw [List.forall_mem_cons] at h
    have hkeep : transform.step setting .group referencing t = t := by
      simp [step, runs, h.1]
    rw [List.foldl_cons, hkeep, ih h.2]

end Transform

namespace Attribute

theorem distinct_ofPath (path : List String) : Entries.Distinct (ofPath path) := by
  have hlevels : levels.Nodup := by decide
  rw [Entries.Distinct, Entries.keys, ofPath, List.zip_eq_zip_take_min,
    List.map_fst_zip (by simp)]
  exact hlevels.sublist (List.take_sublist _ _)

def withPath (t : Token) : Entries Json :=
  Entries.merge t.attributes (Entries.merge (ofPath t.path) t.attributes)

theorem withPath_idem (t : Token) :
    withPath { t with attributes := withPath t } = withPath t :=
  Entries.merge_merge_idem t.attributes (distinct_ofPath t.path)

theorem addMissing_cons (attributes : Entries Json) (e : String × Json) (rest : Entries Json) :
    addMissing attributes (e :: rest) = addMissing
      (if Entries.contains attributes e.1 then attributes else Entries.insert attributes e.1 e.2)
      rest := rfl

theorem get?_addMissing (attributes entries : Entries Json) (key : String) :
    Entries.get? (addMissing attributes entries) key =
      (Entries.get? attributes key).or (Entries.get? entries key) := by
  induction entries generalizing attributes with
  | nil => exact (Option.or_none).symm
  | cons e rest ih =>
    rw [addMissing_cons, ih, Entries.get?]
    by_cases hkey : e.1 = key
    · subst hkey
      cases hold : Entries.get? attributes e.1 with
      | some value => simp [Entries.contains, hold]
      | none => simp [Entries.contains, hold]
    · rw [if_neg hkey]
      split
      · rfl
      · rw [Entries.get?_insert_of_ne _ _ (Ne.symm hkey)]

theorem addMissing_eq_self {attributes entries : Entries Json}
    (h : ∀ e ∈ entries, Entries.contains attributes e.1 = true) :
    addMissing attributes entries = attributes := by
  induction entries with
  | nil => rfl
  | cons e rest ih =>
    rw [List.forall_mem_cons] at h
    rw [addMissing_cons, if_pos h.1, ih h.2]

theorem addMissing_addMissing (attributes entries : Entries Json) :
    addMissing (addMissing attributes entries) entries = addMissing attributes entries := by
  refine addMissing_eq_self fun e he => ?_
  obtain ⟨value, hvalue⟩ := Entries.exists_get?_iff.mpr (List.mem_map_of_mem he)
  rw [Entries.contains, get?_addMissing, hvalue, Option.isSome_or, Option.isSome_some,
    Bool.or_true]

end Attribute

namespace Platform

variable {platform : Platform} {t : Token}

def Resumes (platform : Platform) : Prop :=
  ∀ t v, t.hasReference = true →
    platform.transformInPass { platform.transformInPass t with value := v } =
      platform.transformInPass { t with value := v }

/-- A platform whose transforms are those of a group: attributes from the path, a name in a style,
and transforms of values. -/
def ofGroup (name : String) (options : Entries Json) (styleName : String)
    (style : List (List Char) → List Char) (values : List Transform) : Platform :=
  ⟨name, Attribute.ofGroup :: Attribute.cti :: NameStyle.transform styleName style :: values,
    options⟩

section OfGroup

variable {name styleName : String} {options : Entries Json}
  {style : List (List Char) → List Char} {values : List Transform}

def labelled (options : Entries Json) (style : List (List Char) → List Char) (t : Token) : Token :=
  { t with
    attributes := Attribute.withPath t
    name := some (String.ofList (style (NameStyle.pathWords options t.path))) }

theorem transformInPass_ofGroup (t : Token) :
    (ofGroup name options styleName style values).transformInPass t =
      values.foldl (fun u transform => transform.step ⟨options, none⟩ .pass t.hasReference u)
        (labelled options style t) := rfl

end OfGroup

def groupValues (group : String) : List Transform :=
  if group = "js" then [Measure.sizeRem]
  else [Measure.timeSeconds, Measure.contentQuote, Measure.sizeRem]

theorem exists_ofGroup_of_build {name group : String} {options : Entries Json} {platform : Platform}
    (hgroup : group ∈ ["css", "scss", "js"])
    (h : Registry.builtin.build name ⟨some group, [], options⟩ = .ok platform) :
    ∃ styleName style, platform = ofGroup name options styleName style (groupValues group) := by
  simp only [List.mem_cons, List.not_mem_nil, or_false] at hgroup
  rcases hgroup with rfl | rfl | rfl
  · cases h
    exact ⟨_, _, rfl⟩
  · cases h
    exact ⟨_, _, rfl⟩
  · cases h
    exact ⟨_, _, rfl⟩

end Platform

end DesignTokens
