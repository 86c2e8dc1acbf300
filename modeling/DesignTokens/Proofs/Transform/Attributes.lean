import DesignTokens.Proofs.Dictionary.Inheritance
import DesignTokens.Proofs.Transform.Distinct

namespace DesignTokens

namespace Attribute

def segment? (path : List String) (key : String) : Option String :=
  (levels.idxOf? key).bind (path[·]?)

theorem get?_ofPath (path : List String) (key : String) :
    Entries.get? (ofPath path) key = (segment? path key).map .str := by
  rw [ofPath, Entries.get?_zip, segment?, Option.map_bind]
  simp only [List.getElem?_map, Function.comp_def]

theorem get?_withPath {t : Token} (h : Entries.Distinct t.attributes) (key : String) :
    Entries.get? (withPath t) key =
      (Entries.get? t.attributes key).or ((segment? t.path key).map .str) := by
  have hadded : Entries.Distinct (Entries.merge (ofPath t.path) t.attributes) :=
    (distinct_ofPath t.path).merge t.attributes
  rw [withPath, Entries.get?_merge, hadded.get?_reverse, Entries.get?_merge, h.get?_reverse,
    get?_ofPath, Option.or_assoc]
  cases Entries.get? t.attributes key with
  | some value => rfl
  | none => rw [Option.none_or, Option.or_none, Option.none_or]

theorem withPath_again {t u : Token} (hpath : u.path = t.path) (hu : u.attributes = withPath t) :
    withPath u = withPath t := by
  rw [withPath, hpath, hu]
  exact withPath_idem t

theorem distinct_addMissing {attributes : Entries Json} (h : Entries.Distinct attributes)
    (entries : Entries Json) : Entries.Distinct (addMissing attributes entries) := by
  induction entries generalizing attributes with
  | nil => exact h
  | cons e rest ih =>
    rw [addMissing_cons]
    split
    · exact ih h
    · exact ih (h.insert e.1 e.2)

end Attribute

namespace Platform

variable {platform : Platform}
  (hbuiltin : ∀ transform ∈ platform.transforms, transform ∈ Registry.builtinTransforms)

include hbuiltin

theorem attributes_transformInPass (hcti : Attribute.cti ∈ platform.transforms) (t : Token) :
    (platform.transformInPass t).attributes = Attribute.withPath t := by
  rw [Transform.transformInPass_eq_passAll]
  exact Transform.passAll_attributes (shipped_of_builtin hbuiltin) ⟨_, hcti, rfl⟩

end Platform

section Rel

variable {α β γ : Type*} {r q : α → β → Prop} {x : Option α} {y : Option β}

theorem Option.Rel.imp (hr : Option.Rel r x y) (h : ∀ a b, x = some a → r a b → q a b) :
    Option.Rel q x y := by
  cases hr with
  | some hab => exact .some (h _ _ rfl hab)
  | none => exact .none

theorem Option.Rel.map_right {f : β → γ} {p : α → γ → Prop}
    (hr : Option.Rel (fun a b => p a (f b)) x y) : Option.Rel p x (y.map f) := by
  cases hr with
  | some hab => exact .some hab
  | none => exact .none

theorem Option.Rel.exists_of_some {a : α} (hr : Option.Rel r (some a) y) :
    ∃ b, y = some b ∧ r a b := by
  cases hr with
  | some hab => exact ⟨_, rfl, hab⟩

end Rel

namespace Dictionary

theorem attributes_propagateMeta {platform : Platform} {d : Dictionary} (hread : d.AsRead)
    (hbuiltin : ∀ transform ∈ platform.transforms, transform ∈ Registry.builtinTransforms)
    (hgroup : Attribute.ofGroup ∈ platform.transforms) (path : List String) :
    Option.Rel (fun t u => Entries.Distinct u.attributes ∧ ∀ key, Entries.get? u.attributes key =
        (Entries.get? t.attributes key).or (d.groupValue? path key))
      (d.tokenAt? path) ((d.propagateMeta platform).tokenAt? path) := by
  rw [propagateMeta_eq_withMeta platform hread.distinctKeys_toJson, tokenAt?_mapTokens]
  cases ht : d.tokenAt? path with
  | none => exact .none
  | some t =>
    refine .some ?_
    rw [withMeta, Platform.transformInGroup_eq hbuiltin hgroup]
    refine ⟨Attribute.distinct_addMissing (hread.tokenAt? ht).attributes.1 _, fun key => ?_⟩
    rw [Attribute.get?_addMissing, get?_metaAt hread.distinctKeys_toJson]

end Dictionary

end DesignTokens
