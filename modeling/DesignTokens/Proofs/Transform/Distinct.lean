import DesignTokens.Proofs.Dictionary.AsRead
import DesignTokens.Proofs.Dictionary.Metadata
import DesignTokens.Proofs.Transform.Order

namespace DesignTokens

namespace Attribute

theorem distinctKeys_withPath {t : Token} (h : t.DistinctKeys) :
    (Json.obj (withPath t)).DistinctKeys := by
  refine h.attributes.merge fun e he => ?_
  obtain hpath | hown := Entries.mem_merge he
  · obtain ⟨key, _, hkey⟩ := List.mem_map.mp (List.of_mem_zip hpath).2
    rw [← hkey]
    trivial
  · exact (Json.distinctKeys_obj.mp h.attributes).2 e hown

theorem distinctKeys_addMissing {attributes entries : Entries Json}
    (h : (Json.obj attributes).DistinctKeys) (hentries : ∀ e ∈ entries, e.2.DistinctKeys) :
    (Json.obj (addMissing attributes entries)).DistinctKeys := by
  rw [addMissing]
  refine List.foldlRecOn (motive := fun m => (Json.obj m).DistinctKeys) _ _ h fun m hm e he => ?_
  dsimp only
  split
  · exact hm
  · exact hm.insert (hentries e he) e.1

theorem withPath_eq_of_length_eq {t : Token} (h : Entries.Distinct t.attributes)
    (hlength : (withPath t).length = t.attributes.length) : withPath t = t.attributes := by
  have hprefix : Entries.keys t.attributes <+: Entries.keys (withPath t) :=
    Entries.keys_prefix_merge _ _
  have hkeys : Entries.keys t.attributes = Entries.keys (withPath t) :=
    hprefix.eq_of_length (by simpa [Entries.keys] using hlength.symm)
  refine Entries.merge_eq_self fun e he => ?_
  have hvalue := ((distinct_ofPath t.path).merge t.attributes).get?_eq_some he
  rw [Entries.get?_merge, h.get?_reverse] at hvalue
  have hkey : e.1 ∈ Entries.keys t.attributes := hkeys ▸ Entries.mem_keys_merge he
  obtain ⟨value, hown⟩ := Entries.exists_get?_iff.mpr hkey
  rwa [hown, Option.some_or, ← hown] at hvalue

end Attribute

namespace Transform

variable {transform : Transform} {setting : Setting} {phase : Phase} {referencing : Bool}
  {t : Token}

/-- The metadata that a transform is told have distinct keys. -/
def Setting.DistinctKeys (setting : Setting) : Prop :=
  ∀ groupMeta, setting.groupMeta = some groupMeta → (Json.obj groupMeta).DistinctKeys

theorem Setting.distinctKeys_none (options : Entries Json) :
    Setting.DistinctKeys ⟨options, none⟩ := by
  intro _ h
  cases h

theorem Setting.distinctKeys_some (options : Entries Json) {groupMeta : GroupMeta}
    (h : (Json.obj groupMeta).DistinctKeys) :
    Setting.DistinctKeys ⟨options, some groupMeta⟩ := by
  rintro _ ⟨⟩
  exact h

theorem distinctKeys_step_of_value {f : Setting → Token → Json}
    {events : Setting → Token → List Event} (heffect : transform.effect = .value f events)
    (ht : t.DistinctKeys) (hf : (f setting t).DistinctKeys) :
    (transform.step setting phase referencing t).DistinctKeys := by
  rw [step]
  split
  · rw [perform, heffect]
    cases referencing with
    | true => exact ht
    | false => exact ⟨hf, ht.attributes, ht.fields⟩
  · exact ht

theorem Shipped.distinctKeys_step (h : transform.Shipped) (hsetting : setting.DistinctKeys)
    (ht : t.DistinctKeys) : (transform.step setting phase referencing t).DistinctKeys := by
  cases h with
  | cti =>
    rw [step]
    split
    · exact ⟨ht.value, Attribute.distinctKeys_withPath ht, ht.fields⟩
    · exact ht
  | name label style =>
    rw [step]
    split
    · exact ⟨ht.value, ht.attributes, ht.fields⟩
    · exact ht
  | number label category f =>
    refine distinctKeys_step_of_value rfl ht ?_
    rw [Measure.onNumber]
    split
    · trivial
    · exact ht.value
  | quote =>
    refine distinctKeys_step_of_value rfl ht ?_
    cases t.value <;> trivial
  | ofGroup =>
    rw [step]
    split
    · rw [perform]
      cases hgroupMeta : setting.groupMeta with
      | none => simpa [Attribute.ofGroup, hgroupMeta] using ht
      | some groupMeta =>
        simp only [Attribute.ofGroup, hgroupMeta, Option.isSome_some, if_true, Option.getD_some]
        exact ⟨ht.value, Attribute.distinctKeys_addMissing ht.attributes
          (Json.distinctKeys_obj.mp (hsetting groupMeta hgroupMeta)).2, ht.fields⟩
    · exact ht

end Transform

namespace Platform

variable {platform : Platform}
  (hbuiltin : ∀ transform ∈ platform.transforms, transform ∈ Registry.builtinTransforms)

include hbuiltin

theorem distinctKeys_transform {t : Token} (ht : t.DistinctKeys) {setting : Transform.Setting}
    (hsetting : setting.DistinctKeys) (phase : Transform.Phase) :
    (t.transform platform.transforms setting phase).DistinctKeys := by
  rw [Token.transform]
  refine List.foldlRecOn (motive := Token.DistinctKeys) _ _ ht fun u hu transform hmem => ?_
  exact (shipped_of_builtin hbuiltin transform hmem).distinctKeys_step hsetting hu

theorem distinctKeys_transformInPass {t : Token} (ht : t.DistinctKeys) :
    (platform.transformInPass t).DistinctKeys :=
  distinctKeys_transform hbuiltin ht (Transform.Setting.distinctKeys_none _) .pass

theorem attributes_transformInPass_of_length_eq {t : Token} (ht : Entries.Distinct t.attributes)
    (hlength : (platform.transformInPass t).attributes.length = t.attributes.length) :
    (platform.transformInPass t).attributes = t.attributes := by
  rw [Transform.transformInPass_eq_passAll] at hlength ⊢
  by_cases hsets : ∃ transform ∈ platform.transforms, transform.kind = .attribute
  · rw [Transform.passAll_attributes (shipped_of_builtin hbuiltin) hsets] at hlength ⊢
    exact Attribute.withPath_eq_of_length_eq ht hlength
  · exact Transform.passAll_attributes_of_kind_ne (by simpa using hsets)

end Platform

theorem Dictionary.AsRead.distinctKeys_ownMeta {d : Dictionary} (h : d.AsRead) :
    (Json.obj d.ownMeta).DistinctKeys := by
  rw [ownMeta]
  split
  · next own hget => exact h.get? hget
  · exact ⟨List.nodup_nil, trivial⟩

section ShowMeta

variable {platform : Platform}

mutual

theorem Node.asRead_showMeta
    (hbuiltin : ∀ transform ∈ platform.transforms, transform ∈ Registry.builtinTransforms)
    {inherited : GroupMeta} (hmeta : (Json.obj inherited).DistinctKeys) (path : List String) :
    ∀ n : Node, n.AsRead → (Node.showMeta platform inherited path n).AsRead
  | .branch entries, h => by
    have hentries := (Dictionary.asRead_branch_iff.mp h).2
    have hown := (Json.distinctKeys_obj.mp hentries.distinctKeys_ownMeta).2
    refine ⟨?_, ?_,
      Dictionary.asReadBelow_showMeta hbuiltin (hmeta.merge hown) path entries h.2.2⟩
    · rw [Entries.Distinct, Dictionary.keys_showMeta]
      exact h.1
    · rw [Dictionary.keys_showMeta]
      exact h.2.1
  | .token t, h => by
    have hplaced : Token.DistinctKeys { t with path := path } :=
      ⟨h.value, h.attributes, h.fields⟩
    exact Platform.distinctKeys_transform hbuiltin hplaced
      (Transform.Setting.distinctKeys_some _ hmeta) .group
  | .decorator _, h | .literal _, h => h

theorem Dictionary.asReadBelow_showMeta
    (hbuiltin : ∀ transform ∈ platform.transforms, transform ∈ Registry.builtinTransforms)
    {groupMeta : GroupMeta} (hmeta : (Json.obj groupMeta).DistinctKeys) (path : List String) :
    ∀ d : Dictionary, d.AsReadBelow →
      (Dictionary.showMeta platform groupMeta path d).AsReadBelow
  | [], _ => trivial
  | (key, node) :: rest, h =>
    ⟨Node.asRead_showMeta hbuiltin hmeta (path ++ [key]) node h.1,
      Dictionary.asReadBelow_showMeta hbuiltin hmeta path rest h.2⟩

end

theorem Dictionary.AsRead.propagateMeta {d : Dictionary} (h : d.AsRead)
    (hbuiltin : ∀ transform ∈ platform.transforms, transform ∈ Registry.builtinTransforms) :
    (d.propagateMeta platform).AsRead := by
  refine ⟨?_, asReadBelow_showMeta hbuiltin h.distinctKeys_ownMeta [] d h.2⟩
  rw [Entries.Distinct, Dictionary.propagateMeta, keys_showMeta]
  exact h.1

end ShowMeta

end DesignTokens
