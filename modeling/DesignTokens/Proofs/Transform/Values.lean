import DesignTokens.Platform.Basic
import DesignTokens.Proofs.Entries

namespace DesignTokens

namespace Transform

variable {transform : Transform} {options : Entries Json} {phase : Phase} {t : Token}

theorem step_value_of_referencing :
    (transform.step ⟨options, none⟩ phase true t).value = t.value := by
  rw [step]
  split
  · rw [perform]
    cases transform.effect <;> rfl
  · rfl

theorem exists_step_of_pass (transform : Transform) (referencing : Bool) (t : Token) :
    ∃ name value attributes, transform.step ⟨options, none⟩ .pass referencing t =
      { t with name := name, value := value, attributes := attributes } := by
  rw [step]
  split
  · rw [perform]
    cases transform.effect with
    | value f events => cases referencing <;> exact ⟨_, _, _, rfl⟩
    | _ => exact ⟨_, _, _, rfl⟩
  · exact ⟨_, _, _, rfl⟩

theorem keys_attributes_prefix_step (transform : Transform) (referencing : Bool) (t : Token) :
    Entries.keys t.attributes <+:
      Entries.keys (transform.step ⟨options, none⟩ .pass referencing t).attributes := by
  rw [step]
  split
  · rw [perform]
    cases transform.effect with
    | value f events => cases referencing <;> exact List.prefix_rfl
    | «attribute» f => exact Entries.keys_prefix_merge _ _
    | _ => exact List.prefix_rfl
  · exact List.prefix_rfl

/-- As a value transform, this one makes values with a property from values with it. -/
def Keeps (transform : Transform) (options : Entries Json) (P : Json → Prop) : Prop :=
  ∀ f events, transform.effect = .value f events →
    ∀ t, transform.accepts t = true → P t.value → P (f ⟨options, none⟩ t)

theorem keeps_of_kind_ne {P : Json → Prop} (h : transform.kind ≠ .value) :
    transform.Keeps options P := by
  intro f events heffect
  rw [kind, heffect] at h
  exact absurd rfl h

theorem Keeps.step {P : Json → Prop} (h : transform.Keeps options P) (referencing : Bool)
    (ht : P t.value) : P (transform.step ⟨options, none⟩ phase referencing t).value := by
  rw [Transform.step]
  split
  · next hruns =>
    rw [runs, Bool.and_eq_true] at hruns
    rw [perform]
    cases heffect : transform.effect with
    | value f events =>
      cases referencing with
      | true => exact ht
      | false => exact h f events heffect t hruns.2 ht
    | _ => exact ht
  · exact ht

end Transform

namespace Platform

variable {platform : Platform} {t : Token}

/-- The value transforms of a platform make values with a property from values with it. -/
def Keeps (platform : Platform) (P : Json → Prop) : Prop :=
  ∀ transform ∈ platform.transforms, transform.Keeps platform.options P

def KeepsPaths (platform : Platform) : Prop :=
  ∀ groupMeta t, (platform.transformInGroup groupMeta t).path = t.path

theorem exists_transformInPass (platform : Platform) (t : Token) :
    ∃ name value attributes, platform.transformInPass t =
      { t with name := name, value := value, attributes := attributes } := by
  rw [transformInPass, Token.transform]
  generalize t.hasReference = referencing
  generalize platform.transforms = transforms
  induction transforms generalizing t with
  | nil => exact ⟨_, _, _, rfl⟩
  | cons transform rest ih =>
    obtain ⟨name, value, attributes, hstep⟩ := transform.exists_step_of_pass referencing t
    obtain ⟨name, value, attributes, hrest⟩ := ih (transform.step _ _ referencing t)
    rw [List.foldl_cons, hrest, hstep]
    exact ⟨_, _, _, rfl⟩

@[simp] theorem transformInPass_path (t : Token) : (platform.transformInPass t).path = t.path := by
  obtain ⟨_, _, _, h⟩ := platform.exists_transformInPass t
  rw [h]

@[simp] theorem transformInPass_fields (t : Token) :
    (platform.transformInPass t).fields = t.fields := by
  obtain ⟨_, _, _, h⟩ := platform.exists_transformInPass t
  rw [h]

theorem keys_attributes_prefix_transformInPass (platform : Platform) (t : Token) :
    Entries.keys t.attributes <+: Entries.keys (platform.transformInPass t).attributes := by
  rw [transformInPass, Token.transform]
  generalize t.hasReference = referencing
  generalize platform.transforms = transforms
  induction transforms generalizing t with
  | nil => exact List.prefix_rfl
  | cons transform rest ih =>
    exact (transform.keys_attributes_prefix_step referencing t).trans (ih _)

theorem transformInPass_value (h : t.hasReference = true) :
    (platform.transformInPass t).value = t.value := by
  rw [transformInPass, Token.transform, h]
  generalize platform.transforms = transforms
  clear h
  induction transforms generalizing t with
  | nil => rfl
  | cons transform rest ih =>
    rw [List.foldl_cons, ih]
    exact Transform.step_value_of_referencing

theorem Keeps.transformInPass {P : Json → Prop} (h : platform.Keeps P) (ht : P t.value) :
    P (platform.transformInPass t).value := by
  rw [Platform.transformInPass, Token.transform]
  generalize t.hasReference = referencing
  obtain ⟨name, transforms, options⟩ := platform
  simp only [Keeps] at h ⊢
  induction transforms generalizing t with
  | nil => exact ht
  | cons transform rest ih =>
    rw [List.forall_mem_cons] at h
    exact ih (h.1.step referencing ht) h.2

end Platform

end DesignTokens
