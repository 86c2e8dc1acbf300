import DesignTokens.Proofs.Transform.Builtin
import DesignTokens.Proofs.Transform.Groups

namespace DesignTokens

inductive Transform.Shipped : Transform → Prop
  | cti : Shipped Attribute.cti
  | name (name : String) (style : List (List Char) → List Char) :
    Shipped (NameStyle.transform name style)
  | number (name category : String) (f : Entries Json → Binary64 → String) :
    Shipped (Measure.numberTransform name category f)
  | quote : Shipped Measure.contentQuote
  | ofGroup : Shipped Attribute.ofGroup

theorem Registry.shipped_of_mem_builtinTransforms {transform : Transform}
    (h : transform ∈ builtinTransforms) : transform.Shipped := by
  have hall : ∀ transform ∈ builtinTransforms, transform.Shipped := by
    simp only [builtinTransforms, List.forall_mem_cons]
    exact ⟨.cti, .name _ _, .name _ _, .name _ _, .name _ _, .name _ _, .number _ _ _,
      .number _ _ _, .number _ _ _, .number _ _ _, .quote, .ofGroup, by simp⟩
  exact hall transform h

/-- No transform of values stands before the first one of attributes, if there is one. -/
def Transform.attributesFirst : List Transform → Bool
  | [] => true
  | transform :: rest =>
    match transform.kind with
    | .attribute => true
    | .value => rest.all (·.kind != .attribute)
    | _ => attributesFirst rest

namespace Transform

variable {transform : Transform} {transforms : List Transform} {options : Entries Json}
  {referencing : Bool} {t : Token}

def passAll (options : Entries Json) (referencing : Bool) (transforms : List Transform)
    (t : Token) : Token :=
  transforms.foldl (fun t transform => transform.step ⟨options, none⟩ .pass referencing t) t

@[simp] theorem passAll_cons : passAll options referencing (transform :: transforms) t =
    passAll options referencing transforms
      (transform.step ⟨options, none⟩ .pass referencing t) := rfl

theorem transformInPass_eq_passAll (platform : Platform) (t : Token) :
    platform.transformInPass t =
      passAll platform.options t.hasReference platform.transforms t := rfl

theorem step_name_of_kind_ne (h : transform.kind ≠ .name) :
    (transform.step ⟨options, none⟩ .pass referencing t).name = t.name := by
  rw [step]
  split
  · rw [perform]
    cases heffect : transform.effect with
    | name f => exact absurd (by rw [kind, heffect, Effect.kind]) h
    | value f events => cases referencing <;> rfl
    | _ => rfl
  · rfl

theorem passAll_name (h : ∀ transform ∈ transforms, transform.kind ≠ .name) :
    (passAll options referencing transforms t).name = t.name := by
  induction transforms generalizing t with
  | nil => rfl
  | cons transform rest ih =>
    rw [List.forall_mem_cons] at h
    rw [passAll_cons, ih h.2, step_name_of_kind_ne h.1]

theorem step_value_eq {f : Setting → Token → Json} {events : Setting → Token → List Event}
    (h : transform.effect = .value f events) :
    transform.step ⟨options, none⟩ .pass referencing t =
      if transform.accepts t && !referencing then { t with value := f ⟨options, none⟩ t }
      else t := by
  rw [step, runs, perform, h]
  cases transform.accepts t <;> cases referencing <;> rfl

theorem step_withName_of_value {f : Setting → Token → Json}
    {events : Setting → Token → List Event} (h : transform.effect = .value f events)
    {name : Option String} (haccepts : transform.accepts { t with name := name } =
      transform.accepts t)
    (hf : f ⟨options, none⟩ { t with name := name } = f ⟨options, none⟩ t) :
    transform.step ⟨options, none⟩ .pass referencing { t with name := name } =
      { transform.step ⟨options, none⟩ .pass referencing t with name := name } := by
  rw [step_value_eq h, step_value_eq h, haccepts, hf]
  cases transform.accepts t && !referencing <;> rfl

theorem Shipped.step_withName (h : transform.Shipped) (t : Token) (name : Option String) :
    transform.step ⟨options, none⟩ .pass referencing { t with name := name } =
      { transform.step ⟨options, none⟩ .pass referencing t with
        name := if transform.kind = .name then
          (transform.step ⟨options, none⟩ .pass referencing t).name else name } := by
  cases h with
  | cti => rfl
  | name => rfl
  | number label category f =>
    rw [if_neg nofun]
    exact step_withName_of_value rfl rfl rfl
  | quote =>
    rw [if_neg nofun]
    exact step_withName_of_value rfl rfl rfl
  | ofGroup => rfl

theorem passAll_withName (h : ∀ transform ∈ transforms, transform.Shipped)
    (hname : ∃ transform ∈ transforms, transform.kind = .name) (t : Token) (name : Option String) :
    passAll options referencing transforms { t with name := name } =
      passAll options referencing transforms t := by
  induction transforms generalizing t name with
  | nil => simp at hname
  | cons transform rest ih =>
    rw [List.forall_mem_cons] at h
    rw [List.exists_mem_cons_iff] at hname
    rw [passAll_cons, passAll_cons, h.1.step_withName]
    by_cases hkind : transform.kind = .name
    · rw [if_pos hkind]
    · exact ih h.2 (hname.resolve_left hkind) _ _

theorem passAll_passName {earlier : Bool} {u : Token}
    (h : ∀ transform ∈ transforms, transform.Shipped) (hname : u.name = t.name) :
    passAll options referencing transforms
        { u with name := (passAll options earlier transforms t).name } =
      passAll options referencing transforms u := by
  by_cases hnames : ∃ transform ∈ transforms, transform.kind = .name
  · exact passAll_withName h hnames u _
  · rw [passAll_name (by simpa using hnames), ← hname]

theorem step_cti : Attribute.cti.step ⟨options, none⟩ .pass referencing t =
    { t with attributes := Attribute.withPath t } := rfl

theorem step_attributes_of_kind_ne (h : transform.kind ≠ .attribute) :
    (transform.step ⟨options, none⟩ .pass referencing t).attributes = t.attributes := by
  rw [step]
  split
  · rw [perform]
    cases heffect : transform.effect with
    | value f events => cases referencing <;> rfl
    | «attribute» f => exact absurd (by rw [kind, heffect, Effect.kind]) h
    | _ => rfl
  · rfl

theorem passAll_attributes_of_kind_ne (h : ∀ transform ∈ transforms, transform.kind ≠ .attribute) :
    (passAll options referencing transforms t).attributes = t.attributes := by
  induction transforms generalizing t with
  | nil => rfl
  | cons transform rest ih =>
    rw [List.forall_mem_cons] at h
    rw [passAll_cons, ih h.2, step_attributes_of_kind_ne h.1]

theorem withPath_step (h : transform.kind ≠ .attribute) :
    Attribute.withPath (transform.step ⟨options, none⟩ .pass referencing t) =
      Attribute.withPath t := by
  obtain ⟨name, value, attributes, hstep⟩ := transform.exists_step_of_pass referencing t
  have hsame : (transform.step ⟨options, none⟩ .pass referencing t).attributes = t.attributes :=
    step_attributes_of_kind_ne h
  rw [hstep] at hsame ⊢
  subst hsame
  rfl

theorem passAll_attributes (h : ∀ transform ∈ transforms, transform.Shipped)
    (hsets : ∃ transform ∈ transforms, transform.kind = .attribute) :
    (passAll options referencing transforms t).attributes = Attribute.withPath t := by
  induction transforms generalizing t with
  | nil => simp at hsets
  | cons transform rest ih =>
    rw [List.forall_mem_cons] at h
    by_cases hrest : ∃ transform ∈ rest, transform.kind = .attribute
    · rw [passAll_cons, ih h.2 hrest]
      cases h.1 with
      | cti => exact Attribute.withPath_idem t
      | _ => exact withPath_step nofun
    · have hhead := ((List.exists_mem_cons_iff _ _ _).mp hsets).resolve_right hrest
      have hothers : ∀ transform ∈ rest, transform.kind ≠ .attribute := by simpa using hrest
      rw [passAll_cons, passAll_attributes_of_kind_ne hothers]
      cases h.1 with
      | cti => rfl
      | _ => cases hhead

/-- Where no value transform stands before it, what sets the attributes from the path may have been
done beforehand. -/
theorem passAll_withPath (h : ∀ transform ∈ transforms, transform.Shipped)
    (hfirst : attributesFirst transforms = true)
    (hsets : ∃ transform ∈ transforms, transform.kind = .attribute) :
    passAll options referencing transforms { t with attributes := Attribute.withPath t } =
      passAll options referencing transforms t := by
  induction transforms generalizing t with
  | nil => simp at hsets
  | cons transform rest ih =>
    rw [List.forall_mem_cons] at h
    rw [List.exists_mem_cons_iff] at hsets
    -- a value transform at the head leaves no transform of attributes to come
    have hvalue : transform.kind = .value → False := by
      intro hkind
      simp only [attributesFirst, hkind, List.all_eq_true, bne_iff_ne] at hfirst
      obtain ⟨other, hother, heq⟩ := hsets.resolve_left (by simp [hkind])
      exact hfirst other hother heq
    rw [passAll_cons, passAll_cons]
    cases h.1 with
    | cti => rw [step_cti, step_cti, Attribute.withPath_idem]
    | name label style =>
      exact ih (t := (NameStyle.transform label style).step ⟨options, none⟩ .pass referencing t)
        h.2 hfirst (hsets.resolve_left nofun)
    | number => exact absurd rfl hvalue
    | quote => exact absurd rfl hvalue
    | ofGroup => exact ih h.2 hfirst (hsets.resolve_left nofun)

theorem passAll_passAttributes {earlier : Bool} {u : Token}
    (h : ∀ transform ∈ transforms, transform.Shipped) (hfirst : attributesFirst transforms = true)
    (hpath : u.path = t.path) (hattributes : u.attributes = t.attributes) :
    passAll options referencing transforms
        { u with attributes := (passAll options earlier transforms t).attributes } =
      passAll options referencing transforms u := by
  by_cases hsets : ∃ transform ∈ transforms, transform.kind = .attribute
  · have hsame : Attribute.withPath t = Attribute.withPath u := by
      rw [Attribute.withPath, Attribute.withPath, hpath, hattributes]
    rw [passAll_attributes h hsets, hsame, passAll_withPath h hfirst hsets]
  · rw [passAll_attributes_of_kind_ne (by simpa using hsets), ← hattributes]

theorem kind_ne_group_of_not_mem (h : ∀ transform ∈ transforms, transform.Shipped)
    (hnot : Attribute.ofGroup ∉ transforms) :
    ∀ transform ∈ transforms, transform.kind ≠ .group := by
  intro transform hmem hkind
  cases h transform hmem with
  | ofGroup => exact hnot hmem
  | _ => cases hkind

theorem Shipped.step_group (h : transform.Shipped) (groupMeta : GroupMeta) :
    transform.step ⟨options, some groupMeta⟩ .group referencing t =
      if transform.kind = .group then
        { t with attributes := Attribute.addMissing t.attributes groupMeta }
      else t := by
  cases h <;> rfl

end Transform

namespace Platform

variable {platform : Platform}
  (hbuiltin : ∀ transform ∈ platform.transforms, transform ∈ Registry.builtinTransforms)

include hbuiltin

theorem shipped_of_builtin : ∀ transform ∈ platform.transforms, transform.Shipped :=
  fun transform hmem => Registry.shipped_of_mem_builtinTransforms (hbuiltin transform hmem)

theorem resumes_of_attributesFirst
    (hfirst : Transform.attributesFirst platform.transforms = true) : platform.Resumes := by
  intro t v _
  have hshipped := shipped_of_builtin hbuiltin
  obtain ⟨_, _, _, hpass⟩ := platform.exists_transformInPass t
  -- a token that is put off gets a name and attributes only, and a later pass gives it them again
  calc platform.transformInPass { platform.transformInPass t with value := v }
    _ = platform.transformInPass { t with
          value := v
          name := (platform.transformInPass t).name
          attributes := (platform.transformInPass t).attributes } := by rw [hpass]
    _ = platform.transformInPass { t with
          value := v
          attributes := (platform.transformInPass t).attributes } :=
        Transform.passAll_passName (t := t)
          (u := { t with value := v, attributes := (platform.transformInPass t).attributes })
          hshipped rfl
    _ = platform.transformInPass { t with value := v } :=
        Transform.passAll_passAttributes (t := t) (u := { t with value := v }) hshipped hfirst
          rfl rfl

theorem transformInGroup_eq (hgroup : Attribute.ofGroup ∈ platform.transforms)
    (groupMeta : GroupMeta) (t : Token) : platform.transformInGroup groupMeta t =
      { t with attributes := Attribute.addMissing t.attributes groupMeta } := by
  have hshipped := shipped_of_builtin hbuiltin
  rw [transformInGroup, Token.transform]
  generalize t.hasReference = referencing
  clear hbuiltin
  obtain ⟨name, transforms, options⟩ := platform
  dsimp only at *
  induction transforms generalizing t with
  | nil => cases hgroup
  | cons transform rest ih =>
    rw [List.forall_mem_cons] at hshipped
    rw [List.foldl_cons, hshipped.1.step_group]
    by_cases hrest : Attribute.ofGroup ∈ rest
    · rw [ih _ hrest hshipped.2]
      split
      · rw [Attribute.addMissing_addMissing]
      · rfl
    · obtain rfl := (List.mem_cons.mp hgroup).resolve_right hrest
      have hkind : Attribute.ofGroup.kind = .group := rfl
      rw [if_pos hkind, Transform.foldl_step_of_kind_ne
        (Transform.kind_ne_group_of_not_mem hshipped.2 hrest)]

theorem exists_transformInGroup (groupMeta : GroupMeta) : ∃ f : Entries Json → Entries Json,
    ∀ t, platform.transformInGroup groupMeta t = { t with attributes := f t.attributes } := by
  by_cases hgroup : Attribute.ofGroup ∈ platform.transforms
  · exact ⟨fun attributes => Attribute.addMissing attributes groupMeta,
      transformInGroup_eq hbuiltin hgroup groupMeta⟩
  · exact ⟨id, fun t => Transform.foldl_step_of_kind_ne
      (Transform.kind_ne_group_of_not_mem (shipped_of_builtin hbuiltin) hgroup)⟩

theorem keepsPaths_of_builtin : platform.KeepsPaths := by
  intro groupMeta t
  obtain ⟨f, hf⟩ := exists_transformInGroup hbuiltin groupMeta
  rw [hf]

end Platform

end DesignTokens
