import DesignTokens.Platform.Registry
import DesignTokens.Proofs.Dictionary.Tokens
import DesignTokens.Proofs.Json.Braces
import DesignTokens.Proofs.Reference.Tidy
import DesignTokens.Proofs.Results
import DesignTokens.Proofs.Transform.Values

namespace DesignTokens

namespace Json

end Json

namespace Measure

theorem onNumber_keeps {P : Json → Prop} (hP : ∀ s : String, openBrace ∉ s.toList → P (.str s))
    {f : Binary64 → String} (hf : ∀ n, openBrace ∉ (f n).toList) {v : Json} (h : P v) :
    P (onNumber f v) := by
  rw [onNumber]
  split
  · exact hP _ (hf _)
  · exact h

theorem numberTransform_keeps {P : Json → Prop}
    (hP : ∀ s : String, openBrace ∉ s.toList → P (.str s)) (name category : String)
    {f : Entries Json → Binary64 → String} (hf : ∀ options n, openBrace ∉ (f options n).toList)
    (options : Entries Json) : (numberTransform name category f).Keeps options P := by
  intro g events heffect t _ ht
  simp only [numberTransform, Transform.Effect.value.injEq] at heffect
  rw [← heffect.1]
  exact onNumber_keeps hP (hf options) ht

theorem openBrace_not_mem_append {s unit : String} (hs : openBrace ∉ s.toList)
    (hunit : openBrace ∉ unit.toList) : openBrace ∉ (s ++ unit).toList := by
  rw [String.toList_append, List.mem_append, not_or]
  exact ⟨hs, hunit⟩

end Measure

namespace Registry

theorem eq_contentQuote_or_keeps {P : Json → Prop}
    (hP : ∀ s : String, openBrace ∉ s.toList → P (.str s)) (options : Entries Json) :
    ∀ transform ∈ builtinTransforms,
      transform = Measure.contentQuote ∨ transform.Keeps options P := by
  have hnumber := Measure.numberTransform_keeps (P := P) hP
  have hpx : ∀ n : Binary64, openBrace ∉ (n.text ++ "px").toList := fun n =>
    Measure.openBrace_not_mem_append n.openBrace_not_mem_text (by decide)
  have hrem : ∀ n : Binary64, openBrace ∉ (n.text ++ "rem").toList := fun n =>
    Measure.openBrace_not_mem_append n.openBrace_not_mem_text (by decide)
  have hseconds : ∀ n : Binary64, openBrace ∉ (n.textFixed2 ++ "s").toList := fun n =>
    Measure.openBrace_not_mem_append n.openBrace_not_mem_textFixed2 (by decide)
  have hother : ∀ transform : Transform, transform.kind ≠ .value →
      transform.Keeps options P := fun _ => Transform.keeps_of_kind_ne
  have hnames : ∀ name style, (NameStyle.transform name style).Keeps options P := by
    intro name style
    apply hother
    have hkind : (NameStyle.transform name style).kind = .name := rfl
    rw [hkind]
    decide
  simp only [builtinTransforms, List.forall_mem_cons]
  exact ⟨.inr (hother _ (by decide)), .inr (hnames _ _), .inr (hnames _ _), .inr (hnames _ _),
    .inr (hnames _ _), .inr (hnames _ _), .inr (hnumber _ _ (fun _ => hpx) options),
    .inr (hnumber _ _ (fun _ => hrem) options), .inr (hnumber _ _ (fun _ _ => hrem _) options),
    .inr (hnumber _ _ (fun _ _ => hseconds _) options), .inl trivial, .inr (hother _ (by decide)),
    by simp⟩

theorem wanted_mem_builtinTransforms {platform name : String} {transform : Transform}
    (h : builtin.wanted platform name = .ok transform) : transform ∈ builtinTransforms := by
  have hlisted : builtin.transforms = builtinTransforms.map fun t => (t.name, t) := rfl
  rw [wanted] at h
  split at h
  · next found hfound =>
    obtain rfl : found = transform := by injection h
    have hmem := Entries.mem_of_get?_eq_some hfound
    rw [hlisted] at hmem
    obtain ⟨t, ht, heq⟩ := List.mem_map.mp hmem
    rw [Prod.mk.injEq] at heq
    exact heq.2 ▸ ht
  · cases h

theorem mem_builtinTransforms_of_build {name : String} {declared : PlatformDeclaration}
    {platform : Platform} (h : builtin.build name declared = .ok platform) :
    ∀ transform ∈ platform.transforms, transform ∈ builtinTransforms := by
  obtain ⟨names, _, h⟩ := Except.bind_eq_ok_iff.mp h
  obtain ⟨transforms, htransforms, h⟩ := Except.bind_eq_ok_iff.mp h
  cases h
  intro transform hmem
  obtain ⟨_, _, hwanted⟩ :=
    Except.exists_of_mem_right (Except.forall₂_of_mapM htransforms) hmem
  exact wanted_mem_builtinTransforms hwanted

end Registry

end DesignTokens
