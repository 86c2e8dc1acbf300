import DesignTokens.Proofs.Export.Namesakes
import DesignTokens.Proofs.Transform.Order

namespace DesignTokens

namespace Transform

variable {transforms : List Transform} {options : Entries Json} {t : Token}

/-- Where transforms quote the value of a token, the text that they make of it names no path. -/
def QuotesNoPath (options : Entries Json) : List Transform → Token → Prop
  | [], _ => True
  | transform :: rest, t =>
    (transform = Measure.contentQuote → transform.accepts t = true →
      (Measure.quote t.value).references = []) ∧
      QuotesNoPath options rest (transform.step ⟨options, none⟩ .pass false t)

theorem references_passAll
    (hbuiltin : ∀ transform ∈ transforms, transform ∈ Registry.builtinTransforms)
    (hquotes : QuotesNoPath options transforms t) (ht : t.value.references = []) :
    (passAll options false transforms t).value.references = [] := by
  induction transforms generalizing t with
  | nil => exact ht
  | cons transform rest ih =>
    rw [List.forall_mem_cons] at hbuiltin
    rw [passAll_cons]
    refine ih hbuiltin.2 hquotes.2 ?_
    obtain rfl | hkeeps := Registry.eq_contentQuote_or_keeps (P := fun v => v.references = [])
      (fun _ => referencedPaths_eq_nil) options transform hbuiltin.1
    · have heffect : Measure.contentQuote.effect =
          .value (fun _ t => Measure.quote t.value) fun _ _ => [] := rfl
      rw [step_value_eq heffect]
      split
      · next haccepts => exact hquotes.1 rfl (by simpa using haccepts)
      · exact ht
    · exact hkeeps.step false ht

end Transform

/-- Whatever a platform quotes of a token, the text names no path. -/
def Platform.QuotesNoPath (platform : Platform) (t : Token) : Prop :=
  Transform.QuotesNoPath platform.options platform.transforms t

section Builtin

variable {platform : Platform}
  (hbuiltin : ∀ transform ∈ platform.transforms, transform ∈ Registry.builtinTransforms)

include hbuiltin

theorem Platform.references_transformInPass {t : Token} (href : t.hasReference = false)
    (hquotes : platform.QuotesNoPath t) : (platform.transformInPass t).value.references = [] := by
  rw [Transform.transformInPass_eq_passAll, href]
  exact Transform.references_passAll hbuiltin hquotes (Json.references_eq_nil href)

theorem Dictionary.hasReference_propagateMeta {d : Dictionary}
    (hclear : ∀ e ∈ d.tokens, e.2.hasReference = false) :
    ∀ e ∈ (d.propagateMeta platform).tokens, e.2.hasReference = false := by
  refine of_mem_tokens_propagateMeta (P := fun _ t => t.hasReference = false)
    (Q := fun _ t => t.hasReference = false) (fun groupMeta path t ht => ?_) hclear
  obtain ⟨f, hf⟩ := Platform.exists_transformInGroup hbuiltin groupMeta
  rw [hf]
  exact ht

end Builtin

/-- Where no token refers to anything, and no text that is quoted names a path, an export with the
transforms that are always there takes one pass under any limit, and all that it has to say is about
mixins and metadata. -/
theorem Export.run_of_clear_takes_one_pass {depth maxPasses : Nat} {platform : Platform}
    {d expanded : Dictionary} {faults : List MixinFault} (hread : d.AsRead)
    (hbuiltin : ∀ transform ∈ platform.transforms, transform ∈ Registry.builtinTransforms)
    (hmixin : Mixin.apply depth d = some (expanded, faults))
    (hclear : ∀ e ∈ expanded.tokens, e.2.hasReference = false)
    (hquotes : ∀ e ∈ (expanded.propagateMeta platform).tokens,
      (expanded.propagateMeta platform).isFirstNamed e.1 = true →
        platform.QuotesNoPath { e.2 with path := e.1 }) :
    ∃ outcome, Export.run depth platform maxPasses d = .ok outcome ∧ outcome.passes = 1 ∧
      ∀ m ∈ outcome.diagnostics, m ∈ faults.map MixinFault.diagnostic ∨
        m ∈ expanded.metaFaults.map GroupFault.diagnostic := by
  have hdistinct := ((Mixin.asRead_apply hread hmixin).wellFormed.propagateMeta platform).distinct
  have htreeClear := Dictionary.hasReference_propagateMeta hbuiltin hclear
  obtain ⟨s, hrun, _⟩ := Run.ofTree_of_brings_none hdistinct htreeClear (fun e he hfirst =>
    Platform.references_transformInPass hbuiltin (t := { e.2 with path := e.1 })
      (htreeClear e he) (hquotes e he hfirst)) maxPasses
  have hwarnings : (Run.ofTree platform maxPasses (expanded.propagateMeta platform)).warnings =
      [] := by
    rw [Run.warnings_eq_nil_iff, hrun]
    exact ⟨rfl, rfl⟩
  rw [run, hmixin]
  dsimp only
  rw [ofExpanded, conclude_of_warnings_eq_nil _ hwarnings, hrun]
  · refine ⟨_, rfl, rfl, fun m hm => ?_⟩
    obtain hmixins | hmeta := Collector.mem_diagnostics_addAll hm
    · exact .inl ((Collector.mem_diagnostics_addAll hmixins).resolve_left List.not_mem_nil)
    · exact .inr hmeta
  · have hne : DiagnosticGroup.decorators ≠ .references := by decide
    rw [Collector.messages_addAll_of_ne hne, Collector.messages_addAll_of_ne hne]
    rfl

def Platform.quoting : Platform :=
  ⟨"quoting", [Attribute.cti, Measure.contentQuote, Measure.sizePx], []⟩

theorem Platform.builtin_quoting :
    ∀ transform ∈ Platform.quoting.transforms, transform ∈ Registry.builtinTransforms := by
  simp [Platform.quoting, Registry.builtinTransforms]

def Dictionary.captions : Dictionary :=
  [("content", .branch [
    ("empty", .token (.new (.obj []))),
    ("list", .token (.new (.arr [.str "x", .num (.int 1)])))]),
  ("shadow", .token (.new (.obj [("x", .num (.int 1))])))]

theorem Dictionary.asRead_captions : Dictionary.captions.AsRead := by
  have hnone : (Json.obj []).DistinctKeys := ⟨.nil, trivial⟩
  have hlist : (Json.arr [.str "x", .num (.int 1)]).DistinctKeys := ⟨trivial, trivial, trivial⟩
  have hshadow : (Json.obj [("x", .num (.int 1))]).DistinctKeys := ⟨by decide, trivial, trivial⟩
  exact ⟨by decide,
    ⟨by decide, by decide, ⟨hnone, hnone, hnone⟩, ⟨hlist, hnone, hnone⟩, trivial⟩,
    ⟨hshadow, hnone, hnone⟩, trivial⟩

theorem Export.captions_take_one_pass :
    ∃ outcome, Export.run 2 .quoting 7 .captions = .ok outcome ∧ outcome.passes = 1 := by
  have hmixin : Mixin.apply 2 .captions = some (.captions, []) := rfl
  have hcti : Attribute.cti ≠ Measure.contentQuote := fun h =>
    absurd (congrArg Transform.name h) (by decide)
  have hpx : Measure.sizePx ≠ Measure.contentQuote := fun h =>
    absurd (congrArg Transform.name h) (by decide)
  have hquoted : ∀ e ∈ (Dictionary.captions.propagateMeta .quoting).tokens,
      Measure.contentQuote.accepts (Attribute.cti.step ⟨[], none⟩ .pass false
        { e.2 with path := e.1 }) = true → (Measure.quote e.2.value).references = [] := by
    decide +kernel
  obtain ⟨outcome, hok, hpasses, _⟩ : ∃ outcome, Export.run 2 .quoting 7 .captions = .ok outcome ∧
      outcome.passes = 1 ∧ _ := run_of_clear_takes_one_pass Dictionary.asRead_captions
    Platform.builtin_quoting hmixin (by decide) fun e he _ =>
      ⟨fun h => absurd h hcti, fun _ => hquoted e he, fun h => absurd h hpx, trivial⟩
  exact ⟨outcome, hok, hpasses⟩

def Dictionary.recorded : Dictionary :=
  [("content", .branch [("a", .token (.new (.obj [("x", .num (.int 1))])))])]

theorem Dictionary.asRead_recorded : Dictionary.recorded.AsRead := by
  have hnone : (Json.obj []).DistinctKeys := ⟨.nil, trivial⟩
  have hvalue : (Json.obj [("x", .num (.int 1))]).DistinctKeys := ⟨by decide, trivial, trivial⟩
  exact ⟨by decide, ⟨by decide, by decide, ⟨hvalue, hnone, hnone⟩, trivial⟩, trivial⟩

/-- The text of the object is taken for a reference, and the export fails. -/
theorem Export.quoted_object_is_missed :
    Dictionary.recorded.AsRead ∧
      (∀ transform ∈ Platform.quoting.transforms, transform ∈ Registry.builtinTransforms) ∧
      Mixin.apply 2 .recorded = some (.recorded, []) ∧
      (∀ e ∈ Dictionary.recorded.tokens, e.2.hasReference = false) ∧
      (Run.ofTree .quoting 100 (Dictionary.recorded.propagateMeta .quoting)).problems =
        [.missing "content.a" "\"x\":1"] ∧
      (Export.run 2 .quoting 100 .recorded).toOption.isNone = true :=
  ⟨Dictionary.asRead_recorded, Platform.builtin_quoting, rfl, by decide, by decide +kernel,
    by decide +kernel⟩

end DesignTokens
