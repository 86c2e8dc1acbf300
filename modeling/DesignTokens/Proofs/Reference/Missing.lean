import DesignTokens.Proofs.Diagnostic.Collector
import DesignTokens.Proofs.Reference.Cycles
import DesignTokens.Proofs.Reference.Sound

namespace DesignTokens

/-- A reference to nothing, found in the value of a token of the given name. -/
def ReferenceProblem.isMissingIn (name : String) : ReferenceProblem → Bool
  | .missing context _ => context == name
  | .cycle _ _ => false

def Dictionary.misses (d : Dictionary) (ignored : List String) (ref : String) : Bool :=
  !Reference.isIgnored ignored ref && (d.lookup (pathSegments ref)).isNone

namespace Reference

variable {d : Dictionary} {ignored stack : List String} {fuel : Nat}
  {context name ref path : String}

theorem misses_eq_true_iff : d.misses ignored ref = true ↔
    isIgnored ignored ref = false ∧ d.lookup (pathSegments ref) = none := by
  simp [Dictionary.misses]

theorem of_missing_mem_follow
    (h : .missing name path ∈ (follow d ignored fuel context stack ref).2) :
    d.misses ignored path = true ∧ (name = context ∧ path = ref ∨ name ∉ stack ∧
      ∃ e ∈ d.tokens, dottedName e.1 = name ∧ path ∈ e.2.value.references) := by
  induction fuel using Nat.strongRecOn generalizing context stack ref with
  | ind fuel ih =>
    have houtcome := follow_outcome d ignored fuel context stack ref
    generalize follow d ignored fuel context stack ref = result at houtcome h
    cases houtcome with
    | missing hfree hlookup =>
      rw [List.mem_singleton, ReferenceProblem.missing.injEq] at h
      obtain ⟨rfl, rfl⟩ := h
      exact ⟨misses_eq_true_iff.mpr ⟨hfree, hlookup⟩, .inl ⟨rfl, rfl⟩⟩
    | @through fuel v token _ hlookup _ hstack =>
      rw [fill_snd, List.mem_flatMap] at h
      obtain ⟨next, hnext, h⟩ := h
      -- met in the token itself, whose name was not on the stack, or in another further on
      obtain ⟨hmisses, ⟨rfl, rfl⟩ | ⟨hnot, hfound⟩⟩ := ih fuel (Nat.lt_succ_self fuel) h
      · obtain ⟨walked, t, ht, hname, hrefs, _⟩ := Dictionary.exists_token_of_lookup hlookup
        exact ⟨hmisses, .inr ⟨hstack, (walked, t), Dictionary.mem_tokens_of_tokenAt? ht, hname,
          hrefs path hnext⟩⟩
      · exact ⟨hmisses, .inr ⟨fun hmem => hnot (List.mem_append_left _ hmem), hfound⟩⟩
    | _ => simp at h

theorem filter_isMissingIn_follow (hstack : name ∈ stack) :
    (follow d ignored fuel name stack ref).2.filter (·.isMissingIn name) =
      if d.misses ignored ref then [.missing name ref] else [] := by
  split
  · next h =>
    obtain ⟨hfree, hlookup⟩ := misses_eq_true_iff.mp h
    simp [follow_of_lookup_eq_none hfree hlookup, ReferenceProblem.isMissingIn]
  · next h =>
    apply List.filter_eq_nil_iff.mpr
    intro problem hmem hown
    cases problem with
    | missing context path =>
      obtain rfl : context = name := by simpa [ReferenceProblem.isMissingIn] using hown
      obtain ⟨hmisses, ⟨_, rfl⟩ | ⟨hnot, _⟩⟩ := of_missing_mem_follow hmem
      · exact h hmisses
      · exact hnot hstack
    | cycle members closing => cases hown

theorem filter_isMissingIn_fill (hstack : name ∈ stack) (v : Json) :
    (fill (follow d ignored fuel name stack) v).2.filter (·.isMissingIn name) =
      (v.references.filter (d.misses ignored)).map (.missing name) := by
  rw [fill_snd]
  induction v.references with
  | nil => rfl
  | cons ref rest ih =>
    rw [List.flatMap_cons, List.filter_append, ih, filter_isMissingIn_follow hstack]
    cases h : d.misses ignored ref <;> simp [h]

theorem filter_isMissingIn_fillToken (target : List String) (v : Json) :
    (fillToken d ignored target v).2.filter (·.isMissingIn (dottedName target)) =
      (v.references.filter (d.misses ignored)).map (.missing (dottedName target)) := by
  rw [fillToken_eq_fill]
  exact filter_isMissingIn_fill (List.mem_singleton_self _) v

end Reference

namespace Dictionary

variable {d : Dictionary} {ignored : List String} {name path : String}

theorem missing_mem_fillReferences_iff : .missing name path ∈ (d.fillReferences ignored).2 ↔
    ∃ e ∈ d.tokens, dottedName e.1 = name ∧ path ∈ e.2.value.references ∧
      d.misses ignored path = true := by
  rw [fillReferences_snd]
  constructor
  · intro h
    obtain ⟨e, he, h⟩ := List.mem_flatMap.mp (Reference.mem_of_mem_distinctCycles h)
    rw [Reference.fillToken_eq_fill, Reference.fill_snd, List.mem_flatMap] at h
    obtain ⟨ref, href, h⟩ := h
    obtain ⟨hmisses, ⟨rfl, rfl⟩ | ⟨_, other, hother, hname, hin⟩⟩ :=
      Reference.of_missing_mem_follow h
    · exact ⟨e, he, rfl, href, hmisses⟩
    · exact ⟨other, hother, hname, hin, hmisses⟩
  · rintro ⟨e, he, rfl, href, hmisses⟩
    apply Reference.missing_mem_distinctCycles
    apply List.mem_flatMap.mpr
    refine ⟨e, he, List.mem_of_mem_filter (p := (·.isMissingIn (dottedName e.1))) ?_⟩
    rw [Reference.filter_isMissingIn_fillToken]
    exact List.mem_map_of_mem (List.mem_filter.mpr ⟨href, hmisses⟩)

/-- The warnings about missing references that one resolution leaves in an empty collector. -/
def missingWarnings (d : Dictionary) (ignored : List String) : List Diagnostic :=
  ((Collector.empty.addAll .references
    ((d.fillReferences ignored).2.map ReferenceProblem.diagnostic)).messages .references).filter
      (·.code = some "T-1-1")

theorem mem_missingWarnings_iff {warning : Diagnostic} : warning ∈ d.missingWarnings ignored ↔
    ∃ name path, .missing name path ∈ (d.fillReferences ignored).2 ∧
      warning = (ReferenceProblem.missing name path).diagnostic := by
  rw [missingWarnings, List.mem_filter, Collector.messages_addAll_self, Collector.mem_foldl_addOnce,
    List.mem_map, decide_eq_true_eq]
  constructor
  · rintro ⟨hnone | ⟨problem, hmem, rfl⟩, hcode⟩
    · cases hnone
    · cases problem with
      | missing name path => exact ⟨name, path, hmem, rfl⟩
      | cycle members closing => simp [ReferenceProblem.diagnostic, Diagnostic.withCode,
          Diagnostic.withHint] at hcode
  · rintro ⟨name, path, hmem, rfl⟩
    exact ⟨.inr ⟨_, hmem, rfl⟩, rfl⟩

/-- The warnings about missing references are exact: each of them once, one for each reference to
nothing in the value of a token, unless it is ignored.  A token that is come to through others, or
from itself, is found to miss what it misses by itself. -/
theorem missing_warnings_are_exact (d : Dictionary) (ignored : List String) :
    (d.missingWarnings ignored).Nodup ∧
    (∀ warning, warning ∈ d.missingWarnings ignored ↔
      ∃ e ∈ d.tokens, ∃ path ∈ e.2.value.references, Reference.isIgnored ignored path = false ∧
        d.lookup (pathSegments path) = none ∧
        warning = (ReferenceProblem.missing (dottedName e.1) path).diagnostic) ∧
    ∀ e ∈ d.tokens, ∀ fuel stack, dottedName e.1 ∈ stack →
      (Reference.fill (Reference.follow d ignored fuel (dottedName e.1) stack)
          e.2.value).2.filter (·.isMissingIn (dottedName e.1)) =
        (Reference.fillToken d ignored e.1 e.2.value).2.filter (·.isMissingIn (dottedName e.1)) := by
  refine ⟨?_, fun warning => ?_, fun e _ fuel stack hstack => ?_⟩
  · rw [missingWarnings, Collector.messages_addAll_self]
    apply List.Nodup.filter
    exact Collector.nodup_foldl_addOnce List.nodup_nil _
  · rw [mem_missingWarnings_iff]
    constructor
    · rintro ⟨name, path, hmem, rfl⟩
      obtain ⟨e, he, rfl, hin, hmisses⟩ := missing_mem_fillReferences_iff.mp hmem
      obtain ⟨hfree, hlookup⟩ := Reference.misses_eq_true_iff.mp hmisses
      exact ⟨e, he, path, hin, hfree, hlookup, rfl⟩
    · rintro ⟨e, he, path, hin, hfree, hlookup, rfl⟩
      have hmisses := Reference.misses_eq_true_iff.mpr ⟨hfree, hlookup⟩
      exact ⟨_, path, missing_mem_fillReferences_iff.mpr ⟨e, he, rfl, hin, hmisses⟩, rfl⟩
  · rw [Reference.filter_isMissingIn_fill hstack, Reference.filter_isMissingIn_fillToken]

/-- A cycle one of whose tokens misses two references, a token that misses one, one that uses both,
and a reference to nothing that is ignored. -/
def forlorn : Dictionary :=
  [("both", .token (.new (.str "\x7blost\x7d, \x7bround\x7d"))),
  ("lost", .token (.new (.str "\x7b gone \x7d, \x7blater\x7d"))),
  ("round", .token (.new (.str "\x7bback.value\x7d"))),
  ("back", .token (.new (.arr [.str "\x7bround\x7d",
    .obj [("x", .str "\x7bgone\x7d\x7back\x7d")]])))]

theorem forlorn_warnings_are_exact :
    (forlorn.missingWarnings ["later.value"]).Nodup ∧
    (ReferenceProblem.missing "back" "ack").diagnostic ∈
      forlorn.missingWarnings ["later.value"] ∧
    (Reference.fill (Reference.follow forlorn ["later.value"] 4 "back" ["both", "round", "back"])
        (.arr [.str "\x7bround\x7d", .obj [("x", .str "\x7bgone\x7d\x7back\x7d")]])).2.filter
          (·.isMissingIn "back") =
      [.missing "back" "gone", .missing "back" "ack"] ∧
    (forlorn.missingWarnings ["later.value"]).length = 3 := by
  obtain ⟨honce, hexact, halone⟩ := missing_warnings_are_exact forlorn ["later.value"]
  have hback : (["back"], Token.new (.arr [.str "\x7bround\x7d",
      .obj [("x", .str "\x7bgone\x7d\x7back\x7d")]])) ∈ forlorn.tokens := by decide
  refine ⟨honce, (hexact _).mpr ⟨_, hback, "ack", by decide +kernel⟩, ?_, by decide +kernel⟩
  exact (halone _ hback 4 ["both", "round", "back"] (by decide)).trans (by decide +kernel)

end Dictionary

end DesignTokens
