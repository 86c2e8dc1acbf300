import DesignTokens.Proofs.Diagnostic.Collector
import DesignTokens.Proofs.Dictionary.Correspondence
import DesignTokens.Proofs.Dictionary.Replace
import DesignTokens.Proofs.Reference.Stack

namespace DesignTokens

namespace Json

mutual

/-- Values that are the same but for strings with an opening brace, in whose places anything may
stand. -/
def SameButReferences : Json → Json → Prop
  | .str s, w => openBrace ∉ s.toList → w = .str s
  | .arr items, .arr others => SameItems items others
  | .obj entries, .obj others => SameEntries entries others
  | v, w => w = v

def SameItems : List Json → List Json → Prop
  | [], [] => True
  | item :: rest, other :: others => item.SameButReferences other ∧ SameItems rest others
  | _, _ => False

def SameEntries : List (String × Json) → List (String × Json) → Prop
  | [], [] => True
  | (key, value) :: rest, (otherKey, other) :: others =>
    otherKey = key ∧ value.SameButReferences other ∧ SameEntries rest others
  | _, _ => False

end

end Json

/-- What a resolution may make of a token: its value may differ in strings with an opening brace,
and does not if there are none. -/
structure Token.Refilled (t u : Token) : Prop where
  parts : u = { t with value := u.value }
  value : t.value.SameButReferences u.value
  same : t.hasReference = false → u = t

namespace Reference

variable {replace : Replacement}

mutual

theorem fill_sameButReferences : ∀ v : Json, v.SameButReferences (fill replace v).1
  | .null => rfl
  | .bool _ => rfl
  | .num _ => rfl
  | .str s => fun h => congrArg Prod.fst
      (fill_of_not_hasReference (.str s) (by simpa [Json.hasReference] using h))
  | .arr items => fillItems_sameItems items
  | .obj entries => fillEntries_sameEntries entries

theorem fillItems_sameItems : ∀ items : List Json, Json.SameItems items (fillItems replace items).1
  | [] => trivial
  | item :: rest => ⟨fill_sameButReferences item, fillItems_sameItems rest⟩

theorem fillEntries_sameEntries : ∀ entries : List (String × Json),
    Json.SameEntries entries (fillEntries replace entries).1
  | [] => trivial
  | (_, value) :: rest => ⟨rfl, fill_sameButReferences value, fillEntries_sameEntries rest⟩

end

theorem fillToken_of_not_hasReference {d : Dictionary} {ignored path : List String} {v : Json}
    (h : v.hasReference = false) : fillToken d ignored path v = (v, []) :=
  if_neg (ne_true_of_eq_false h)

theorem collector_foldl_file {a : Account} (seen : List ReferenceProblem)
    (hseen : a.cycles = seen.filterMap ReferenceProblem.members?)
    (problems : List ReferenceProblem) : (problems.foldl Account.file a).collector =
      a.collector.addAll .references
        ((distinctCycles seen problems).map ReferenceProblem.diagnostic) := by
  induction problems generalizing a seen with
  | nil => rfl
  | cons problem rest ih =>
    rw [List.foldl_cons, distinctCycles]
    cases problem with
    | missing context path =>
      rw [if_neg (by simp [sameCycle])]
      apply ih
      rw [List.filterMap_append, ← hseen]
      exact (List.append_nil a.cycles).symm
    | cycle members closing =>
      have hany : a.cycles.any members.isPerm = seen.any (sameCycle (.cycle members closing)) := by
        rw [hseen, List.any_filterMap]
        congr 1
        funext before
        cases before <;> rfl
      rw [Account.file, hany]
      split
      · exact ih seen hseen
      · exact ih _ (by simp [hseen, ReferenceProblem.members?])

theorem messages_foldl_file (a : Account) (problems : List ReferenceProblem) :
    (∀ group, group ≠ .references → (problems.foldl Account.file a).collector.messages group =
      a.collector.messages group) ∧
    a.collector.messages .references <+:
      (problems.foldl Account.file a).collector.messages .references := by
  have hseen : a.cycles = (a.cycles.map (ReferenceProblem.cycle · "")).filterMap
      ReferenceProblem.members? := by
    simp [List.filterMap_map, Function.comp_def, ReferenceProblem.members?]
  rw [collector_foldl_file _ hseen]
  refine ⟨fun group hgroup => Collector.messages_addAll_of_ne hgroup.symm, ?_⟩
  rw [Collector.messages_addAll_self]
  exact Collector.prefix_foldl_addOnce _ _

end Reference

namespace Dictionary

/-- A tree with the references resolved in the values of the tokens at some paths. -/
def fillAt (d : Dictionary) (ignored : List String) (paths : List (List String)) : Dictionary :=
  d.mapTokens fun path t =>
    if path ∈ paths then { t with value := (Reference.fillToken d ignored path t.value).1 } else t

variable {d : Dictionary} {ignored : List String} {e : List String × Token}
  {order : List (List String × Token)}

theorem eq_of_mem_tokens_of_fst (hd : d.DistinctKeys) {other : List String × Token}
    (he : e ∈ d.tokens) (hother : other ∈ d.tokens) (h : other.1 = e.1) : other = e := by
  have hsame := tokenAt?_of_mem_tokens hd he
  rw [← h, tokenAt?_of_mem_tokens hd hother] at hsame
  exact Prod.ext h (Option.some.inj hsame)

@[simp] theorem fillAt_nil : d.fillAt ignored [] = d := by simp [fillAt]

theorem fillAt_of_subset {paths : List (List String)} (h : ∀ e ∈ d.tokens, e.1 ∈ paths) :
    d.fillAt ignored paths = (d.fillReferences ignored).1 :=
  mapTokens_congr fun e he => if_pos (h e he)

theorem writeFilled_fillAt (hd : d.DistinctKeys) (he : e ∈ d.tokens) (paths : List (List String)) :
    d.writeFilled ignored (d.fillAt ignored paths) e = d.fillAt ignored (paths ++ [e.1]) := by
  rw [writeFilled]
  split
  · have hdistinct : (d.fillAt ignored paths).DistinctKeys := hd.mapTokens _
    -- whatever has been written, there still is a token at the path
    obtain ⟨t, ht⟩ : ∃ t, (d.fillAt ignored paths).tokenAt? e.1 = some t := by
      rw [fillAt, tokenAt?_mapTokens, tokenAt?_of_mem_tokens hd he]
      exact ⟨_, rfl⟩
    rw [modifyToken?_eq_withValue hdistinct ht, Option.getD_some, withValue, fillAt, fillAt,
      mapTokens_mapTokens]
    apply mapTokens_congr
    intro other hother
    by_cases hpath : other.1 = e.1
    · obtain rfl := eq_of_mem_tokens_of_fst hd he hother hpath
      by_cases hdone : other.1 ∈ paths <;> simp [hdone]
    · simp [hpath]
  · next href =>
    apply mapTokens_congr
    intro other hother
    by_cases hpath : other.1 = e.1
    · obtain rfl := eq_of_mem_tokens_of_fst hd he hother hpath
      simp [Reference.fillToken_of_not_hasReference (eq_false_of_ne_true href)]
    · simp [hpath]

theorem foldl_writeFilled (ignored : List String) (hd : d.DistinctKeys)
    (horder : ∀ e ∈ order, e ∈ d.tokens) (paths : List (List String)) :
    order.foldl (d.writeFilled ignored) (d.fillAt ignored paths) =
      d.fillAt ignored (paths ++ order.map Prod.fst) := by
  induction order generalizing paths with
  | nil => simp
  | cons e rest ih =>
    obtain ⟨he, hrest⟩ := List.forall_mem_cons.mp horder
    rw [List.foldl_cons, writeFilled_fillAt hd he, ih hrest]
    simp

theorem run_fillEach_eq_fillAt (ignored : List String) {levels : Nat} (hd : d.DistinctKeys)
    (hlevels : d.tokens.length ≤ levels) (horder : ∀ e ∈ order, e ∈ d.tokens)
    (s : Reference.Session) : ∃ s',
      (Reference.Resolving.fillEach d ignored levels order d).run s =
        some (d.fillAt ignored (order.map Prod.fst), s') ∧
      s'.account = (order.flatMap fun e =>
        (Reference.fillToken d ignored e.1 e.2.value).2).foldl Reference.Account.file s.account := by
  obtain ⟨s', hrun, hleaves⟩ := Reference.Resolving.run_fillEach ignored hlevels horder d s
  have hwritten := foldl_writeFilled ignored hd horder []
  rw [fillAt_nil, List.nil_append] at hwritten
  exact ⟨s', hwritten ▸ hrun, hleaves.account⟩

theorem corresponds_fillReferences (d : Dictionary) (ignored : List String) :
    d.Corresponds (fun _ => Token.Refilled) (d.fillReferences ignored).1 := by
  have hsame : d.Corresponds (fun _ t u => u = t) d := corresponds_self (r := fun _ t u => u = t)
    (fun _ _ => rfl) d
  refine hsame.mapTokens fun path t u hu => ?_
  subst hu
  refine ⟨rfl, ?_, fun href => ?_⟩
  · rw [Reference.fillToken_eq_fill]
    exact Reference.fill_sameButReferences u.value
  · rw [Reference.fillToken_of_not_hasReference href]

/-- Resolution changes values of tokens that use references, in these only strings with an opening
brace, and nothing else of the tree.  Tokens may be resolved in any order and in any session: what
becomes of each depends on the tree and on what is ignored, and of all messages only those about
references grow.  From the first token to the last, with no cycle reported yet, the messages are
those of `fillReferences`. -/
theorem resolution_changes_values_only (hd : d.DistinctKeys) (ignored : List String) :
    d.Corresponds (fun _ => Token.Refilled) (d.fillReferences ignored).1 ∧
    ∀ levels, d.tokens.length ≤ levels → ∀ s : Reference.Session,
      (∀ order, (∀ e ∈ order, e ∈ d.tokens) → ∃ s',
        (Reference.Resolving.fillEach d ignored levels order d).run s =
          some (d.fillAt ignored (order.map Prod.fst), s') ∧
        (∀ group, group ≠ .references →
          s'.account.collector.messages group = s.account.collector.messages group) ∧
        s.account.collector.messages .references <+: s'.account.collector.messages .references) ∧
      (s.account.cycles = [] → ∃ s',
        (Reference.Resolving.fillEach d ignored levels d.tokens d).run s =
          some ((d.fillReferences ignored).1, s') ∧
        s'.account.collector = s.account.collector.addAll .references
          ((d.fillReferences ignored).2.map ReferenceProblem.diagnostic)) := by
  refine ⟨corresponds_fillReferences d ignored, fun levels hlevels s => ⟨fun order horder => ?_,
    fun hcycles => ?_⟩⟩
  · obtain ⟨s', hrun, haccount⟩ := run_fillEach_eq_fillAt ignored hd hlevels horder s
    refine ⟨s', hrun, ?_⟩
    rw [haccount]
    exact Reference.messages_foldl_file s.account _
  · obtain ⟨s', hrun, haccount⟩ := run_fillEach_eq_fillAt ignored hd hlevels (fun _ he => he) s
    rw [fillAt_of_subset fun _ => List.mem_map_of_mem] at hrun
    refine ⟨s', hrun, ?_⟩
    rw [haccount, Reference.collector_foldl_file [] hcycles, fillReferences_snd]

/-- References where they are not resolved, too: in a decorator, in a literal, in a key, and in the
attributes and other entries of a token; and a token that uses itself. -/
def furnished : Dictionary :=
  [("@group", .decorator (.str "\x7bsize.base\x7d")),
  ("note", .literal (.str "\x7bsize.base\x7d")),
  ("size", .branch [
    ("list", .token ⟨.arr [.str "\x7bsize.base\x7d", .str "none",
        .obj [("\x7bsize.base\x7d", .str "a \x7bsize.base\x7d")]],
      some "list", ["size", "list"], [("item", .str "\x7bsize.base\x7d")],
      [("comment", .str "\x7bsize.base\x7d")]⟩),
    ("base", .token (.new (.num (.int 4))))]),
  ("self", .token (.new (.str "\x7bself\x7d")))]

theorem furnished_changes_values_only :
    furnished.DistinctKeys ∧
    furnished.Corresponds (fun _ => Token.Refilled) (furnished.fillReferences []).1 ∧
    (∃ s', (Reference.Resolving.fillEach furnished [] 3 furnished.tokens.reverse furnished).run
        ⟨["self"], [], ⟨[["self"]], .empty⟩⟩ = some ((furnished.fillReferences []).1, s') ∧
      s'.account.collector.messages .decorators = []) ∧
    ((furnished.fillReferences []).1.tokenAt? ["size", "list"]).map (·.value) =
      some (.arr [.num (.int 4), .str "none", .obj [("\x7bsize.base\x7d", .str "a 4")]]) := by
  have hd : furnished.DistinctKeys := by decide
  obtain ⟨hframe, hruns⟩ := resolution_changes_values_only hd []
  obtain ⟨horders, _⟩ := hruns 3 (by decide) ⟨["self"], [], ⟨[["self"]], .empty⟩⟩
  obtain ⟨s', hrun, hothers, _⟩ := horders furnished.tokens.reverse (by simp)
  rw [fillAt_of_subset fun _ he => List.mem_map_of_mem (List.mem_reverse.mpr he)] at hrun
  exact ⟨hd, hframe, ⟨s', hrun, hothers .decorators (by decide)⟩, by decide +kernel⟩

end Dictionary

end DesignTokens
