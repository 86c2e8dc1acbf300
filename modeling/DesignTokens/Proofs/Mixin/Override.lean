import DesignTokens.Proofs.Dictionary.RoundTrip
import DesignTokens.Proofs.Mixin.Walk

namespace DesignTokens

namespace Mixin

variable {d branch : Dictionary} {path target : List String} {mixin : Entries Json} {key : String}
  {token : Option String}

/-- A branch with a mixin laid over it.  The keys of the branch stay in place, and behind them come
the other ones of the mixin.  Decorators of the mixin are left out.  All that comes from the mixin is
read under its key. -/
structure Overlaid (branch : Dictionary) (mixin : Entries Json) (merged : Dictionary) : Prop where
  keys : Entries.keys merged = Entries.keys branch ++
    (Entries.keys mixin).filter fun key => !namesDecorator key && key ∉ Entries.keys branch
  added : ∀ key value, key ∉ Entries.keys branch → namesDecorator key = false →
    Entries.get? mixin key = some value → Entries.get? merged key = some (Node.ofEntry key value)
  taken : ∀ key value, [key, applyKey].Sublist (Entries.keys branch) → namesDecorator key = false →
    Entries.get? mixin key = some value → Entries.get? merged key = some (Node.ofEntry key value)
  kept : ∀ key ∈ Entries.keys branch, namesDecorator key = true ∨
    ¬ [key, applyKey].Sublist (Entries.keys branch) ∨ Entries.get? mixin key = none →
      Entries.get? merged key = Entries.get? branch key

def comesIn (branch : Dictionary) (key : String) : Bool :=
  !namesDecorator key &&
    match Entries.position? branch key, Entries.position? branch applyKey with
    | some declared, some directive => declared < directive
    | some _, none => false
    | none, _ => true

theorem overriding_eq_filter (branch : Dictionary) (mixin : Entries Json) :
    overriding branch mixin = mixin.filter fun e => comesIn branch e.1 := rfl

theorem comesIn_of_not_mem (h : key ∉ Entries.keys branch) :
    comesIn branch key = !namesDecorator key := by
  rw [comesIn, Entries.position?_eq_none_iff.mpr h, Bool.and_true]

theorem comesIn_of_mem (hbranch : Entries.Distinct branch) (happly : applyKey ∈ Entries.keys branch)
    (h : key ∈ Entries.keys branch) : comesIn branch key = true ↔
      namesDecorator key = false ∧ [key, applyKey].Sublist (Entries.keys branch) := by
  obtain ⟨i, hi⟩ := Entries.exists_position?_iff.mpr h
  obtain ⟨j, hj⟩ := Entries.exists_position?_iff.mpr happly
  rw [← hbranch.exists_position?_lt_iff, comesIn, hi, hj]
  simp

theorem get?_mergeEntries_overriding (hmixin : Entries.Distinct mixin) (branch : Dictionary)
    (key : String) : Entries.get? (mergeEntries branch (overriding branch mixin)) key =
      if comesIn branch key then
        ((Entries.get? mixin key).map (Node.ofEntry key)).or (Entries.get? branch key)
      else Entries.get? branch key := by
  rw [get?_mergeEntries (distinct_overriding hmixin branch), overriding_eq_filter,
    Entries.get?_filter_keys]
  split <;> rfl

theorem keys_mergeEntries_overriding (hmixin : Entries.Distinct mixin) (branch : Dictionary) :
    Entries.keys (mergeEntries branch (overriding branch mixin)) = Entries.keys branch ++
      (Entries.keys mixin).filter fun key => !namesDecorator key && key ∉ Entries.keys branch := by
  have hkeys : Entries.keys ((overriding branch mixin).map fun e => (e.1, Node.ofEntry e.1 e.2)) =
      (Entries.keys mixin).filter (comesIn branch) := by
    rw [Entries.keys, List.map_map, overriding_eq_filter, Entries.keys, List.filter_map]
    rfl
  have hdistinct : Entries.Distinct
      ((overriding branch mixin).map fun e => (e.1, Node.ofEntry e.1 e.2)) := by
    rw [Entries.Distinct, hkeys]
    exact List.Nodup.filter _ hmixin
  rw [mergeEntries_eq_merge, Entries.keys_merge branch hdistinct, hkeys, List.filter_filter]
  refine congrArg _ (List.filter_congr fun key _ => ?_)
  by_cases hmem : key ∈ Entries.keys branch
  · simp [hmem]
  · simp [hmem, comesIn_of_not_mem hmem]

theorem overlaid_mergeEntries (hbranch : Entries.Distinct branch) (hmixin : Entries.Distinct mixin)
    (happly : applyKey ∈ Entries.keys branch) :
    Overlaid branch mixin (mergeEntries branch (overriding branch mixin)) := by
  have hget := get?_mergeEntries_overriding hmixin branch
  refine ⟨keys_mergeEntries_overriding hmixin branch, ?_, ?_, ?_⟩
  · intro key value hnew hkey hvalue
    rw [hget, comesIn_of_not_mem hnew, hkey, Bool.not_false, if_pos rfl, hvalue]
    rfl
  · intro key value hbefore hkey hvalue
    have hmem := hbefore.subset List.mem_cons_self
    rw [hget, if_pos ((comesIn_of_mem hbranch happly hmem).mpr ⟨hkey, hbefore⟩), hvalue]
    rfl
  · intro key hmem hkept
    rw [hget]
    split
    · next hcomes =>
      obtain ⟨hkey, hbefore⟩ := (comesIn_of_mem hbranch happly hmem).mp hcomes
      have hnone := (hkept.resolve_left (by simp [hkey])).resolve_left (not_not_intro hbefore)
      rw [hnone, Option.map_none, Option.none_or]
    · rfl

/-- What a branch at a path becomes when new entries are merged into it: below the root a token if
there is a value among the entries, and else a branch. -/
inductive Becomes (merged : Dictionary) : List String → Node → Prop
  | root : Becomes merged [] (.branch merged)
  | branch (path : List String) (h : valueKey ∉ Entries.keys merged) :
      Becomes merged path (.branch merged)
  | token (before : List String) {key : String} {t : Token} (h : valueKey ∈ Entries.keys merged)
      (hread : Node.ofEntry key merged.toJson = .token t) :
      Becomes merged (before ++ [key]) (.token t)

theorem Becomes.exists_token {merged : Dictionary} {node : Node}
    (h : Becomes merged (path ++ [key]) node) (hvalue : valueKey ∈ Entries.keys merged) :
    ∃ t, Node.ofEntry key merged.toJson = .token t ∧ node = .token t := by
  generalize hplace : path ++ [key] = place at h
  cases h with
  | root => simp at hplace
  | branch _ hnone => exact absurd hvalue hnone
  | token before _ hread =>
    obtain ⟨rfl, _⟩ := List.cons.inj (List.append_inj_right' hplace rfl)
    exact ⟨_, hread, rfl⟩

theorem becomes_merged (hpath : ∀ key ∈ path, namesDecorator key = false) (branch : Dictionary)
    (entries : Entries Json) :
    Becomes (mergeEntries branch entries) path (merged path branch entries) := by
  rcases path.eq_nil_or_concat' with rfl | ⟨before, key, rfl⟩
  · exact .root
  rw [merged, List.getLast?_concat]
  dsimp only
  split
  · next hvalue =>
    have hmem := Entries.contains_iff.mp hvalue
    rw [← Entries.contains_eq_of_keys_eq (Dictionary.keys_toEntries _)] at hvalue
    obtain ⟨hkey, _⟩ | ⟨_, _, t, _, hread⟩ | ⟨_, hnone, _⟩ :=
      Node.ofEntry_obj_cases key (mergeEntries branch entries).toEntries
    · rw [hpath key (by simp)] at hkey
      cases hkey
    · rw [Dictionary.toJson, hread]
      exact .token before hmem hread
    · rw [hvalue] at hnone
      cases hnone
  · next hvalue =>
    exact .branch _ (mt Entries.contains_iff.mpr hvalue)

theorem step_overlays (hread : d.AsRead) (hd : d.Decorated)
    (hbranch : d.branchAt? path = some branch) (htarget : target? branch = some target)
    (hlookup : d.lookup target = some ⟨.obj mixin, token⟩) :
    (step d path).2 = [] ∧ ∃ merged node, Overlaid branch mixin merged ∧ Becomes merged path node ∧
      Node.Replaces (.branch branch) node path (.branch d) (.branch (step d path).1) := by
  have hroot : (Node.branch d).Decorated := hd
  have hat := Dictionary.branchAt?_eq_some_iff.mp hbranch
  obtain ⟨directive, hdirective, _⟩ := target?_eq_some_iff.mp htarget
  have happly : applyKey ∈ Entries.keys branch := Entries.exists_get?_iff.mp ⟨_, hdirective⟩
  have hstep : step d path = (mergeAt d path (overriding branch mixin), []) := by
    rw [step, plan_eq_merge hbranch htarget hlookup]
  rw [hstep]
  refine ⟨rfl, mergeEntries branch (overriding branch mixin),
    merged path branch (overriding branch mixin), ?_, ?_, ?_⟩
  · exact overlaid_mergeEntries (hread.branchAt? hbranch).1 (hread.lookup hlookup).1 happly
  · exact becomes_merged (hroot.not_namesDecorator hat) branch _
  · rw [branch_mergeAt hbranch]
    exact Node.replaces_withNode hat _

/-- In a tree that is read, a directive that names an object lays it over its branch, and changes
nothing else. -/
theorem step_overlays_of_ofJson {value : Json} (hvalue : value.DistinctKeys)
    (hd : Dictionary.ofJson value = .ok d) (hbranch : d.branchAt? path = some branch)
    (htarget : target? branch = some target) (hlookup : d.lookup target = some ⟨.obj mixin, token⟩) :
    (step d path).2 = [] ∧ ∃ merged node, Overlaid branch mixin merged ∧ Becomes merged path node ∧
      Node.Replaces (.branch branch) node path (.branch d) (.branch (step d path).1) :=
  step_overlays (Dictionary.asRead_of_ofJson hvalue hd) (Dictionary.decorated_of_ofJson hd) hbranch
    htarget hlookup

end Mixin

/-- A mixin with a value and a decorator.  The branch declares keys of the mixin before the directive
and behind it. -/
def Dictionary.themed : Dictionary :=
  [("theme", .token (.new (.obj [("@group", .obj [("k", .null)]), ("b", .num (.int 20)),
      ("new", .obj [("value", .num (.int 3))]), ("value", .str "#fff"), ("a", .num (.int 10))]))),
  ("outer", .branch [("first", .literal (.num (.int 1))),
    ("panel", .branch [("a", .token (.new (.num (.int 1)))), ("@group", .decorator (.bool true)),
      ("@apply", .directive "theme"), ("b", .literal (.num (.int 2)))]),
    ("last", .literal .null)])]

theorem Mixin.themed_panel_is_overlaid :
    Dictionary.ofJson Dictionary.themed.toJson = .ok Dictionary.themed ∧
    ∃ branch mixin merged t,
      Dictionary.themed.branchAt? ["outer", "panel"] = some branch ∧
      target? branch = some ["theme"] ∧
      Dictionary.themed.lookup ["theme"] = some ⟨.obj mixin, some "theme"⟩ ∧
      Overlaid branch mixin merged ∧
      Entries.keys merged = ["a", "@group", "@apply", "b", "new", "value"] ∧
      Node.ofEntry "panel" merged.toJson = .token t ∧
      Node.Replaces (.branch branch) (.token t) ["outer", "panel"] (.branch Dictionary.themed)
        (.branch (step Dictionary.themed ["outer", "panel"]).1) := by
  have hvalue : Dictionary.themed.toJson.DistinctKeys :=
    Json.distinctKeys_withDistinctKeys Dictionary.themed.toJson
  have hd : Dictionary.ofJson Dictionary.themed.toJson = .ok Dictionary.themed := rfl
  have hbranch : Dictionary.themed.branchAt? (["outer"] ++ ["panel"]) = some _ := rfl
  obtain ⟨_, merged, node, hmerged, hbecomes, hplace⟩ :=
    step_overlays_of_ofJson hvalue hd hbranch rfl rfl
  have hkeys : Entries.keys merged = ["a", "@group", "@apply", "b", "new", "value"] :=
    hmerged.keys.trans (by decide +kernel)
  obtain ⟨t, hread, rfl⟩ := hbecomes.exists_token (by rw [hkeys]; decide)
  exact ⟨hd, _, _, merged, t, hbranch, rfl, rfl, hmerged, hkeys, hread, hplace⟩

end DesignTokens
