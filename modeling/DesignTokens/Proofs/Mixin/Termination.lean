import DesignTokens.Proofs.Mixin.Places
import Mathlib.Data.Finset.Card
import Mathlib.Logic.Relation

/-! The walk that applies mixins comes to an end if no mixin needs itself: a mixin needs what the
directives inside it name, and what those need whose entries it takes over.  Each path then has a
weight, and what stands there is no deeper than the weight, with the mixins that are still to come.
Steps keep the weights, and a visit goes one level down at a time. -/

namespace DesignTokens

namespace Dictionary

/-- A directive at a path or around it makes the path take over what stands at another one.  A mixin
is an object, or a token whose value is one. -/
def Takes (d : Dictionary) (path source : List String) : Prop :=
  ∃ place target more rest, (Json.obj d.contents).Places place (some target) ∧
    more <+: [valueKey] ∧ path = place ++ rest ∧ source = target ++ more ++ rest

def Holds (d : Dictionary) (path target : List String) : Prop :=
  ∃ rest, rest ≠ [] ∧ (Json.obj d.contents).Places (path ++ rest) (some target)

def Needs (d : Dictionary) (path target : List String) : Prop :=
  ∃ source, Relation.ReflTransGen d.Takes path source ∧ d.Holds source target

/-- No mixin needs itself, not even through others. -/
def MixinsAcyclic (d : Dictionary) : Prop := ∀ path, ¬ Relation.TransGen d.Needs path path

variable {d : Dictionary} {path source target : List String}

theorem Takes.transGen_needs (h : d.Takes path source)
    (hneeds : Relation.TransGen d.Needs source target) :
    Relation.TransGen d.Needs path target := by
  obtain ⟨next, ⟨other, htakes, hholds⟩, hrest⟩ := Relation.TransGen.head'_iff.mp hneeds
  exact .head' ⟨other, .head h htakes, hholds⟩ hrest

theorem mixinsAcyclic_of_measure (measure : List String → Nat)
    (htakes : ∀ path source, d.Takes path source → measure source ≤ measure path)
    (hholds : ∀ path target, d.Holds path target → measure target < measure path) :
    d.MixinsAcyclic := by
  have hle : ∀ {path source}, Relation.ReflTransGen d.Takes path source →
      measure source ≤ measure path := fun h => by
    induction h with
    | refl => exact Nat.le_refl _
    | tail _ hstep ih => exact Nat.le_trans (htakes _ _ hstep) ih
  have hneeds : ∀ {path target}, d.Needs path target → measure target < measure path :=
    fun ⟨_, h, hheld⟩ => Nat.lt_of_lt_of_le (hholds _ _ hheld) (hle h)
  have hlt : ∀ {path target}, Relation.TransGen d.Needs path target →
      measure target < measure path := fun h => by
    induction h with
    | single hneed => exact hneeds hneed
    | tail _ hneed ih => exact Nat.lt_trans (hneeds hneed) ih
  exact fun path hcycle => Nat.lt_irrefl _ (hlt hcycle)

def targets (d : Dictionary) : List (List String) := (Json.obj d.contents).directives.map Prod.snd

open Classical in
noncomputable def rank (d : Dictionary) (path : List String) : Nat :=
  (d.targets.toFinset.filter (Relation.TransGen d.Needs path)).card

theorem rank_le_of_takes (h : d.Takes path source) : d.rank source ≤ d.rank path := by
  classical
  exact Finset.card_le_card (Finset.monotone_filter_right _ fun _ _ => h.transGen_needs)

theorem rank_lt_of_holds (hacyclic : d.MixinsAcyclic) (h : d.Holds path target) :
    d.rank target < d.rank path := by
  classical
  have hneed : d.Needs path target := ⟨path, .refl, h⟩
  obtain ⟨_, _, hplace⟩ := h
  obtain ⟨_, hmem, _⟩ := hplace.exists_mem_directives
  refine Finset.card_lt_card ⟨Finset.monotone_filter_right _ fun _ _ => .head hneed, fun hsub => ?_⟩
  have htarget := hsub (Finset.mem_filter.mpr
    ⟨List.mem_toFinset.mpr (List.mem_map.mpr ⟨_, hmem, rfl⟩), .single hneed⟩)
  exact hacyclic target (Finset.mem_filter.mp htarget).2

theorem rank_lt_size (d : Dictionary) (path : List String) :
    d.rank path < (Json.obj d.contents).size := by
  classical
  refine Nat.lt_of_le_of_lt ?_ (Json.length_directives_lt_size _)
  refine (Finset.card_le_card (Finset.filter_subset _ _)).trans ?_
  exact (List.toFinset_card_le _).trans_eq (List.length_map _)

end Dictionary

namespace Mixin

variable {weight : List String → Nat} {d visited : Dictionary} {path : List String} {depth : Nat}

/-- What a place has below it: itself, and what its directive will bring. -/
def load (weight : List String → Nat) (mark : Option (List String)) : Nat := mark.elim 1 weight

/-- What a path takes over weighs no more than the path, and what stands at a path has room within
its weight. -/
structure Weighs (weight : List String → Nat) (d : Dictionary) : Prop where
  takes : ∀ {path source}, d.Takes path source → weight source ≤ weight path
  room : ∀ {path rest mark}, (Json.obj d.contents).Places (path ++ rest) mark →
    rest.length + load weight mark ≤ weight path

theorem exists_weighs (hacyclic : d.MixinsAcyclic) :
    ∃ weight, Weighs weight d ∧ weight [] ≤ depthLimit d := by
  set size := (Json.obj d.contents).size with hsize
  refine ⟨fun path => (d.rank path + 1) * size, ⟨fun htakes => ?_, ?_⟩, ?_⟩
  · exact Nat.mul_le_mul_right size (Nat.succ_le_succ (Dictionary.rank_le_of_takes htakes))
  · intro path rest mark hplace
    have hlength := hplace.length_lt_size
    rw [List.length_append] at hlength
    cases mark with
    | none =>
      have hone : size ≤ (d.rank path + 1) * size := Nat.le_mul_of_pos_left _ (Nat.succ_pos _)
      simp only [load, Option.elim_none]
      omega
    | some target =>
      rcases rest.eq_nil_or_concat' with rfl | hrest
      · rw [List.append_nil] at hplace
        have htakes : d.Takes path target :=
          ⟨path, target, [], [], hplace, List.nil_prefix, by simp, by simp⟩
        have hrank := Dictionary.rank_le_of_takes htakes
        have hmul := Nat.mul_le_mul_right size (Nat.succ_le_succ hrank)
        simpa [load] using hmul
      · have hholds : d.Holds path target := ⟨rest, by rintro rfl; simp at hrest, hplace⟩
        have hrank := Dictionary.rank_lt_of_holds hacyclic hholds
        have hmul := Nat.mul_le_mul_right size (Nat.succ_le_of_lt hrank)
        simp only [load, Option.elim_some, Nat.succ_mul] at hmul ⊢
        omega
  · exact Nat.mul_le_mul_right size (d.rank_lt_size [])

theorem Weighs.step (h : Weighs weight d) (hd : d.Decorated) (path : List String) :
    Weighs weight (step d path).1 where
  takes := by
    rintro _ _ ⟨place, target, value, rest, hplace, hvalue, rfl, rfl⟩
    rcases places_of_step hd hplace with hold | ⟨mixin, more, inner, hnamed, hmore, rfl, hcopied⟩
    · exact h.takes ⟨_, _, _, _, hold, hvalue, rfl, rfl⟩
    · -- the copy stands where the branch takes over the place of the original
      have hinner := h.takes ⟨_, _, value, rest, hcopied, hvalue, rfl, rfl⟩
      have houter := h.takes ⟨_, _, more, inner ++ rest, hnamed, hmore, rfl, rfl⟩
      rw [← List.append_assoc, ← List.append_assoc path] at houter
      exact hinner.trans houter
  room := by
    intro outer rest mark hplace
    rcases places_of_step hd hplace with hold | ⟨mixin, more, inner, hnamed, hmore, heq, hcopied⟩
    · exact h.room hold
    rcases List.append_eq_append_iff.mp heq with ⟨between, rfl, rfl⟩ | ⟨between, rfl, rfl⟩
    · -- the branch lies below the path: the copied place was counted with its directive
      rw [List.append_assoc] at hcopied
      have hroom := h.room hcopied
      have houter := h.room hnamed
      simp only [load, Option.elim_some, List.length_append] at hroom houter ⊢
      omega
    · -- the path lies below the branch, in what is copied
      rw [← List.append_assoc] at hcopied
      have hroom := h.room hcopied
      exact hroom.trans (h.takes ⟨_, _, more, between, hnamed, hmore, rfl, rfl⟩)

structure Measured (weight : List String → Nat) (d : Dictionary) : Prop where
  asRead : d.AsRead
  decorated : d.Decorated
  weighs : Weighs weight d

theorem Measured.step (h : Measured weight d) (path : List String) :
    Measured weight (step d path).1 :=
  ⟨asRead_step h.asRead path, decorated_step h.decorated path, h.weighs.step h.decorated path⟩

def HasRoom (weight : List String → Nat) (d : Dictionary) (path : List String) (depth : Nat) :
    Prop :=
  ∀ rest mark, (Json.obj d.contents).Places (path ++ rest) mark →
    rest.length + load weight mark ≤ depth

theorem HasRoom.step (h : HasRoom weight d path depth) (hd : Measured weight d) :
    HasRoom weight (step d path).1 path depth := by
  intro rest mark hplace
  rcases places_of_step hd.decorated hplace with
    hold | ⟨mixin, more, inner, hnamed, _, heq, hcopied⟩
  · exact h rest mark hold
  · obtain rfl := List.append_cancel_left heq
    rw [List.append_assoc] at hcopied
    have hroom := hd.weighs.room hcopied
    have hmixin := h [] (some mixin) (by rwa [List.append_nil])
    simp only [load, Option.elim_some, List.length_nil, List.length_append] at hroom hmixin ⊢
    omega

theorem places_of_visit_of_apart {other : List String} {mark : Option (List String)}
    {faults : List MixinFault} (hd : d.Decorated)
    (h : visit depth d path = some (visited, faults)) (hapart : ¬ path <+: other)
    (hplace : (Json.obj visited.contents).Places other mark) :
    (Json.obj d.contents).Places other mark := by
  cases hbranch : d.branchAt? path with
  | none =>
    obtain ⟨depth, rfl⟩ := exists_depth_eq_succ h
    rw [visit_of_branchAt?_eq_none hbranch] at h
    cases h
    exact hplace
  | some branch =>
    obtain ⟨new, hnew⟩ := exists_branch_visit h
    have hplace' : ((Node.branch d).withNode path new).content.Places other mark := by
      rw [← hnew]
      exact hplace
    refine (Node.places_of_withNode (n := .branch d) hd
      (Dictionary.branchAt?_eq_some_iff.mp hbranch) hplace').resolve_right ?_
    rintro ⟨rest, rfl, _⟩
    exact hapart (List.prefix_append path rest)

theorem exists_visitEach {keys : List String} (hnodup : keys.Nodup)
    (hvisit : ∀ d key, key ∈ keys → Measured weight d → HasRoom weight d (path ++ [key]) depth →
      ∃ s, visit depth d (path ++ [key]) = some s)
    (hd : Measured weight d) (hroom : ∀ key ∈ keys, HasRoom weight d (path ++ [key]) depth) :
    ∃ s, visitEach depth path keys d = some s := by
  induction keys generalizing d with
  | nil => exact ⟨_, rfl⟩
  | cons key rest ih =>
    rw [List.nodup_cons] at hnodup
    rw [List.forall_mem_cons] at hroom
    obtain ⟨⟨next, first⟩, hfirst⟩ := hvisit d key List.mem_cons_self hd hroom.1
    have hnext : Measured weight next :=
      visit_keeps (P := Measured weight) (fun _ path h => h.step path) hd hfirst
    have hlater : ∀ other ∈ rest, HasRoom weight next (path ++ [other]) depth := by
      intro other hother inner mark hplace
      have hne : key ≠ other := fun heq => hnodup.1 (heq ▸ hother)
      refine hroom.2 other hother inner mark
        (places_of_visit_of_apart hd.decorated hfirst ?_ hplace)
      rw [List.append_assoc]
      exact apart_of_ne hne inner
    obtain ⟨⟨last, more⟩, hmore⟩ := ih hnodup.2
      (fun d other hother => hvisit d other (List.mem_cons_of_mem key hother)) hnext hlater
    exact ⟨_, visitEach_cons_eq_some_iff.mpr ⟨next, first, more, hfirst, hmore, rfl⟩⟩

theorem exists_visit (hd : Measured weight d) (hpos : 0 < depth)
    (hroom : HasRoom weight d path depth) : ∃ s, visit depth d path = some s := by
  induction depth generalizing d path with
  | zero => cases hpos
  | succ depth ih =>
    have hstep := hroom.step hd
    have hbelow : ∀ key ∈ keysAt (step d path).1 path,
        HasRoom weight (step d path).1 (path ++ [key]) depth := by
      intro key hkey rest mark hplace
      rw [List.append_assoc] at hplace
      have hplaces := hstep ([key] ++ rest) mark hplace
      rw [List.length_append, List.length_singleton] at hplaces
      omega
    have hvisit : ∀ e key, key ∈ keysAt (step d path).1 path → Measured weight e →
        HasRoom weight e (path ++ [key]) depth → ∃ s, visit depth e (path ++ [key]) = some s := by
      intro e key hkey he hroom
      -- a branch below needs a level of its own
      have hplaces := hstep [key] none (places_of_mem_keysAt hkey)
      simp only [load, Option.elim_none, List.length_singleton] at hplaces
      exact ih he (by omega) hroom
    obtain ⟨⟨last, more⟩, hmore⟩ := exists_visitEach (nodup_keysAt (hd.step path).asRead path)
      hvisit (hd.step path) hbelow
    exact ⟨_, visit_succ_eq_some_iff.mpr ⟨more, hmore, rfl⟩⟩

/-- Where no mixin needs itself, applying mixins comes to an end, within the number of levels that an
export allows, and more levels change nothing. -/
theorem exists_apply {d : Dictionary} (hread : d.AsRead) (hdecorated : d.Decorated)
    (hacyclic : d.MixinsAcyclic) :
    ∃ expanded faults, ∀ depth, depthLimit d ≤ depth → apply depth d = some (expanded, faults) := by
  obtain ⟨weight, hweighs, hlimit⟩ := exists_weighs hacyclic
  have hroom : HasRoom weight d [] (depthLimit d) := fun rest mark hplace =>
    (hweighs.room hplace).trans hlimit
  have hpos : 0 < depthLimit d := by
    have hroot := hroom [] none (.object _)
    simp only [load, Option.elim_none, List.length_nil] at hroot
    omega
  obtain ⟨⟨expanded, faults⟩, hvisit⟩ := exists_visit ⟨hread, hdecorated, hweighs⟩ hpos hroom
  exact ⟨expanded, faults, fun _ hle => visit_mono hle hvisit⟩

end Mixin

/-- Two mixins that take over each other, and one that another branch takes over with the directive
inside it. -/
def Dictionary.layers : Dictionary :=
  [("base", .branch [("@apply", .directive "card"), ("size", .token (.new (.num (.int 1))))]),
  ("card", .branch [("@apply", .directive "base")]),
  ("screen", .branch [("@apply", .directive "panel")]),
  ("panel", .branch [("inner", .branch [("@apply", .directive "card")])])]

def Dictionary.layer : List String → Nat
  | [] => 2
  | key :: _ => if key = "screen" ∨ key = "panel" then 1 else 0

theorem Dictionary.places_layers {place target : List String}
    (h : (Json.obj Dictionary.layers.contents).Places place (some target)) :
    (place, target) ∈ [(["base"], ["card"]), (["card"], ["base"]), (["screen"], ["panel"]),
      (["panel", "inner"], ["card"])] := by
  obtain ⟨at?, hmem, hpath⟩ := h.exists_mem_directives
  have hall : (Json.obj Dictionary.layers.contents).directives =
      [([some "base"], ["card"]), ([some "card"], ["base"]), ([some "screen"], ["panel"]),
        ([some "panel", some "inner"], ["card"])] := by decide +kernel
  rw [hall] at hmem
  simp only [List.mem_cons, Prod.mk.injEq, List.not_mem_nil, or_false] at hmem
  rcases hmem with ⟨rfl, rfl⟩ | ⟨rfl, rfl⟩ | ⟨rfl, rfl⟩ | ⟨rfl, rfl⟩ <;>
    simp_all [List.forall₂_cons_left_iff]

theorem Dictionary.mixinsAcyclic_layers : Dictionary.layers.MixinsAcyclic := by
  refine mixinsAcyclic_of_measure layer ?_ ?_
  · rintro _ _ ⟨place, target, more, rest, hplace, _, rfl, rfl⟩
    have hmem := places_layers hplace
    simp only [List.mem_cons, Prod.mk.injEq, List.not_mem_nil, or_false] at hmem
    rcases hmem with ⟨rfl, rfl⟩ | ⟨rfl, rfl⟩ | ⟨rfl, rfl⟩ | ⟨rfl, rfl⟩ <;> simp [layer]
  · rintro path target ⟨rest, hne, hplace⟩
    have hmem := places_layers hplace
    simp only [List.mem_cons, Prod.mk.injEq, List.not_mem_nil, or_false] at hmem
    rcases hmem with ⟨hpath, rfl⟩ | ⟨hpath, rfl⟩ | ⟨hpath, rfl⟩ | ⟨hpath, rfl⟩ <;>
      rcases path with _ | ⟨key, _ | ⟨inner, more⟩⟩ <;> simp_all [layer]

theorem Mixin.layers_are_applied :
    (Dictionary.layers.AsRead ∧ Dictionary.layers.Decorated ∧ Dictionary.layers.MixinsAcyclic) ∧
      ∃ expanded faults, ∀ depth, depthLimit .layers ≤ depth →
        apply depth .layers = some (expanded, faults) := by
  have hread : Dictionary.layers.AsRead :=
    Dictionary.asRead_of_ofJson
    (Json.distinctKeys_withDistinctKeys Dictionary.layers.toJson) rfl
  have hdecorated : Dictionary.layers.Decorated := by decide +kernel
  exact ⟨⟨hread, hdecorated, Dictionary.mixinsAcyclic_layers⟩,
    exists_apply hread hdecorated Dictionary.mixinsAcyclic_layers⟩

def Dictionary.spiral : Dictionary := [("y", .branch [("@apply", .directive "c")])]

def Dictionary.endless : Dictionary :=
  [("a", .branch [("@apply", .directive "c")]), ("c", .branch Dictionary.spiral)]

namespace Mixin

variable {d : Dictionary} {path rest : List String}

theorem branch_step_spiral (hbranch : d.branchAt? path = some [("@apply", .directive "c")])
    (hmixin : Entries.get? d "c" = some (.branch Dictionary.spiral)) :
    Node.branch (step d path).1 = (Node.branch d).withNode path
      (.branch (("@apply", .directive "c") :: Dictionary.spiral)) := by
  have htarget : target? [("@apply", Node.directive "c")] = some ["c"] := by decide +kernel
  have hlookup : d.lookup ["c"] = some ⟨Dictionary.spiral.toJson, none⟩ := by
    simp [Dictionary.lookup, Dictionary.lookupFrom, hmixin]
  have hmerged : merged path [("@apply", .directive "c")] Dictionary.spiral.toEntries =
      .branch (("@apply", .directive "c") :: Dictionary.spiral) := by
    rw [merged]
    split <;> rfl
  rw [step, plan_eq_merge hbranch htarget hlookup, ← hmerged]
  exact branch_mergeAt hbranch _

theorem visit_spiral (depth : Nat)
    (hbranch : d.branchAt? ("a" :: rest) = some [("@apply", .directive "c")])
    (hmixin : Entries.get? d "c" = some (.branch Dictionary.spiral)) :
    visit depth d ("a" :: rest) = none := by
  induction depth generalizing d rest with
  | zero => rfl
  | succ depth ih =>
    have hstep := branch_step_spiral hbranch hmixin
    set next := (step d ("a" :: rest)).1 with hnext
    have hat : (Node.branch next).at? ("a" :: rest) =
        some (.branch (("@apply", .directive "c") :: Dictionary.spiral)) := by
      rw [hstep, Node.at?_withNode_self (Dictionary.branchAt?_eq_some_iff.mp hbranch)]
    have hkeys : keysAt next ("a" :: rest) = ["y"] := by
      rw [keysAt, Dictionary.branchAt?_eq_some_iff.mpr hat]
      rfl
    have hbelow : next.branchAt? ("a" :: (rest ++ ["y"])) = some [("@apply", .directive "c")] := by
      rw [Dictionary.branchAt?_eq_some_iff, ← List.cons_append, Node.at?_append, hat]
      rfl
    have hstays : (Node.branch next).at? ["c"] = (Node.branch d).at? ["c"] := by
      rw [hstep, Node.at?_withNode_of_apart (by simp) (by simp)]
    have hnone := ih hbelow (by simpa [hmixin] using hstays)
    rw [visit_succ, ← hnext, hkeys, visitEach, List.cons_append, hnone]
    rfl

/-- The walk through a mixin that takes over itself, deeper and deeper, has no end. -/
theorem apply_endless : Dictionary.ofJson Dictionary.endless.toJson = .ok Dictionary.endless ∧
    ∀ depth, apply depth Dictionary.endless = none := by
  refine ⟨rfl, fun depth => ?_⟩
  cases depth with
  | zero => rfl
  | succ depth =>
    have hstep : step Dictionary.endless [] = (Dictionary.endless, []) := rfl
    have hkeys : keysAt Dictionary.endless [] = ["a", "c"] := rfl
    have hnone : visit depth Dictionary.endless ["a"] = none := visit_spiral depth rfl rfl
    rw [apply, visit_succ, hstep, hkeys, visitEach, List.nil_append, hnone]
    rfl

end Mixin

end DesignTokens
