import DesignTokens.Proofs.Dictionary.Correspondence
import DesignTokens.Proofs.Export.Run
import Mathlib.Data.List.Induction
import Mathlib.Data.List.Range

/-! The books of a run: which tokens have been transformed for good and which have been put off.
After every pass each name is in one of the two and in one only, whatever the transforms and the
references are, and whether or not tokens share names. -/

namespace DesignTokens

mutual

theorem Node.transformPass_snd (platform : Platform) (path : List String) : ∀ (n : Node)
    (p : Progress), (Node.transformPass platform path p n).2 =
      p.visitAll (Node.tokensFrom path n)
  | .branch entries, p => Dictionary.transformPass_snd platform path entries p
  | .token _, _ => rfl
  | .decorator _, _ => rfl
  | .literal _, _ => rfl

theorem Dictionary.transformPass_snd (platform : Platform) (path : List String) :
    ∀ (d : Dictionary) (p : Progress), (Dictionary.transformPass platform path p d).2 =
      p.visitAll (Dictionary.tokensFrom path d)
  | [], _ => rfl
  | (key, node) :: rest, p => by
    rw [Dictionary.transformPass, Dictionary.tokensFrom, Progress.visitAll_append,
      ← Node.transformPass_snd platform (path ++ [key]) node p]
    exact Dictionary.transformPass_snd platform path rest _

end

namespace Progress

theorem addOnce_prefix (names : List String) (name : String) : names <+: addOnce names name := by
  rw [addOnce]
  split
  · exact List.prefix_rfl
  · exact List.prefix_append names [name]

theorem transformed_prefix_visit (p : Progress) (name : String) (t : Token) :
    p.transformed <+: (p.visit name t).transformed := by
  rw [visit]
  split
  · exact List.prefix_rfl
  · split
    · exact List.prefix_rfl
    · exact addOnce_prefix p.transformed name

theorem transformed_prefix_visitAll (p : Progress) (ts : List (List String × Token)) :
    p.transformed <+: (p.visitAll ts).transformed := by
  induction ts generalizing p with
  | nil => exact List.prefix_rfl
  | cons e ts ih => exact (transformed_prefix_visit p _ _).trans (ih _)

theorem foldl_addOnce_eq_eraseDups (names : List String) :
    names.foldl addOnce [] = names.eraseDups := by
  induction names using List.reverseRecOn with
  | nil => rfl
  | append_singleton names name ih =>
    rw [List.foldl_append, ih, List.foldl_cons, List.foldl_nil, addOnce, List.eraseDups_append]
    by_cases h : name ∈ names <;> simp [List.removeAll, List.eraseDups_cons, h]

structure Covers (p : Progress) (names : List String) : Prop where
  putsOff : p.PutsOffRestOf names.eraseDups
  settled : ∀ name, p.isSettled name = true → name ∈ names

variable {p : Progress} {names : List String} {ts : List (List String × Token)}

theorem covers_visitAll_start : (start.visitAll ts).Covers (ts.map fun e => dottedName e.1) where
  putsOff := by
    rw [← foldl_addOnce_eq_eraseDups]
    exact start_putsOffRestOf_nil.visitAll ts
  settled name h := by
    obtain hstart | ⟨e, he, rfl, _⟩ := isSettled_visitAll.mp h
    · cases hstart
    · exact List.mem_map_of_mem he

theorem Covers.visitAll (h : p.Covers (ts.map fun e => dottedName e.1)) :
    (p.visitAll ts).Covers (ts.map fun e => dottedName e.1) where
  putsOff := by
    have hvisit := h.putsOff.visitAll ts
    rwa [foldl_addOnce_of_subset fun name hname => List.mem_eraseDups.mpr hname] at hvisit
  settled name hname := by
    obtain hold | ⟨e, he, rfl, _⟩ := isSettled_visitAll.mp hname
    · exact h.settled name hold
    · exact List.mem_map_of_mem he

theorem Covers.mem_deferred (h : p.Covers names) {name : String} :
    name ∈ p.deferred ↔ name ∈ names ∧ p.isSettled name = false := by
  rw [h.putsOff.mem_deferred, List.mem_eraseDups]

theorem mem_transformed {name : String} :
    name ∈ p.transformed ↔ p.isSettled name = true := by
  rw [isSettled, List.contains_iff_mem]

theorem Covers.disjoint (h : p.Covers names) : p.transformed.Disjoint p.deferred := by
  intro name htransformed hdeferred
  have hopen := (h.mem_deferred.mp hdeferred).2
  rw [mem_transformed.mp htransformed] at hopen
  cases hopen

theorem Covers.mem_iff (h : p.Covers names) {name : String} :
    name ∈ names ↔ name ∈ p.transformed ∨ name ∈ p.deferred := by
  rw [mem_transformed, h.mem_deferred]
  constructor
  · intro hname
    cases hopen : p.isSettled name with
    | true => exact .inl rfl
    | false => exact .inr ⟨hname, rfl⟩
  · rintro (hdone | ⟨hname, _⟩)
    · exact h.settled name hdone
    · exact hname

theorem Covers.deferred_sublist (h : p.Covers names) : p.deferred.Sublist names.eraseDups := by
  rw [h.putsOff]
  exact List.filter_sublist

theorem Covers.deferred_visitAll_sublist (h : p.Covers (ts.map fun e => dottedName e.1)) :
    (p.visitAll ts).deferred.Sublist p.deferred := by
  rw [h.visitAll.putsOff, h.putsOff]
  refine List.monotone_filter_right _ fun name hopen => ?_
  rw [Bool.not_eq_true'] at hopen ⊢
  cases hsettled : p.isSettled name with
  | false => rfl
  | true => rw [isSettled_visitAll.mpr (.inl hsettled)] at hopen; cases hopen

end Progress

namespace Stage

variable {platform : Platform} {s : Stage} {d : Dictionary}
  {r : List String → Token → Token → Prop}

theorem progress_next : (s.next platform).1.progress = s.noted :=
  Dictionary.transformPass_snd platform [] s.tree s.progress

theorem corresponds_next (h : d.Corresponds r s.tree)
    (hpass : ∀ (p : Progress) path t u v, r path t u →
      r path t { p.tokenAfter platform path u with value := v }) :
    d.Corresponds r (s.next platform).1.tree := by
  have htransformed := h.transformTokens
    (q := fun path t w => ∃ (p : Progress) (u : Token), r path t u ∧
      w = p.tokenAfter platform path u) (fun p path t u hr => ⟨p, u, hr, rfl⟩) s.progress
  refine htransformed.mapTokens ?_
  rintro path t _ ⟨p, u, hr, rfl⟩
  exact hpass p path t u _ hr

theorem corresponds_after (h : d.Corresponds r s.tree)
    (hpass : ∀ (p : Progress) path t u v, r path t u →
      r path t { p.tokenAfter platform path u with value := v }) (n : Nat) :
    d.Corresponds r (s.after platform n).tree := by
  induction n with
  | zero => exact h
  | succ n ih => exact corresponds_next ih hpass

theorem sameShape_after_start (platform : Platform) (d : Dictionary) (n : Nat) :
    d.SameShape ((start d).after platform n).tree :=
  corresponds_after (Dictionary.corresponds_self (fun _ _ => trivial) d)
    (fun _ _ _ _ _ _ => trivial) n

theorem covers_after_start (platform : Platform) (d : Dictionary) (n : Nat) :
    ((start d).after platform (n + 1)).progress.Covers d.names := by
  induction n with
  | zero =>
    rw [after, progress_next]
    exact Progress.covers_visitAll_start
  | succ n ih =>
    rw [after, progress_next, noted]
    rw [← (sameShape_after_start platform d (n + 1)).names_eq] at ih ⊢
    exact ih.visitAll

/-- The books after a pass over a tree that the passes have made from `d`. -/
structure Balanced (d : Dictionary) (s : Stage) : Prop where
  disjoint : s.progress.transformed.Disjoint s.progress.deferred
  complete : ∀ name,
    name ∈ s.tree.names ↔ name ∈ s.progress.transformed ∨ name ∈ s.progress.deferred
  ordered : s.progress.deferred.Sublist s.tree.names.eraseDups
  shape : d.SameShape s.tree

theorem balanced_after_start (platform : Platform) (d : Dictionary) (n : Nat) :
    ((start d).after platform (n + 1)).Balanced d := by
  have hshape := sameShape_after_start platform d (n + 1)
  have hcovers := covers_after_start platform d n
  rw [← hshape.names_eq] at hcovers
  exact ⟨hcovers.disjoint, fun _ => hcovers.mem_iff, hcovers.deferred_sublist, hshape⟩

/-- Between two passes, more tokens are transformed and fewer are put off. -/
def Advances (before after : Stage) : Prop :=
  before.progress.transformed <+: after.progress.transformed ∧
    after.progress.deferred.Sublist before.progress.deferred

theorem advances_after_start (platform : Platform) (d : Dictionary) (n : Nat) :
    ((start d).after platform (n + 1)).Advances ((start d).after platform (n + 2)) := by
  have hcovers := covers_after_start platform d n
  rw [← (sameShape_after_start platform d (n + 1)).names_eq] at hcovers
  have hnext : ((start d).after platform (n + 2)).progress =
      ((start d).after platform (n + 1)).noted := progress_next
  rw [Advances, hnext, noted]
  exact ⟨Progress.transformed_prefix_visitAll _ _, hcovers.deferred_visitAll_sublist⟩

end Stage

/-- After every pass of every run, each name is either among the transformed or among those put off,
which stand in declaration order; the tree has kept its shape; and since the pass before, names have
only gone from the second to the first. -/
theorem Run.books_balance (platform : Platform) (maxPasses : Nat) (d : Dictionary) :
    (∀ s ∈ (Run.ofTree platform maxPasses d).stages, s.Balanced d) ∧
      (Run.ofTree platform maxPasses d).stages.IsChain Stage.Advances := by
  rw [(Run.ofTree_records platform maxPasses d).stages]
  constructor
  · intro s hs
    obtain ⟨n, _, rfl⟩ := List.mem_map.mp hs
    exact Stage.balanced_after_start platform d n
  · rw [List.isChain_map, List.isChain_range]
    exact fun n _ => Stage.advances_after_start platform d n

def Dictionary.rivals : Dictionary :=
  [("a.b", .token (.new (.str "\x7bc\x7d"))),
  ("a", .branch [("b", .token (.new (.num (.int 1))))]),
  ("c", .token (.new (.num (.int 2)))),
  ("d", .token (.new (.str "\x7ba.b\x7d")))]

theorem Run.rivals_balance :
    ∃ s ∈ (Run.ofTree (.new "plain") 3 .rivals).stages, s.Balanced .rivals ∧
      s.progress = ⟨["a.b", "c"], ["d"]⟩ := by
  have hfirst : (Run.ofTree (.new "plain") 3 .rivals).stages[0]?.map Stage.progress =
      some ⟨["a.b", "c"], ["d"]⟩ := by decide +kernel
  obtain ⟨s, hs, hprogress⟩ := Option.map_eq_some_iff.mp hfirst
  have hmem := List.mem_of_getElem? hs
  exact ⟨s, hmem, (books_balance (.new "plain") 3 .rivals).1 s hmem, hprogress⟩

end DesignTokens
