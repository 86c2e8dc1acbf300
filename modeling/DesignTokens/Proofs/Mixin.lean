import DesignTokens.Mixin
import DesignTokens.Proofs.Dictionary.AsRead

namespace DesignTokens

namespace Dictionary

variable {d changed : Dictionary} {path : List String} {f g : Dictionary → Dictionary}

theorem exists_modifyBranch? {branch : Dictionary} (h : d.branchAt? path = some branch)
    (f : Dictionary → Dictionary) : ∃ changed, d.modifyBranch? path f = some changed := by
  induction path generalizing d with
  | nil => exact ⟨f d, rfl⟩
  | cons key rest ih =>
    rw [branchAt?] at h
    split at h
    · next child hget =>
      obtain ⟨inner, hinner⟩ := ih h
      exact ⟨Entries.insert d key (.branch inner), by simp [modifyBranch?, hget, hinner]⟩
    · cases h

theorem modifyBranch?_modifyBranch? (h : d.modifyBranch? path f = some changed) :
    changed.modifyBranch? path g = d.modifyBranch? path fun branch => g (f branch) := by
  induction path generalizing d changed with
  | nil =>
    cases h
    rfl
  | cons key rest ih =>
    rw [modifyBranch?] at h
    split at h
    · next child hget =>
      obtain ⟨inner, hinner, rfl⟩ := Option.map_eq_some_iff.mp h
      simp only [modifyBranch?, hget, Entries.get?_insert_self, ih hinner, Entries.insert_insert]
    · cases h

theorem modifyBranch?_concat {key : String} {branch : Dictionary}
    (h : d.branchAt? (path ++ [key]) = some branch) :
    d.modifyBranch? (path ++ [key]) f =
      d.modifyBranch? path fun parent => Entries.insert parent key (.branch (f branch)) := by
  induction path generalizing d with
  | nil =>
    rw [List.nil_append, branchAt?] at h
    split at h
    · next child hget =>
      cases h
      simp [modifyBranch?, hget]
    · cases h
  | cons first rest ih =>
    rw [List.cons_append, branchAt?] at h
    split at h
    · next child hget =>
      simp only [List.cons_append, modifyBranch?, hget, ih h]
    · cases h

theorem exists_get?_of_branchAt?_concat {key : String} {branch : Dictionary}
    (h : d.branchAt? (path ++ [key]) = some branch) : ∃ parent, d.branchAt? path = some parent ∧
      Entries.get? parent key = some (.branch branch) := by
  induction path generalizing d with
  | nil =>
    rw [List.nil_append, branchAt?] at h
    split at h
    · next child hget =>
      cases h
      exact ⟨d, rfl, hget⟩
    · cases h
  | cons first rest ih =>
    rw [List.cons_append, branchAt?] at h
    split at h
    · next child hget =>
      obtain ⟨parent, hparent, hkey⟩ := ih h
      refine ⟨parent, ?_, hkey⟩
      simp only [branchAt?, hget]
      exact hparent
    · cases h

theorem asRead_branch_modifyBranch? (hd : (Node.branch d).AsRead)
    (hf : ∀ branch, d.branchAt? path = some branch → (Node.branch branch).AsRead →
      (Node.branch (f branch)).AsRead)
    (h : d.modifyBranch? path f = some changed) : (Node.branch changed).AsRead := by
  induction path generalizing d changed with
  | nil =>
    cases h
    exact hf d rfl hd
  | cons key rest ih =>
    obtain ⟨hvalue, hread⟩ := asRead_branch_iff.mp hd
    rw [modifyBranch?] at h
    split at h
    · next child hget =>
      obtain ⟨inner, hinner, rfl⟩ := Option.map_eq_some_iff.mp h
      have hchild := ih (hread.get? hget) (by simpa [branchAt?, hget] using hf) hinner
      refine asRead_branch_iff.mpr ⟨?_, hread.insert hchild key⟩
      rwa [Entries.keys_insert_of_get? hget]
    · cases h

theorem AsRead.modifyBranch? (hd : d.AsRead) (hroot : path = [] → (f d).AsRead)
    (hf : ∀ branch, d.branchAt? path = some branch → (Node.branch branch).AsRead →
      (Node.branch (f branch)).AsRead)
    (h : d.modifyBranch? path f = some changed) : changed.AsRead := by
  cases path with
  | nil =>
    cases h
    exact hroot rfl
  | cons key rest =>
    rw [Dictionary.modifyBranch?] at h
    split at h
    · next child hget =>
      obtain ⟨inner, hinner, rfl⟩ := Option.map_eq_some_iff.mp h
      exact hd.insert (asRead_branch_modifyBranch? (hd.get? hget)
        (by simpa [Dictionary.branchAt?, hget] using hf) hinner) key
    · cases h

theorem AsRead.replaceAt (hd : d.AsRead) {key : String} {branch : Dictionary}
    (hbranch : d.branchAt? (path ++ [key]) = some branch) {node : Node} (hnode : node.AsRead)
    (h : d.modifyBranch? path (fun parent => Entries.insert parent key node) = some changed) :
    changed.AsRead := by
  refine hd.modifyBranch? (fun _ => hd.insert hnode key) (fun parent hparent hread => ?_) h
  obtain ⟨other, hother, hget⟩ := exists_get?_of_branchAt?_concat hbranch
  rw [hparent, Option.some.injEq] at hother
  subst hother
  obtain ⟨hvalue, hread⟩ := asRead_branch_iff.mp hread
  refine asRead_branch_iff.mpr ⟨?_, hread.insert hnode key⟩
  rwa [Entries.keys_insert_of_get? hget]

end Dictionary

namespace Mixin

variable {d : Dictionary} {path : List String} {entries : Entries Json}

theorem asRead_mergeEntries {branch : Dictionary} (hbranch : branch.AsRead)
    (hentries : ∀ e ∈ entries, e.2.DistinctKeys) : (mergeEntries branch entries).AsRead := by
  rw [mergeEntries]
  induction entries generalizing branch with
  | nil => exact hbranch
  | cons e rest ih =>
    rw [List.forall_mem_cons] at hentries
    exact ih (hbranch.insert (Node.asRead_ofEntry e.1 e.2 hentries.1) e.1) hentries.2

theorem mergeAt_concat {key : String} {branch : Dictionary} (entries : Entries Json)
    (h : d.branchAt? (path ++ [key]) = some branch) :
    ∃ node, d.modifyBranch? path (fun parent => Entries.insert parent key node) =
        some (mergeAt d (path ++ [key]) entries) ∧
      node = if Entries.contains (mergeEntries branch entries) valueKey
        then Node.ofEntry key (mergeEntries branch entries).toJson
        else .branch (mergeEntries branch entries) := by
  obtain ⟨merged, hmerged⟩ :=
    Dictionary.exists_modifyBranch? h fun _ => mergeEntries branch entries
  have hset := hmerged
  rw [Dictionary.modifyBranch?_concat h] at hset
  refine ⟨_, ?_, rfl⟩
  rw [mergeAt, h]
  simp only [reclassify, hmerged, List.getLast?_append, List.getLast?_singleton, Option.some_or,
    List.dropLast_concat, Option.getD_some]
  split
  · obtain ⟨parent, hparent, _⟩ := Dictionary.exists_get?_of_branchAt?_concat h
    obtain ⟨changed, hchanged⟩ := Dictionary.exists_modifyBranch? hparent fun parent =>
      Entries.insert parent key (Node.ofEntry key (mergeEntries branch entries).toJson)
    have htwice := Dictionary.modifyBranch?_modifyBranch? (g := fun parent =>
      Entries.insert parent key (Node.ofEntry key (mergeEntries branch entries).toJson)) hset
    simp only [Entries.insert_insert] at htwice
    rw [htwice, hchanged]
    rfl
  · exact hset

theorem asRead_mergeAt (hd : d.AsRead) (hentries : ∀ e ∈ entries, e.2.DistinctKeys) :
    (mergeAt d path entries).AsRead := by
  cases hbranch : d.branchAt? path with
  | none =>
    rw [mergeAt, hbranch]
    exact hd
  | some branch =>
    have hmerged := asRead_mergeEntries (hd.branchAt? hbranch) hentries
    rcases path.eq_nil_or_concat' with rfl | ⟨before, key, rfl⟩
    · cases hbranch
      exact hmerged
    · obtain ⟨node, hset, hnode⟩ := mergeAt_concat entries hbranch
      refine hd.replaceAt hbranch ?_ hset
      rw [hnode]
      split
      · exact Node.asRead_ofEntry key _ hmerged.distinctKeys_toJson
      · next hvalue =>
        rw [Entries.contains_iff] at hvalue
        exact Dictionary.asRead_branch_iff.mpr ⟨hvalue, hmerged⟩

def targetOf? (directive : Json) : Option (List String) :=
  (targetText? directive).bind targetPath?

/-- The path that the directive of a branch names. -/
def target? (branch : Dictionary) : Option (List String) :=
  match Entries.get? branch applyKey with
  | some (.decorator directive) => targetOf? directive
  | _ => none

theorem target?_eq_some_iff {branch : Dictionary} {target : List String} :
    target? branch = some target ↔ ∃ directive,
      Entries.get? branch applyKey = some (.decorator directive) ∧
        targetOf? directive = some target := by
  rw [target?]
  split
  · next directive hget => simp [hget]
  · next hnone =>
    refine ⟨nofun, ?_⟩
    rintro ⟨directive, hget, _⟩
    exact absurd hget (hnone directive)

theorem exists_target_of_plan {entries : Entries Json} (h : plan d path = .merge entries) :
    ∃ branch mixin target token, d.branchAt? path = some branch ∧ target? branch = some target ∧
      d.lookup target = some ⟨.obj mixin, token⟩ ∧ entries = overriding branch mixin := by
  rw [plan] at h
  split at h
  · cases h
  next branch hbranch =>
  split at h
  · next directive hget =>
    split at h
    · cases h
    next text htext =>
    split at h
    · cases h
    next target hpath =>
    split at h
    · next mixin hfound =>
      cases h
      obtain ⟨⟨_, token⟩, hlookup, rfl⟩ := Option.map_eq_some_iff.mp hfound
      refine ⟨branch, mixin, target, token, hbranch, ?_, hlookup, rfl⟩
      exact target?_eq_some_iff.mpr
        ⟨directive, hget, Option.bind_eq_some_iff.mpr ⟨text, htext, hpath⟩⟩
    · cases h
  · cases h

theorem plan_eq_merge {branch : Dictionary} {mixin : Entries Json} {target : List String}
    {token : Option String} (hbranch : d.branchAt? path = some branch)
    (htarget : target? branch = some target)
    (hlookup : d.lookup target = some ⟨.obj mixin, token⟩) :
    plan d path = .merge (overriding branch mixin) := by
  obtain ⟨directive, hget, hdirective⟩ := target?_eq_some_iff.mp htarget
  obtain ⟨text, htext, hpath⟩ := Option.bind_eq_some_iff.mp hdirective
  rw [plan, hbranch]
  simp only [hget, htext, hpath, hlookup, Option.map_some]

theorem asRead_step (hd : d.AsRead) (path : List String) : (step d path).1.AsRead := by
  rw [step]
  split
  · exact hd
  · exact hd
  · next merged hplan =>
    obtain ⟨branch, mixin, target, token, _, _, hlookup, rfl⟩ := exists_target_of_plan hplan
    have hmixin := (Json.distinctKeys_obj.mp (hd.lookup hlookup)).2
    exact asRead_mergeAt hd fun e he => hmixin e (List.mem_of_mem_filter he)

theorem foldlM_keeps {α β : Type} {f : β → α → Option β} {P : β → Prop}
    (hf : ∀ b a c, P b → f b a = some c → P c) {items : List α} {b c : β} (hb : P b)
    (h : items.foldlM f b = some c) : P c := by
  induction items generalizing b with
  | nil =>
    cases h
    exact hb
  | cons a rest ih =>
    rw [List.foldlM_cons, Option.bind_eq_bind, Option.bind_eq_some_iff] at h
    obtain ⟨next, hnext, hrest⟩ := h
    exact ih (hf b a next hb hnext) hrest

theorem visit_keeps {P : Dictionary → Prop} (hstep : ∀ d path, P d → P (step d path).1)
    {depth : Nat} {visited : Dictionary × List MixinFault} (hd : P d)
    (h : visit depth d path = some visited) : P visited.1 := by
  induction depth generalizing d path visited with
  | zero => cases h
  | succ depth ih =>
    rw [visit] at h
    refine foldlM_keeps (P := fun s => P s.1) ?_ (hstep d path hd) h
    intro s key next hs hnext
    obtain ⟨inner, hinner, heq⟩ := Option.bind_eq_some_iff.mp hnext
    have hkept : P inner.1 := ih hs hinner
    cases heq
    exact hkept

theorem asRead_apply {depth : Nat} {expanded : Dictionary} {faults : List MixinFault}
    (hd : d.AsRead) (h : apply depth d = some (expanded, faults)) : expanded.AsRead :=
  visit_keeps (P := Dictionary.AsRead) (fun _ path hd => asRead_step hd path) hd h

end Mixin

end DesignTokens
