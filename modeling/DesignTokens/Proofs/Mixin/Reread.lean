import DesignTokens.Proofs.Dictionary.RoundTrip
import DesignTokens.Proofs.Mixin.Walk

namespace DesignTokens

mutual

def Node.FitsKey (key : String) : Node → Prop
  | .branch entries =>
    namesDecorator key = false ∧ valueKey ∉ Entries.keys entries ∧ Dictionary.Fits entries
  | .token _ => namesDecorator key = false
  | .decorator _ => namesDecorator key = true
  | .literal value => namesDecorator key = false ∧ value.asObject? = none

/-- Below the root all nodes are of the kinds that reading chooses.  The root may have an entry
`value`. -/
def Dictionary.Fits : Dictionary → Prop
  | [] => True
  | (key, node) :: rest => node.FitsKey key ∧ Dictionary.Fits rest

end

mutual

theorem Node.fitsKey_ofEntry (key : String) : ∀ value : Json, (Node.ofEntry key value).FitsKey key
  | .null | .bool _ | .num _ | .str _ | .arr _ => by
    simp only [Node.ofEntry]
    split
    · next hkey => exact hkey
    · next hkey => exact ⟨Bool.eq_false_iff.mpr hkey, rfl⟩
  | .obj entries => by
    obtain ⟨hkey, hread⟩ | ⟨hkey, _, t, _, hread⟩ | ⟨hkey, hvalue, hread⟩ :=
      Node.ofEntry_obj_cases key entries
    · rw [hread]
      exact hkey
    · rw [hread]
      exact hkey
    · rw [hread]
      refine ⟨hkey, ?_, Dictionary.fits_ofEntries entries⟩
      rw [Dictionary.keys_ofEntries]
      exact Entries.contains_eq_false_iff.mp hvalue

theorem Dictionary.fits_ofEntries : ∀ entries : List (String × Json),
    (Dictionary.ofEntries entries).Fits
  | [] => trivial
  | (key, value) :: rest => ⟨Node.fitsKey_ofEntry key value, Dictionary.fits_ofEntries rest⟩

end

def Node.Rereads (key : String) (n : Node) : Prop := Node.ofEntry key n.toJson = n

def Dictionary.Rereads (d : Dictionary) : Prop := ofEntries d.toEntries = d

theorem Dictionary.rereads_iff {d : Dictionary} : d.Rereads ↔ ∀ e ∈ d, e.2.Rereads e.1 := by
  rw [Rereads]
  induction d with
  | nil => simp [toEntries, ofEntries]
  | cons e rest ih =>
    rw [toEntries, ofEntries, List.cons.injEq, ih, List.forall_mem_cons]
    exact and_congr_left fun _ => by rw [Prod.ext_iff]; exact and_iff_right rfl

theorem Node.rereads_branch_iff {key : String} {entries : Dictionary} :
    (Node.branch entries).Rereads key ↔
      namesDecorator key = false ∧ valueKey ∉ Entries.keys entries ∧ entries.Rereads := by
  have hkeys : Entries.contains entries.toEntries valueKey = false ↔
      valueKey ∉ Entries.keys entries := by
    rw [Entries.contains_eq_false_iff, Dictionary.keys_toEntries]
  rw [Node.Rereads, Node.toJson, ← hkeys, Dictionary.Rereads]
  obtain ⟨hkey, hread⟩ | ⟨hkey, hvalue, t, _, hread⟩ | ⟨hkey, hvalue, hread⟩ :=
    Node.ofEntry_obj_cases key entries.toEntries
  · simp [hread, hkey]
  · simp [hread, hvalue]
  · simp [hread, hkey, hvalue]

namespace Dictionary

variable {d : Dictionary} {path : List String} {key : String} {node new old : Node}

theorem Rereads.decorated (h : d.Rereads) : d.Decorated := by
  rw [Rereads] at h
  rw [← h]
  exact decorated_ofEntries d.toEntries

theorem Rereads.fits (h : d.Rereads) : d.Fits := by
  rw [Rereads] at h
  rw [← h]
  exact fits_ofEntries d.toEntries

theorem Rereads.get? (h : d.Rereads) (hget : Entries.get? d key = some node) : node.Rereads key :=
  rereads_iff.mp h _ (Entries.mem_of_get?_eq_some hget)

theorem Rereads.insert (h : d.Rereads) (hnode : node.Rereads key) :
    Rereads (Entries.insert d key node) := by
  refine rereads_iff.mpr fun e he => ?_
  rcases Entries.mem_insert he with he | rfl
  · exact rereads_iff.mp h e he
  · exact hnode

theorem Rereads.branchAt? (h : d.Rereads) {branch : Dictionary}
    (hbranch : d.branchAt? path = some branch) : branch.Rereads := by
  induction path generalizing d with
  | nil =>
    cases hbranch
    exact h
  | cons key rest ih =>
    rw [Dictionary.branchAt?] at hbranch
    split at hbranch
    · next child hget => exact ih (Node.rereads_branch_iff.mp (h.get? hget)).2.2 hbranch
    · cases hbranch

theorem Rereads.withNode (h : d.Rereads) (hat : (Node.branch d).at? (path ++ [key]) = some old)
    (hnew : new.Rereads key) : ∃ changed : Dictionary,
      (Node.branch d).withNode (path ++ [key]) new = .branch changed ∧
        Entries.keys changed = Entries.keys d ∧ changed.Rereads := by
  induction path generalizing d with
  | nil =>
    obtain ⟨entries, child, heq, hget, _⟩ := Node.at?_cons_eq_some_iff.mp hat
    cases heq
    refine ⟨_, Node.withNode_branch_cons hget, Entries.keys_insert_of_get? hget _, h.insert ?_⟩
    rwa [Node.withNode_nil]
  | cons first rest ih =>
    rw [List.cons_append] at hat ⊢
    obtain ⟨entries, child, heq, hget, hchild⟩ := Node.at?_cons_eq_some_iff.mp hat
    cases heq
    obtain ⟨inner, rfl⟩ : ∃ inner, child = .branch inner := by
      cases child with
      | branch inner => exact ⟨inner, rfl⟩
      | _ => cases rest <;> cases hchild
    obtain ⟨hkey, hvalue, hinner⟩ := Node.rereads_branch_iff.mp (h.get? hget)
    obtain ⟨changed, hchanged, hkeys, hreads⟩ := ih hinner hchild
    refine ⟨_, Node.withNode_branch_cons hget, Entries.keys_insert_of_get? hget _, h.insert ?_⟩
    rw [hchanged, Node.rereads_branch_iff, hkeys]
    exact ⟨hkey, hvalue, hreads⟩

end Dictionary

namespace Mixin

variable {d : Dictionary} {path : List String} {key : String} {entries : Entries Json}

theorem rereads_mergeEntries {branch : Dictionary} (hbranch : branch.Rereads)
    (hentries : ∀ e ∈ entries, e.2.DistinctKeys) : (mergeEntries branch entries).Rereads := by
  refine Dictionary.rereads_iff.mpr fun e he => ?_
  rcases mem_mergeEntries he with he | ⟨value, hvalue, hnode⟩
  · exact Dictionary.rereads_iff.mp hbranch e he
  · rw [hnode]
    exact Node.ofEntry_toJson e.1 value (hentries _ hvalue)

theorem rereads_merged {branch : Dictionary} (hread : branch.AsRead) (hbranch : branch.Rereads)
    (hentries : ∀ e ∈ entries, e.2.DistinctKeys) (hkey : namesDecorator key = false) :
    (merged (path ++ [key]) branch entries).Rereads key := by
  have hmerged := rereads_mergeEntries hbranch hentries
  simp only [merged, List.getLast?_concat]
  split
  · exact Node.ofEntry_toJson key _ (asRead_mergeEntries hread hentries).distinctKeys_toJson
  · next hvalue =>
    rw [Entries.contains_iff] at hvalue
    exact Node.rereads_branch_iff.mpr ⟨hkey, hvalue, hmerged⟩

theorem rereads_step (hread : d.AsRead) (hd : d.Rereads) (path : List String) :
    (step d path).1.Rereads := by
  rw [step]
  split
  · exact hd
  · exact hd
  · next entries hplan =>
    obtain ⟨branch, mixin, _, _, hbranch, _, hlookup, rfl⟩ := exists_target_of_plan hplan
    have hentries : ∀ e ∈ overriding branch mixin, e.2.DistinctKeys := fun e he =>
      (Json.distinctKeys_obj.mp (hread.lookup hlookup)).2 e (List.mem_of_mem_filter he)
    have hat := Dictionary.branchAt?_eq_some_iff.mp hbranch
    have hroot : (Node.branch d).Decorated := hd.decorated
    have hplace := branch_mergeAt hbranch (overriding branch mixin)
    rcases path.eq_nil_or_concat' with rfl | ⟨before, key, rfl⟩
    · cases hbranch
      rw [Node.withNode_nil, merged, List.getLast?_nil, Node.branch.injEq] at hplace
      rw [hplace]
      exact rereads_mergeEntries hd hentries
    · have hkey : namesDecorator key = false :=
        hroot.not_namesDecorator hat key (by simp)
      obtain ⟨changed, hchanged, _, hreads⟩ := hd.withNode hat
        (rereads_merged (hread.branchAt? hbranch) (hd.branchAt? hbranch) hentries hkey)
      rw [hchanged, Node.branch.injEq] at hplace
      rwa [hplace]

/-- Applying mixins to a tree that is read leaves a tree as reading classifies it, which is read again
from what is written for it, entry for entry and in the same order. -/
theorem apply_fits {value : Json} {d expanded : Dictionary} {depth : Nat}
    {faults : List MixinFault} (hvalue : value.DistinctKeys) (hd : Dictionary.ofJson value = .ok d)
    (h : apply depth d = some (expanded, faults)) :
    expanded.Fits ∧ Dictionary.ofJson expanded.toJson = .ok expanded := by
  have hstart : d.AsRead ∧ d.Rereads := by
    cases value with
    | obj entries =>
      cases hd
      exact ⟨Dictionary.asRead_of_ofJson hvalue rfl, Dictionary.ofEntries_toEntries entries hvalue.2⟩
    | _ => cases hd
  obtain ⟨_, hexpanded⟩ := visit_keeps (P := fun d => d.AsRead ∧ d.Rereads)
    (fun _ path hkept => ⟨asRead_step hkept.1 path, rereads_step hkept.1 hkept.2 path⟩) hstart h
  refine ⟨hexpanded.fits, ?_⟩
  rw [Dictionary.toJson, Dictionary.ofJson, hexpanded]

end Mixin

/-- A mixin with parts that fit and parts that do not.  It makes a token of one branch, and at the root
it leaves its value as an entry. -/
def Dictionary.grafted : Dictionary :=
  [("mixin", .token (.new (.obj [("name", .str "n"), ("value", .obj [("value", .null)]),
      ("path", .arr [.null]), ("attributes", .obj []), ("@group", .obj []),
      ("inner", .obj [("name", .num (.int 3)), ("value", .str "#fff")])]))),
  ("@apply", .directive "mixin"),
  ("branch", .branch [("attributes", .branch [("k", .literal (.bool true))]),
    ("@apply", .directive "mixin")])]

theorem Mixin.grafted_fits : Dictionary.ofJson Dictionary.grafted.toJson = .ok .grafted ∧
    ∃ expanded, apply 3 .grafted = some (expanded, []) ∧
    (expanded.tokenAt? ["branch"]).isSome = true ∧
    expanded.Fits ∧ Dictionary.ofJson expanded.toJson = .ok expanded := by
  have hvalue : Dictionary.grafted.toJson.DistinctKeys :=
    Json.distinctKeys_withDistinctKeys Dictionary.grafted.toJson
  have hd : Dictionary.ofJson Dictionary.grafted.toJson = .ok .grafted := rfl
  have happly : apply 3 .grafted = some (_, []) := rfl
  exact ⟨hd, _, happly, by decide +kernel, apply_fits hvalue hd happly⟩

end DesignTokens
