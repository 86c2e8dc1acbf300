import DesignTokens.Proofs.Diagnostic.Collector
import Mathlib.Data.List.Induction
import Mathlib.Data.List.Nodup

namespace DesignTokens

namespace Collector

/-- What is done to a collector. -/
inductive Operation
  | add (group : DiagnosticGroup) (message : Diagnostic)
  | flush (group : DiagnosticGroup)
  deriving DecidableEq, Repr

/-- The group that an operation is about. -/
def Operation.group : Operation → DiagnosticGroup
  | .add group _ => group
  | .flush group => group

def after (c : Collector) : Operation → Collector
  | .add group message => c.add group message
  | .flush group => (c.flush group).2

/-- A collector that some operations were done to from the start on. -/
def run (ops : List Operation) : Collector := ops.foldl after empty

/-- The messages that were added to groups that have not been flushed since. -/
def standing : List Operation → List (DiagnosticGroup × Diagnostic)
  | [] => []
  | .add group message :: rest =>
    if .flush group ∈ rest then standing rest else (group, message) :: standing rest
  | .flush _ :: rest => standing rest

/-- The messages for a group among some. -/
def addedTo (group : DiagnosticGroup) (added : List (DiagnosticGroup × Diagnostic)) :
    List Diagnostic :=
  (added.filter (·.1 = group)).map (·.2)

/-- Messages by group, groups and messages in the order in which they first come. -/
def filed (added : List (DiagnosticGroup × Diagnostic)) :
    List (DiagnosticGroup × List Diagnostic) :=
  (added.map (·.1)).eraseDups.map fun group => (group, (addedTo group added).eraseDups)

section

variable {α : Type} [DecidableEq α]

theorem eraseDups_concat (xs : List α) (x : α) :
    (xs ++ [x]).eraseDups = if x ∈ xs then xs.eraseDups else xs.eraseDups ++ [x] := by
  rw [List.eraseDups_append]
  split
  · next h => simp [List.removeAll, h]
  · next h => simp [List.removeAll, h, List.eraseDups_cons]

theorem nodup_eraseDups (xs : List α) : xs.eraseDups.Nodup := by
  induction xs using List.reverseRecOn with
  | nil => exact List.nodup_nil
  | append_singleton xs x ih =>
    rw [eraseDups_concat]
    split
    · exact ih
    · next h =>
      rw [← List.concat_eq_append]
      exact ih.concat (mt List.mem_eraseDups.mp h)

theorem eraseDups_filter (keep : α → Bool) (xs : List α) :
    (xs.filter keep).eraseDups = xs.eraseDups.filter keep := by
  induction xs using List.reverseRecOn with
  | nil => rfl
  | append_singleton xs x ih =>
    rw [eraseDups_concat, List.filter_append]
    by_cases hkeep : keep x
    · rw [List.filter_cons_of_pos hkeep, List.filter_nil, eraseDups_concat, ih]
      by_cases hmem : x ∈ xs
      · rw [if_pos hmem, if_pos (List.mem_filter.mpr ⟨hmem, hkeep⟩)]
      · rw [if_neg hmem, if_neg (mt List.mem_of_mem_filter hmem), List.filter_append,
          List.filter_cons_of_pos hkeep, List.filter_nil]
    · rw [List.filter_cons_of_neg hkeep, List.filter_nil, List.append_nil, ih]
      split
      · rfl
      · rw [List.filter_append, List.filter_cons_of_neg hkeep, List.filter_nil, List.append_nil]

end

theorem addOnce_eraseDups (old : List Diagnostic) (message : Diagnostic) :
    addOnce old.eraseDups message = (old ++ [message]).eraseDups := by
  rw [eraseDups_concat, addOnce]
  simp only [List.contains_iff_mem, List.mem_eraseDups]

variable {group other : DiagnosticGroup} {message : Diagnostic} {ops : List Operation}
  {added : List (DiagnosticGroup × Diagnostic)} {groups : List DiagnosticGroup}

theorem addedTo_concat_self (group : DiagnosticGroup) (message : Diagnostic)
    (added : List (DiagnosticGroup × Diagnostic)) :
    addedTo group (added ++ [(group, message)]) = addedTo group added ++ [message] := by
  simp [addedTo]

theorem addedTo_concat_of_ne (h : other ≠ group) (message : Diagnostic)
    (added : List (DiagnosticGroup × Diagnostic)) :
    addedTo other (added ++ [(group, message)]) = addedTo other added := by
  simp [addedTo, h.symm]

theorem addedTo_eq_nil (h : group ∉ added.map (·.1)) : addedTo group added = [] := by
  rw [addedTo, List.map_eq_nil_iff, List.filter_eq_nil_iff]
  intro e he hgroup
  exact h (List.mem_map.mpr ⟨e, he, of_decide_eq_true hgroup⟩)

theorem addedTo_filter_self (group : DiagnosticGroup)
    (added : List (DiagnosticGroup × Diagnostic)) :
    addedTo group (added.filter (·.1 ≠ group)) = [] := by
  apply addedTo_eq_nil
  simp

theorem addedTo_filter_of_ne (h : other ≠ group)
    (added : List (DiagnosticGroup × Diagnostic)) :
    addedTo other (added.filter (·.1 ≠ group)) = addedTo other added := by
  rw [addedTo, List.filter_filter, addedTo]
  congr 1
  refine List.filter_congr fun e _ => ?_
  by_cases hother : e.1 = other <;> simp [hother, h]

theorem addTo_map_of_mem {f : DiagnosticGroup → List Diagnostic} (hmem : group ∈ groups)
    (h : groups.Nodup) : addTo group message (groups.map fun g => (g, f g)) =
      groups.map fun g => (g, if g = group then addOnce (f g) message else f g) := by
  induction groups with
  | nil => cases hmem
  | cons first rest ih =>
    obtain ⟨hfirst, hrest⟩ := List.nodup_cons.mp h
    rw [List.map_cons, List.map_cons, addTo]
    by_cases hsame : first = group
    · subst hsame
      rw [if_pos rfl, if_pos rfl]
      congr 1
      refine List.map_congr_left fun g hg => ?_
      rw [if_neg (ne_of_mem_of_not_mem hg hfirst)]
    · rw [if_neg hsame, if_neg hsame,
        ih ((List.mem_cons.mp hmem).resolve_left (Ne.symm hsame)) hrest]

theorem addTo_map_of_not_mem {f : DiagnosticGroup → List Diagnostic} (hmem : group ∉ groups) :
    addTo group message (groups.map fun g => (g, f g)) =
      (groups.map fun g => (g, f g)) ++ [(group, [message])] := by
  induction groups with
  | nil => rfl
  | cons first rest ih =>
    rw [List.mem_cons, not_or] at hmem
    rw [List.map_cons, addTo, if_neg (Ne.symm hmem.1), ih hmem.2, List.cons_append]

theorem addTo_filed (group : DiagnosticGroup) (message : Diagnostic)
    (added : List (DiagnosticGroup × Diagnostic)) :
    addTo group message (filed added) = filed (added ++ [(group, message)]) := by
  rw [filed, filed, List.map_append, List.map_singleton, eraseDups_concat]
  by_cases hmem : group ∈ added.map (·.1)
  · rw [if_pos hmem, addTo_map_of_mem (List.mem_eraseDups.mpr hmem) (nodup_eraseDups _)]
    refine List.map_congr_left fun g _ => ?_
    by_cases hg : g = group
    · rw [if_pos hg, hg, addOnce_eraseDups, addedTo_concat_self]
    · rw [if_neg hg, addedTo_concat_of_ne hg]
  · rw [if_neg hmem, addTo_map_of_not_mem (mt List.mem_eraseDups.mp hmem), List.map_append,
      List.map_singleton, addedTo_concat_self, addedTo_eq_nil hmem]
    congr 1
    refine List.map_congr_left fun g hg => ?_
    rw [addedTo_concat_of_ne (ne_of_mem_of_not_mem (List.mem_eraseDups.mp hg) hmem)]

theorem filter_filed (group : DiagnosticGroup) (added : List (DiagnosticGroup × Diagnostic)) :
    (filed added).filter (·.1 ≠ group) = filed (added.filter (·.1 ≠ group)) := by
  have hgroups : (added.filter (·.1 ≠ group)).map (·.1) =
      (added.map (·.1)).filter (· ≠ group) := by
    rw [List.filter_map]
    rfl
  rw [filed, filed, hgroups, eraseDups_filter, List.filter_map]
  refine List.map_congr_left fun g hg => ?_
  rw [addedTo_filter_of_ne (of_decide_eq_true (List.mem_filter.mp hg).2)]

theorem standing_append (ops more : List Operation) : standing (ops ++ more) =
    (standing ops).filter (fun e => .flush e.1 ∉ more) ++ standing more := by
  induction ops with
  | nil => rfl
  | cons op rest ih =>
    cases op with
    | add group message =>
      rw [List.cons_append, standing, standing, ih]
      by_cases hrest : Operation.flush group ∈ rest <;>
        by_cases hmore : Operation.flush group ∈ more <;> simp [hrest, hmore]
    | flush group => rw [List.cons_append, standing, standing, ih]

theorem standing_concat_add (ops : List Operation) (group : DiagnosticGroup)
    (message : Diagnostic) :
    standing (ops ++ [.add group message]) = standing ops ++ [(group, message)] := by
  rw [standing_append]
  simp [standing]

theorem standing_concat_flush (ops : List Operation) (group : DiagnosticGroup) :
    standing (ops ++ [.flush group]) = (standing ops).filter (·.1 ≠ group) := by
  rw [standing_append]
  simp [standing]

theorem run_concat (ops : List Operation) (op : Operation) :
    run (ops ++ [op]) = (run ops).after op :=
  List.foldl_concat after empty op ops

theorem groups_run (ops : List Operation) : (run ops).groups = filed (standing ops) := by
  induction ops using List.reverseRecOn with
  | nil => rfl
  | append_singleton ops op ih =>
    rw [run_concat]
    cases op with
    | add group message => rw [after, add, ih, addTo_filed, standing_concat_add]
    | flush group => rw [after, flush, ih, filter_filed, standing_concat_flush]

theorem messages_run (ops : List Operation) (group : DiagnosticGroup) :
    (run ops).messages group = (addedTo group (standing ops)).eraseDups := by
  rw [messages, groups_run, filed]
  by_cases h : group ∈ (standing ops).map (·.1)
  · rw [List.lookup_graph (fun g => (addedTo g (standing ops)).eraseDups)
      (List.mem_eraseDups.mpr h), Option.getD_some]
  · rw [addedTo_eq_nil h, List.lookup_eq_none_iff.mpr]
    · rfl
    · intro e he
      obtain ⟨g, hg, rfl⟩ := List.mem_map.mp he
      simpa using (ne_of_mem_of_not_mem (List.mem_eraseDups.mp hg) h).symm

theorem diagnostics_run (ops : List Operation) :
    (run ops).diagnostics =
      ((standing ops).map (·.1)).eraseDups.flatMap (run ops).messages := by
  rw [diagnostics, groups_run, filed, List.flatMap_map]
  exact List.flatMap_congr fun group _ => (messages_run ops group).symm

theorem isEmpty_run_iff (ops : List Operation) :
    (run ops).isEmpty = true ↔ ∀ group, (run ops).count group = 0 := by
  rw [isEmpty, groups_run, filed, List.all_map, List.all_eq_true]
  simp only [Function.comp_apply, List.isEmpty_iff, count, List.length_eq_zero_iff, messages_run]
  refine ⟨fun h group => ?_, fun h group _ => h group⟩
  by_cases hmem : group ∈ (standing ops).map (·.1)
  · exact h group (List.mem_eraseDups.mpr hmem)
  · rw [addedTo_eq_nil hmem, List.eraseDups_nil]

theorem messages_run_flush_self (ops : List Operation) (group : DiagnosticGroup) :
    (run (ops ++ [.flush group])).messages group = [] := by
  rw [messages_run, standing_concat_flush, addedTo_filter_self, List.eraseDups_nil]

theorem messages_run_concat_of_ne {op : Operation} (h : other ≠ op.group) :
    (run (ops ++ [op])).messages other = (run ops).messages other := by
  rw [messages_run, messages_run]
  cases op with
  | add group message =>
    rw [standing_concat_add]
    exact congrArg List.eraseDups (addedTo_concat_of_ne h message (standing ops))
  | flush group =>
    rw [standing_concat_flush]
    exact congrArg List.eraseDups (addedTo_filter_of_ne h (standing ops))

/-- The law of collectors.  After any additions and flushes a group has the messages that were added
to it since it was last flushed, each where it first came; a flush gives these and empties the group;
what is done to one group changes no other; all messages are those of the groups in the order in
which they were first added to since they were last flushed; and there is none exactly if every
group counts none. -/
theorem run_holds_what_stands (ops : List Operation) :
    (∀ group, (run ops).messages group = (addedTo group (standing ops)).eraseDups) ∧
    (∀ group, (run ops).flush group =
        ((addedTo group (standing ops)).eraseDups, run (ops ++ [.flush group])) ∧
      (run (ops ++ [.flush group])).messages group = []) ∧
    (∀ op other, other ≠ op.group →
      (run (ops ++ [op])).messages other = (run ops).messages other) ∧
    (run ops).diagnostics = ((standing ops).map (·.1)).eraseDups.flatMap (run ops).messages ∧
    ((run ops).isEmpty = true ↔ ∀ group, (run ops).count group = 0) := by
  refine ⟨messages_run ops, fun group => ⟨?_, messages_run_flush_self ops group⟩,
    fun _ _ => messages_run_concat_of_ne, diagnostics_run ops, isEmpty_run_iff ops⟩
  rw [run_concat, ← messages_run]
  rfl

example : (run [.add .references (.warning "a"), .add .sources (.warning "b"),
      .add .references (.warning "a"), .flush .references, .add .references (.warning "c"),
      .add .sources (.warning "b"), .add .references (.warning "a")]).diagnostics =
    [.warning "b", .warning "c", .warning "a"] := by
  decide

end Collector

end DesignTokens
