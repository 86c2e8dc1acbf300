import DesignTokens.Diagnostic.Collector
import Mathlib.Tactic.Tauto

namespace DesignTokens

namespace Collector

variable {c : Collector} {group other : DiagnosticGroup} {messages : List Diagnostic}

theorem lookup_addTo (group other : DiagnosticGroup) (message : Diagnostic)
    (groups : List (DiagnosticGroup × List Diagnostic)) :
    ((addTo group message groups).lookup other).getD [] =
      if group = other then addOnce ((groups.lookup other).getD []) message
      else (groups.lookup other).getD [] := by
  induction groups with
  | nil =>
    by_cases h : group = other
    · simp [addTo, addOnce, h]
    · have hne : (other == group) = false := beq_eq_false_iff_ne.mpr (Ne.symm h)
      simp [addTo, List.lookup_cons, hne, h]
  | cons entry rest ih =>
    obtain ⟨g, found⟩ := entry
    rw [addTo]
    by_cases hg : g = group
    · subst hg
      by_cases h : g = other
      · simp [h]
      · simp [List.lookup_cons, h, beq_eq_false_iff_ne.mpr (Ne.symm h)]
    · rw [if_neg hg]
      by_cases h : other = g
      · simp [h, Ne.symm hg]
      · simp only [List.lookup_cons, beq_eq_false_iff_ne.mpr h]
        exact ih

theorem messages_addAll_self :
    (c.addAll group messages).messages group = messages.foldl addOnce (c.messages group) := by
  induction messages generalizing c with
  | nil => rfl
  | cons message rest ih =>
    rw [addAll, List.foldl_cons, ← addAll, ih, List.foldl_cons]
    congr 1
    rw [Collector.messages, add, lookup_addTo, if_pos rfl]
    rfl

theorem messages_addAll_of_ne (h : group ≠ other) :
    (c.addAll group messages).messages other = c.messages other := by
  induction messages generalizing c with
  | nil => rfl
  | cons message rest ih =>
    rw [addAll, List.foldl_cons, ← addAll, ih]
    rw [Collector.messages, add, lookup_addTo, if_neg h]
    rfl

theorem mem_diagnostics_addTo {message m : Diagnostic}
    {groups : List (DiagnosticGroup × List Diagnostic)}
    (h : m ∈ (addTo group message groups).flatMap (·.2)) :
    m ∈ groups.flatMap (·.2) ∨ m = message := by
  induction groups with
  | nil => exact .inr (by simpa [addTo] using h)
  | cons entry rest ih =>
    obtain ⟨g, found⟩ := entry
    rw [addTo] at h
    split at h
    · simp only [List.flatMap_cons, List.mem_append] at h ⊢
      rw [addOnce] at h
      split at h
      · exact .inl h
      · simp only [List.mem_append, List.mem_singleton] at h
        tauto
    · simp only [List.flatMap_cons, List.mem_append] at h ⊢
      exact h.elim (fun hfound => .inl (.inl hfound)) fun hrest => (ih hrest).imp_left .inr

theorem mem_diagnostics_addAll {m : Diagnostic}
    (h : m ∈ (c.addAll group messages).diagnostics) : m ∈ c.diagnostics ∨ m ∈ messages := by
  induction messages generalizing c with
  | nil => exact .inl h
  | cons message rest ih =>
    obtain hfirst | hrest := ih h
    · exact (mem_diagnostics_addTo hfirst).imp_right fun heq => List.mem_cons.mpr (.inl heq)
    · exact .inr (List.mem_cons_of_mem message hrest)

theorem mem_addOnce {old : List Diagnostic} {message m : Diagnostic} :
    m ∈ addOnce old message ↔ m ∈ old ∨ m = message := by
  rw [addOnce]
  split
  · next h =>
    rw [List.contains_iff_mem] at h
    exact ⟨.inl, fun hor => hor.elim id fun heq => heq ▸ h⟩
  · simp

theorem mem_foldl_addOnce {old : List Diagnostic} {m : Diagnostic} :
    m ∈ messages.foldl addOnce old ↔ m ∈ old ∨ m ∈ messages := by
  induction messages generalizing old with
  | nil => simp
  | cons message rest ih => rw [List.foldl_cons, ih, mem_addOnce, List.mem_cons, or_assoc]

theorem nodup_addOnce {old : List Diagnostic} (h : old.Nodup) (message : Diagnostic) :
    (addOnce old message).Nodup := by
  rw [addOnce]
  split
  · exact h
  · next hnew =>
    rw [List.contains_iff_mem] at hnew
    rw [List.nodup_append]
    refine ⟨h, by simp, ?_⟩
    rintro m hm _ hlast rfl
    exact hnew (List.mem_singleton.mp hlast ▸ hm)

theorem nodup_foldl_addOnce {old : List Diagnostic} (h : old.Nodup)
    (messages : List Diagnostic) : (messages.foldl addOnce old).Nodup := by
  induction messages generalizing old with
  | nil => exact h
  | cons message rest ih => exact ih (nodup_addOnce h message)

theorem prefix_addOnce (old : List Diagnostic) (message : Diagnostic) :
    old <+: addOnce old message := by
  rw [addOnce]
  split
  · exact List.prefix_rfl
  · exact List.prefix_append old [message]

theorem prefix_foldl_addOnce (old messages : List Diagnostic) :
    old <+: messages.foldl addOnce old := by
  induction messages generalizing old with
  | nil => exact List.prefix_rfl
  | cons message rest ih => exact (prefix_addOnce old message).trans (ih _)

theorem foldl_addOnce_eq_nil : messages.foldl addOnce [] = [] ↔ messages = [] := by
  constructor
  · intro h
    rw [List.eq_nil_iff_forall_not_mem]
    intro m hm
    have hin : m ∈ messages.foldl addOnce [] := mem_foldl_addOnce.mpr (.inr hm)
    simp [h] at hin
  · rintro rfl
    rfl

end Collector

end DesignTokens
