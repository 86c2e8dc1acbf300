import DesignTokens.Entries
import Mathlib.Data.List.Nodup

universe u

namespace DesignTokens.Entries

variable {α : Type u} {m n : Entries α} {key : String} {value : α}

instance (m : Entries α) : Decidable (Distinct m) := inferInstanceAs (Decidable (keys m).Nodup)

theorem get?_eq_none_iff : get? m key = none ↔ key ∉ keys m := by
  induction m with
  | nil => simp [get?, keys]
  | cons e rest ih =>
    by_cases h : e.1 = key
    · simp [get?, keys, h]
    · have h' : key ≠ e.1 := fun he => h he.symm
      simpa [get?, keys, h, h'] using ih

theorem mem_of_get?_eq_some (h : get? m key = some value) : (key, value) ∈ m := by
  induction m with
  | nil => simp [get?] at h
  | cons e rest ih =>
    by_cases hk : e.1 = key
    · simp only [get?, hk, if_true, Option.some.injEq] at h
      simp [← h, ← hk]
    · simp only [get?, hk, if_false] at h
      exact List.mem_cons_of_mem e (ih h)

theorem Distinct.get?_eq_some (hm : Distinct m) (h : (key, value) ∈ m) :
    get? m key = some value := by
  induction m with
  | nil => cases h
  | cons e rest ih =>
    have hnodup := List.nodup_cons.mp hm
    rcases List.mem_cons.mp h with rfl | h
    · simp [get?]
    · have hne : e.1 ≠ key := by
        rintro rfl
        exact hnodup.1 (List.mem_map.mpr ⟨_, h, rfl⟩)
      rw [get?, if_neg hne]
      exact ih hnodup.2 h

theorem get?_singleton (key : String) (value : α) (other : String) :
    get? [(key, value)] other = if key = other then some value else none := rfl

theorem get?_append (m n : Entries α) (key : String) :
    get? (m ++ n) key = (get? m key).or (get? n key) := by
  induction m with
  | nil => rfl
  | cons e rest ih =>
    rw [List.cons_append, get?, get?, ih]
    split <;> rfl

theorem get?_map {β : Type*} (m : Entries α) (f : String → α → β) (key : String) :
    get? (m.map fun e => (e.1, f e.1 e.2)) key = (get? m key).map (f key) := by
  induction m with
  | nil => rfl
  | cons e rest ih =>
    rw [List.map_cons, get?, get?, ih]
    split
    · next h => rw [h, Option.map_some]
    · rfl

theorem get?_zip (keys : List String) (values : List α) (key : String) :
    get? (keys.zip values) key = (keys.idxOf? key).bind (values[·]?) := by
  induction keys generalizing values with
  | nil => rfl
  | cons first rest ih =>
    cases values with
    | nil => simp [get?]
    | cons value others =>
      rw [List.zip_cons_cons, get?, List.idxOf?_cons, ih]
      by_cases h : first = key
      · simp [h]
      · rw [if_neg h, if_neg (by simpa using h), Option.bind_map]
        rfl

theorem get?_insert (m : Entries α) (key other : String) (value : α) :
    get? (insert m key value) other = if other = key then some value else get? m other := by
  split
  · next h => rw [h, get?_insert_self]
  · next h => exact get?_insert_of_ne m value h

theorem insert_eq_self (h : get? m key = some value) : insert m key value = m := by
  induction m with
  | nil => cases h
  | cons e rest ih =>
    rw [get?] at h
    rw [insert]
    split at h
    · next hk =>
      cases h
      rw [if_pos hk, ← hk]
    · next hk => rw [if_neg hk, ih h]

theorem insert_insert (m : Entries α) (key : String) (first second : α) :
    insert (insert m key first) key second = insert m key second := by
  induction m with
  | nil => simp [insert]
  | cons e rest ih =>
    by_cases h : e.1 = key
    · simp [insert, h]
    · simp [insert, h, ih]

theorem exists_append_of_get? (h : get? m key = some value) : ∃ before after : Entries α,
    key ∉ keys before ∧ m = before ++ (key, value) :: after ∧
      ∀ new, insert m key new = before ++ (key, new) :: after := by
  induction m with
  | nil => cases h
  | cons e rest ih =>
    rw [get?] at h
    split at h
    · next hkey =>
      cases h
      refine ⟨[], rest, List.not_mem_nil, by rw [← hkey]; rfl, fun new => ?_⟩
      rw [insert, if_pos hkey]
      rfl
    · next hkey =>
      obtain ⟨before, after, hnew, hm, hinsert⟩ := ih h
      refine ⟨e :: before, after, ?_, by rw [hm]; rfl, fun new => ?_⟩
      · rw [keys, List.map_cons, List.mem_cons, not_or]
        exact ⟨Ne.symm hkey, hnew⟩
      · rw [insert, if_neg hkey, hinsert new]
        rfl

theorem keys_insert_of_get? (h : get? m key = some value) (new : α) :
    keys (insert m key new) = keys m := by
  rw [keys_insert, if_pos]
  exact List.mem_map_of_mem (mem_of_get?_eq_some h)

theorem mem_insert {e : String × α} (h : e ∈ insert m key value) : e ∈ m ∨ e = (key, value) := by
  induction m with
  | nil => exact .inr (List.mem_singleton.mp h)
  | cons first rest ih =>
    rw [insert] at h
    split at h
    · exact (List.mem_cons.mp h).symm.imp_left (List.mem_cons_of_mem first)
    · rcases List.mem_cons.mp h with rfl | h
      · exact .inl List.mem_cons_self
      · exact (ih h).imp_left (List.mem_cons_of_mem first)

theorem exists_get?_iff : (∃ value, get? m key = some value) ↔ key ∈ keys m := by
  rw [← Option.ne_none_iff_exists', ne_eq, get?_eq_none_iff, not_not]

theorem contains_iff : contains m key = true ↔ key ∈ keys m :=
  Option.isSome_iff_exists.trans exists_get?_iff

theorem contains_eq_false_iff : contains m key = false ↔ key ∉ keys m := by
  rw [← contains_iff, Bool.not_eq_true]

theorem exists_get?_of_keys_eq {β : Type*} {n : Entries β} (h : keys n = keys m)
    (hget : get? m key = some value) : ∃ other, get? n key = some other := by
  rw [exists_get?_iff, h]
  exact exists_get?_iff.mp ⟨value, hget⟩

theorem contains_eq_of_keys_eq {β : Type*} {n : Entries β} (h : keys n = keys m) (key : String) :
    contains n key = contains m key := by
  rw [contains, contains, Bool.eq_iff_iff, Option.isSome_iff_ne_none, Option.isSome_iff_ne_none,
    ne_eq, ne_eq, get?_eq_none_iff, get?_eq_none_iff, h]

theorem Distinct.ext (hm : Distinct m) (hkeys : keys n = keys m)
    (h : ∀ key, get? n key = get? m key) : n = m := by
  have hn : Distinct n := by rwa [Distinct, hkeys]
  induction m generalizing n with
  | nil => simpa [keys] using hkeys
  | cons e rest ih =>
    obtain ⟨first, others, rfl⟩ := List.exists_cons_of_ne_nil (show n ≠ [] by
      rintro rfl
      cases hkeys)
    obtain ⟨hkey, hrest⟩ : first.1 = e.1 ∧ keys others = keys rest := List.cons_eq_cons.mp hkeys
    have hvalue := h e.1
    simp only [get?, hkey, if_true, Option.some.injEq] at hvalue
    have hnodup := List.nodup_cons.mp hm
    rw [Prod.ext hkey hvalue, ih hnodup.2 hrest (fun key => ?_) (List.nodup_cons.mp hn).2]
    by_cases hsame : e.1 = key
    · subst hsame
      rw [get?_eq_none_iff.mpr hnodup.1, get?_eq_none_iff.mpr (hrest.symm ▸ hnodup.1)]
    · simpa [get?, hkey, hsame] using h key

theorem keys_filter (hm : Distinct m) (keep : α → Bool) :
    keys (m.filter fun e => keep e.2) = (keys m).filter fun key => (get? m key).any keep := by
  rw [keys, keys, List.filter_map]
  refine congrArg _ (List.filter_congr fun e he => ?_)
  rw [Function.comp_apply, hm.get?_eq_some he]
  rfl

theorem Distinct.filter (hm : Distinct m) (keep : String × α → Bool) :
    Distinct (m.filter keep) :=
  hm.sublist (List.filter_sublist.map Prod.fst)

theorem Distinct.perm (hm : Distinct m) (h : m.Perm n) : Distinct n :=
  (h.map Prod.fst).nodup_iff.mp hm

theorem Distinct.get?_eq_of_perm (hm : Distinct m) (h : m.Perm n) (key : String) :
    get? m key = get? n key := by
  cases hn : get? n key with
  | some value => exact hm.get?_eq_some (h.mem_iff.mpr (mem_of_get?_eq_some hn))
  | none =>
    rw [get?_eq_none_iff] at hn ⊢
    exact fun hmem => hn ((h.map Prod.fst).mem_iff.mp hmem)

theorem get?_filter_keys (m : Entries α) (keep : String → Bool) (key : String) :
    get? (m.filter fun e => keep e.1) key = if keep key then get? m key else none := by
  induction m with
  | nil => simp [get?]
  | cons e rest ih =>
    rw [List.filter_cons, get?]
    by_cases h : e.1 = key
    · by_cases hkeep : keep key
      · simp [get?, h, hkeep]
      · simpa [h, hkeep] using ih
    · by_cases hfirst : keep e.1
      · rw [if_pos hfirst, get?, if_neg h, if_neg h, ih]
      · rw [if_neg hfirst, if_neg h, ih]

theorem get?_erase (m : Entries α) (key other : String) :
    get? (erase m key) other = if other = key then none else get? m other := by
  have h := get?_filter_keys m (fun k => decide (k ≠ key)) other
  simpa [erase] using h

theorem erase_append (m n : Entries α) (key : String) :
    erase (m ++ n) key = erase m key ++ erase n key :=
  List.filter_append _ _

theorem erase_eq_self (h : key ∉ keys m) : erase m key = m := by
  refine List.filter_eq_self.mpr fun e he => decide_eq_true ?_
  rintro rfl
  exact h (List.mem_map_of_mem he)

theorem Distinct.erase (hm : Distinct m) (key : String) : Distinct (Entries.erase m key) :=
  hm.filter _

theorem Distinct.get?_filter (hm : Distinct m) (keep : String × α → Bool) (key : String) :
    get? (m.filter keep) key = (get? m key).filter fun value => keep (key, value) := by
  cases hget : get? m key with
  | none =>
    rw [get?_eq_none_iff] at hget
    exact get?_eq_none_iff.mpr fun hmem => hget ((List.filter_sublist.map Prod.fst).subset hmem)
  | some value =>
    by_cases hkeep : keep (key, value)
    · rw [Option.filter_some, if_pos hkeep]
      exact (hm.filter keep).get?_eq_some (List.mem_filter.mpr ⟨mem_of_get?_eq_some hget, hkeep⟩)
    · rw [Option.filter_some, if_neg hkeep, get?_eq_none_iff]
      intro hmem
      obtain ⟨e, he, rfl⟩ := List.mem_map.mp hmem
      obtain ⟨hin, hkept⟩ := List.mem_filter.mp he
      rw [hm.get?_eq_some hin, Option.some.injEq] at hget
      exact hkeep (hget ▸ hkept)

def entryAt (m : Entries α) (key : String) : Entries α := ((get? m key).map (key, ·)).toList

theorem perm_erase_append (hm : Distinct m) (key : String) :
    (erase m key ++ entryAt m key).Perm m := by
  induction m with
  | nil => rfl
  | cons e rest ih =>
    obtain ⟨k, old⟩ := e
    have hnodup := List.nodup_cons.mp hm
    by_cases h : k = key
    · subst h
      have hrest : erase ((k, old) :: rest) k = rest := by
        rw [← erase_eq_self hnodup.1]
        simp [erase]
      rw [hrest]
      simp [entryAt, get?]
    · have herase : erase ((k, old) :: rest) key = (k, old) :: erase rest key := by
        simp [erase, h]
      simpa [herase, entryAt, get?, h] using ih hnodup.2

theorem merge_cons (m : Entries α) (e : String × α) (n : Entries α) :
    merge m (e :: n) = merge (insert m e.1 e.2) n := rfl

theorem Distinct.merge (hm : Distinct m) (n : Entries α) : Distinct (Entries.merge m n) := by
  induction n generalizing m with
  | nil => exact hm
  | cons e rest ih => exact ih (hm.insert e.1 e.2)

theorem mem_merge {e : String × α} (h : e ∈ merge m n) : e ∈ m ∨ e ∈ n := by
  induction n generalizing m with
  | nil => exact .inl h
  | cons first rest ih =>
    rcases ih h with h | h
    · rcases mem_insert h with h | rfl
      · exact .inl h
      · exact .inr List.mem_cons_self
    · exact .inr (List.mem_cons_of_mem first h)

theorem keys_prefix_merge (m n : Entries α) : keys m <+: keys (merge m n) := by
  induction n generalizing m with
  | nil => exact List.prefix_rfl
  | cons e rest ih =>
    refine List.IsPrefix.trans ?_ (ih (insert m e.1 e.2))
    rw [keys_insert]
    split
    · exact List.prefix_rfl
    · exact List.prefix_append _ _

theorem mem_keys_merge {e : String × α} (h : e ∈ n) : e.1 ∈ keys (merge m n) := by
  induction n generalizing m with
  | nil => cases h
  | cons first rest ih =>
    rcases List.mem_cons.mp h with rfl | h
    · refine (keys_prefix_merge (insert m e.1 e.2) rest).subset ?_
      rw [keys_insert]
      split
      · assumption
      · exact List.mem_append_right _ List.mem_cons_self
    · exact ih h

theorem keys_merge (m : Entries α) (hn : Distinct n) :
    keys (merge m n) = keys m ++ (keys n).filter (· ∉ keys m) := by
  induction n generalizing m with
  | nil => simp [merge, keys]
  | cons e rest ih =>
    have hnodup := List.nodup_cons.mp hn
    have hkeys : keys (e :: rest) = e.1 :: keys rest := rfl
    rw [merge_cons, ih _ hnodup.2, keys_insert, hkeys]
    by_cases h : e.1 ∈ keys m
    · rw [if_pos h, List.filter_cons_of_neg (by simpa using h)]
    · have hrest : (keys rest).filter (· ∉ keys m ++ [e.1]) =
          (keys rest).filter (· ∉ keys m) := by
        refine List.filter_congr fun k hk => ?_
        have hne : k ≠ e.1 := fun heq => hnodup.1 (heq ▸ hk)
        simp [hne]
      rw [if_neg h, hrest, List.filter_cons_of_pos (by simpa using h), List.append_assoc]
      rfl

theorem keys_merge_of_subset (h : ∀ e ∈ n, e.1 ∈ keys m) : keys (merge m n) = keys m := by
  induction n generalizing m with
  | nil => rfl
  | cons e rest ih =>
    rw [List.forall_mem_cons] at h
    have hkeys : keys (insert m e.1 e.2) = keys m := by rw [keys_insert, if_pos h.1]
    rw [merge_cons, ih (fun e he => hkeys ▸ h.2 e he), hkeys]

theorem merge_eq_self (h : ∀ e ∈ n, get? m e.1 = some e.2) : merge m n = m := by
  induction n with
  | nil => rfl
  | cons e rest ih =>
    rw [List.forall_mem_cons] at h
    rw [merge_cons, insert_eq_self h.1, ih h.2]

theorem insert_eq_append (h : key ∉ keys m) (value : α) : insert m key value = m ++ [(key, value)] := by
  induction m with
  | nil => rfl
  | cons e rest ih =>
    rw [keys, List.map_cons, List.mem_cons, not_or] at h
    rw [insert, if_neg (Ne.symm h.1), ih h.2, List.cons_append]

theorem merge_eq_append (h : Distinct (m ++ n)) : merge m n = m ++ n := by
  induction n generalizing m with
  | nil => simp [merge]
  | cons e rest ih =>
    have hnew : e.1 ∉ keys m := by
      rw [Distinct, keys, List.map_append, List.nodup_append] at h
      exact fun hmem => h.2.2 e.1 hmem e.1 List.mem_cons_self rfl
    rw [merge_cons, insert_eq_append hnew, ih (by simpa using h)]
    simp

theorem ofList_eq_self (hm : Distinct m) : ofList m = m := merge_eq_append hm

theorem get?_merge (m n : Entries α) (key : String) :
    get? (merge m n) key = (get? n.reverse key).or (get? m key) := by
  induction n generalizing m with
  | nil => rfl
  | cons e rest ih =>
    rw [merge_cons, ih, get?_insert, List.reverse_cons, get?_append, Option.or_assoc]
    by_cases h : e.1 = key
    · simp [get?, h]
    · simp [get?, h, Ne.symm h]

theorem get?_reverse_cons (e : String × α) (rest : Entries α) (key : String) :
    get? (e :: rest).reverse key =
      (get? rest.reverse key).or (if e.1 = key then some e.2 else none) := by
  rw [List.reverse_cons, get?_append]
  rfl

theorem Distinct.get?_reverse (hm : Distinct m) (key : String) :
    get? m.reverse key = get? m key := by
  induction m with
  | nil => rfl
  | cons e rest ih =>
    have hnodup := List.nodup_cons.mp hm
    rw [get?_reverse_cons, ih hnodup.2, get?]
    split
    · next h => rw [← h, get?_eq_none_iff.mpr hnodup.1, Option.none_or]
    · rw [Option.or_none]

theorem get?_reverse_insert (h : get? m.reverse key = none ∨ get? m.reverse key = some value)
    (other : String) : get? (insert m key value).reverse other =
      if other = key then some value else get? m.reverse other := by
  induction m with
  | nil => simp [insert, get?, eq_comm]
  | cons e rest ih =>
    rw [get?_reverse_cons] at h
    rw [insert]
    split
    · next hk =>
      rw [get?_reverse_cons, get?_reverse_cons, hk]
      by_cases hother : other = key
      · subst hother
        cases hrest : get? rest.reverse other with
        | none => simp
        | some last => simpa [hrest, hk] using h
      · simp [hother, Ne.symm hother]
    · next hk =>
      rw [get?_reverse_cons, get?_reverse_cons, ih (by simpa [hk] using h)]
      by_cases hother : other = key
      · simp [hother]
      · simp [hother]

theorem get?_reverse_merge (hn : Distinct n)
    (h : ∀ e ∈ n, get? m.reverse e.1 = none ∨ get? m.reverse e.1 = some e.2) (key : String) :
    get? (merge m n).reverse key = (get? n key).or (get? m.reverse key) := by
  induction n generalizing m with
  | nil => rfl
  | cons e rest ih =>
    have hnodup := List.nodup_cons.mp hn
    rw [List.forall_mem_cons] at h
    have hinsert := get?_reverse_insert h.1
    rw [merge_cons, ih hnodup.2, hinsert, get?]
    · by_cases hk : key = e.1
      · subst hk
        rw [get?_eq_none_iff.mpr hnodup.1]
        simp
      · simp [hk, Ne.symm hk]
    · intro later hlater
      have hne : later.1 ≠ e.1 := fun heq => hnodup.1 (heq ▸ List.mem_map.mpr ⟨_, hlater, rfl⟩)
      rw [hinsert, if_neg hne]
      exact h.2 later hlater

theorem merge_merge_idem (m : Entries α) (hn : Distinct n) :
    merge (merge m (merge n m)) (merge n (merge m (merge n m))) = merge m (merge n m) := by
  have hlast : ∀ key, get? (merge n m) key = (get? m.reverse key).or (get? n key) := get?_merge n m
  have hnew : ∀ key, get? (merge m (merge n m)).reverse key = get? (merge n m) key := by
    intro key
    rw [get?_reverse_merge (hn.merge m)]
    · cases hkey : get? (merge n m) key with
      | some value => rfl
      | none =>
        rw [hlast, Option.or_eq_none_iff] at hkey
        exact hkey.1
    · intro e he
      have hvalue := (hn.merge m).get?_eq_some he
      rw [hlast] at hvalue
      cases hm : get? m.reverse e.1 with
      | none => exact .inl rfl
      | some last =>
        rw [hm] at hvalue
        exact .inr hvalue
  apply merge_eq_self
  intro e he
  have hvalue := (hn.merge (merge m (merge n m))).get?_eq_some he
  rw [get?_merge, hnew] at hvalue
  rw [get?_merge, (hn.merge m).get?_reverse]
  cases hkey : get? (merge n m) e.1 with
  | some value =>
    rw [hkey] at hvalue
    exact hvalue
  | none =>
    rw [hkey, Option.none_or] at hvalue
    rw [hlast, Option.or_eq_none_iff, hvalue] at hkey
    cases hkey.2

theorem position?_eq_none_iff : position? m key = none ↔ key ∉ keys m := by
  induction m with
  | nil => simp [position?, keys]
  | cons e rest ih =>
    by_cases h : e.1 = key
    · simp [position?, keys, h]
    · have h' : key ≠ e.1 := fun he => h he.symm
      simpa [position?, keys, h, h'] using ih

theorem exists_position?_iff : (∃ i, position? m key = some i) ↔ key ∈ keys m := by
  rw [← Option.ne_none_iff_exists', ne_eq, position?_eq_none_iff, not_not]

theorem Distinct.exists_position?_lt_iff (hm : Distinct m) {other : String} :
    (∃ i j, position? m key = some i ∧ position? m other = some j ∧ i < j) ↔
      [key, other].Sublist (keys m) := by
  induction m with
  | nil => simp [position?, keys]
  | cons e rest ih =>
    have hnodup := List.nodup_cons.mp hm
    have hkeys : keys (e :: rest) = e.1 :: keys rest := rfl
    rw [position?, position?, hkeys, List.cons_sublist_cons', ← ih hnodup.2,
      List.singleton_sublist, ← exists_position?_iff]
    by_cases hkey : e.1 = key
    · subst hkey
      have hnone : position? rest e.1 = none := position?_eq_none_iff.mpr hnodup.1
      by_cases hother : e.1 = other
      · simp [← hother, hnone]
      · simp [hother, hnone]
    · by_cases hother : e.1 = other
      · have hnone : position? rest other = none :=
          position?_eq_none_iff.mpr (hother ▸ hnodup.1)
        simp [hother, hnone]
      · simp [hkey, hother, Ne.symm hkey]

theorem position?_of_prefix (h : keys m <+: keys n) (key : String) :
    position? m key = (position? n key).filter (· < m.length) := by
  induction m generalizing n with
  | nil => cases position? n key <;> rfl
  | cons e rest ih =>
    cases n with
    | nil => simp [keys] at h
    | cons first others =>
      obtain ⟨hkey, hrest⟩ := List.cons_prefix_cons.mp h
      rw [position?, position?, ih hrest, hkey]
      split
      · rfl
      · cases position? others key <;> simp [Option.filter, apply_ite]

end DesignTokens.Entries
