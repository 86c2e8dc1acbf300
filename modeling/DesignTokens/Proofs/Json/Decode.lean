import DesignTokens.Json.Decode
import DesignTokens.Proofs.Json.DistinctKeys
import DesignTokens.Proofs.Results

namespace DesignTokens

namespace Decode

variable {α : Type} {entries : Entries Json} {key : String} {value : Json}

theorem filter_key_eq_nil (h : key ∉ Entries.keys entries) :
    entries.filter (·.1 == key) = [] := by
  rw [List.filter_eq_nil_iff]
  intro e he hkey
  exact h (List.mem_map.mpr ⟨e, he, beq_iff_eq.mp hkey⟩)

theorem field_eq_get? (h : Entries.Distinct entries) (key : String) :
    field entries key = .ok (Entries.get? entries key) := by
  cases hget : Entries.get? entries key with
  | none => rw [field, filter_key_eq_nil (Entries.get?_eq_none_iff.mp hget)]
  | some value =>
    obtain ⟨before, after, hbefore, rfl, _⟩ := Entries.exists_append_of_get? hget
    have hafter : key ∉ Entries.keys after := by
      rw [Entries.Distinct, Entries.keys, List.map_append, List.nodup_append] at h
      exact (List.nodup_cons.mp h.2.1).1
    rw [field, List.filter_append, filter_key_eq_nil hbefore,
      List.filter_cons_of_pos (by exact beq_self_eq_true key), filter_key_eq_nil hafter]
    rfl

theorem mem_of_field (h : field entries key = .ok (some value)) : (key, value) ∈ entries := by
  rw [field] at h
  split at h
  · cases h
  · next k v hfilter =>
    cases h
    obtain ⟨hin, hkey⟩ := List.mem_filter.mp (hfilter ▸ List.mem_singleton_self (k, value))
    rwa [← beq_iff_eq.mp hkey]
  · cases h

theorem fields_obj (h : Entries.Distinct entries) (keys : List String) :
    fields keys (.obj entries) = .ok (keys.map (Entries.get? entries)) := by
  refine Except.mapM_eq_ok_of_forall₂ ?_
  rw [List.forall₂_map_right_iff, List.forall₂_same]
  exact fun key _ => field_eq_get? h key

theorem distinctKeys_of_fields {v : Json} {keys : List String} {found : List (Option Json)}
    (hv : v.DistinctKeys) (h : fields keys v = .ok found) (hvalue : some value ∈ found) :
    value.DistinctKeys := by
  cases v with
  | obj entries =>
    obtain ⟨key, _, hkey⟩ := Except.exists_of_mem_right (Except.forall₂_of_mapM h) hvalue
    exact (Json.distinctKeys_obj.mp hv).2 _ (mem_of_field hkey)
  | arr items =>
    rw [fields] at h
    split at h
    · cases h
    · cases h
      obtain hmem | hmem := List.mem_append.mp hvalue
      · obtain ⟨item, hitem, hsome⟩ := List.mem_map.mp hmem
        cases hsome
        exact Json.distinctKeys_arr.mp hv value hitem
      · cases List.eq_of_mem_replicate hmem
  | _ => cases h

theorem list_map {decode : Json → Decoded α} {encode : α → Json}
    (h : ∀ x, decode (encode x) = .ok x) (xs : List α) :
    list decode (.arr (xs.map encode)) = .ok xs := by
  refine Except.mapM_eq_ok_of_forall₂ ?_
  rw [List.forall₂_map_left_iff, List.forall₂_same]
  exact fun x _ => h x

theorem list_text (texts : List String) : list text (.ofStrings texts) = .ok texts :=
  list_map (fun s => (rfl : text (.str s) = .ok s)) texts

theorem nullable_text (s : Option String) :
    nullable text ((s.map Json.str).getD .null) = .ok s := by
  cases s <;> rfl

end Decode

end DesignTokens
