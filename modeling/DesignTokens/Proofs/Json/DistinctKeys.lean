import DesignTokens.Json.Reader
import DesignTokens.Proofs.Entries
import DesignTokens.Reference.Lookup

namespace DesignTokens

namespace Json

mutual

/-- No object in a value repeats a key. -/
def DistinctKeys : Json → Prop
  | .arr items => DistinctItems items
  | .obj entries => Entries.Distinct entries ∧ DistinctEntries entries
  | _ => True

def DistinctItems : List Json → Prop
  | [] => True
  | item :: rest => item.DistinctKeys ∧ DistinctItems rest

def DistinctEntries : List (String × Json) → Prop
  | [] => True
  | (_, value) :: rest => value.DistinctKeys ∧ DistinctEntries rest

end

variable {items : List Json} {entries : Entries Json} {v w : Json} {key : String}

theorem distinctItems_iff : DistinctItems items ↔ ∀ item ∈ items, item.DistinctKeys := by
  induction items with
  | nil => simp [DistinctItems]
  | cons item rest ih => simp [DistinctItems, ih]

theorem distinctEntries_iff : DistinctEntries entries ↔ ∀ e ∈ entries, e.2.DistinctKeys := by
  induction entries with
  | nil => simp [DistinctEntries]
  | cons e rest ih => simp [DistinctEntries, ih]

theorem distinctKeys_arr : (arr items).DistinctKeys ↔ ∀ item ∈ items, item.DistinctKeys :=
  distinctItems_iff

theorem distinctKeys_obj : (obj entries).DistinctKeys ↔
    Entries.Distinct entries ∧ ∀ e ∈ entries, e.2.DistinctKeys :=
  and_congr_right fun _ => distinctEntries_iff

theorem DistinctKeys.get? (h : (obj entries).DistinctKeys)
    (hget : Entries.get? entries key = some v) : v.DistinctKeys :=
  (distinctKeys_obj.mp h).2 _ (Entries.mem_of_get?_eq_some hget)

theorem DistinctKeys.filter (h : (obj entries).DistinctKeys) (keep : String × Json → Bool) :
    (obj (entries.filter keep)).DistinctKeys := by
  obtain ⟨hkeys, hvalues⟩ := distinctKeys_obj.mp h
  exact distinctKeys_obj.mpr ⟨hkeys.filter keep, fun e he => hvalues e (List.mem_of_mem_filter he)⟩

theorem DistinctKeys.insert (h : (obj entries).DistinctKeys) (hv : v.DistinctKeys) (key : String) :
    (obj (Entries.insert entries key v)).DistinctKeys := by
  obtain ⟨hkeys, hvalues⟩ := distinctKeys_obj.mp h
  refine distinctKeys_obj.mpr ⟨hkeys.insert key v, fun e he => ?_⟩
  rcases Entries.mem_insert he with he | rfl
  · exact hvalues e he
  · exact hv

theorem DistinctKeys.merge (h : (obj entries).DistinctKeys) {more : Entries Json}
    (hmore : ∀ e ∈ more, e.2.DistinctKeys) : (obj (Entries.merge entries more)).DistinctKeys := by
  obtain ⟨hkeys, hvalues⟩ := distinctKeys_obj.mp h
  exact distinctKeys_obj.mpr
    ⟨hkeys.merge more, fun e he => (Entries.mem_merge he).elim (hvalues e) (hmore e)⟩

theorem distinctKeys_ofStrings (texts : List String) : (ofStrings texts).DistinctKeys := by
  rw [ofStrings, distinctKeys_arr]
  intro item hitem
  obtain ⟨text, _, rfl⟩ := List.mem_map.mp hitem
  trivial

mutual

theorem distinctKeys_withDistinctKeys : ∀ v : Json, v.withDistinctKeys.DistinctKeys
  | .null | .bool _ | .num _ | .str _ => trivial
  | .arr items => distinctItems_itemsWithDistinctKeys items
  | .obj entries => by
    rw [withDistinctKeys, Entries.ofList]
    apply DistinctKeys.merge
    · exact ⟨List.nodup_nil, trivial⟩
    · exact distinctEntries_iff.mp (distinctEntries_entriesWithDistinctKeys entries)

theorem distinctItems_itemsWithDistinctKeys : ∀ items : List Json,
    DistinctItems (itemsWithDistinctKeys items)
  | [] => trivial
  | item :: rest =>
    ⟨distinctKeys_withDistinctKeys item, distinctItems_itemsWithDistinctKeys rest⟩

theorem distinctEntries_entriesWithDistinctKeys : ∀ entries : List (String × Json),
    DistinctEntries (entriesWithDistinctKeys entries)
  | [] => trivial
  | (_, value) :: rest =>
    ⟨distinctKeys_withDistinctKeys value, distinctEntries_entriesWithDistinctKeys rest⟩

end

mutual

theorem withDistinctKeys_eq_self : ∀ v : Json, v.DistinctKeys → v.withDistinctKeys = v
  | .null, _ | .bool _, _ | .num _, _ | .str _, _ => rfl
  | .arr items, h => congrArg arr (itemsWithDistinctKeys_eq_self items h)
  | .obj entries, h => by
    rw [withDistinctKeys, entriesWithDistinctKeys_eq_self entries h.2, Entries.ofList_eq_self h.1]

theorem itemsWithDistinctKeys_eq_self : ∀ items : List Json, DistinctItems items →
    itemsWithDistinctKeys items = items
  | [], _ => rfl
  | item :: rest, h => by
    rw [itemsWithDistinctKeys, withDistinctKeys_eq_self item h.1,
      itemsWithDistinctKeys_eq_self rest h.2]

theorem entriesWithDistinctKeys_eq_self : ∀ entries : List (String × Json),
    DistinctEntries entries → entriesWithDistinctKeys entries = entries
  | [], _ => rfl
  | (key, value) :: rest, h => by
    rw [entriesWithDistinctKeys, withDistinctKeys_eq_self value h.1,
      entriesWithDistinctKeys_eq_self rest h.2]

end

theorem entriesWithDistinctKeys_eq_map (entries : Entries Json) :
    entriesWithDistinctKeys entries = entries.map fun e => (e.1, e.2.withDistinctKeys) := by
  induction entries with
  | nil => rfl
  | cons e rest ih => rw [entriesWithDistinctKeys, ih, List.map_cons]

theorem distinctKeys_of_parse {text : String} (h : parse text = .ok v) : v.DistinctKeys := by
  rw [parse] at h
  cases hentries : parseEntries text with
  | error e =>
    rw [hentries] at h
    cases h
  | ok written =>
    rw [hentries] at h
    cases h
    exact distinctKeys_withDistinctKeys written

theorem DistinctKeys.child? (h : v.DistinctKeys) (hchild : v.child? key = some w) :
    w.DistinctKeys := by
  cases v with
  | arr items =>
    rw [Json.child?, Option.bind_eq_some_iff] at hchild
    obtain ⟨i, _, hitem⟩ := hchild
    exact distinctKeys_arr.mp h w (List.mem_of_getElem? hitem)
  | obj entries => exact h.get? hchild
  | _ => cases hchild

theorem DistinctKeys.descend? {path : List String} (h : v.DistinctKeys)
    (hdescend : v.descend? path = some w) : w.DistinctKeys := by
  induction path generalizing v with
  | nil =>
    cases hdescend
    exact h
  | cons key rest ih =>
    rw [Json.descend?, List.foldlM_cons, Option.bind_eq_bind, Option.bind_eq_some_iff] at hdescend
    obtain ⟨next, hchild, hrest⟩ := hdescend
    exact ih (h.child? hchild) hrest

theorem size_pos (v : Json) : 0 < v.size := by
  cases v <;> simp [size]

theorem size_le_sizeOfEntries (h : (key, v) ∈ entries) : v.size ≤ sizeOfEntries entries := by
  induction entries with
  | nil => cases h
  | cons e rest ih =>
    rw [sizeOfEntries]
    rcases List.mem_cons.mp h with rfl | h
    · exact Nat.le_add_right _ _
    · exact Nat.le_trans (ih h) (Nat.le_add_left _ _)

theorem size_le_sizeOfItems (h : v ∈ items) : v.size ≤ sizeOfItems items := by
  induction items with
  | nil => cases h
  | cons item rest ih =>
    rw [sizeOfItems]
    rcases List.mem_cons.mp h with rfl | h
    · exact Nat.le_add_right _ _
    · exact Nat.le_trans (ih h) (Nat.le_add_left _ _)

end Json

end DesignTokens
