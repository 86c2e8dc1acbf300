import DesignTokens.Proofs.Sources.Merge
import DesignTokens.Sources.Load

namespace DesignTokens

namespace Declarations

variable {path : List String} {source target : Entries Json}

/-- Whatever a source declares is declared in the target: its definitions as they are, its groups as
groups. -/
def Declares (target source : Entries Json) : Prop :=
  ∀ group key v, entryAt? source group key = some v →
    ∃ w, entryAt? target group key = some w ∧ w.isGrouping = v.isGrouping ∧
      (v.isGrouping = false → w = v)

theorem mergeEntries_of_forall (h : ∀ e ∈ source, ∃ w, Entries.get? target e.1 = some w ∧
    mergeValue (path ++ [e.1]) e.2 w = (w, [])) : mergeEntries path source target = (target, []) := by
  induction source with
  | nil => rfl
  | cons e rest ih =>
    rw [List.forall_mem_cons] at h
    obtain ⟨⟨w, hw, hmerge⟩, hrest⟩ := h
    rw [mergeEntries_cons, hw, mergeInto, Option.elim_some, hmerge]
    simp only [Entries.insert_eq_self hw, ih hrest, List.nil_append]

theorem Declares.of_get? {key : String} {s t : Entries Json} {v w : Json}
    (h : Declares target source) (hv : Entries.get? source key = some v)
    (hs : v.grouped? = some s) (hw : Entries.get? target key = some w)
    (ht : w.grouped? = some t) : Declares t s := by
  intro group last u hu
  rw [← entryAt?_cons hv hs] at hu
  rw [← entryAt?_cons hw ht]
  exact h (key :: group) last u hu

theorem Declares.mergeEntries_eq_self (h : Declares target source)
    (hs : (Json.obj source).DistinctKeys) : mergeEntries path source target = (target, []) := by
  -- on the size of the source, since the groups in it are merged as it is
  induction hsize : Json.sizeOfEntries source using Nat.strongRecOn
    generalizing path source target with
  | _ size ih =>
  refine mergeEntries_of_forall fun e he => ?_
  have hv := hs.1.get?_eq_some he
  obtain ⟨w, hw, hgroup, hsame⟩ := h [] e.1 e.2 hv
  refine ⟨w, hw, ?_⟩
  cases hvs : e.2.grouped? with
  | none =>
    rw [hsame (Json.grouped?_eq_none_iff.mp hvs), mergeValue_of_not_grouped (.inl hvs), replace,
      if_pos (Json.equal_refl e.2 (hs.get? hv))]
  | some s =>
    obtain ⟨hobj, htrue⟩ := Json.grouped?_eq_some_iff.mp hvs
    obtain ⟨t, hws⟩ : ∃ t, w.grouped? = some t := by
      rw [← Option.ne_none_iff_exists', ne_eq, Json.grouped?_eq_none_iff, hgroup, htrue]
      simp
    obtain ⟨rfl, _⟩ := Json.grouped?_eq_some_iff.mp hws
    rw [hobj] at hv
    rw [mergeValue_of_grouped hvs hws, ih _ (hsize ▸ sizeOfEntries_lt hv)
      (h.of_get? (hs.1.get?_eq_some he) hvs hw hws) (hs.get? hv) rfl]

theorem declares_merge (hs : (Json.obj source).DistinctKeys) (target : Entries Json) :
    Declares (merge target source).1 source :=
  fun _ _ _ hv => exists_entryAt?_of_source [] hs hv

theorem merge_eq_self_iff (hs : (Json.obj source).DistinctKeys) :
    merge target source = (target, []) ↔ Declares target source := by
  refine ⟨fun h => ?_, fun h => h.mergeEntries_eq_self hs⟩
  have hdeclares := declares_merge hs target
  rwa [h] at hdeclares

/-- A source that is merged once more, under whatever name, leaves the declarations as they are and
files no collision; all it declares stands in them. -/
theorem add_again_is_silent (hs : (Json.obj source).DistinctKeys) (d : Declarations)
    (file again : FilePath) : (d.add file source).add again source = d.add file source ∧
      Declares (d.add file source).entries source := by
  have hdeclares : Declares (d.add file source).entries source := declares_merge hs d.entries
  refine ⟨?_, hdeclares⟩
  rw [add, (merge_eq_self_iff hs).mpr hdeclares]
  simp

def spacing : Entries Json :=
  [("space", .obj [("small", .obj [("value", .num (.int 4))]), ("unit", .str "px"),
    ("@apply", .obj [("value", .str "\x7bbase\x7d")])])]

def crowded : Declarations :=
  ⟨[("space", .obj [("small", .obj [("tiny", .str "1px")]),
    ("unit", .obj [("value", .str "em")])])], []⟩

theorem spacing_again_is_silent : (Json.obj spacing).DistinctKeys ∧
    (crowded.add ⟨"a.json"⟩ spacing).collisions =
      [⟨⟨"a.json"⟩, ["space", "small"]⟩, ⟨⟨"a.json"⟩, ["space", "unit"]⟩] ∧
    (crowded.add ⟨"a.json"⟩ spacing).add ⟨"b.json"⟩ spacing = crowded.add ⟨"a.json"⟩ spacing ∧
    Declares (crowded.add ⟨"a.json"⟩ spacing).entries spacing := by
  have hs : (Json.obj spacing).DistinctKeys := by
    simp [spacing, Json.DistinctKeys, Json.DistinctEntries, Entries.Distinct, Entries.keys]
  exact ⟨hs, by decide, add_again_is_silent hs crowded ⟨"a.json"⟩ ⟨"b.json"⟩⟩

end Declarations

end DesignTokens
