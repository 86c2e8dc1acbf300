import DesignTokens.Proofs.Json.Equality
import DesignTokens.Sources.Merge
import Mathlib.Data.List.Perm.Subperm

namespace DesignTokens

namespace Json

variable {v w : Json} {entries : Entries Json}

def grouped? (v : Json) : Option (Entries Json) := if v.isGrouping then v.asObject? else none

theorem grouped?_eq_some_iff :
    v.grouped? = some entries ↔ v = obj entries ∧ v.isGrouping = true := by
  rw [grouped?]
  split
  · next h => cases v <;> simp_all [asObject?]
  · next h => simp [h]

theorem grouped?_eq_none_iff : v.grouped? = none ↔ v.isGrouping = false := by
  rw [grouped?]
  split
  · next h => cases v <;> simp_all [asObject?, isGrouping]
  · next h => simpa using h

theorem isGrouping_obj_iff : (obj entries).isGrouping = true ↔
    Entries.get? entries valueKey = none := by
  simp [isGrouping, Entries.contains]

theorem isGrouping_eq_of_equal (h : v.equal w = true) (hv : v.DistinctKeys) :
    w.isGrouping = v.isGrouping := by
  cases v with
  | obj entries =>
    obtain ⟨others, rfl, hlength, hentries⟩ := eq_obj_of_equal h
    have hsub : Entries.keys entries ⊆ Entries.keys others := by
      intro key hkey
      obtain ⟨e, he, rfl⟩ := List.mem_map.mp hkey
      obtain ⟨w, hw, _⟩ := equalEntries_iff.mp hentries e he
      exact Entries.exists_get?_iff.mp ⟨w, hw⟩
    have hperm : (Entries.keys entries).Perm (Entries.keys others) :=
      (List.subperm_of_subset hv.1 hsub).perm_of_length_le (by simp [Entries.keys, hlength])
    rw [Bool.eq_iff_iff, isGrouping_obj_iff, isGrouping_obj_iff, Entries.get?_eq_none_iff,
      Entries.get?_eq_none_iff, hperm.mem_iff]
  | arr items =>
    obtain ⟨others, rfl, _⟩ := eq_arr_of_equal h
    rfl
  | num n =>
    obtain ⟨m, rfl, _⟩ := eq_num_of_equal h
    rfl
  | _ => rw [eq_of_equal h (by simp) (by simp) (by simp)]

/-- A value is kept as another: a group as a group, anything else as an equal value. -/
def KeptAs (v w : Json) : Prop :=
  w.isGrouping = v.isGrouping ∧ (v.isGrouping = false → v.equal w = true)

theorem KeptAs.of_equal (h : v.equal w = true) (hv : v.DistinctKeys) : v.KeptAs w :=
  ⟨isGrouping_eq_of_equal h hv, fun _ => h⟩

theorem KeptAs.refl (hv : v.DistinctKeys) : v.KeptAs v := .of_equal (equal_refl v hv) hv

theorem KeptAs.trans {u : Json} (huv : u.KeptAs v) (hvw : v.KeptAs w) : u.KeptAs w :=
  ⟨hvw.1.trans huv.1, fun h => equal_trans (huv.2 h) (hvw.2 (huv.1.trans h))⟩

end Json

namespace Declarations

variable {path group : List String} {key : String} {incoming existing v : Json}
  {source target s t level : Entries Json} {c : List String}

/-- The entries at the end of a path of groups. -/
def levelAt? (m : Entries Json) : List String → Option (Entries Json)
  | [] => some m
  | key :: rest => ((Entries.get? m key).bind Json.grouped?).bind (levelAt? · rest)

/-- The entry of a key in the group that a path leads to. -/
def entryAt? (m : Entries Json) (group : List String) (key : String) : Option Json :=
  (levelAt? m group).bind (Entries.get? · key)

theorem levelAt?_cons_eq_some_iff {rest : List String} :
    levelAt? source (key :: rest) = some level ↔ ∃ v, Entries.get? source key = some v ∧
      ∃ s, v.grouped? = some s ∧ levelAt? s rest = some level := by
  simp only [levelAt?, Option.bind_eq_some_iff]
  constructor
  · rintro ⟨s, ⟨v, hv, hs⟩, hlevel⟩
    exact ⟨v, hv, s, hs, hlevel⟩
  · rintro ⟨v, hv, s, hs, hlevel⟩
    exact ⟨s, ⟨v, hv, hs⟩, hlevel⟩

theorem distinctKeys_levelAt? (h : (Json.obj source).DistinctKeys)
    (hlevel : levelAt? source group = some level) : (Json.obj level).DistinctKeys := by
  induction group generalizing source with
  | nil => cases hlevel; exact h
  | cons key rest ih =>
    obtain ⟨v, hv, s, hs, hrest⟩ := levelAt?_cons_eq_some_iff.mp hlevel
    obtain ⟨rfl, _⟩ := Json.grouped?_eq_some_iff.mp hs
    exact ih (h.get? hv) hrest

def mergeInto (path : List String) (incoming : Json) (existing? : Option Json) : Merged Json :=
  existing?.elim (incoming, []) (mergeValue path incoming)

theorem mergeEntries_cons (path : List String) (key : String) (incoming : Json)
    (rest target : Entries Json) : mergeEntries path ((key, incoming) :: rest) target =
      let here := mergeInto (path ++ [key]) incoming (Entries.get? target key)
      let later := mergeEntries path rest (Entries.insert target key here.1)
      (later.1, here.2 ++ later.2) := by
  rw [mergeEntries]
  cases Entries.get? target key <;> rfl

theorem mergeValue_of_grouped (hs : incoming.grouped? = some s) (ht : existing.grouped? = some t) :
    mergeValue path incoming existing =
      (.obj (mergeEntries path s t).1, (mergeEntries path s t).2) := by
  obtain ⟨rfl, hincoming⟩ := Json.grouped?_eq_some_iff.mp hs
  obtain ⟨rfl, hexisting⟩ := Json.grouped?_eq_some_iff.mp ht
  rw [mergeValue, hincoming, hexisting]
  rfl

theorem mergeValue_of_not_grouped (h : incoming.grouped? = none ∨ existing.grouped? = none) :
    mergeValue path incoming existing = replace path incoming existing := by
  rw [mergeValue.eq_def]
  split
  · rw [Json.grouped?_eq_none_iff, Json.grouped?_eq_none_iff] at h
    rw [if_neg]
    rcases h with h | h <;> simp [h]
  · rfl

theorem sizeOfEntries_lt (h : Entries.get? source key = some (.obj s)) :
    Json.sizeOfEntries s < Json.sizeOfEntries source := by
  have hle := Json.size_le_sizeOfEntries (Entries.mem_of_get?_eq_some h)
  rwa [Json.size] at hle

theorem mergeValue_cases (path : List String) (incoming existing : Json) :
    (∃ s t, incoming.grouped? = some s ∧ existing.grouped? = some t ∧
      mergeValue path incoming existing =
        (.obj (mergeEntries path s t).1, (mergeEntries path s t).2)) ∨
    ((incoming.grouped? = none ∨ existing.grouped? = none) ∧
      mergeValue path incoming existing = replace path incoming existing) := by
  cases hs : incoming.grouped? with
  | none => exact .inr ⟨.inl rfl, mergeValue_of_not_grouped (.inl hs)⟩
  | some s =>
    cases ht : existing.grouped? with
    | none => exact .inr ⟨.inr rfl, mergeValue_of_not_grouped (.inr ht)⟩
    | some t => exact .inl ⟨s, t, rfl, rfl, mergeValue_of_grouped hs ht⟩

theorem get?_mergeEntries (hs : Entries.Distinct source) (path : List String)
    (target : Entries Json) (key : String) :
    Entries.get? (mergeEntries path source target).1 key =
      (Entries.get? source key).elim (Entries.get? target key) fun incoming =>
        some (mergeInto (path ++ [key]) incoming (Entries.get? target key)).1 := by
  induction source generalizing target with
  | nil => rfl
  | cons e rest ih =>
    have hnodup := List.nodup_cons.mp hs
    rw [mergeEntries_cons, ih hnodup.2, Entries.get?_insert, Entries.get?]
    by_cases h : key = e.1
    · subst h
      rw [Entries.get?_eq_none_iff.mpr hnodup.1, if_pos rfl, if_pos rfl]
      rfl
    · rw [if_neg h, if_neg (Ne.symm h)]

theorem mem_mergeEntries_iff (hs : Entries.Distinct source) (path : List String)
    (target : Entries Json) : c ∈ (mergeEntries path source target).2 ↔
      ∃ key incoming, Entries.get? source key = some incoming ∧
        c ∈ (mergeInto (path ++ [key]) incoming (Entries.get? target key)).2 := by
  induction source generalizing target with
  | nil => simp [mergeEntries, Entries.get?]
  | cons e rest ih =>
    have hnodup := List.nodup_cons.mp hs
    have hother : ∀ {other value}, Entries.get? rest other = some value → e.1 ≠ other := by
      rintro other value hvalue rfl
      rw [Entries.get?_eq_none_iff.mpr hnodup.1] at hvalue
      cases hvalue
    rw [mergeEntries_cons, List.mem_append, ih hnodup.2]
    constructor
    · rintro (h | ⟨key, incoming, hget, h⟩)
      · exact ⟨e.1, e.2, by simp [Entries.get?], h⟩
      · rw [Entries.get?_insert_of_ne _ _ (hother hget).symm] at h
        exact ⟨key, incoming, by rw [Entries.get?, if_neg (hother hget), hget], h⟩
    · rintro ⟨key, incoming, hget, h⟩
      rw [Entries.get?] at hget
      split at hget
      · next hkey =>
        cases hget
        exact .inl (hkey ▸ h)
      · refine .inr ⟨key, incoming, hget, ?_⟩
        rwa [Entries.get?_insert_of_ne _ _ (hother hget).symm]

theorem keys_mergeEntries (hs : Entries.Distinct source) (path : List String)
    (target : Entries Json) : Entries.keys (mergeEntries path source target).1 =
      Entries.keys target ++ (Entries.keys source).filter (· ∉ Entries.keys target) := by
  induction source generalizing target with
  | nil => simp [mergeEntries, Entries.keys]
  | cons e rest ih =>
    have hnodup := List.nodup_cons.mp hs
    rw [mergeEntries_cons, ih hnodup.2, Entries.keys_insert]
    have hcons : Entries.keys (e :: rest) = e.1 :: Entries.keys rest := rfl
    rw [hcons, List.filter_cons]
    by_cases h : e.1 ∈ Entries.keys target
    · simp [h]
    · have hrest : (Entries.keys rest).filter (· ∉ Entries.keys target ++ [e.1]) =
          (Entries.keys rest).filter (· ∉ Entries.keys target) := by
        refine List.filter_congr fun key hkey => ?_
        have hne : key ≠ e.1 := fun heq => hnodup.1 (heq ▸ hkey)
        simp [hne]
      rw [if_neg h, hrest]
      simp [h]

theorem grouped?_merged (path : List String) (hs : Entries.Distinct s)
    (hincoming : incoming.grouped? = some s) (hexisting : existing.grouped? = some t) :
    (mergeValue path incoming existing).1.grouped? = some (mergeEntries path s t).1 := by
  rw [mergeValue_of_grouped hincoming hexisting, Json.grouped?_eq_some_iff]
  obtain ⟨rfl, hincoming⟩ := Json.grouped?_eq_some_iff.mp hincoming
  obtain ⟨rfl, hexisting⟩ := Json.grouped?_eq_some_iff.mp hexisting
  rw [Json.isGrouping_obj_iff] at *
  rw [get?_mergeEntries hs, hincoming, hexisting]
  exact ⟨rfl, rfl⟩

theorem isGrouping_mergeInto (h : incoming.DistinctKeys) (existing? : Option Json) :
    (mergeInto path incoming existing?).1.isGrouping = incoming.isGrouping := by
  cases existing? with
  | none => rfl
  | some existing =>
    rw [mergeInto, Option.elim_some]
    obtain ⟨s, t, hs, ht, _⟩ | ⟨_, hmerge⟩ := mergeValue_cases path incoming existing
    · obtain ⟨rfl, hincoming⟩ := Json.grouped?_eq_some_iff.mp hs
      rw [hincoming, (Json.grouped?_eq_some_iff.mp (grouped?_merged path h.1 hs ht)).2]
    · rw [hmerge, replace]

theorem keptAs_mergeValue (path : List String) (hincoming : incoming.DistinctKeys)
    (hexisting : existing.DistinctKeys) :
    existing.KeptAs (mergeValue path incoming existing).1 ∨
      path ∈ (mergeValue path incoming existing).2 := by
  obtain ⟨s, t, hs, ht, _⟩ | ⟨_, hmerge⟩ := mergeValue_cases path incoming existing
  · obtain ⟨rfl, _⟩ := Json.grouped?_eq_some_iff.mp hs
    have hgroup := (Json.grouped?_eq_some_iff.mp ht).2
    refine .inl ⟨?_, fun hfalse => absurd hgroup (by simp [hfalse])⟩
    rw [(Json.grouped?_eq_some_iff.mp (grouped?_merged path hincoming.1 hs ht)).2, hgroup]
  · rw [hmerge]
    cases hequal : existing.equal incoming with
    | true => exact .inl (.of_equal hequal hexisting)
    | false => exact .inr (by simp [replace, hequal])

theorem distinctKeys_mergeEntries (hs : (Json.obj source).DistinctKeys)
    (ht : (Json.obj target).DistinctKeys) :
    (Json.obj (mergeEntries path source target).1).DistinctKeys := by
  induction hsize : Json.sizeOfEntries source using Nat.strongRecOn
    generalizing path source target with
  | _ size ih =>
  have hkeys : Entries.Distinct (mergeEntries path source target).1 := by
    rw [Entries.Distinct, keys_mergeEntries hs.1, List.nodup_append]
    refine ⟨ht.1, List.Nodup.filter _ hs.1, fun key hkey other hother heq => ?_⟩
    simp [← heq, hkey] at hother
  refine Json.distinctKeys_obj.mpr ⟨hkeys, fun e he => ?_⟩
  have hget := hkeys.get?_eq_some he
  rw [get?_mergeEntries hs.1] at hget
  cases hincoming : Entries.get? source e.1 with
  | none =>
    rw [hincoming] at hget
    exact ht.get? hget
  | some incoming =>
    rw [hincoming, Option.elim_some, Option.some.injEq] at hget
    have hd := hs.get? hincoming
    rw [← hget]
    cases hexisting : Entries.get? target e.1 with
    | none => exact hd
    | some existing =>
      rw [mergeInto, Option.elim_some]
      obtain ⟨s, t, hvs, hws, hmerge⟩ | ⟨_, hmerge⟩ :=
        mergeValue_cases (path ++ [e.1]) incoming existing
      · obtain ⟨rfl, _⟩ := Json.grouped?_eq_some_iff.mp hvs
        obtain ⟨rfl, _⟩ := Json.grouped?_eq_some_iff.mp hws
        rw [hmerge]
        exact ih _ (hsize ▸ sizeOfEntries_lt hincoming) hd (ht.get? hexisting) rfl
      · rw [hmerge]
        exact hd

theorem get?_mergeEntries_of_some (path : List String) (hs : Entries.Distinct source)
    (hincoming : Entries.get? source key = some incoming)
    (hexisting : Entries.get? target key = some existing) :
    Entries.get? (mergeEntries path source target).1 key =
      some (mergeValue (path ++ [key]) incoming existing).1 := by
  rw [get?_mergeEntries hs, hincoming, hexisting]
  rfl

theorem get?_mergeEntries_of_source (path : List String) (hs : Entries.Distinct source)
    (hincoming : Entries.get? source key = some incoming)
    (hexisting : Entries.get? target key = none) :
    Entries.get? (mergeEntries path source target).1 key = some incoming := by
  rw [get?_mergeEntries hs, hincoming, hexisting]
  rfl

theorem get?_mergeEntries_of_target (path : List String) (hs : Entries.Distinct source)
    (hincoming : Entries.get? source key = none) :
    Entries.get? (mergeEntries path source target).1 key = Entries.get? target key := by
  rw [get?_mergeEntries hs, hincoming]
  rfl

theorem mem_mergeEntries_of_mem (hs : Entries.Distinct source)
    (hincoming : Entries.get? source key = some incoming)
    (hexisting : Entries.get? target key = some existing)
    (h : c ∈ (mergeValue (path ++ [key]) incoming existing).2) :
    c ∈ (mergeEntries path source target).2 := by
  refine (mem_mergeEntries_iff hs path target).mpr ⟨key, incoming, hincoming, ?_⟩
  rw [hexisting]
  exact h

theorem levelAt?_mergeEntries (path : List String) (hs : (Json.obj source).DistinctKeys)
    (hsource : levelAt? source group = some s) (htarget : levelAt? target group = some t) :
    levelAt? (mergeEntries path source target).1 group =
        some (mergeEntries (path ++ group) s t).1 ∧
      ∀ c ∈ (mergeEntries (path ++ group) s t).2, c ∈ (mergeEntries path source target).2 := by
  induction group generalizing path source target with
  | nil =>
    cases hsource
    cases htarget
    rw [List.append_nil]
    exact ⟨rfl, fun _ hc => hc⟩
  | cons key rest ih =>
    obtain ⟨v, hv, vs, hvs, hsource⟩ := levelAt?_cons_eq_some_iff.mp hsource
    obtain ⟨w, hw, ws, hws, htarget⟩ := levelAt?_cons_eq_some_iff.mp htarget
    have hv' : (Json.obj vs).DistinctKeys := by
      obtain ⟨rfl, _⟩ := Json.grouped?_eq_some_iff.mp hvs
      exact hs.get? hv
    obtain ⟨hlevel, hlater⟩ := ih (path ++ [key]) hv' hsource htarget
    rw [List.append_assoc, List.singleton_append] at hlevel hlater
    refine ⟨levelAt?_cons_eq_some_iff.mpr ⟨_, get?_mergeEntries_of_some path hs.1 hv hw, _,
      grouped?_merged _ hv'.1 hvs hws, hlevel⟩, fun c hc => ?_⟩
    apply mem_mergeEntries_of_mem hs.1 hv hw
    rw [mergeValue_of_grouped hvs hws]
    exact hlater c hc

theorem levelAt?_mergeEntries_of_source (path : List String) (hs : (Json.obj source).DistinctKeys)
    (hsource : levelAt? source group = some s) (htarget : levelAt? target group = none) :
    levelAt? (mergeEntries path source target).1 group = some s := by
  induction group generalizing path source target with
  | nil => cases htarget
  | cons key rest ih =>
    obtain ⟨v, hv, vs, hvs, hsource⟩ := levelAt?_cons_eq_some_iff.mp hsource
    cases hw : Entries.get? target key with
    | none =>
      exact levelAt?_cons_eq_some_iff.mpr
        ⟨v, get?_mergeEntries_of_source path hs.1 hv hw, vs, hvs, hsource⟩
    | some w =>
      refine levelAt?_cons_eq_some_iff.mpr ⟨_, get?_mergeEntries_of_some path hs.1 hv hw, ?_⟩
      cases hws : w.grouped? with
      | none =>
        rw [mergeValue_of_not_grouped (.inr hws)]
        exact ⟨vs, hvs, hsource⟩
      | some ws =>
        obtain ⟨rfl, _⟩ := Json.grouped?_eq_some_iff.mp hvs
        have hnone : levelAt? ws rest = none := by
          rw [levelAt?, hw, Option.bind_some, hws] at htarget
          exact htarget
        exact ⟨_, grouped?_merged _ (hs.get? hv).1 hvs hws, ih _ (hs.get? hv) hsource hnone⟩

theorem levelAt?_mergeEntries_of_target (path : List String) (hs : (Json.obj source).DistinctKeys)
    (ht : (Json.obj target).DistinctKeys) (hsource : levelAt? source group = none)
    (htarget : levelAt? target group = some t) :
    levelAt? (mergeEntries path source target).1 group = some t ∨
      levelAt? (mergeEntries path source target).1 group = none ∧
        ∃ c ∈ (mergeEntries path source target).2, c <+: path ++ group := by
  induction group generalizing path source target with
  | nil => cases hsource
  | cons key rest ih =>
    obtain ⟨w, hw, ws, hws, htarget⟩ := levelAt?_cons_eq_some_iff.mp htarget
    cases hv : Entries.get? source key with
    | none =>
      rw [levelAt?, get?_mergeEntries_of_target path hs.1 hv, hw]
      simp [hws, htarget]
    | some v =>
      have hget := get?_mergeEntries_of_some path hs.1 hv hw
      cases hvs : v.grouped? with
      | none =>
        have hmerge : mergeValue (path ++ [key]) v w = replace (path ++ [key]) v w :=
          mergeValue_of_not_grouped (.inl hvs)
        have hne : w.equal v = false := by
          rw [Bool.eq_false_iff]
          intro hequal
          have hsame := Json.isGrouping_eq_of_equal hequal (ht.get? hw)
          rw [Json.grouped?_eq_none_iff.mp hvs, (Json.grouped?_eq_some_iff.mp hws).2] at hsame
          cases hsame
        refine .inr ⟨by simp [levelAt?, hget, hmerge, replace, hvs], path ++ [key], ?_, ?_⟩
        · apply mem_mergeEntries_of_mem hs.1 hv hw
          simp [hmerge, replace, hne]
        · exact List.prefix_append_right_inj path |>.mpr (List.prefix_append [key] rest)
      | some vs =>
        obtain ⟨rfl, _⟩ := Json.grouped?_eq_some_iff.mp hvs
        obtain ⟨rfl, _⟩ := Json.grouped?_eq_some_iff.mp hws
        have hnone : levelAt? vs rest = none := by
          rw [levelAt?, hv, Option.bind_some, hvs] at hsource
          exact hsource
        have hmerged := grouped?_merged (path ++ [key]) (hs.get? hv).1 hvs hws
        rw [levelAt?, hget, Option.bind_some, hmerged, Option.bind_some]
        refine (ih (path ++ [key]) (hs.get? hv) (ht.get? hw) hnone htarget).imp_right ?_
        rintro ⟨hlevel, c, hc, hprefix⟩
        refine ⟨hlevel, c, ?_, by simpa using hprefix⟩
        apply mem_mergeEntries_of_mem hs.1 hv hw
        rwa [mergeValue_of_grouped hvs hws]

theorem levelAt?_mergeEntries_of_none (path : List String) (hs : (Json.obj source).DistinctKeys)
    (hsource : levelAt? source group = none) (htarget : levelAt? target group = none) :
    levelAt? (mergeEntries path source target).1 group = none := by
  induction group generalizing path source target with
  | nil => cases hsource
  | cons key rest ih =>
    cases hv : Entries.get? source key with
    | none => rw [levelAt?, get?_mergeEntries_of_target path hs.1 hv, ← levelAt?, htarget]
    | some v =>
      rw [levelAt?, hv, Option.bind_some] at hsource
      cases hw : Entries.get? target key with
      | none =>
        rw [levelAt?, get?_mergeEntries_of_source path hs.1 hv hw, Option.bind_some, hsource]
      | some w =>
        rw [levelAt?, hw, Option.bind_some] at htarget
        rw [levelAt?, get?_mergeEntries_of_some path hs.1 hv hw, Option.bind_some]
        cases hvs : v.grouped? with
        | none => rw [mergeValue_of_not_grouped (.inl hvs), replace, hvs, Option.bind_none]
        | some vs =>
          cases hws : w.grouped? with
          | none => rw [mergeValue_of_not_grouped (.inr hws), replace, hsource]
          | some ws =>
            obtain ⟨rfl, _⟩ := Json.grouped?_eq_some_iff.mp hvs
            rw [hvs, Option.bind_some] at hsource
            rw [hws, Option.bind_some] at htarget
            rw [grouped?_merged _ (hs.get? hv).1 hvs hws, Option.bind_some,
              ih _ (hs.get? hv) hsource htarget]

theorem entryAt?_eq_some_iff : entryAt? source group key = some v ↔
    ∃ level, levelAt? source group = some level ∧ Entries.get? level key = some v :=
  Option.bind_eq_some_iff

theorem entryAt?_cons {last : String} (hv : Entries.get? source key = some v)
    (hlevel : v.grouped? = some level) :
    entryAt? source (key :: group) last = entryAt? level group last := by
  rw [entryAt?, levelAt?, hv, Option.bind_some, hlevel, Option.bind_some, entryAt?]

theorem exists_entryAt?_of_source (path : List String) (hs : (Json.obj source).DistinctKeys)
    (h : entryAt? source group key = some v) :
    ∃ w, entryAt? (mergeEntries path source target).1 group key = some w ∧
      w.isGrouping = v.isGrouping ∧ (v.isGrouping = false → w = v) := by
  obtain ⟨s, hsource, hv⟩ := entryAt?_eq_some_iff.mp h
  have hsd := distinctKeys_levelAt? hs hsource
  cases htarget : levelAt? target group with
  | none =>
    have hlevel := levelAt?_mergeEntries_of_source path hs hsource htarget
    exact ⟨v, entryAt?_eq_some_iff.mpr ⟨s, hlevel, hv⟩, rfl, fun _ => rfl⟩
  | some t =>
    refine ⟨(mergeInto (path ++ group ++ [key]) v (Entries.get? t key)).1,
      entryAt?_eq_some_iff.mpr ⟨_, (levelAt?_mergeEntries path hs hsource htarget).1, ?_⟩,
      isGrouping_mergeInto (hsd.get? hv) _, fun hgroup => ?_⟩
    · rw [get?_mergeEntries hsd.1, hv, Option.elim_some]
    · cases Entries.get? t key with
      | none => rfl
      | some w =>
        rw [← Json.grouped?_eq_none_iff] at hgroup
        exact congrArg Prod.fst (mergeValue_of_not_grouped (.inl hgroup))

theorem exists_entryAt?_of_target (path : List String) (hs : (Json.obj source).DistinctKeys)
    (ht : (Json.obj target).DistinctKeys) (h : entryAt? target group key = some v) :
    (∃ w, entryAt? (mergeEntries path source target).1 group key = some w ∧ v.KeptAs w) ∨
    ∃ c ∈ (mergeEntries path source target).2, c <+: path ++ group ++ [key] := by
  obtain ⟨t, htarget, hv⟩ := entryAt?_eq_some_iff.mp h
  have hvd := (distinctKeys_levelAt? ht htarget).get? hv
  cases hsource : levelAt? source group with
  | none =>
    obtain hlevel | ⟨_, c, hc, hprefix⟩ :=
      levelAt?_mergeEntries_of_target path hs ht hsource htarget
    · exact .inl ⟨v, entryAt?_eq_some_iff.mpr ⟨t, hlevel, hv⟩, .refl hvd⟩
    · exact .inr ⟨c, hc, hprefix.trans (List.prefix_append _ _)⟩
  | some s =>
    obtain ⟨hlevel, hlater⟩ := levelAt?_mergeEntries path hs hsource htarget
    have hsd := distinctKeys_levelAt? hs hsource
    cases hw : Entries.get? s key with
    | none =>
      refine .inl ⟨v, entryAt?_eq_some_iff.mpr ⟨_, hlevel, ?_⟩, .refl hvd⟩
      rw [get?_mergeEntries_of_target _ hsd.1 hw, hv]
    | some w =>
      refine (keptAs_mergeValue (path ++ group ++ [key]) (hsd.get? hw) hvd).imp
        (fun hkept => ?_) fun hc => ?_
      · exact ⟨_, entryAt?_eq_some_iff.mpr ⟨_, hlevel, get?_mergeEntries_of_some _ hsd.1 hw hv⟩,
          hkept⟩
      · exact ⟨_, hlater _ (mem_mergeEntries_of_mem hsd.1 hw hv hc), List.prefix_rfl⟩

theorem exists_entryAt?_of_mem_collisions (hs : (Json.obj source).DistinctKeys)
    (hc : c ∈ (mergeEntries path source target).2) :
    ∃ group key old new, c = path ++ group ++ [key] ∧ entryAt? target group key = some old ∧
      entryAt? source group key = some new ∧
      entryAt? (mergeEntries path source target).1 group key = some new ∧
      old.equal new = false := by
  induction hsize : Json.sizeOfEntries source using Nat.strongRecOn
    generalizing path source target with
  | _ size ih =>
  obtain ⟨key, incoming, hincoming, hc⟩ := (mem_mergeEntries_iff hs.1 path target).mp hc
  cases hexisting : Entries.get? target key with
  | none => rw [hexisting] at hc; cases hc
  | some existing =>
    rw [hexisting, mergeInto, Option.elim_some] at hc
    have hget := get?_mergeEntries_of_some path hs.1 hincoming hexisting
    obtain ⟨s, t, hvs, hws, hmerge⟩ | ⟨_, hmerge⟩ :=
      mergeValue_cases (path ++ [key]) incoming existing
    · obtain ⟨rfl, hgroup⟩ := Json.grouped?_eq_some_iff.mp hvs
      have hsd := hs.get? hincoming
      rw [hmerge] at hc
      obtain ⟨group, last, old, new, rfl, hold, hnew, hmerged, hne⟩ :=
        ih _ (hsize ▸ sizeOfEntries_lt hincoming) hsd hc rfl
      refine ⟨key :: group, last, old, new, by simp, ?_, ?_, ?_, hne⟩
      · rw [entryAt?_cons hexisting hws, hold]
      · rw [entryAt?_cons hincoming hvs, hnew]
      · rw [entryAt?_cons hget (grouped?_merged _ hsd.1 hvs hws), hmerged]
    · rw [hmerge, replace] at hc
      rw [hmerge] at hget
      split at hc
      · cases hc
      · next hne =>
        rw [List.mem_singleton] at hc
        exact ⟨[], key, existing, incoming, by simpa using hc, hexisting, hincoming, hget,
          Bool.eq_false_iff.mpr hne⟩

/-- At every level the keys that were there keep their positions and those that only the source has
follow in its order. -/
theorem keys_levelAt?_mergeEntries (hs : (Json.obj source).DistinctKeys)
    (ht : (Json.obj target).DistinctKeys)
    (h : levelAt? (mergeEntries path source target).1 group = some level) :
    Entries.keys level = Entries.keys ((levelAt? target group).getD []) ++
      (Entries.keys ((levelAt? source group).getD [])).filter
        (· ∉ Entries.keys ((levelAt? target group).getD [])) := by
  cases hsource : levelAt? source group with
  | none =>
    cases htarget : levelAt? target group with
    | none =>
      rw [levelAt?_mergeEntries_of_none path hs hsource htarget] at h
      cases h
    | some t =>
      obtain hlevel | ⟨hlevel, _⟩ :=
        levelAt?_mergeEntries_of_target path hs ht hsource htarget
      · rw [hlevel, Option.some.injEq] at h
        simp [h, Entries.keys]
      · rw [hlevel] at h
        cases h
  | some s =>
    cases htarget : levelAt? target group with
    | none =>
      rw [levelAt?_mergeEntries_of_source path hs hsource htarget, Option.some.injEq] at h
      simp [h, Entries.keys]
    | some t =>
      rw [(levelAt?_mergeEntries path hs hsource htarget).1, Option.some.injEq] at h
      rw [← h]
      exact keys_mergeEntries (distinctKeys_levelAt? hs hsource).1 _ t

end Declarations

end DesignTokens
