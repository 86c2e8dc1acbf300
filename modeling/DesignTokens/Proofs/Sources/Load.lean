import DesignTokens.Proofs.Export.Verdict
import DesignTokens.Proofs.Results
import DesignTokens.Proofs.Sources.Merge
import DesignTokens.Sources.Load

namespace DesignTokens

namespace Yaml

theorem distinctKeys_plainValue {text : String} {v : Json} (h : plainValue text = .ok v) :
    v.DistinctKeys := by
  rw [plainValue] at h
  have hother : (otherValue text).DistinctKeys := by
    rw [otherValue]
    split <;> trivial
  split at h
  · cases h
    trivial
  · split at h
    · cases h
      trivial
    · split at h
      · split at h
        · cases h
          trivial
        · split at h
          · cases h
          · cases h
            exact hother
      · cases h
        exact hother

mutual

theorem distinctKeys_anyToJson : ∀ (y : Yaml) {v : Json}, anyToJson y = .ok v → v.DistinctKeys
  | .scalar text plain, v, h => by
    rw [anyToJson] at h
    split at h
    · exact distinctKeys_plainValue h
    · cases h
      trivial
  | .list items, v, h => by
    rw [anyToJson, Except.bind_eq_ok_iff] at h
    obtain ⟨values, hvalues, h⟩ := h
    cases h
    exact distinctItems_itemsToJson items hvalues
  | .map entries, v, h => by
    rw [anyToJson, Except.bind_eq_ok_iff] at h
    obtain ⟨values, hvalues, h⟩ := h
    cases h
    apply Json.DistinctKeys.merge
    · exact ⟨List.nodup_nil, trivial⟩
    · exact Json.distinctEntries_iff.mp (distinctEntries_entriesToJson entries hvalues)

theorem distinctItems_itemsToJson : ∀ (items : List Yaml) {values : List Json},
    itemsToJson items = .ok values → Json.DistinctItems values
  | [], _, h => by
    cases h
    trivial
  | item :: rest, values, h => by
    simp only [itemsToJson, Except.bind_eq_ok_iff] at h
    obtain ⟨value, hvalue, others, hothers, h⟩ := h
    cases h
    exact ⟨distinctKeys_anyToJson item hvalue, distinctItems_itemsToJson rest hothers⟩

theorem distinctEntries_entriesToJson : ∀ (entries : List (String × Yaml))
    {values : List (String × Json)}, entriesToJson entries = .ok values →
      Json.DistinctEntries values
  | [], _, h => by
    cases h
    trivial
  | (key, item) :: rest, values, h => by
    simp only [entriesToJson, Except.bind_eq_ok_iff] at h
    obtain ⟨value, hvalue, others, hothers, h⟩ := h
    cases h
    exact ⟨distinctKeys_anyToJson item hvalue, distinctEntries_entriesToJson rest hothers⟩

end

end Yaml

namespace Sources

variable {fs : FileSystem} {path : FilePath} {entries : Entries Json}

theorem distinctKeys_of_readEntries (h : readEntries fs path = .ok entries) :
    (Json.obj entries).DistinctKeys := by
  simp only [readEntries, Except.bind_eq_ok_iff] at h
  obtain ⟨text, _, value, hvalue, h⟩ := h
  have hdistinct : value.DistinctKeys := by
    rw [parse] at hvalue
    split at hvalue
    · simp only [Except.mapError_eq_ok_iff, Except.bind_eq_ok_iff] at hvalue
      obtain ⟨y, _, hjson⟩ := hvalue
      rw [Yaml.toJson] at hjson
      split at hjson
      · cases hjson
      · exact Yaml.distinctKeys_anyToJson y hjson
    · exact Json.distinctKeys_of_parse (Except.mapError_eq_ok_iff.mp hvalue)
  cases value with
  | obj found =>
    cases h
    exact hdistinct
  | _ => cases h

theorem readEntries_of_forall₂ {files : List FilePath} {read : List (FilePath × Entries Json)}
    (h : List.Forall₂
      (fun file e => (return (file, ← readEntries fs file) : Except SourceError _) = .ok e)
      files read) :
    read.map Prod.fst = files ∧ ∀ e ∈ read, readEntries fs e.1 = .ok e.2 := by
  induction h with
  | nil => simp
  | cons hfirst _ ih =>
    obtain ⟨entries, hentries, hfirst⟩ := Except.bind_eq_ok_iff.mp hfirst
    cases hfirst
    exact ⟨congrArg _ ih.1, List.forall_mem_cons.mpr ⟨hentries, ih.2⟩⟩

theorem exists_of_load {base : FilePath} {patterns : List String} {sources : Sources}
    (h : load fs base patterns = .ok sources) : ∃ read : List (FilePath × Entries Json),
      read.map Prod.fst = sources.files ∧ sources.declarations = .ofFiles read ∧
        ∀ e ∈ read, readEntries fs e.1 = .ok e.2 := by
  obtain ⟨blocks, _, h⟩ := Except.bind_eq_ok_iff.mp h
  obtain ⟨read, hread, h⟩ := Except.bind_eq_ok_iff.mp h
  cases h
  obtain ⟨hfiles, hentries⟩ := readEntries_of_forall₂ (Except.forall₂_of_mapM hread)
  exact ⟨read, hfiles, rfl, hentries⟩

end Sources

theorem Collector.mem_diagnostics_of_mem_messages {c : Collector} {group : DiagnosticGroup}
    {m : Diagnostic} (h : m ∈ c.messages group) : m ∈ c.diagnostics := by
  rw [messages] at h
  cases hfound : c.groups.lookup group with
  | none => simp [hfound] at h
  | some found =>
    obtain ⟨before, after, hgroups, _⟩ := List.lookup_eq_some_iff.mp hfound
    rw [hfound] at h
    rw [diagnostics, hgroups, List.mem_flatMap]
    exact ⟨(group, found), by simp, h⟩

namespace Declarations

variable {d : Declarations} {m : Diagnostic} {file : FilePath} {source : Entries Json}
  {files : List (FilePath × Entries Json)}

theorem mem_diagnostics_iff : m ∈ d.diagnostics ↔ ∃ c ∈ d.collisions, m = c.diagnostic := by
  rw [diagnostics]
  constructor
  · intro h
    obtain h | h := Collector.mem_diagnostics_addAll h
    · cases h
    · obtain ⟨c, hc, rfl⟩ := List.mem_map.mp h
      exact ⟨c, hc, rfl⟩
  · rintro ⟨c, hc, rfl⟩
    have hmessages : c.diagnostic ∈ (Collector.empty.addAll .sources
        (d.collisions.map Collision.diagnostic)).messages .sources := by
      rw [Collector.messages_addAll_self, Collector.mem_foldl_addOnce]
      exact .inr (List.mem_map_of_mem hc)
    exact Collector.mem_diagnostics_of_mem_messages hmessages

theorem collisions_eq_nil_of_diagnostics_eq_nil (h : d.diagnostics = []) : d.collisions = [] := by
  rw [List.eq_nil_iff_forall_not_mem] at h ⊢
  exact fun c hc => h c.diagnostic (mem_diagnostics_iff.mpr ⟨c, hc, rfl⟩)

def Within (m n : Entries Json) : Prop :=
  ∀ group key v, entryAt? m group key = some v →
    ∃ w, entryAt? n group key = some w ∧ v.KeptAs w

theorem Within.trans {l m n : Entries Json} (hlm : Within l m) (hmn : Within m n) :
    Within l n := by
  intro group key v hv
  obtain ⟨w, hw, hvw⟩ := hlm group key v hv
  obtain ⟨u, hu, hwu⟩ := hmn group key w hw
  exact ⟨u, hu, hvw.trans hwu⟩

theorem within_add_self (hs : (Json.obj source).DistinctKeys) :
    Within source (d.add file source).entries := by
  intro group key v hv
  obtain ⟨w, hw, hgroup, hsame⟩ := exists_entryAt?_of_source [] hs hv
  refine ⟨w, hw, hgroup, fun hfalse => ?_⟩
  obtain ⟨level, hlevel, hget⟩ := entryAt?_eq_some_iff.mp hv
  rw [hsame hfalse]
  exact Json.equal_refl v ((distinctKeys_levelAt? hs hlevel).get? hget)

theorem within_add (hd : (Json.obj d.entries).DistinctKeys) (hs : (Json.obj source).DistinctKeys)
    (h : (d.add file source).collisions = []) : Within d.entries (d.add file source).entries := by
  intro group key v hv
  obtain hkept | ⟨c, hc, _⟩ := exists_entryAt?_of_target [] hs hd hv
  · exact hkept
  · have hnil : (merge d.entries source).2 = [] :=
      List.map_eq_nil_iff.mp (List.append_eq_nil_iff.mp h).2
    rw [merge] at hnil
    rw [hnil] at hc
    cases hc

theorem distinctKeys_add (hd : (Json.obj d.entries).DistinctKeys)
    (hs : (Json.obj source).DistinctKeys) :
    (Json.obj (d.add file source).entries).DistinctKeys :=
  distinctKeys_mergeEntries hs hd

theorem within_foldl_add (hd : (Json.obj d.entries).DistinctKeys)
    (hfiles : ∀ e ∈ files, (Json.obj e.2).DistinctKeys)
    (h : (files.foldl (fun d e => d.add e.1 e.2) d).collisions = []) :
    d.collisions = [] ∧
      Within d.entries (files.foldl (fun d e => d.add e.1 e.2) d).entries ∧
      ∀ e ∈ files, Within e.2 (files.foldl (fun d e => d.add e.1 e.2) d).entries := by
  induction files generalizing d with
  | nil =>
    refine ⟨h, fun group key v hv => ⟨v, hv, ?_⟩, by simp⟩
    obtain ⟨level, hlevel, hget⟩ := entryAt?_eq_some_iff.mp hv
    exact .refl ((distinctKeys_levelAt? hd hlevel).get? hget)
  | cons first rest ih =>
    rw [List.forall_mem_cons] at hfiles ⊢
    obtain ⟨hnil, hbefore, hrest⟩ := ih (distinctKeys_add hd hfiles.1) hfiles.2 h
    exact ⟨(List.append_eq_nil_iff.mp hnil).1, (within_add hd hfiles.1 hnil).trans hbefore,
      (within_add_self hfiles.1).trans hbefore, hrest⟩

theorem within_of_load {fs : FileSystem} {base : FilePath} {patterns : List String}
    {sources : Sources} (h : Sources.load fs base patterns = .ok sources)
    (hquiet : sources.declarations.diagnostics = []) {file : FilePath}
    (hfile : file ∈ sources.files) : ∃ entries, Sources.readEntries fs file = .ok entries ∧
      Within entries sources.declarations.entries := by
  obtain ⟨read, hfiles, hdeclarations, hentries⟩ := Sources.exists_of_load h
  have hnil := collisions_eq_nil_of_diagnostics_eq_nil hquiet
  rw [hdeclarations] at hnil ⊢
  rw [← hfiles] at hfile
  obtain ⟨e, he, rfl⟩ := List.mem_map.mp hfile
  have hempty : (Json.obj empty.entries).DistinctKeys := ⟨List.nodup_nil, trivial⟩
  have hread : ∀ e ∈ read, (Json.obj e.2).DistinctKeys := fun e he =>
    Sources.distinctKeys_of_readEntries (hentries e he)
  exact ⟨e.2, hentries e he, (within_foldl_add hempty hread hnil).2.2 e he⟩

/-- Merging a source loses nothing in silence.  Its definitions are taken over as they are; those
from before are kept with equal values except below the paths at which a collision is filed; a
collision is filed only where something else took the place of an entry, and warns of its path and
of the file; keys stay in their order at every level that groups others, the new ones behind them.
So what is loaded without a diagnostic has all that each of the files declares. -/
theorem add_loses_nothing (hd : (Json.obj d.entries).DistinctKeys)
    (hs : (Json.obj source).DistinctKeys) (file : FilePath) :
    ∃ filed : List (List String),
      (d.add file source).collisions = d.collisions ++ filed.map (⟨file, ·⟩) ∧
      (∀ m, m ∈ (d.add file source).diagnostics ↔ m ∈ d.diagnostics ∨ ∃ path ∈ filed, m =
        { code := some "T-3-1"
          title := "Property collision at " ++ dottedName path
          kind := .warning
          problem := some (file.text ++ " redefines \x60" ++ dottedName path ++
            "\x60, which an earlier source already defined")
          details := []
          hints := ["Later files win; remove one of the definitions if this is unintended"] }) ∧
      (∀ group key v, entryAt? source group key = some v → v.isGrouping = false →
        entryAt? (d.add file source).entries group key = some v) ∧
      (∀ group key v, entryAt? d.entries group key = some v → v.isGrouping = false →
        (∃ w, entryAt? (d.add file source).entries group key = some w ∧ v.equal w = true) ∨
          ∃ path ∈ filed, path <+: group ++ [key]) ∧
      (∀ path ∈ filed, ∃ group key old new, path = group ++ [key] ∧
        entryAt? d.entries group key = some old ∧
        entryAt? (d.add file source).entries group key = some new ∧ old.equal new = false) ∧
      (∀ group level, levelAt? (d.add file source).entries group = some level →
        Entries.keys level = Entries.keys ((levelAt? d.entries group).getD []) ++
          (Entries.keys ((levelAt? source group).getD [])).filter
            (· ∉ Entries.keys ((levelAt? d.entries group).getD []))) ∧
      ∀ fs base patterns sources, Sources.load fs base patterns = .ok sources →
        sources.declarations.diagnostics = [] → ∀ file ∈ sources.files,
          ∃ entries, Sources.readEntries fs file = .ok entries ∧
            ∀ group key v, entryAt? entries group key = some v →
              ∃ w, entryAt? sources.declarations.entries group key = some w ∧ v.KeptAs w := by
  refine ⟨(merge d.entries source).2, rfl, fun m => ?_, fun group key v hv hfalse => ?_,
    fun group key v hv hfalse => ?_, fun path hpath => ?_, fun group level hlevel =>
      keys_levelAt?_mergeEntries hs hd hlevel, fun _ _ _ _ hload hquiet _ =>
      within_of_load hload hquiet⟩
  · rw [mem_diagnostics_iff, mem_diagnostics_iff]
    simp only [add, List.mem_append, or_and_right, exists_or, List.mem_map]
    simp [Collision.diagnostic, Diagnostic.warning, Diagnostic.new, Diagnostic.withCode,
      Diagnostic.withProblem, Diagnostic.withHint]
  · obtain ⟨w, hw, _, hsame⟩ := exists_entryAt?_of_source [] hs hv
    rw [← hsame hfalse]
    exact hw
  · obtain ⟨w, hw, hkept⟩ | ⟨c, hc, hprefix⟩ :=
      exists_entryAt?_of_target [] hs hd hv
    · exact .inl ⟨w, hw, hkept.2 hfalse⟩
    · exact .inr ⟨c, hc, hprefix⟩
  · obtain ⟨group, key, old, new, hc, hold, _, hnew, hne⟩ :=
      exists_entryAt?_of_mem_collisions hs hpath
    exact ⟨group, key, old, new, hc, hold, hnew, hne⟩

def sizes : Declarations :=
  ⟨[("size", .obj [("base", .obj [("value", .num (.int 16))]), ("unit", .str "px")])], []⟩

def resized : Entries Json :=
  [("size", .obj [("small", .obj [("value", .num (.int 12))]),
    ("base", .obj [("value", .num (.int 18))])])]

def disjointFiles : FileSystem :=
  ⟨[("a.json", .file "\x7b\"size\":\x7b\"base\":1\x7d\x7d".toUTF8),
    ("b.json", .file "\x7b\"size\":\x7b\"small\":2\x7d\x7d".toUTF8)], []⟩

theorem add_resized_loses_nothing :
    (Json.obj sizes.entries).DistinctKeys ∧ (Json.obj resized).DistinctKeys ∧
    entryAt? (sizes.add ⟨"b.json"⟩ resized).entries ["size"] "base" =
      some (.obj [("value", .num (.int 18))]) ∧
    (∃ w, entryAt? (sizes.add ⟨"b.json"⟩ resized).entries ["size"] "unit" = some w ∧
      (Json.str "px").equal w = true) ∧
    (∃ m ∈ (sizes.add ⟨"b.json"⟩ resized).diagnostics, m.code = some "T-3-1" ∧
      m.title = "Property collision at size.base" ∧ m.problem = some
        "b.json redefines \x60size.base\x60, which an earlier source already defined") ∧
    ∃ sources, Sources.load disjointFiles ⟨"."⟩ ["a.json", "b.json"] = .ok sources ∧
      sources.declarations.diagnostics = [] ∧ ∃ entries,
        Sources.readEntries disjointFiles ⟨"a.json"⟩ = .ok entries ∧
        ∀ group key v, entryAt? entries group key = some v →
          ∃ w, entryAt? sources.declarations.entries group key = some w ∧ v.KeptAs w := by
  have hd : (Json.obj sizes.entries).DistinctKeys := by
    simp [sizes, Json.DistinctKeys, Json.DistinctEntries, Entries.Distinct, Entries.keys]
  have hs : (Json.obj resized).DistinctKeys := by
    simp [resized, Json.DistinctKeys, Json.DistinctEntries, Entries.Distinct, Entries.keys]
  obtain ⟨filed, hfiled, hwarned, hsource, htarget, _, _, hload⟩ :=
    add_loses_nothing hd hs ⟨"b.json"⟩
  have hpaths : filed = [["size", "base"]] := by
    refine List.map_injective_iff.mpr (fun _ _ h => ?_) hfiled.symm
    cases h
    rfl
  refine ⟨hd, hs, hsource ["size"] "base" _ rfl rfl, ?_, ?_, ?_⟩
  · obtain hkept | ⟨path, hpath, hprefix⟩ := htarget ["size"] "unit" _ rfl rfl
    · exact hkept
    · rw [hpaths, List.mem_singleton] at hpath
      subst hpath
      revert hprefix
      decide
  · exact ⟨_, (hwarned _).mpr (.inr ⟨_, hpaths ▸ List.mem_singleton_self _, rfl⟩), rfl, rfl, rfl⟩
  · have hquiet : (Sources.load disjointFiles ⟨"."⟩ ["a.json", "b.json"]).toOption.any
        (fun sources => sources.declarations.diagnostics.isEmpty &&
          sources.files.contains ⟨"a.json"⟩) = true := by
      decide +kernel
    cases hsources : Sources.load disjointFiles ⟨"."⟩ ["a.json", "b.json"] with
    | error e =>
      rw [hsources] at hquiet
      cases hquiet
    | ok sources =>
      rw [hsources] at hquiet
      obtain ⟨hnil, hfile⟩ := Bool.and_eq_true_iff.mp hquiet
      rw [List.isEmpty_iff] at hnil
      exact ⟨sources, rfl, hnil,
        hload _ _ _ sources hsources hnil _ (List.contains_iff_mem.mp hfile)⟩

end Declarations

end DesignTokens
