import DesignTokens.Platform.Config
import DesignTokens.Proofs.Diagnostic.Json

namespace DesignTokens

namespace PlatformDeclaration

open Diagnostic (textEntry listEntry givenList keys_textEntry keys_listEntry get?_textEntry
  get?_listEntry getD_givenList)

variable {s : PlatformDeclaration} {v : Json}

/-- What is true of every declaration that has been read: its options repeat no key and are under
keys of their own. -/
structure AsRead (s : PlatformDeclaration) : Prop where
  distinct : (Json.obj s.options).DistinctKeys
  unknown : ∀ key ∈ Entries.keys s.options, key ∉ knownKeys

/-- The parts of a declaration that are written, each with its key. -/
def entries (s : PlatformDeclaration) : Entries Json :=
  textEntry "transformGroup" s.transformGroup ++
    listEntry "transforms" (s.transforms.map .str) ++ s.options

theorem toJson_eq (s : PlatformDeclaration) : s.toJson = .obj s.entries := by
  obtain ⟨group, transforms, options⟩ := s
  cases group <;> cases transforms <;> rfl

theorem keys_named (s : PlatformDeclaration) :
    (Entries.keys (textEntry "transformGroup" s.transformGroup ++
      listEntry "transforms" (s.transforms.map .str))).Sublist knownKeys := by
  rw [Entries.keys, List.map_append]
  exact (keys_textEntry _ _).append (keys_listEntry _ _)

theorem AsRead.distinct_entries (h : s.AsRead) : Entries.Distinct s.entries := by
  rw [Entries.Distinct, entries, Entries.keys, List.map_append, List.nodup_append]
  refine ⟨s.keys_named.nodup (by decide), h.distinct.1, ?_⟩
  rintro key hkey _ hoption rfl
  exact h.unknown key hoption (s.keys_named.subset hkey)

theorem AsRead.get?_options (h : s.AsRead) (key : String) (hkey : key ∈ knownKeys) :
    Entries.get? s.options key = none :=
  Entries.get?_eq_none_iff.mpr fun hoption => h.unknown key hoption hkey

theorem AsRead.filter_entries (h : s.AsRead) :
    s.entries.filter (fun e => !knownKeys.contains e.1) = s.options := by
  rw [entries, List.filter_append, List.filter_eq_nil_iff.mpr, List.nil_append,
    List.filter_eq_self.mpr]
  · intro e he
    simpa using h.unknown e.1 (List.mem_map_of_mem he)
  · intro e he
    simpa using s.keys_named.subset (List.mem_map_of_mem he)

theorem AsRead.ofJson_toJson (h : s.AsRead) : ofJson s.toJson = .ok s := by
  have hgroup : Decode.field s.entries "transformGroup" = .ok (s.transformGroup.map .str) := by
    rw [Decode.field_eq_get? h.distinct_entries]
    simp [entries, Entries.get?_append, get?_textEntry, get?_listEntry,
      h.get?_options "transformGroup" (by decide)]
  have htransforms : Decode.field s.entries "transforms" =
      .ok (givenList (s.transforms.map .str)) := by
    rw [Decode.field_eq_get? h.distinct_entries]
    simp [entries, Entries.get?_append, get?_textEntry, get?_listEntry,
      h.get?_options "transforms" (by decide)]
  have hlist : Decode.list Decode.text
      ((givenList (s.transforms.map .str)).getD (.arr [])) = .ok s.transforms := by
    rw [getD_givenList]
    exact Decode.list_text s.transforms
  rw [toJson_eq]
  refine Except.bind_eq_ok_iff.mpr ⟨_, hgroup, Except.bind_eq_ok_iff.mpr ⟨_, htransforms, ?_⟩⟩
  rw [Decode.nullable_text, hlist, h.filter_entries,
    Json.entriesWithDistinctKeys_eq_self _ h.distinct.2, Entries.ofList_eq_self h.distinct.1]
  rfl

theorem options_of_ofJson (h : ofJson v = .ok s) : ∃ written, v = .obj written ∧
    s.options = Entries.ofList (Json.entriesWithDistinctKeys
      (written.filter fun e => !knownKeys.contains e.1)) := by
  cases v with
  | obj written =>
    obtain ⟨group, _, h⟩ := Except.bind_eq_ok_iff.mp h
    obtain ⟨transforms, _, h⟩ := Except.bind_eq_ok_iff.mp h
    obtain ⟨name, _, h⟩ := Except.bind_eq_ok_iff.mp h
    obtain ⟨names, _, h⟩ := Except.bind_eq_ok_iff.mp h
    cases h
    exact ⟨written, rfl, rfl⟩
  | _ => cases h

theorem options_of_distinctKeys (hv : v.DistinctKeys) (h : ofJson v = .ok s) :
    ∃ written, v = .obj written ∧ s.options = written.filter fun e => e.1 ∉ knownKeys := by
  obtain ⟨written, rfl, hoptions⟩ := options_of_ofJson h
  have hunknown := Json.DistinctKeys.filter hv fun e => e.1 ∉ knownKeys
  refine ⟨written, rfl, ?_⟩
  rw [← Entries.ofList_eq_self hunknown.1,
    ← Json.entriesWithDistinctKeys_eq_self _ hunknown.2, hoptions]
  simp

theorem asRead_of_ofJson (h : ofJson v = .ok s) : s.AsRead := by
  obtain ⟨written, rfl, hoptions⟩ := options_of_ofJson h
  constructor
  · rw [hoptions]
    exact Json.distinctKeys_withDistinctKeys
      (.obj (written.filter fun e => !knownKeys.contains e.1))
  · intro key hkey
    rw [hoptions] at hkey
    obtain ⟨e, he, rfl⟩ := List.mem_map.mp hkey
    obtain he | he := Entries.mem_merge he
    · cases he
    · rw [Json.entriesWithDistinctKeys_eq_map] at he
      obtain ⟨first, hfirst, rfl⟩ := List.mem_map.mp he
      simpa using (List.mem_filter.mp hfirst).2

end PlatformDeclaration

namespace Config

variable {c : Config} {v : Json}

/-- What is true of every configuration that has been read. -/
structure AsRead (c : Config) : Prop where
  distinct : Entries.Distinct c.platforms
  platforms : ∀ e ∈ c.platforms, e.2.AsRead

theorem fields_toJson (c : Config) : Decode.fields ["source", "platforms"] c.toJson =
    .ok [some (.ofStrings c.source),
      some (.obj (Entries.mapValues PlatformDeclaration.toJson c.platforms))] := by
  have hdistinct : Entries.Distinct [("source", Json.ofStrings c.source),
      ("platforms", .obj (Entries.mapValues PlatformDeclaration.toJson c.platforms))] := by
    simp [Entries.Distinct, Entries.keys]
  exact Decode.fields_obj hdistinct ["source", "platforms"]

theorem AsRead.ofJson_toJson (h : c.AsRead) : ofJson c.toJson = .ok c := by
  have hplatforms : (Entries.mapValues PlatformDeclaration.toJson c.platforms).mapM
      (fun e => do return (e.1, ← PlatformDeclaration.ofJson e.2)) = .ok c.platforms := by
    refine Except.mapM_eq_ok_of_forall₂ ?_
    rw [Entries.mapValues, List.forall₂_map_left_iff, List.forall₂_same]
    exact fun e he => Except.bind_eq_ok_iff.mpr ⟨e.2, (h.platforms e he).ofJson_toJson, rfl⟩
  refine Except.bind_eq_ok_iff.mpr ⟨_, c.fields_toJson, ?_⟩
  refine Except.bind_eq_ok_iff.mpr ⟨_, Decode.list_text c.source, ?_⟩
  refine Except.bind_eq_ok_iff.mpr ⟨c.platforms, ?_, rfl⟩
  refine Except.bind_eq_ok_iff.mpr ⟨_, hplatforms, ?_⟩
  exact congrArg Except.ok (Entries.ofList_eq_self h.distinct)

/-- The platforms that a value declares, as they are written. -/
def declared (v : Json) : Entries Json :=
  match Decode.fields ["source", "platforms"] v with
  | .ok [_, some (.obj platforms)] => platforms
  | _ => []

theorem platforms_of_ofJson (h : ofJson v = .ok c) : ∃ specs, c.platforms = Entries.ofList specs ∧
    List.Forall₂ (fun e spec => e.1 = spec.1 ∧ PlatformDeclaration.ofJson e.2 = .ok spec.2)
      (declared v) specs := by
  obtain ⟨found, hfound, h⟩ := Except.bind_eq_ok_iff.mp h
  split at h
  · next source platforms =>
    obtain ⟨texts, _, h⟩ := Except.bind_eq_ok_iff.mp h
    obtain ⟨read, hread, h⟩ := Except.bind_eq_ok_iff.mp h
    cases h
    cases platforms with
    | none =>
      cases hread
      exact ⟨[], rfl, by rw [declared, hfound]; exact .nil⟩
    | some given =>
      cases given with
      | obj platforms =>
        obtain ⟨specs, hspecs, hread⟩ := Except.bind_eq_ok_iff.mp hread
        cases hread
        refine ⟨specs, rfl, ?_⟩
        rw [declared, hfound]
        refine (Except.forall₂_of_mapM hspecs).imp fun e spec hspec => ?_
        obtain ⟨s, hs, hspec⟩ := Except.bind_eq_ok_iff.mp hspec
        cases hspec
        exact ⟨rfl, hs⟩
      | _ => cases hread
  · cases h

theorem asRead_of_ofJson (h : ofJson v = .ok c) : c.AsRead := by
  obtain ⟨specs, hplatforms, hspecs⟩ := platforms_of_ofJson h
  constructor
  · have hempty : Entries.Distinct ([] : Entries PlatformDeclaration) := List.nodup_nil
    rw [hplatforms]
    exact hempty.merge specs
  · intro e he
    rw [hplatforms] at he
    obtain he | he := Entries.mem_merge he
    · cases he
    · obtain ⟨_, _, _, hread⟩ := Except.exists_of_mem_right hspecs he
      exact PlatformDeclaration.asRead_of_ofJson hread

theorem distinctKeys_declared (h : v.DistinctKeys) : (Json.obj (declared v)).DistinctKeys := by
  rw [declared]
  split
  · next hfields => exact Decode.distinctKeys_of_fields h hfields (by simp)
  · exact ⟨List.nodup_nil, trivial⟩

theorem forall₂_declared (hv : v.DistinctKeys) (h : ofJson v = .ok c) :
    List.Forall₂ (fun e spec => e.1 = spec.1 ∧ ∃ written, e.2 = .obj written ∧
        spec.2.options = written.filter fun e => e.1 ∉ PlatformDeclaration.knownKeys)
      (declared v) c.platforms := by
  obtain ⟨specs, hplatforms, hspecs⟩ := platforms_of_ofJson h
  have hdeclared := distinctKeys_declared hv
  have hkeys : Entries.keys (declared v) = Entries.keys specs := by
    rw [Entries.keys, Entries.keys, ← List.forall₂_eq_eq_eq, List.forall₂_map_left_iff,
      List.forall₂_map_right_iff]
    exact hspecs.imp fun _ _ hread => hread.1
  have hdistinct : Entries.Distinct specs := by
    rw [Entries.Distinct, ← hkeys]
    exact hdeclared.1
  rw [hplatforms, Entries.ofList_eq_self hdistinct]
  have hvalues := (Json.distinctKeys_obj.mp hdeclared).2
  refine ((List.forall₂_and_left _ _).mpr ⟨hvalues, hspecs⟩).imp ?_
  rintro ⟨name, value⟩ spec ⟨hvalue, hname, hread⟩
  exact ⟨hname, PlatformDeclaration.options_of_distinctKeys hvalue hread⟩

end Config

/-- What is written is read as it was: every diagnostic, and every configuration that has been read
from a value.  Its platforms are those of the value in their order, and each has as options all that
the value says under keys without a meaning of their own. -/
theorem written_forms_are_read_back :
    (∀ d : Diagnostic, Diagnostic.ofJson d.toJson = .ok d) ∧
    ∀ v c, Config.ofJson v = .ok c → Config.ofJson c.toJson = .ok c ∧
      (v.DistinctKeys → List.Forall₂ (fun e spec => e.1 = spec.1 ∧ ∃ written, e.2 = .obj written ∧
          spec.2.options = written.filter fun e => e.1 ∉ PlatformDeclaration.knownKeys)
        (Config.declared v) c.platforms) :=
  ⟨Diagnostic.ofJson_toJson, fun _ _ h =>
    ⟨(Config.asRead_of_ofJson h).ofJson_toJson, fun hv => Config.forall₂_declared hv h⟩⟩

namespace Config

def twoPlatforms : Json :=
  .obj [("note", .null), ("platforms", .obj [
    ("web", .obj [("prefix", .null), ("transforms", .arr []), ("buildPath", .str "out"),
      ("transform_group", .arr [.obj [("on", .bool true)]])]),
    ("css", .obj [("transforms", .arr [.str "size/px"]), ("transformGroup", .str "css")])])]

def readPlatforms : Config :=
  ⟨[], [("web", ⟨none, [], [("prefix", .null), ("buildPath", .str "out"),
      ("transform_group", .arr [.obj [("on", .bool true)]])]⟩),
    ("css", ⟨some "css", ["size/px"], []⟩)]⟩

theorem twoPlatforms_are_read_back : ofJson twoPlatforms = .ok readPlatforms ∧
    ofJson readPlatforms.toJson = .ok readPlatforms ∧ twoPlatforms.DistinctKeys ∧
    Diagnostic.ofJson (Diagnostic.warning "w").toJson = .ok (.warning "w") := by
  have hread : ofJson twoPlatforms = .ok readPlatforms := by decide +kernel
  exact ⟨hread, (written_forms_are_read_back.2 _ _ hread).1,
    by simp [twoPlatforms, Json.DistinctKeys, Json.DistinctItems, Json.DistinctEntries,
      Entries.Distinct, Entries.keys],
    written_forms_are_read_back.1 (.warning "w")⟩

end Config

end DesignTokens
