import DesignTokens.Proofs.Dictionary.Between
import DesignTokens.Proofs.Dictionary.Paths
import DesignTokens.Proofs.Reference.Pieces
import DesignTokens.Proofs.Text.Blank

/-! The two readers of a written path: placeholders in texts, and directives.  Both drop the blanks
around the whole path.  A directive drops those around each key as well, so that the two agree on
the paths in which no blank stands beside a point, and on these only. -/

namespace DesignTokens

open Text (Tight trimmed trimmed_eq_self_iff map_trimmed_eq_self)

/-- The text that has nothing but a placeholder. -/
def placeholder (text : String) : String := String.ofList (Piece.hole text.toList).source

section

variable {text : String}

@[simp] theorem toList_placeholder (text : String) :
    (placeholder text).toList = (Piece.hole text.toList).source := String.toList_ofList

theorem ofText_placeholder (h : (Piece.hole text.toList).Proper) :
    Piece.ofText (placeholder text).toList = [.hole text.toList] := by
  have hproper : ∀ p ∈ [Piece.hole text.toList], p.Proper := by simpa using h
  have hread := Piece.ofText_sourceAll hproper
  rw [Piece.sourceAll_cons, Piece.sourceAll, List.flatMap_nil, List.append_nil] at hread
  rw [toList_placeholder, hread]
  rfl

theorem referencedPaths_placeholder (h : (Piece.hole text.toList).Proper) :
    referencedPaths (placeholder text) = [trimmed text] := by
  rw [referencedPaths, ofText_placeholder h]
  rfl

theorem fillText_placeholder (h : (Piece.hole text.toList).Proper)
    (replace : Reference.Replacement) :
    Reference.fillText replace (placeholder text) =
      ((replace (trimmed text)).1.getD (.str (placeholder text)), (replace (trimmed text)).2) := by
  rw [Reference.fillText, ofText_placeholder h]
  rfl

theorem keys_of_inner (hbrace : ∀ c ∈ text.toList, isBrace c = false)
    (hblank : ∃ c ∈ text.toList, Text.isBlank c = false) :
    (if (Text.trim text.toList).isEmpty || (Text.trim text.toList).any isBrace then none
      else some ((Text.splitAt '.' (Text.trim text.toList)).map fun key =>
        String.ofList (Text.trim key))) = some ((pathSegments (trimmed text)).map trimmed) := by
  have hempty : (Text.trim text.toList).isEmpty = false := by simpa using Text.trim_ne_nil hblank
  have hany : (Text.trim text.toList).any isBrace = false :=
    List.any_eq_false.mpr fun c hc => by simp [hbrace c (Text.mem_of_mem_trim hc)]
  rw [hempty, hany, if_neg (by decide), pathSegments, Text.toList_trimmed, List.map_map]
  refine congrArg some (List.map_congr_left fun key _ => ?_)
  simp [trimmed]

theorem targetPath?_bare (hbrace : ∀ c ∈ text.toList, isBrace c = false)
    (hblank : ∃ c ∈ text.toList, Text.isBlank c = false) :
    targetPath? text = some ((pathSegments (trimmed text)).map trimmed) := by
  have hkeys := keys_of_inner hbrace hblank
  cases hcs : Text.trim text.toList with
  | nil => exact absurd hcs (Text.trim_ne_nil hblank)
  | cons c rest =>
    have hmem : c ∈ text.toList := Text.mem_of_mem_trim (hcs ▸ List.mem_cons_self)
    have hc : c ≠ openBrace := by
      rintro rfl
      exact absurd (hbrace openBrace hmem) (by decide)
    rw [← Text.trim_trim, hcs] at hkeys
    rw [targetPath?, hcs]
    simp only [if_neg hc]
    exact hkeys

theorem targetPath?_placeholder (hbrace : ∀ c ∈ text.toList, isBrace c = false)
    (hblank : ∃ c ∈ text.toList, Text.isBlank c = false) :
    targetPath? (placeholder text) = some ((pathSegments (trimmed text)).map trimmed) := by
  have htight : Tight (Piece.hole text.toList).source := by
    refine ⟨fun c hc => ?_, fun c hc => ?_⟩
    · obtain rfl : openBrace = c := by simpa [Piece.source] using hc
      decide
    · rw [Piece.source, List.getLast?_concat] at hc
      obtain rfl : closeBrace = c := by simpa using hc
      decide
  have hlast : (text.toList ++ [closeBrace]).getLast? = some closeBrace := by simp
  rw [targetPath?, toList_placeholder, Text.trim_eq_self htight, Piece.source, List.cons_append]
  simp only [if_pos, hlast, List.dropLast_concat]
  exact keys_of_inner hbrace hblank

end

/-- A key that stands in a written path as it is: it is not empty, no point and no brace is in it,
and no blank at its ends. -/
structure OrdinaryKey (key : String) : Prop where
  ne_nil : key.toList ≠ []
  plain : ∀ c ∈ key.toList, c ≠ '.' ∧ isBrace c = false
  tight : Tight key.toList

instance (key : String) : Decidable (OrdinaryKey key) :=
  decidable_of_iff (key.toList ≠ [] ∧ (key.toList.all fun c => c ≠ '.' && !isBrace c) ∧
      Tight key.toList) <| by
    rw [List.all_eq_true]
    simp only [Bool.and_eq_true, decide_eq_true_eq, Bool.not_eq_true']
    exact ⟨fun h => ⟨h.1, h.2.1, h.2.2⟩, fun h => ⟨h.1, h.2, h.3⟩⟩

section

variable {path : List String}

theorem no_brace_of_mem_dottedName (hkeys : ∀ key ∈ path, OrdinaryKey key) :
    ∀ c ∈ (dottedName path).toList, isBrace c = false := by
  rw [toList_dottedName]
  induction path with
  | nil => exact nofun
  | cons key rest ih =>
    rw [List.forall_mem_cons] at hkeys
    cases rest with
    | nil => simpa using fun c hc => (hkeys.1.plain c hc).2
    | cons next rest =>
      rw [List.map_cons, List.map_cons, List.intercalate_cons_cons]
      intro c hc
      rw [List.mem_append, List.mem_append, List.mem_singleton] at hc
      rcases hc with (hc | rfl) | hc
      · exact (hkeys.1.plain c hc).2
      · decide
      · exact ih hkeys.2 c hc

theorem tight_dottedName (hkeys : ∀ key ∈ path, OrdinaryKey key) :
    Tight (dottedName path).toList := by
  rw [toList_dottedName]
  refine Text.tight_intercalate _ fun part hpart => ?_
  obtain ⟨key, hkey, rfl⟩ := List.mem_map.mp hpart
  exact ⟨(hkeys key hkey).ne_nil, (hkeys key hkey).tight⟩

theorem toList_dottedName_ne_nil (hne : path ≠ []) (hkeys : ∀ key ∈ path, OrdinaryKey key) :
    (dottedName path).toList ≠ [] := by
  obtain ⟨key, rest, rfl⟩ := List.exists_cons_of_ne_nil hne
  rw [toList_dottedName]
  exact Text.intercalate_ne_nil _ (hkeys key List.mem_cons_self).ne_nil _

theorem trimmed_dottedName (hkeys : ∀ key ∈ path, OrdinaryKey key) :
    trimmed (dottedName path) = dottedName path := trimmed_eq_self_iff.mpr (tight_dottedName hkeys)

theorem referencedPaths_dottedName (hne : path ≠ []) (hkeys : ∀ key ∈ path, OrdinaryKey key) :
    referencedPaths (placeholder (dottedName path)) = [dottedName path] := by
  have hproper : (Piece.hole (dottedName path).toList).Proper :=
    ⟨toList_dottedName_ne_nil hne hkeys, no_brace_of_mem_dottedName hkeys⟩
  rw [referencedPaths_placeholder hproper, trimmed_dottedName hkeys]

theorem pathSegments_ordinary (hne : path ≠ []) (hkeys : ∀ key ∈ path, OrdinaryKey key) :
    pathSegments (dottedName path) = path :=
  pathSegments_dottedName hne fun key hkey hpoint => ((hkeys key hkey).plain _ hpoint).1 rfl

theorem targetPath?_dottedName (hne : path ≠ []) (hkeys : ∀ key ∈ path, OrdinaryKey key) :
    targetPath? (dottedName path) = some path ∧
      targetPath? (placeholder (dottedName path)) = some path := by
  have hblank := (tight_dottedName hkeys).exists_not_blank (toList_dottedName_ne_nil hne hkeys)
  have hbrace := no_brace_of_mem_dottedName hkeys
  have hread : (pathSegments (trimmed (dottedName path))).map trimmed = path := by
    rw [trimmed_dottedName hkeys, pathSegments_ordinary hne hkeys]
    exact map_trimmed_eq_self fun key hkey => (hkeys key hkey).tight
  rw [targetPath?_bare hbrace hblank, targetPath?_placeholder hbrace hblank, hread]
  exact ⟨rfl, rfl⟩

end

/-- Both readers find a token whose keys are ordinary under its dotted name. -/
theorem Dictionary.ordinary_token_is_addressable {d : Dictionary} {path : List String} {t : Token}
    (hat : d.tokenAt? path = some t) (hkeys : ∀ key ∈ path, OrdinaryKey key) :
    (∀ written ∈ [dottedName path, dottedName path ++ ".value"],
      referencedPaths (placeholder written) = [written] ∧
      d.lookup (pathSegments written) = some ⟨t.value, some (dottedName path)⟩) ∧
    targetPath? (dottedName path) = some path ∧
    targetPath? (placeholder (dottedName path)) = some path := by
  have hne := ne_nil_of_tokenAt? hat
  have hvalue : ∀ key ∈ path ++ [valueKey], OrdinaryKey key := by
    rw [List.forall_mem_append]
    exact ⟨hkeys, by decide⟩
  have hconcat : dottedName path ++ ".value" = dottedName (path ++ [valueKey]) := by
    rw [dottedName_concat hne, String.append_assoc]
    rfl
  have hlookup : ∀ more, d.lookup (path ++ more) = t.referent? (dottedName path) more :=
    lookup_append hat
  refine ⟨?_, targetPath?_dottedName hne hkeys⟩
  rw [List.forall_mem_cons, List.forall_mem_singleton, hconcat]
  refine ⟨⟨referencedPaths_dottedName hne hkeys, ?_⟩,
    ⟨referencedPaths_dottedName (by simp) hvalue, ?_⟩⟩
  · rw [pathSegments_ordinary hne hkeys]
    simpa [Token.referent?] using hlookup []
  · rw [pathSegments_ordinary (by simp) hvalue, hlookup]
    rfl

def Dictionary.partNames : Dictionary :=
  [("value", .branch [("name", .branch [("path", .token (.new .null))])])]

theorem Dictionary.token_below_part_names_is_addressable :
    (∀ key ∈ ["value", "name", "path"], OrdinaryKey key) ∧
    partNames.tokenAt? ["value", "name", "path"] = some (.new .null) ∧
    partNames.lookup (pathSegments "value.name.path.value") =
      some ⟨.null, some "value.name.path"⟩ ∧
    targetPath? (placeholder "value.name.path") = some ["value", "name", "path"] := by
  have hkeys : ∀ key ∈ ["value", "name", "path"], OrdinaryKey key := by decide
  have hat : partNames.tokenAt? ["value", "name", "path"] = some (.new .null) := rfl
  obtain ⟨hread, _, htarget⟩ := ordinary_token_is_addressable hat hkeys
  exact ⟨hkeys, hat, (hread "value.name.path.value" (by decide)).2, htarget⟩

def nested : List String → Json
  | [] => .null
  | key :: rest => .obj [(key, nested rest)]

theorem distinctKeys_nested : ∀ path : List String, (nested path).DistinctKeys
  | [] => trivial
  | _ :: rest => ⟨List.nodup_singleton _, distinctKeys_nested rest, trivial⟩

section

variable {f : String → String}

theorem isSome_descend?_nested (path : List String) :
    ((nested path).descend? (path.map f)).isSome ↔ ∀ key ∈ path, f key = key := by
  induction path with
  | nil => simp [nested, Json.descend?]
  | cons key rest ih =>
    rw [nested, List.map_cons, List.forall_mem_cons, ← ih, Json.descend?, List.foldlM_cons,
      Json.child?, Entries.get?_singleton]
    by_cases hkey : f key = key
    · simp [hkey, Json.descend?]
    · simp [hkey, Ne.symm hkey]

theorem ofEntry_nested_cons {key : String} (hkey : namesDecorator key = false) (next : String)
    (rest : List String) : Node.ofEntry key (nested (next :: rest)) =
      if next = valueKey then .token (.new (nested rest))
      else .branch (Dictionary.ofEntries [(next, nested rest)]) := by
  rw [nested, Node.ofEntry, hkey, if_neg (by decide), Token.ofEntries?, Entries.get?_singleton]
  by_cases hnext : next = valueKey
  · subst hnext
    rfl
  · rw [if_neg hnext, if_neg hnext]
    rfl

theorem isSome_found_ofEntry_nested (hvalue : f valueKey = valueKey) (key : String)
    (path : List String) : ((Node.ofEntry key (nested path)).found (path.map f)).isSome ↔
      ∀ k ∈ path, f k = k := by
  induction path generalizing key with
  | nil =>
    cases hdecorator : namesDecorator key <;>
      simp [nested, Node.ofEntry, hdecorator, Node.found, Json.descend?]
  | cons next rest ih =>
    cases hdecorator : namesDecorator key with
    | true =>
      rw [nested, Node.ofEntry, hdecorator, if_pos rfl, ← nested, Node.found,
        isSome_descend?_nested]
    | false =>
      rw [ofEntry_nested_cons hdecorator, List.map_cons, List.forall_mem_cons]
      by_cases hnext : next = valueKey
      · subst hnext
        rw [if_pos rfl, hvalue, Node.found, Token.referent?_cons, ← isSome_descend?_nested rest]
        simp [Token.field?, Token.new]
      · rw [if_neg hnext, Node.found, Dictionary.found_cons, Dictionary.ofEntries,
          Dictionary.ofEntries, Entries.get?_singleton, ← ih next]
        by_cases hkey : f next = next
        · simp [hkey]
        · simp [hkey, Ne.symm hkey]

theorem isSome_lookup_nested (hvalue : f valueKey = valueKey) (key : String) (rest : List String) :
    ((Dictionary.ofEntries [(key, nested rest)]).lookup ((key :: rest).map f)).isSome ↔
      ∀ k ∈ key :: rest, f k = k := by
  rw [← Option.isSome_map, ← Dictionary.found, List.map_cons, Dictionary.found_cons,
    Dictionary.ofEntries, Dictionary.ofEntries, Entries.get?_singleton, List.forall_mem_cons,
    ← isSome_found_ofEntry_nested hvalue key rest]
  by_cases hkey : f key = key
  · simp [hkey]
  · simp [hkey, Ne.symm hkey]

end

/-- What the two readers make of a placeholder that is the whole text.  A value refers to the path
between the braces, without the blanks around it; a directive drops the blanks around each key as
well.  So the two lead to the same place in every dictionary if no blank stands beside a point.  If
one does, there is a dictionary to be read in which the value finds something and the directive
nothing. -/
theorem readers_agree_apart_from_blanks {text : String}
    (hbrace : ∀ c ∈ text.toList, isBrace c = false)
    (hblank : ∃ c ∈ text.toList, Text.isBlank c = false) :
    referencedPaths (placeholder text) = [trimmed text] ∧
    (∀ replace, Reference.fillText replace (placeholder text) =
      ((replace (trimmed text)).1.getD (.str (placeholder text)), (replace (trimmed text)).2)) ∧
    ∃ target, targetPath? (placeholder text) = some target ∧
      ((∀ key ∈ pathSegments (trimmed text), Tight key.toList) →
        ∀ d : Dictionary, d.lookup target = d.lookup (pathSegments (trimmed text))) ∧
      (¬(∀ key ∈ pathSegments (trimmed text), Tight key.toList) →
        ∃ value d, value.DistinctKeys ∧ Dictionary.ofJson value = .ok d ∧
          (d.lookup (pathSegments (trimmed text))).isSome ∧ d.lookup target = none) := by
  have hproper : (Piece.hole text.toList).Proper := by
    obtain ⟨c, hc, _⟩ := hblank
    exact ⟨List.ne_nil_of_mem hc, hbrace⟩
  refine ⟨referencedPaths_placeholder hproper, fillText_placeholder hproper,
    _, targetPath?_placeholder hbrace hblank, fun htight d => ?_, fun hspaced => ?_⟩
  · rw [map_trimmed_eq_self htight]
  · obtain ⟨key, rest, hpath⟩ := List.exists_cons_of_ne_nil (pathSegments_ne_nil (trimmed text))
    rw [hpath] at hspaced ⊢
    refine ⟨nested (key :: rest), _, distinctKeys_nested _, rfl, ?_, ?_⟩
    · have hown := isSome_lookup_nested (f := id) rfl key rest
      rw [List.map_id] at hown
      exact hown.mpr fun _ _ => rfl
    · have hvalue : trimmed valueKey = valueKey := by decide
      rw [← Option.not_isSome_iff_eq_none, isSome_lookup_nested hvalue]
      exact fun hall => hspaced fun k hk => trimmed_eq_self_iff.mp (hall k hk)

theorem blanks_beside_a_point :
    (∀ d : Dictionary, d.lookup ["a", "b"] = d.lookup (pathSegments (trimmed " a.b "))) ∧
    ∃ value d, value.DistinctKeys ∧ Dictionary.ofJson value = .ok d ∧
      (d.lookup (pathSegments (trimmed "a .b"))).isSome ∧ d.lookup ["a", "b"] = none := by
  have houter : ∀ c ∈ " a.b ".toList, isBrace c = false := by
    simp [isBrace, openBrace, closeBrace]
  have hinner : ∀ c ∈ "a .b".toList, isBrace c = false := by
    simp [isBrace, openBrace, closeBrace]
  obtain ⟨_, _, target, htarget, hagree, _⟩ :=
    readers_agree_apart_from_blanks houter ⟨'a', by simp, by decide⟩
  obtain ⟨_, _, other, hother, _, hdiffer⟩ :=
    readers_agree_apart_from_blanks hinner ⟨'a', by simp, by decide⟩
  obtain rfl : ["a", "b"] = target := Option.some.inj htarget
  obtain rfl : ["a", "b"] = other := Option.some.inj hother
  exact ⟨hagree (by decide), hdiffer (by decide)⟩

/-- A key that ends in a blank is found by a value and not by a directive. -/
theorem blank_before_a_point_is_lost : ∃ d,
    Dictionary.ofJson (.obj [("a ", .obj [("b", .obj [("x", .obj [("value", .num (.int 1))])])])]) =
      .ok d ∧
    targetPath? (placeholder "a .b") = some ["a", "b"] ∧ d.lookup ["a", "b"] = none ∧
    referencedPaths (placeholder "a .b") = ["a .b"] ∧
    (d.lookup (pathSegments "a .b")).isSome :=
  ⟨_, rfl, rfl, rfl, rfl, rfl⟩

end DesignTokens
