import DesignTokens.Proofs.Mixin.Walk

namespace DesignTokens

/-- There is an object at a path inside a value.  The mark is nothing, or what a directive of the
object names.  An item of an array is found under any key. -/
inductive Json.Places : Json → List String → Option (List String) → Prop
  | object (entries : List (String × Json)) : Places (.obj entries) [] none
  | directive {entries : List (String × Json)} {directive : Json} {target : List String}
      (hmem : (applyKey, directive) ∈ entries) (htarget : Mixin.targetOf? directive = some target) :
      Places (.obj entries) [] (some target)
  | entry {entries : List (String × Json)} {key : String} {value : Json} {path : List String}
      {mark : Option (List String)} (hmem : (key, value) ∈ entries) (h : Places value path mark) :
      Places (.obj entries) (key :: path) mark
  | item {items : List Json} {value : Json} {path : List String} {mark : Option (List String)}
      (key : String) (hmem : value ∈ items) (h : Places value path mark) :
      Places (.arr items) (key :: path) mark

namespace Json

variable {value : Json} {path : List String} {mark : Option (List String)}
  {entries : List (String × Json)}

theorem places_cons_iff {key : String} : (Json.obj entries).Places (key :: path) mark ↔
    ∃ value, (key, value) ∈ entries ∧ value.Places path mark := by
  constructor
  · rintro (_ | _ | ⟨hmem, h⟩)
    exact ⟨_, hmem, h⟩
  · rintro ⟨value, hmem, h⟩
    exact .entry hmem h

theorem Places.mono {more : List (String × Json)} (hsub : ∀ e ∈ entries, e ∈ more)
    (h : (Json.obj entries).Places path mark) : (Json.obj more).Places path mark := by
  cases h with
  | object => exact .object more
  | directive hmem htarget => exact .directive (hsub _ hmem) htarget
  | entry hmem h => exact .entry (hsub _ hmem) h

theorem Places.of_child? {key : String} {child : Json} (hchild : value.child? key = some child)
    (h : child.Places path mark) : value.Places (key :: path) mark := by
  cases value with
  | obj entries => exact .entry (Entries.mem_of_get?_eq_some hchild) h
  | arr items =>
    obtain ⟨i, _, hi⟩ := Option.bind_eq_some_iff.mp hchild
    exact .item key (List.mem_of_getElem? hi) h
  | _ => cases hchild

theorem Places.of_descend? {inner : Json} {rest : List String}
    (hinner : value.descend? path = some inner) (h : inner.Places rest mark) :
    value.Places (path ++ rest) mark := by
  induction path generalizing value with
  | nil =>
    cases hinner
    exact h
  | cons key more ih =>
    rw [descend?, List.foldlM_cons, Option.bind_eq_bind, Option.bind_eq_some_iff] at hinner
    obtain ⟨child, hchild, hrest⟩ := hinner
    exact .of_child? hchild (ih hrest)

theorem Places.length_lt_size (h : value.Places path mark) : path.length < value.size := by
  induction h with
  | object | directive => exact size_pos _
  | entry hmem _ ih =>
    rw [List.length_cons, size]
    exact Nat.succ_lt_succ (Nat.lt_of_lt_of_le ih (size_le_sizeOfEntries hmem))
  | item _ hmem _ ih =>
    rw [List.length_cons, size]
    exact Nat.succ_lt_succ (Nat.lt_of_lt_of_le ih (size_le_sizeOfItems hmem))

mutual

/-- The directives in a value: where they stand, any key of an array being nothing, and what they
name. -/
def directives : Json → List (List (Option String) × List String)
  | .arr items => directivesOfItems items
  | .obj entries => directivesOfEntries entries
  | _ => []

def directivesOfItems : List Json → List (List (Option String) × List String)
  | [] => []
  | item :: rest => (directives item).map (fun e => (none :: e.1, e.2)) ++ directivesOfItems rest

def directivesOfEntries : List (String × Json) → List (List (Option String) × List String)
  | [] => []
  | (key, value) :: rest =>
    (if key = applyKey then (Mixin.targetOf? value).toList.map fun target => ([], target) else []) ++
      ((directives value).map (fun e => (some key :: e.1, e.2)) ++ directivesOfEntries rest)

end

theorem mem_directivesOfItems {items : List Json} {at? : List (Option String)}
    {target : List String} {item : Json} (hmem : item ∈ items)
    (h : (at?, target) ∈ item.directives) :
    (none :: at?, target) ∈ directivesOfItems items := by
  induction items with
  | nil => cases hmem
  | cons first rest ih =>
    rw [directivesOfItems, List.mem_append]
    rcases List.mem_cons.mp hmem with rfl | hmem
    · exact .inl (List.mem_map.mpr ⟨_, h, rfl⟩)
    · exact .inr (ih hmem)

theorem mem_directivesOfEntries {at? : List (Option String)} {target : List String} {key : String}
    (hmem : (key, value) ∈ entries) (h : (at?, target) ∈ value.directives) :
    (some key :: at?, target) ∈ directivesOfEntries entries := by
  induction entries with
  | nil => cases hmem
  | cons first rest ih =>
    rw [directivesOfEntries, List.mem_append, List.mem_append]
    rcases List.mem_cons.mp hmem with rfl | hmem
    · exact .inr (.inl (List.mem_map.mpr ⟨_, h, rfl⟩))
    · exact .inr (.inr (ih hmem))

theorem nil_mem_directivesOfEntries {target : List String} {directive : Json}
    (hmem : (applyKey, directive) ∈ entries) (h : Mixin.targetOf? directive = some target) :
    ([], target) ∈ directivesOfEntries entries := by
  induction entries with
  | nil => cases hmem
  | cons first rest ih =>
    rw [directivesOfEntries, List.mem_append, List.mem_append]
    rcases List.mem_cons.mp hmem with rfl | hmem
    · exact .inl (by simp [h])
    · exact .inr (.inr (ih hmem))

theorem Places.exists_mem_directives {target : List String} (h : value.Places path (some target)) :
    ∃ at?, (at?, target) ∈ value.directives ∧
      List.Forall₂ (fun (key? : Option String) key => ∀ k ∈ key?, k = key) at? path := by
  generalize hmark : some target = mark at h
  induction h with
  | object => cases hmark
  | directive hmem htarget =>
    cases hmark
    exact ⟨[], nil_mem_directivesOfEntries hmem htarget, .nil⟩
  | entry hmem _ ih =>
    obtain ⟨at?, hin, hpath⟩ := ih hmark
    exact ⟨_, mem_directivesOfEntries hmem hin, .cons (by simp) hpath⟩
  | item _ hmem _ ih =>
    obtain ⟨at?, hin, hpath⟩ := ih hmark
    exact ⟨_, mem_directivesOfItems hmem hin, .cons (by simp) hpath⟩

mutual

theorem length_directives_lt_size : ∀ value : Json, value.directives.length < value.size
  | .null | .bool _ | .num _ | .str _ => Nat.zero_lt_one
  | .arr items => Nat.lt_succ_of_le (length_directivesOfItems_le items)
  | .obj entries => Nat.lt_succ_of_le (length_directivesOfEntries_le entries)

theorem length_directivesOfItems_le : ∀ items : List Json,
    (directivesOfItems items).length ≤ sizeOfItems items
  | [] => Nat.zero_le _
  | item :: rest => by
    rw [directivesOfItems, sizeOfItems, List.length_append, List.length_map]
    exact Nat.add_le_add (Nat.le_of_lt (length_directives_lt_size item))
      (length_directivesOfItems_le rest)

theorem length_directivesOfEntries_le : ∀ entries : List (String × Json),
    (directivesOfEntries entries).length ≤ sizeOfEntries entries
  | [] => Nat.zero_le _
  | (key, value) :: rest => by
    have hvalue := length_directives_lt_size value
    have hrest := length_directivesOfEntries_le rest
    have hone : (if key = applyKey then
        (Mixin.targetOf? value).toList.map (fun target => (([] : List (Option String)), target))
        else []).length ≤ 1 := by
      split
      · rw [List.length_map]
        exact Option.length_toList_le
      · exact Nat.zero_le _
    rw [directivesOfEntries, sizeOfEntries, List.length_append, List.length_append, List.length_map]
    omega

end

end Json

theorem Entries.mem_map_iff {α β : Type} {m : Entries α} {f : String → α → β} {key : String}
    {b : β} : (key, b) ∈ m.map (fun e => (e.1, f e.1 e.2)) ↔ ∃ a, (key, a) ∈ m ∧ f key a = b := by
  simp only [List.mem_map, Prod.exists, Prod.mk.injEq]
  constructor
  · rintro ⟨_, a, hmem, rfl, hb⟩
    exact ⟨a, hmem, hb⟩
  · rintro ⟨a, hmem, hb⟩
    exact ⟨key, a, hmem, rfl, hb⟩

namespace Dictionary

theorem contents_eq_map (d : Dictionary) : d.contents = d.map fun e => (e.1, e.2.content) := by
  induction d with
  | nil => rfl
  | cons e rest ih => rw [contents, ih, List.map_cons]

theorem toEntries_eq_map (d : Dictionary) : d.toEntries = d.map fun e => (e.1, e.2.toJson) := by
  induction d with
  | nil => rfl
  | cons e rest ih => rw [toEntries, ih, List.map_cons]

theorem ofEntries_eq_map (entries : List (String × Json)) :
    ofEntries entries = entries.map fun e => (e.1, Node.ofEntry e.1 e.2) := by
  induction entries with
  | nil => rfl
  | cons e rest ih => rw [ofEntries, ih, List.map_cons]

variable {d : Dictionary} {key : String} {value : Json} {node : Node}

theorem mem_contents : (key, value) ∈ d.contents ↔ ∃ n, (key, n) ∈ d ∧ n.content = value := by
  rw [contents_eq_map]
  exact Entries.mem_map_iff (f := fun _ => Node.content)

theorem mem_toEntries : (key, value) ∈ d.toEntries ↔ ∃ n, (key, n) ∈ d ∧ n.toJson = value := by
  rw [toEntries_eq_map]
  exact Entries.mem_map_iff (f := fun _ => Node.toJson)

theorem mem_ofEntries {entries : List (String × Json)} : (key, node) ∈ ofEntries entries ↔
    ∃ v, (key, v) ∈ entries ∧ Node.ofEntry key v = node := by
  rw [ofEntries_eq_map, Entries.mem_map_iff]

end Dictionary

namespace Token

variable {α : Type} {t : Token} {entries : Entries Json} {key : String} {shape : Json → Option α}
  {e : String × Json} {path : List String} {mark : Option (List String)}

theorem mem_of_mem_lift (h : e ∈ (lift entries key shape).2) : e ∈ entries := by
  rw [lift] at h
  split at h
  · exact h
  · next value hget =>
    split at h
    · exact List.mem_of_mem_filter h
    · rcases Entries.mem_insert h with h | rfl
      · exact List.mem_of_mem_filter h
      · exact Entries.mem_of_get?_eq_some hget

theorem mem_of_mem_parts (ht : ofEntries? entries = some t) (h : e ∈ t.parts) : e ∈ entries := by
  obtain ⟨value, hget, rfl⟩ := Option.map_eq_some_iff.mp ht
  have hrest : ∀ {e}, e ∈ (lift (Entries.erase entries valueKey) "name" Json.asString?).2 →
      e ∈ entries := fun h => List.mem_of_mem_filter (mem_of_mem_lift h)
  simp only [parts, ofParts, List.mem_cons, List.mem_append] at h
  rcases h with rfl | h | h
  · exact Entries.mem_of_get?_eq_some hget
  · exact hrest (mem_of_mem_lift (mem_of_mem_lift h))
  · rw [attributesEntry] at h
    split at h
    · cases h
    · next hempty =>
      obtain rfl := List.mem_singleton.mp h
      cases hpart : (lift (lift (Entries.erase entries valueKey) "name" Json.asString?).2
          "attributes" Json.asObject?).1 with
      | none => simp [hpart] at hempty
      | some attributes =>
        obtain ⟨found, hfound, hshape⟩ := shape_of_lift hpart
        cases found with
        | obj inner =>
          cases hshape
          exact hrest (Entries.mem_of_get?_eq_some hfound)
        | _ => cases hshape

theorem places_of_toJson (h : t.toJson.Places path mark) : (Json.obj t.parts).Places path mark := by
  have hsub : ∀ e ∈ t.toEntries, e ∈ t.parts ∨ (e.1 ≠ applyKey ∧ ∀ p m, ¬ e.2.Places p m) := by
    intro e he
    have hmerge := Entries.mem_merge he
    simp only [List.mem_append, List.mem_singleton] at hmerge
    rcases hmerge with rfl | ((h | h) | h) | h
    · exact .inl List.mem_cons_self
    · exact .inl (List.mem_cons_of_mem _ (List.mem_append_left _ h))
    · rw [nameEntry] at h
      split at h
      · obtain rfl := List.mem_singleton.mp h
        refine .inr ⟨by simp [applyKey], ?_⟩
        rintro p m (_ | _)
      · cases h
    · exact .inl (List.mem_cons_of_mem _ (List.mem_append_right _ h))
    · rw [pathEntry] at h
      split at h
      · cases h
      · obtain rfl := List.mem_singleton.mp h
        refine .inr ⟨by simp [applyKey], ?_⟩
        rintro p m (_ | _ | _ | ⟨key, hmem, h⟩)
        obtain ⟨text, _, rfl⟩ := List.mem_map.mp hmem
        cases h
  cases h with
  | object => exact .object _
  | directive hmem htarget =>
    exact .directive ((hsub _ hmem).resolve_right fun h => h.1 rfl) htarget
  | entry hmem h => exact .entry ((hsub _ hmem).resolve_right fun hno => hno.2 _ _ h) h

theorem places_of_field? {key : String} {part : Json} (hpart : t.field? key = some part)
    (h : part.Places path mark) (hne : path ≠ []) :
    (Json.obj t.parts).Places (key :: path) mark := by
  rw [field?] at hpart
  split at hpart
  · next hkey =>
    cases hpart
    exact .entry (by simp [parts, hkey]) h
  split at hpart
  · -- the name is a text
    obtain ⟨text, _, rfl⟩ := Option.map_eq_some_iff.mp hpart
    cases h
  split at hpart
  · next hkey =>
    cases hpart
    refine .entry (List.mem_cons_of_mem _ (List.mem_append_right _ ?_)) h
    rw [attributesEntry, if_neg]
    · simp [hkey]
    · intro hempty
      rw [List.isEmpty_iff.mp hempty] at h
      cases h with
      | object | directive => exact hne rfl
      | entry hmem => cases hmem
  split at hpart
  · -- the path is an array of texts
    cases hpart
    rcases h with _ | _ | _ | ⟨key, hmem, h⟩
    obtain ⟨text, _, rfl⟩ := List.mem_map.mp hmem
    cases h
  · exact .entry (List.mem_cons_of_mem _ (List.mem_append_left _
      (Entries.mem_of_get?_eq_some hpart))) h

theorem places_of_referent? {name : String} {found : Referent} {rest : List String}
    (hfound : t.referent? name rest = some found) (h : found.value.Places path mark)
    (hne : path ≠ []) : ∃ more, more <+: [valueKey] ∧
      (Json.obj t.parts).Places (rest ++ more ++ path) mark := by
  cases rest with
  | nil =>
    cases hfound
    exact ⟨[valueKey], List.prefix_rfl, .entry List.mem_cons_self h⟩
  | cons key rest =>
    rw [referent?, Option.bind_eq_bind, Option.bind_eq_some_iff] at hfound
    obtain ⟨part, hpart, hrest⟩ := hfound
    rw [Option.bind_eq_some_iff] at hrest
    obtain ⟨value, hvalue, heq⟩ := hrest
    cases heq
    refine ⟨[], List.nil_prefix, ?_⟩
    rw [List.append_nil, List.cons_append]
    exact places_of_field? hpart (.of_descend? hvalue h) (by simp [hne])

end Token

namespace Node

variable {n new : Node} {key : String} {value : Json} {path other : List String}
  {mark : Option (List String)} {branch : Dictionary}

theorem ofEntry_cases (key : String) (value : Json) :
    (Node.ofEntry key value).content = value ∨
      ∃ entries, value = .obj entries ∧
        ((∃ t, Token.ofEntries? entries = some t ∧ Node.ofEntry key value = .token t) ∨
          Node.ofEntry key value = .branch (Dictionary.ofEntries entries)) := by
  rw [Node.ofEntry.eq_def]
  split
  · exact .inl rfl
  · split
    · next entries =>
      refine .inr ⟨entries, rfl, ?_⟩
      split
      · next t ht => exact .inl ⟨t, ht, rfl⟩
      · exact .inr rfl
    · exact .inl rfl

theorem ofEntry_applyKey (value : Json) : Node.ofEntry applyKey value = .decorator value := by
  rw [Node.ofEntry.eq_def, if_pos (by decide)]

theorem places_of_ofEntry (h : (Node.ofEntry key value).content.Places path mark) :
    value.Places path mark := by
  induction path generalizing key value with
  | nil =>
    rcases ofEntry_cases key value with hsame | ⟨entries, rfl, ⟨t, ht, hread⟩ | hread⟩
    · rwa [hsame] at h
    · rw [hread] at h
      exact h.mono fun _ => Token.mem_of_mem_parts ht
    · rw [hread] at h
      cases h with
      | object => exact .object entries
      | directive hmem htarget =>
        obtain ⟨node, hnode, rfl⟩ := Dictionary.mem_contents.mp hmem
        obtain ⟨v, hv, rfl⟩ := Dictionary.mem_ofEntries.mp hnode
        rw [ofEntry_applyKey] at htarget
        exact .directive hv htarget
  | cons first rest ih =>
    rcases ofEntry_cases key value with hsame | ⟨entries, rfl, ⟨t, ht, hread⟩ | hread⟩
    · rwa [hsame] at h
    · rw [hread] at h
      exact h.mono fun _ => Token.mem_of_mem_parts ht
    · rw [hread] at h
      obtain ⟨inner, hmem, hinner⟩ := Json.places_cons_iff.mp h
      obtain ⟨node, hnode, rfl⟩ := Dictionary.mem_contents.mp hmem
      obtain ⟨v, hv, rfl⟩ := Dictionary.mem_ofEntries.mp hnode
      exact .entry hv (ih hinner)

theorem places_of_toJson (hn : n.Decorated) (h : n.toJson.Places path mark) :
    n.content.Places path mark := by
  induction path generalizing n with
  | nil =>
    cases n with
    | branch entries =>
      cases h with
      | object => exact .object _
      | directive hmem htarget =>
        obtain ⟨node, hnode, rfl⟩ := Dictionary.mem_toEntries.mp hmem
        have hkey : namesDecorator applyKey = true := by decide
        have hdecorator := (Dictionary.decorated_iff.mp hn _ hnode).1 hkey
        cases node with
        | decorator value => exact .directive (Dictionary.mem_contents.mpr ⟨_, hnode, rfl⟩) htarget
        | _ => cases hdecorator
    | token t => exact Token.places_of_toJson h
    | decorator value => exact h
    | literal value => exact h
  | cons first rest ih =>
    cases n with
    | branch entries =>
      obtain ⟨value, hmem, hvalue⟩ := Json.places_cons_iff.mp h
      obtain ⟨node, hnode, rfl⟩ := Dictionary.mem_toEntries.mp hmem
      exact .entry (Dictionary.mem_contents.mpr ⟨node, hnode, rfl⟩)
        (ih (Dictionary.decorated_iff.mp hn _ hnode).2 hvalue)
    | token t => exact Token.places_of_toJson h
    | decorator value => exact h
    | literal value => exact h

theorem places_of_at? {m : Node} (hat : n.at? path = some m) (h : m.content.Places other mark) :
    n.content.Places (path ++ other) mark := by
  induction path generalizing n with
  | nil =>
    obtain rfl : n = m := by simpa using hat
    exact h
  | cons key rest ih =>
    obtain ⟨entries, child, rfl, hget, hchild⟩ := at?_cons_eq_some_iff.mp hat
    exact .entry (Dictionary.mem_contents.mpr ⟨child, Entries.mem_of_get?_eq_some hget, rfl⟩)
      (ih hchild)

theorem places_of_withNode (hn : n.Decorated) (hat : n.at? path = some (.branch branch))
    (h : (n.withNode path new).content.Places other mark) :
    n.content.Places other mark ∨ ∃ rest, other = path ++ rest ∧ new.content.Places rest mark := by
  have hkeys := hn.not_namesDecorator hat
  induction path generalizing n other with
  | nil =>
    rw [withNode_nil] at h
    exact .inr ⟨other, rfl, h⟩
  | cons key rest ih =>
    obtain ⟨entries, child, rfl, hget, hchild⟩ := at?_cons_eq_some_iff.mp hat
    rw [withNode_branch_cons hget] at h
    rw [List.forall_mem_cons] at hkeys
    cases h with
    | object => exact .inl (.object _)
    | directive hmem htarget =>
      obtain ⟨node, hnode, rfl⟩ := Dictionary.mem_contents.mp hmem
      rcases Entries.mem_insert hnode with hold | hnew
      · exact .inl (.directive (Dictionary.mem_contents.mpr ⟨node, hold, rfl⟩) htarget)
      · -- the key of a directive is on no path to a branch
        cases hnew
        exact absurd hkeys.1 (by decide)
    | entry hmem h =>
      obtain ⟨node, hnode, rfl⟩ := Dictionary.mem_contents.mp hmem
      rcases Entries.mem_insert hnode with hold | hnew
      · exact .inl (.entry (Dictionary.mem_contents.mpr ⟨node, hold, rfl⟩) h)
      · cases hnew
        have hbelow := (Dictionary.Decorated.get? hn hget).2
        refine (ih hbelow hchild h hkeys.2).imp (fun hold => ?_) ?_
        · exact .entry (Dictionary.mem_contents.mpr
            ⟨child, Entries.mem_of_get?_eq_some hget, rfl⟩) hold
        · rintro ⟨more, rfl, hnew⟩
          exact ⟨more, rfl, hnew⟩

end Node

namespace Dictionary

variable {d : Dictionary} {path : List String} {mark : Option (List String)}

theorem places_of_lookupFrom (hd : d.Decorated) {walked target : List String} {found : Referent}
    (hfound : d.lookupFrom walked target = some found) (h : found.value.Places path mark)
    (hne : path ≠ []) : ∃ more, more <+: [valueKey] ∧
      (Json.obj d.contents).Places (target ++ more ++ path) mark := by
  induction target generalizing d walked with
  | nil => cases hfound
  | cons key rest ih =>
    rw [lookupFrom] at hfound
    split at hfound
    · cases hfound
    · next child hget =>
      have hmem := mem_contents.mpr ⟨_, Entries.mem_of_get?_eq_some hget, rfl⟩
      have hchild := (hd.get? hget).2
      split at hfound
      · next hempty =>
        cases hfound
        rw [List.isEmpty_iff.mp hempty]
        exact ⟨[], List.nil_prefix, .entry hmem (Node.places_of_toJson hchild h)⟩
      · obtain ⟨more, hvalue, hmore⟩ := ih hchild hfound
        exact ⟨more, hvalue, .entry hmem hmore⟩
    · next t hget =>
      obtain ⟨more, hvalue, hmore⟩ := Token.places_of_referent? hfound h hne
      have hmem := mem_contents.mpr ⟨_, Entries.mem_of_get?_eq_some hget, rfl⟩
      exact ⟨more, hvalue, .entry hmem hmore⟩
    all_goals
      next value hget =>
      obtain ⟨inner, hinner, rfl⟩ := Option.map_eq_some_iff.mp hfound
      have hmem := mem_contents.mpr ⟨_, Entries.mem_of_get?_eq_some hget, rfl⟩
      refine ⟨[], List.nil_prefix, ?_⟩
      rw [List.append_nil]
      exact .entry hmem (Json.Places.of_descend? hinner h)

theorem places_of_lookup (hd : d.Decorated) {target : List String} {found : Referent}
    (hfound : d.lookup target = some found) (h : found.value.Places path mark) (hne : path ≠ []) :
    ∃ more, more <+: [valueKey] ∧ (Json.obj d.contents).Places (target ++ more ++ path) mark :=
  places_of_lookupFrom hd hfound h hne

end Dictionary

namespace Mixin

variable {d : Dictionary} {path other : List String} {mark : Option (List String)}

theorem places_of_merged {branch : Dictionary} {mixin : Entries Json} (hbranch : branch.Decorated)
    (h : (merged path branch (overriding branch mixin)).content.Places other mark) :
    (Json.obj branch.contents).Places other mark ∨
      other ≠ [] ∧ (Json.obj mixin).Places other mark := by
  have hmerge : (Json.obj (mergeEntries branch (overriding branch mixin)).contents).Places
      other mark := by
    rw [merged] at h
    split at h
    · split at h
      · have hread := Node.places_of_ofEntry h
        exact Node.places_of_toJson (n := .branch _) (decorated_mergeEntries hbranch _) hread
      · exact h
    · exact h
  cases hmerge with
  | object => exact .inl (.object _)
  | directive hmem htarget =>
    obtain ⟨node, hnode, rfl⟩ := Dictionary.mem_contents.mp hmem
    rcases mem_mergeEntries hnode with hold | ⟨value, hnew, _⟩
    · exact .inl (.directive (Dictionary.mem_contents.mpr ⟨node, hold, rfl⟩) htarget)
    · -- the directive of the mixin is not taken over
      have hkeep := (List.mem_filter.mp hnew).2
      have hnames : namesDecorator applyKey = true := by decide
      simp [hnames] at hkeep
  | entry hmem hinner =>
    obtain ⟨node, hnode, rfl⟩ := Dictionary.mem_contents.mp hmem
    rcases mem_mergeEntries hnode with hold | ⟨value, hnew, hread⟩
    · exact .inl (.entry (Dictionary.mem_contents.mpr ⟨node, hold, rfl⟩) hinner)
    · dsimp only at hread
      rw [hread] at hinner
      exact .inr ⟨by simp, .entry (List.mem_of_mem_filter hnew) (Node.places_of_ofEntry hinner)⟩

theorem places_of_mem_keysAt {key : String} (h : key ∈ keysAt d path) :
    (Json.obj d.contents).Places (path ++ [key]) none := by
  rw [keysAt] at h
  cases hbranch : d.branchAt? path with
  | none => simp [hbranch] at h
  | some branch =>
    rw [hbranch, Option.map_some, Option.getD_some, Dictionary.branchKeys] at h
    obtain ⟨e, he, rfl⟩ := List.mem_map.mp h
    obtain ⟨hmem, hisBranch⟩ := List.mem_filter.mp he
    obtain ⟨key, node⟩ := e
    cases node with
    | branch entries =>
      have hinner : (Node.branch branch).content.Places [key] none :=
        .entry (Dictionary.mem_contents.mpr ⟨_, hmem, rfl⟩) (.object _)
      exact Node.places_of_at? (n := .branch d) (Dictionary.branchAt?_eq_some_iff.mp hbranch) hinner
    | _ => cases hisBranch

/-- A step copies places that lie below what its directive names, or below the value of the token
that it names, and makes no others. -/
theorem places_of_step (hd : d.Decorated)
    (h : (Json.obj (step d path).1.contents).Places other mark) :
    (Json.obj d.contents).Places other mark ∨
      ∃ target more rest, (Json.obj d.contents).Places path (some target) ∧
        more <+: [valueKey] ∧ other = path ++ rest ∧
        (Json.obj d.contents).Places (target ++ more ++ rest) mark := by
  rw [step] at h
  split at h
  · exact .inl h
  · exact .inl h
  · next entries hplan =>
    obtain ⟨branch, mixin, target, token, hbranch, htarget, hlookup, rfl⟩ :=
      exists_target_of_plan hplan
    have hat := Dictionary.branchAt?_eq_some_iff.mp hbranch
    have hroot : (Node.branch d).Decorated := hd
    have hnode : ((Node.branch d).withNode path
        (merged path branch (overriding branch mixin))).content.Places other mark := by
      rw [← branch_mergeAt hbranch]
      exact h
    have hinside : ∀ {rest mark}, (Json.obj branch.contents).Places rest mark →
        (Json.obj d.contents).Places (path ++ rest) mark := fun h =>
      Node.places_of_at? (n := .branch d) hat h
    rcases Node.places_of_withNode hroot hat hnode with hold | ⟨rest, rfl, hnew⟩
    · exact .inl hold
    rcases places_of_merged (hroot.at? hat) hnew with hold | ⟨hne, hmixin⟩
    · exact .inl (hinside hold)
    · obtain ⟨directive, hget, hdirective⟩ := target?_eq_some_iff.mp htarget
      have hmem := Dictionary.mem_contents.mpr ⟨_, Entries.mem_of_get?_eq_some hget, rfl⟩
      have hnamed := hinside (.directive hmem hdirective)
      rw [List.append_nil] at hnamed
      obtain ⟨more, hvalue, hmore⟩ := Dictionary.places_of_lookup hd hlookup hmixin hne
      exact .inr ⟨target, more, rest, hnamed, hvalue, rfl, hmore⟩

end Mixin

end DesignTokens
