import DesignTokens.Proofs.Mixin.Places

namespace DesignTokens

inductive Json.HasKey (key : String) : Json → Prop
  | own {entries : List (String × Json)} {value : Json} (hmem : (key, value) ∈ entries) :
      HasKey key (.obj entries)
  | entry {entries : List (String × Json)} {other : String} {value : Json}
      (hmem : (other, value) ∈ entries) (h : HasKey key value) : HasKey key (.obj entries)
  | item {items : List Json} {value : Json} (hmem : value ∈ items) (h : HasKey key value) :
      HasKey key (.arr items)

namespace Json

variable {key : String} {value inner : Json} {entries : List (String × Json)}

theorem hasKey_obj : (obj entries).HasKey key ↔ ∃ e ∈ entries, e.1 = key ∨ e.2.HasKey key := by
  constructor
  · rintro (⟨hmem⟩ | ⟨hmem, h⟩)
    · exact ⟨_, hmem, .inl rfl⟩
    · exact ⟨_, hmem, .inr h⟩
  · rintro ⟨e, hmem, rfl | h⟩
    · exact .own hmem
    · exact .entry hmem h

theorem hasKey_cons {e : String × Json} : (obj (e :: entries)).HasKey key ↔
    (e.1 = key ∨ e.2.HasKey key) ∨ (obj entries).HasKey key := by
  rw [hasKey_obj, hasKey_obj, List.exists_mem_cons_iff]

theorem HasKey.mono {more : List (String × Json)} (hsub : ∀ e ∈ entries, e ∈ more)
    (h : (obj entries).HasKey key) : (obj more).HasKey key := by
  obtain ⟨e, hmem, hkey⟩ := hasKey_obj.mp h
  exact hasKey_obj.mpr ⟨e, hsub e hmem, hkey⟩

theorem not_hasKey_ofStrings (texts : List String) : ¬ (ofStrings texts).HasKey key := by
  rintro (_ | _ | ⟨hmem, h⟩)
  obtain ⟨text, _, rfl⟩ := List.mem_map.mp hmem
  cases h

theorem HasKey.of_child? {step : String} (hchild : value.child? step = some inner)
    (h : inner.HasKey key) : value.HasKey key := by
  cases value with
  | obj entries => exact .entry (Entries.mem_of_get?_eq_some hchild) h
  | arr items =>
    obtain ⟨i, _, hi⟩ := Option.bind_eq_some_iff.mp hchild
    exact .item (List.mem_of_getElem? hi) h
  | _ => cases hchild

theorem HasKey.of_descend? {path : List String} (hinner : value.descend? path = some inner)
    (h : inner.HasKey key) : value.HasKey key := by
  induction path generalizing value with
  | nil =>
    cases hinner
    exact h
  | cons step rest ih =>
    rw [descend?, List.foldlM_cons, Option.bind_eq_bind, Option.bind_eq_some_iff] at hinner
    obtain ⟨child, hchild, hrest⟩ := hinner
    exact .of_child? hchild (ih hrest)

end Json

def Token.IsDeclaredKey (key : String) : Prop := key ≠ "name" ∧ key ≠ "path"

namespace Token

variable {t : Token} {key : String}

theorem hasKey_of_toJson (hkey : IsDeclaredKey key) (h : t.toJson.HasKey key) :
    (Json.obj t.parts).HasKey key := by
  obtain ⟨e, he, hkeyed⟩ := Json.hasKey_obj.mp h
  have hpart : e ∈ t.parts → (Json.obj t.parts).HasKey key := fun he =>
    Json.hasKey_obj.mpr ⟨e, he, hkeyed⟩
  have hmerge := Entries.mem_merge he
  simp only [List.mem_append, List.mem_singleton] at hmerge
  rcases hmerge with rfl | ((he | he) | he) | he
  · exact hpart List.mem_cons_self
  · exact hpart (List.mem_cons_of_mem _ (List.mem_append_left _ he))
  · rw [nameEntry] at he
    split at he
    · obtain rfl := List.mem_singleton.mp he
      rcases hkeyed with rfl | hinside
      · exact absurd rfl hkey.1
      · cases hinside
    · cases he
  · exact hpart (List.mem_cons_of_mem _ (List.mem_append_right _ he))
  · rw [pathEntry] at he
    split at he
    · cases he
    · obtain rfl := List.mem_singleton.mp he
      rcases hkeyed with rfl | hinside
      · exact absurd rfl hkey.2
      · exact absurd hinside (Json.not_hasKey_ofStrings _)

theorem hasKey_of_field? {field : String} {part : Json} (hpart : t.field? field = some part)
    (h : part.HasKey key) : (Json.obj t.parts).HasKey key := by
  rw [field?] at hpart
  split at hpart
  · cases hpart
    exact .entry List.mem_cons_self h
  split at hpart
  · obtain ⟨text, _, rfl⟩ := Option.map_eq_some_iff.mp hpart
    cases h
  split at hpart
  · cases hpart
    obtain ⟨e, he, _⟩ := Json.hasKey_obj.mp h
    have hattributes : ("attributes", Json.obj t.attributes) ∈ t.attributesEntry := by
      rw [attributesEntry, if_neg]
      · exact List.mem_singleton_self _
      · rw [List.isEmpty_iff]
        exact List.ne_nil_of_mem he
    exact .entry (List.mem_cons_of_mem _ (List.mem_append_right _ hattributes)) h
  split at hpart
  · cases hpart
    exact absurd h (Json.not_hasKey_ofStrings _)
  · exact .entry (List.mem_cons_of_mem _ (List.mem_append_left _
      (Entries.mem_of_get?_eq_some hpart))) h

theorem hasKey_of_referent? {name : String} {found : Referent} {rest : List String}
    (hfound : t.referent? name rest = some found) (h : found.value.HasKey key) :
    (Json.obj t.parts).HasKey key := by
  cases rest with
  | nil =>
    cases hfound
    exact .entry List.mem_cons_self h
  | cons field rest =>
    rw [referent?, Option.bind_eq_bind, Option.bind_eq_some_iff] at hfound
    obtain ⟨part, hpart, hrest⟩ := hfound
    obtain ⟨value, hvalue, heq⟩ := Option.bind_eq_some_iff.mp hrest
    cases heq
    exact hasKey_of_field? hpart (.of_descend? hvalue h)

end Token

section

variable {key : String}

mutual

theorem Node.hasKey_of_ofEntry (name : String) : ∀ value : Json,
    (Node.ofEntry name value).content.HasKey key → value.HasKey key
  | .obj entries, h => by
    rcases Node.ofEntry_cases name (.obj entries) with hsame | ⟨_, ⟨⟩, ⟨t, ht, htoken⟩ | hbranch⟩
    · rwa [hsame] at h
    · rw [htoken] at h
      exact h.mono fun _ => Token.mem_of_mem_parts ht
    · rw [hbranch] at h
      exact Dictionary.hasKey_of_ofEntries entries h
  | .null, h | .bool _, h | .num _, h | .str _, h | .arr _, h => by
    simp only [Node.ofEntry] at h
    split at h <;> exact h

theorem Dictionary.hasKey_of_ofEntries : ∀ entries : List (String × Json),
    (Json.obj (Dictionary.ofEntries entries).contents).HasKey key → (Json.obj entries).HasKey key
  | [], h => h
  | (name, value) :: rest, h => by
    rw [Dictionary.ofEntries, Dictionary.contents, Json.hasKey_cons] at h
    rw [Json.hasKey_cons]
    exact h.imp (Or.imp_right (Node.hasKey_of_ofEntry name value))
      (Dictionary.hasKey_of_ofEntries rest)

end

mutual

theorem Node.hasKey_of_toJson (hkey : Token.IsDeclaredKey key) : ∀ n : Node,
    n.toJson.HasKey key → n.content.HasKey key
  | .branch entries, h => Dictionary.hasKey_of_toEntries hkey entries h
  | .token _, h => Token.hasKey_of_toJson hkey h
  | .decorator _, h | .literal _, h => h

theorem Dictionary.hasKey_of_toEntries (hkey : Token.IsDeclaredKey key) : ∀ d : Dictionary,
    (Json.obj d.toEntries).HasKey key → (Json.obj d.contents).HasKey key
  | [], h => h
  | (name, node) :: rest, h => by
    rw [Dictionary.toEntries, Json.hasKey_cons] at h
    rw [Dictionary.contents, Json.hasKey_cons]
    exact h.imp (Or.imp_right (Node.hasKey_of_toJson hkey node))
      (Dictionary.hasKey_of_toEntries hkey rest)

end

end

namespace Node

variable {n m new : Node} {key : String} {path : List String}

theorem hasKey_of_at? (hat : n.at? path = some m) (h : m.content.HasKey key) :
    n.content.HasKey key := by
  induction path generalizing n with
  | nil =>
    obtain rfl : n = m := by simpa using hat
    exact h
  | cons step rest ih =>
    obtain ⟨entries, child, rfl, hget, hchild⟩ := at?_cons_eq_some_iff.mp hat
    exact .entry (Dictionary.mem_contents.mpr ⟨child, Entries.mem_of_get?_eq_some hget, rfl⟩)
      (ih hchild)

theorem hasKey_of_mem_path (hat : n.at? path = some m) (hkey : key ∈ path) :
    n.content.HasKey key := by
  induction path generalizing n with
  | nil => cases hkey
  | cons step rest ih =>
    obtain ⟨entries, child, rfl, hget, hchild⟩ := at?_cons_eq_some_iff.mp hat
    have hmem := Dictionary.mem_contents.mpr ⟨child, Entries.mem_of_get?_eq_some hget, rfl⟩
    rcases List.mem_cons.mp hkey with rfl | hkey
    · exact .own hmem
    · exact .entry hmem (ih hchild hkey)

theorem hasKey_of_withNode (h : (n.withNode path new).content.HasKey key) :
    n.content.HasKey key ∨ new.content.HasKey key := by
  induction path generalizing n with
  | nil =>
    rw [withNode_nil] at h
    exact .inr h
  | cons step rest ih =>
    cases hat : n.at? (step :: rest) with
    | none =>
      rw [withNode_of_at?_eq_none hat] at h
      exact .inl h
    | some m =>
      obtain ⟨entries, child, rfl, hget, hchild⟩ := at?_cons_eq_some_iff.mp hat
      have hmem := Dictionary.mem_contents.mpr ⟨child, Entries.mem_of_get?_eq_some hget, rfl⟩
      rw [withNode_branch_cons hget] at h
      obtain ⟨e, he, hkeyed⟩ := Json.hasKey_obj.mp h
      obtain ⟨node, hnode, hcontent⟩ := Dictionary.mem_contents.mp he
      rcases Entries.mem_insert hnode with hold | hnew
      · exact .inl (Json.hasKey_obj.mpr
          ⟨e, Dictionary.mem_contents.mpr ⟨node, hold, hcontent⟩, hkeyed⟩)
      · obtain ⟨hstep, rfl⟩ := Prod.mk.inj hnew
        rcases hkeyed with rfl | hinside
        · rw [hstep]
          exact .inl (.own hmem)
        · rw [← hcontent] at hinside
          exact (ih hinside).imp_left (.entry hmem)

end Node

namespace Dictionary

variable {d : Dictionary} {key : String}

theorem hasKey_of_lookupFrom (hkey : Token.IsDeclaredKey key) {walked target : List String}
    {found : Referent} (hfound : d.lookupFrom walked target = some found)
    (h : found.value.HasKey key) : (Json.obj d.contents).HasKey key := by
  induction target generalizing d walked with
  | nil => cases hfound
  | cons step rest ih =>
    have hinside : ∀ {node : Node}, Entries.get? d step = some node → node.content.HasKey key →
        (Json.obj d.contents).HasKey key := fun hget =>
      .entry (mem_contents.mpr ⟨_, Entries.mem_of_get?_eq_some hget, rfl⟩)
    rw [lookupFrom] at hfound
    split at hfound
    · cases hfound
    · next child hget =>
      split at hfound
      · cases hfound
        exact hinside hget (hasKey_of_toEntries hkey child h)
      · exact hinside hget (ih hfound)
    · next t hget => exact hinside hget (Token.hasKey_of_referent? hfound h)
    all_goals
      next value hget =>
      obtain ⟨inner, hinner, rfl⟩ := Option.map_eq_some_iff.mp hfound
      exact hinside hget (.of_descend? hinner h)

end Dictionary

namespace Mixin

variable {d : Dictionary} {path : List String} {key : String}

theorem hasKey_of_merged (hkey : Token.IsDeclaredKey key) {branch : Dictionary}
    {entries : Entries Json} (h : (merged path branch entries).content.HasKey key) :
    (Json.obj branch.contents).HasKey key ∨ (Json.obj entries).HasKey key := by
  have hmerge : (Json.obj (mergeEntries branch entries).contents).HasKey key := by
    rw [merged] at h
    split at h
    · split at h
      · exact Dictionary.hasKey_of_toEntries hkey _ (Node.hasKey_of_ofEntry _ _ h)
      · exact h
    · exact h
  obtain ⟨e, he, hkeyed⟩ := Json.hasKey_obj.mp hmerge
  obtain ⟨node, hnode, hcontent⟩ := Dictionary.mem_contents.mp he
  rcases mem_mergeEntries hnode with hold | ⟨value, hnew, hread⟩
  · exact .inl (Json.hasKey_obj.mpr
      ⟨e, Dictionary.mem_contents.mpr ⟨node, hold, hcontent⟩, hkeyed⟩)
  · refine .inr (Json.hasKey_obj.mpr ⟨_, hnew, hkeyed.imp_right fun hinside => ?_⟩)
    dsimp only at hread
    rw [← hcontent, hread] at hinside
    exact Node.hasKey_of_ofEntry _ _ hinside

theorem hasKey_of_step (hkey : Token.IsDeclaredKey key)
    (h : (Json.obj (step d path).1.contents).HasKey key) : (Json.obj d.contents).HasKey key := by
  rw [step] at h
  split at h
  · exact h
  · exact h
  · next entries hplan =>
    obtain ⟨branch, mixin, target, token, hbranch, _, hlookup, rfl⟩ := exists_target_of_plan hplan
    have hnode : ((Node.branch d).withNode path
        (merged path branch (overriding branch mixin))).content.HasKey key := by
      rw [← branch_mergeAt hbranch]
      exact h
    rcases Node.hasKey_of_withNode hnode with hold | hnew
    · exact hold
    rcases hasKey_of_merged hkey hnew with hold | hmixin
    · exact Node.hasKey_of_at? (n := .branch d) (Dictionary.branchAt?_eq_some_iff.mp hbranch) hold
    · exact Dictionary.hasKey_of_lookupFrom hkey hlookup
        (hmixin.mono fun _ => List.mem_of_mem_filter)

theorem hasKey_of_apply (hkey : Token.IsDeclaredKey key) {depth : Nat} {expanded : Dictionary}
    {faults : List MixinFault} (hmixin : apply depth d = some (expanded, faults))
    (h : (Json.obj expanded.contents).HasKey key) : (Json.obj d.contents).HasKey key :=
  visit_keeps (P := fun e => (Json.obj e.contents).HasKey key → (Json.obj d.contents).HasKey key)
    (fun _ _ hd hstep => hd (hasKey_of_step hkey hstep)) id hmixin h

end Mixin

namespace Dictionary

/-- No key has a point in it, and none inside tokens and decorators has. -/
def DotFreeThroughout (d : Dictionary) : Prop :=
  ∀ key, (Json.obj d.contents).HasKey key → '.' ∉ key.toList

theorem DotFreeThroughout.dotFree_apply {d expanded : Dictionary} (h : d.DotFreeThroughout)
    (hread : d.AsRead) {depth : Nat} {faults : List MixinFault}
    (hmixin : Mixin.apply depth d = some (expanded, faults)) : expanded.DotFree := by
  rintro ⟨path, t⟩ he key hmem
  have hdistinct := (Mixin.asRead_apply hread hmixin).wellFormed.distinct
  have hat : (Node.branch expanded).at? path = some (.token t) := by
    have htoken := (mem_tokens_iff hdistinct).mp he
    cases path with
    | nil => cases htoken
    | cons step rest => exact tokenAt?_eq_some_iff.mp htoken
  by_cases hkey : Token.IsDeclaredKey key
  · exact h key (Mixin.hasKey_of_apply hkey hmixin (Node.hasKey_of_mem_path hat hmem))
  · rw [Token.IsDeclaredKey, not_and_or, not_not, not_not] at hkey
    rcases hkey with rfl | rfl
    · decide
    · decide

end Dictionary

end DesignTokens
