import DesignTokens.Proofs.Dictionary.WellFormed
import DesignTokens.Proofs.Json.DistinctKeys

namespace DesignTokens

/-- No object in the parts of a token repeats a key. -/
structure Token.DistinctKeys (t : Token) : Prop where
  value : t.value.DistinctKeys
  attributes : (Json.obj t.attributes).DistinctKeys
  fields : (Json.obj t.fields).DistinctKeys

mutual

/-- A node as reading leaves it: keys are distinct, and a branch has no entry `value`. -/
def Node.AsRead : Node → Prop
  | .branch entries =>
    Entries.Distinct entries ∧ valueKey ∉ Entries.keys entries ∧ Dictionary.AsReadBelow entries
  | .token t => t.DistinctKeys
  | .decorator value | .literal value => value.DistinctKeys

def Dictionary.AsReadBelow : Dictionary → Prop
  | [] => True
  | (_, node) :: rest => node.AsRead ∧ Dictionary.AsReadBelow rest

end

/-- A tree as reading leaves it.  The root may have an entry `value`. -/
def Dictionary.AsRead (d : Dictionary) : Prop := Entries.Distinct d ∧ d.AsReadBelow

namespace Dictionary

variable {d : Dictionary} {key : String} {node : Node}

theorem asReadBelow_iff : d.AsReadBelow ↔ ∀ e ∈ d, e.2.AsRead := by
  induction d with
  | nil => simp [AsReadBelow]
  | cons e rest ih => simp [AsReadBelow, ih]

theorem asRead_branch_iff {entries : Dictionary} : (Node.branch entries).AsRead ↔
    valueKey ∉ Entries.keys entries ∧ entries.AsRead := by
  rw [Node.AsRead, AsRead]
  tauto

theorem AsRead.get? (h : d.AsRead) (hget : Entries.get? d key = some node) : node.AsRead :=
  asReadBelow_iff.mp h.2 _ (Entries.mem_of_get?_eq_some hget)

theorem AsRead.insert (h : d.AsRead) (hnode : node.AsRead) (key : String) :
    AsRead (Entries.insert d key node) := by
  refine ⟨h.1.insert key node, asReadBelow_iff.mpr fun e he => ?_⟩
  rcases Entries.mem_insert he with he | rfl
  · exact asReadBelow_iff.mp h.2 e he
  · exact hnode

theorem AsRead.branchAt? (h : d.AsRead) {path : List String} {branch : Dictionary}
    (hbranch : d.branchAt? path = some branch) : branch.AsRead := by
  induction path generalizing d with
  | nil =>
    cases hbranch
    exact h
  | cons key rest ih =>
    rw [Dictionary.branchAt?] at hbranch
    split at hbranch
    · next child hget => exact ih (asRead_branch_iff.mp (h.get? hget)).2 hbranch
    · cases hbranch

theorem AsRead.tokenAt? (h : d.AsRead) {path : List String} {t : Token}
    (ht : d.tokenAt? path = some t) : t.DistinctKeys := by
  induction path generalizing d with
  | nil => cases ht
  | cons key rest ih =>
    rw [tokenAt?_eq_some_iff, nodeAt?_cons, Option.bind_eq_some_iff] at ht
    obtain ⟨node, hget, hat⟩ := ht
    cases rest with
    | nil =>
      cases hat
      exact h.get? hget
    | cons next more =>
      cases node with
      | branch child =>
        exact ih (asRead_branch_iff.mp (h.get? hget)).2 (tokenAt?_eq_some_iff.mpr hat)
      | _ => cases hat

end Dictionary

namespace Token

variable {α : Type} {entries : Entries Json} {key : String} {shape : Json → Option α}

theorem distinctKeys_lift (h : (Json.obj entries).DistinctKeys) :
    (Json.obj (lift entries key shape).2).DistinctKeys := by
  rw [lift]
  split
  · exact h
  · next value hget =>
    split
    · exact h.filter _
    · exact (h.filter _).insert (h.get? hget) key

theorem shape_of_lift {part : α} (h : (lift entries key shape).1 = some part) :
    ∃ value, Entries.get? entries key = some value ∧ shape value = some part := by
  rw [lift] at h
  split at h
  · cases h
  · next value hget =>
    split at h
    · next hshape =>
      cases h
      exact ⟨value, hget, hshape⟩
    · cases h

theorem distinctKeys_ofParts {value : Json} (hvalue : value.DistinctKeys)
    (h : (Json.obj entries).DistinctKeys) : (ofParts value entries).DistinctKeys where
  value := hvalue
  attributes := by
    have hnamed : (Json.obj (lift entries "name" Json.asString?).2).DistinctKeys :=
      distinctKeys_lift h
    simp only [ofParts]
    cases hpart : (lift (lift entries "name" Json.asString?).2 "attributes" Json.asObject?).1 with
    | none => exact ⟨List.nodup_nil, trivial⟩
    | some attributes =>
      obtain ⟨found, hget, hshape⟩ := shape_of_lift hpart
      have hfound := hnamed.get? hget
      cases found with
      | obj inner =>
        cases hshape
        exact hfound
      | _ => cases hshape
  fields := distinctKeys_lift (distinctKeys_lift (distinctKeys_lift h))

end Token

namespace Dictionary

@[simp] theorem keys_ofEntries (entries : List (String × Json)) :
    Entries.keys (ofEntries entries) = Entries.keys entries := by
  induction entries with
  | nil => rfl
  | cons e rest ih =>
    rw [ofEntries, Entries.keys, List.map_cons, ← Entries.keys, ih]
    rfl

end Dictionary

mutual

theorem Node.asRead_ofEntry (key : String) : ∀ value : Json, value.DistinctKeys →
    (Node.ofEntry key value).AsRead
  | .null, h | .bool _, h | .num _, h | .str _, h | .arr _, h => by
    simp only [Node.ofEntry]
    split <;> exact h
  | .obj entries, h => by
    rw [Node.ofEntry]
    split
    · exact h
    · split
      · next t ht =>
        rw [Token.ofEntries?, Option.map_eq_some_iff] at ht
        obtain ⟨value, hget, rfl⟩ := ht
        exact Token.distinctKeys_ofParts (h.get? hget) (h.filter _)
      · next hnone =>
        rw [Token.ofEntries?, Option.map_eq_none_iff, Entries.get?_eq_none_iff] at hnone
        refine Dictionary.asRead_branch_iff.mpr ⟨?_, ?_, ?_⟩
        · rwa [Dictionary.keys_ofEntries]
        · rw [Entries.Distinct, Dictionary.keys_ofEntries]
          exact h.1
        · exact Dictionary.asReadBelow_ofEntries entries h.2

theorem Dictionary.asReadBelow_ofEntries : ∀ entries : List (String × Json),
    Json.DistinctEntries entries → (Dictionary.ofEntries entries).AsReadBelow
  | [], _ => trivial
  | (key, value) :: rest, h =>
    ⟨Node.asRead_ofEntry key value h.1, Dictionary.asReadBelow_ofEntries rest h.2⟩

end

theorem Dictionary.asRead_of_ofJson {value : Json} {d : Dictionary} (h : value.DistinctKeys)
    (hd : Dictionary.ofJson value = .ok d) : d.AsRead := by
  cases value with
  | obj entries =>
    cases hd
    refine ⟨?_, asReadBelow_ofEntries entries h.2⟩
    rw [Entries.Distinct, keys_ofEntries]
    exact h.1
  | _ => cases hd

theorem Token.distinctKeys_toJson {t : Token} (h : t.DistinctKeys) : t.toJson.DistinctKeys := by
  have hvalue : (Json.obj [(valueKey, t.value)]).DistinctKeys :=
    ⟨List.nodup_singleton _, h.value, trivial⟩
  apply hvalue.merge
  intro e he
  simp only [List.mem_append] at he
  rcases he with ((he | he) | he) | he
  · exact (Json.distinctKeys_obj.mp h.fields).2 e he
  · rw [nameEntry] at he
    split at he
    · rw [List.mem_singleton.mp he]
      trivial
    · cases he
  · rw [attributesEntry] at he
    split at he
    · cases he
    · rw [List.mem_singleton.mp he]
      exact h.attributes
  · rw [pathEntry] at he
    split at he
    · cases he
    · rw [List.mem_singleton.mp he]
      exact Json.distinctKeys_ofStrings _

theorem Token.distinctKeys_field? {t : Token} (h : t.DistinctKeys) {key : String} {part : Json}
    (hpart : t.field? key = some part) : part.DistinctKeys := by
  rw [Token.field?] at hpart
  split at hpart
  · cases hpart
    exact h.value
  split at hpart
  · obtain ⟨name, _, rfl⟩ := Option.map_eq_some_iff.mp hpart
    trivial
  split at hpart
  · cases hpart
    exact h.attributes
  split at hpart
  · cases hpart
    exact Json.distinctKeys_ofStrings _
  · exact h.fields.get? hpart

namespace Dictionary

@[simp] theorem keys_toEntries (d : Dictionary) : Entries.keys d.toEntries = Entries.keys d := by
  induction d with
  | nil => rfl
  | cons e rest ih =>
    rw [toEntries, Entries.keys, List.map_cons, ← Entries.keys, ih]
    rfl

theorem get?_toEntries (d : Dictionary) (key : String) :
    Entries.get? d.toEntries key = (Entries.get? d key).map Node.toJson := by
  induction d with
  | nil => rfl
  | cons e rest ih =>
    rw [toEntries, Entries.get?, Entries.get?, ih]
    split <;> rfl

end Dictionary

mutual

theorem Node.distinctKeys_toJson : ∀ n : Node, n.AsRead → n.toJson.DistinctKeys
  | .branch entries, h => by
    refine ⟨?_, Dictionary.distinctEntries_toEntries entries h.2.2⟩
    rw [Entries.Distinct, Dictionary.keys_toEntries]
    exact h.1
  | .token _, h => Token.distinctKeys_toJson h
  | .decorator _, h => h
  | .literal _, h => h

theorem Dictionary.distinctEntries_toEntries : ∀ d : Dictionary, d.AsReadBelow →
    Json.DistinctEntries d.toEntries
  | [], _ => trivial
  | (_, node) :: rest, h =>
    ⟨Node.distinctKeys_toJson node h.1, Dictionary.distinctEntries_toEntries rest h.2⟩

end

namespace Dictionary

variable {d : Dictionary}

theorem AsRead.distinctKeys_toJson (h : d.AsRead) : d.toJson.DistinctKeys := by
  refine ⟨?_, distinctEntries_toEntries d h.2⟩
  rw [Entries.Distinct, keys_toEntries]
  exact h.1

theorem AsRead.lookupFrom (h : d.AsRead) {walked path : List String} {found : Referent}
    (hfound : d.lookupFrom walked path = some found) : found.value.DistinctKeys := by
  induction path generalizing d walked with
  | nil => cases hfound
  | cons key rest ih =>
    rw [Dictionary.lookupFrom] at hfound
    split at hfound
    · cases hfound
    · next child hget =>
      have hchild := (asRead_branch_iff.mp (h.get? hget)).2
      split at hfound
      · cases hfound
        exact hchild.distinctKeys_toJson
      · exact ih hchild hfound
    · next t hget =>
      have ht : t.DistinctKeys := h.get? hget
      cases rest with
      | nil =>
        cases hfound
        exact ht.value
      | cons next rest =>
        rw [Token.referent?, Option.bind_eq_bind, Option.bind_eq_some_iff] at hfound
        obtain ⟨part, hpart, hrest⟩ := hfound
        rw [Option.bind_eq_some_iff] at hrest
        obtain ⟨value, hvalue, heq⟩ := hrest
        cases heq
        exact (Token.distinctKeys_field? ht hpart).descend? hvalue
    all_goals
      next value hget =>
      obtain ⟨inner, hinner, rfl⟩ := Option.map_eq_some_iff.mp hfound
      have hvalue : value.DistinctKeys := h.get? hget
      exact hvalue.descend? hinner

theorem AsRead.lookup (h : d.AsRead) {path : List String} {found : Referent}
    (hfound : d.lookup path = some found) : found.value.DistinctKeys :=
  h.lookupFrom hfound

end Dictionary

mutual

theorem Node.AsRead.distinctKeys : ∀ n : Node, n.AsRead → n.DistinctKeys
  | .branch entries, h => ⟨h.1, Dictionary.AsReadBelow.distinctBelow entries h.2.2⟩
  | .token _, _ | .decorator _, _ | .literal _, _ => trivial

theorem Dictionary.AsReadBelow.distinctBelow : ∀ d : Dictionary, d.AsReadBelow → d.DistinctBelow
  | [], _ => trivial
  | (_, node) :: rest, h =>
    ⟨Node.AsRead.distinctKeys node h.1, Dictionary.AsReadBelow.distinctBelow rest h.2⟩

end

mutual

theorem Node.AsRead.classified : ∀ n : Node, n.AsRead → n.Classified
  | .branch entries, h => ⟨h.2.1, Dictionary.AsReadBelow.classified entries h.2.2⟩
  | .token _, _ | .decorator _, _ | .literal _, _ => trivial

theorem Dictionary.AsReadBelow.classified : ∀ d : Dictionary, d.AsReadBelow → d.Classified
  | [], _ => trivial
  | (_, node) :: rest, h =>
    ⟨Node.AsRead.classified node h.1, Dictionary.AsReadBelow.classified rest h.2⟩

end

theorem Dictionary.AsRead.wellFormed {d : Dictionary} (h : d.AsRead) : d.WellFormed :=
  ⟨⟨h.1, AsReadBelow.distinctBelow d h.2⟩, AsReadBelow.classified d h.2⟩

end DesignTokens
