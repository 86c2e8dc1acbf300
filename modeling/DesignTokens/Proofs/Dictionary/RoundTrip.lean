import DesignTokens.Proofs.Dictionary.Parts
import DesignTokens.Proofs.Json.Equality

namespace DesignTokens

mutual

def Json.withoutEmptyParts (key : String) : Json → Json
  | .obj entries =>
    if namesDecorator key then .obj entries
    else if Entries.contains entries valueKey then
      .obj (entries.filter fun e => !Token.isEmptyPart e)
    else .obj (Json.entriesWithoutEmptyParts entries)
  | value => value

def Json.entriesWithoutEmptyParts : List (String × Json) → List (String × Json)
  | [] => []
  | (key, value) :: rest =>
    (key, value.withoutEmptyParts key) :: Json.entriesWithoutEmptyParts rest

end

theorem Json.keys_entriesWithoutEmptyParts (entries : List (String × Json)) :
    Entries.keys (Json.entriesWithoutEmptyParts entries) = Entries.keys entries := by
  induction entries with
  | nil => rfl
  | cons e rest ih =>
    rw [Json.entriesWithoutEmptyParts, Entries.keys, List.map_cons, ← Entries.keys, ih]
    rfl

theorem Json.equal_entriesWithoutEmptyParts {entries : List (String × Json)}
    (h : Json.equalEntries (Dictionary.ofEntries entries).toEntries
      (Json.entriesWithoutEmptyParts entries) = true) :
    (Json.obj (Dictionary.ofEntries entries).toEntries).equal
      (.obj (Json.entriesWithoutEmptyParts entries)) = true := by
  have hkeys : Entries.keys (Dictionary.ofEntries entries).toEntries =
      Entries.keys (Json.entriesWithoutEmptyParts entries) := by
    rw [Dictionary.keys_toEntries, Dictionary.keys_ofEntries, Json.keys_entriesWithoutEmptyParts]
  have hlength := congrArg List.length hkeys
  rw [Entries.keys, Entries.keys, List.length_map, List.length_map] at hlength
  rw [Json.equal, Bool.and_eq_true, beq_iff_eq]
  exact ⟨hlength, h⟩

theorem Entries.Distinct.get?_entriesWithoutEmptyParts {entries : List (String × Json)}
    (h : Entries.Distinct entries) :
    ∀ e ∈ Json.entriesWithoutEmptyParts entries,
      Entries.get? (Json.entriesWithoutEmptyParts entries) e.1 = some e.2 := by
  rw [Entries.Distinct, ← Json.keys_entriesWithoutEmptyParts] at h
  exact fun _ he => Entries.Distinct.get?_eq_some h he

theorem Node.ofEntry_obj_cases (key : String) (entries : List (String × Json)) :
    (namesDecorator key = true ∧ Node.ofEntry key (.obj entries) = .decorator (.obj entries)) ∨
    (namesDecorator key = false ∧ Entries.contains entries valueKey = true ∧
      ∃ t, Token.ofEntries? entries = some t ∧ Node.ofEntry key (.obj entries) = .token t) ∨
    (namesDecorator key = false ∧ Entries.contains entries valueKey = false ∧
      Node.ofEntry key (.obj entries) = .branch (Dictionary.ofEntries entries)) := by
  rw [Node.ofEntry]
  cases hkey : namesDecorator key with
  | true => exact .inl ⟨rfl, rfl⟩
  | false =>
    rw [Entries.contains, Token.ofEntries?]
    cases hget : Entries.get? entries valueKey with
    | some value => exact .inr (.inl ⟨rfl, rfl, _, rfl, rfl⟩)
    | none => exact .inr (.inr ⟨rfl, rfl, rfl⟩)

mutual

theorem Node.ofEntry_toJson (key : String) : ∀ value : Json, value.DistinctKeys →
    Node.ofEntry key (Node.ofEntry key value).toJson = Node.ofEntry key value
  | .null, _ | .bool _, _ | .num _, _ | .str _, _ | .arr _, _ => by
    simp only [Node.ofEntry]
    split <;> simp_all [Node.toJson, Node.ofEntry]
  | .obj entries, h => by
    obtain ⟨_, hread⟩ | ⟨hkey, _, t, ht, hread⟩ | ⟨hkey, hvalue, hread⟩ :=
      Node.ofEntry_obj_cases key entries
    · rw [hread, Node.toJson, hread]
    · rw [hread, Node.toJson, Token.toJson, Node.ofEntry, hkey, if_neg Bool.false_ne_true,
        Token.ofEntries?_toEntries h.1 ht]
    · have hnone : Token.ofEntries? (Dictionary.ofEntries entries).toEntries = none := by
        rw [Token.ofEntries?, Option.map_eq_none_iff, Entries.get?_eq_none_iff,
          Dictionary.keys_toEntries, Dictionary.keys_ofEntries]
        exact Entries.contains_eq_false_iff.mp hvalue
      rw [hread, Node.toJson, Node.ofEntry, hkey, if_neg Bool.false_ne_true, hnone,
        Dictionary.ofEntries_toEntries entries h.2]

theorem Dictionary.ofEntries_toEntries : ∀ entries : List (String × Json),
    Json.DistinctEntries entries →
      Dictionary.ofEntries (Dictionary.ofEntries entries).toEntries = Dictionary.ofEntries entries
  | [], _ => rfl
  | (key, value) :: rest, h => by
    rw [Dictionary.ofEntries, Dictionary.toEntries, Dictionary.ofEntries,
      Node.ofEntry_toJson key value h.1, Dictionary.ofEntries_toEntries rest h.2]

end

mutual

theorem Node.equal_toJson_ofEntry (key : String) : ∀ value : Json, value.DistinctKeys →
    (Node.ofEntry key value).toJson.equal (value.withoutEmptyParts key) = true
  | .null, h | .bool _, h | .num _, h | .str _, h | .arr _, h => by
    simp only [Node.ofEntry]
    split <;> exact Json.equal_refl _ h
  | .obj entries, h => by
    obtain ⟨hkey, hread⟩ | ⟨hkey, hvalue, t, ht, hread⟩ | ⟨hkey, hvalue, hread⟩ :=
      Node.ofEntry_obj_cases key entries
    · rw [hread, Json.withoutEmptyParts, hkey, if_pos rfl]
      exact Json.equal_refl _ h
    · rw [hread, Json.withoutEmptyParts, hkey, if_neg Bool.false_ne_true, hvalue, if_pos rfl]
      exact Json.equal_of_perm (Token.perm_toEntries h.1 ht) (h.filter _)
    · rw [hread, Json.withoutEmptyParts, hkey, if_neg Bool.false_ne_true, hvalue,
        if_neg Bool.false_ne_true]
      exact Json.equal_entriesWithoutEmptyParts (Dictionary.equalEntries_toEntries_ofEntries entries
        _ h.2 h.1.get?_entriesWithoutEmptyParts)

theorem Dictionary.equalEntries_toEntries_ofEntries : ∀ (entries : List (String × Json))
    (others : Entries Json), Json.DistinctEntries entries →
      (∀ e ∈ Json.entriesWithoutEmptyParts entries, Entries.get? others e.1 = some e.2) →
        Json.equalEntries (Dictionary.ofEntries entries).toEntries others = true
  | [], _, _, _ => rfl
  | (key, value) :: rest, others, h, hothers => by
    rw [Json.entriesWithoutEmptyParts, List.forall_mem_cons] at hothers
    simp only [Dictionary.ofEntries, Dictionary.toEntries, Json.equalEntries, hothers.1,
      Bool.and_eq_true]
    exact ⟨Node.equal_toJson_ofEntry key value h.1,
      Dictionary.equalEntries_toEntries_ofEntries rest others h.2 hothers.2⟩

end

namespace Dictionary

/-- What an object declares is read again as it is from what is written for it, entry for entry and
in the same order.  What is written is the object, but for the order of entries and for empty parts
of tokens. -/
theorem ofJson_toJson_of_obj {entries : Entries Json} (h : (Json.obj entries).DistinctKeys) :
    ∃ d, ofJson (.obj entries) = .ok d ∧ ofJson d.toJson = .ok d ∧
      d.toJson.equal (.obj (Json.entriesWithoutEmptyParts entries)) = true := by
  refine ⟨ofEntries entries, rfl, ?_, ?_⟩
  · rw [toJson, ofJson, ofEntries_toEntries entries h.2]
  · exact Json.equal_entriesWithoutEmptyParts
      (equalEntries_toEntries_ofEntries entries _ h.2 h.1.get?_entriesWithoutEmptyParts)

def motley : Entries Json :=
  [("value", .num (.int 1)),
  ("@group", .obj [("value", .null), ("attributes", .obj [])]),
  ("misfits", .obj [("path", .arr [.str "a", .null]), ("name", .num (.int 3)),
    ("comment", .str "c"), ("value", .obj [("value", .null), ("path", .arr [])]),
    ("attributes", .obj [])]),
  ("group", .obj [("attributes", .obj []),
    ("parts", .obj [("attributes", .obj [("k", .bool true)]), ("path", .arr []),
      ("name", .str "n"), ("value", .arr [])])])]

theorem motley_is_read_again : (Json.obj motley).DistinctKeys ∧
    ∃ d, ofJson (.obj motley) = .ok d ∧ ofJson d.toJson = .ok d ∧
      d.toJson.equal (.obj (Json.entriesWithoutEmptyParts motley)) = true := by
  have h : (Json.obj motley).DistinctKeys := Json.distinctKeys_withDistinctKeys (.obj motley)
  exact ⟨h, ofJson_toJson_of_obj h⟩

end Dictionary

end DesignTokens
