import DesignTokens.Diagnostic.Json
import DesignTokens.Proofs.Json.Decode

namespace DesignTokens

theorem Severity.ofJson_word (kind : Severity) : ofJson (.str kind.word) = .ok kind := by
  cases kind <;> rfl

theorem Detail.ofJson_toJson (d : Detail) : ofJson d.toJson = .ok d := by
  cases d with
  | mk kind content => cases kind <;> rfl

namespace Diagnostic

variable {key other : String}

theorem keys_textEntry (key : String) (s : Option String) :
    (Entries.keys (textEntry key s)).Sublist [key] := by
  cases s with
  | none => exact List.nil_sublist _
  | some s => exact List.Sublist.refl _

theorem keys_listEntry (key : String) (items : List Json) :
    (Entries.keys (listEntry key items)).Sublist [key] := by
  rw [listEntry]
  split
  · exact List.nil_sublist _
  · exact List.Sublist.refl _

theorem get?_textEntry (key : String) (s : Option String) (other : String) :
    Entries.get? (textEntry key s) other = if key = other then s.map .str else none := by
  cases s <;> simp [textEntry, Entries.get?]

def givenList (items : List Json) : Option Json := if items.isEmpty then none else some (.arr items)

theorem getD_givenList (items : List Json) : (givenList items).getD (.arr []) = .arr items := by
  cases items <;> rfl

theorem get?_listEntry (key : String) (items : List Json) (other : String) :
    Entries.get? (listEntry key items) other = if key = other then givenList items else none := by
  cases items with
  | nil => simp [listEntry, givenList, Entries.get?]
  | cons item rest => simp [listEntry, givenList, Entries.get?]

/-- The parts of a diagnostic that are written, each with its key. -/
def entries (d : Diagnostic) : Entries Json :=
  textEntry "code" d.code ++ [("title", .str d.title), ("kind", .str d.kind.word)] ++
    textEntry "problem" d.problem ++ listEntry "details" (d.details.map Detail.toJson) ++
    listEntry "hints" (d.hints.map .str)

theorem keys_entries (d : Diagnostic) : (Entries.keys d.entries).Sublist fieldNames := by
  simp only [entries, Entries.keys, List.map_append]
  exact ((((keys_textEntry "code" d.code).append (List.Sublist.refl ["title", "kind"])).append
    (keys_textEntry "problem" d.problem)).append (keys_listEntry "details" _)).append
    (keys_listEntry "hints" _)

theorem distinct_entries (d : Diagnostic) : Entries.Distinct d.entries :=
  List.Nodup.sublist d.keys_entries (by decide)

theorem parts_toJson (d : Diagnostic) : parts d.toJson =
    .ok [d.code.map .str, some (.str d.title), some (.str d.kind.word), d.problem.map .str,
      givenList (d.details.map Detail.toJson), givenList (d.hints.map .str)] := by
  have hparts : parts d.toJson = .ok (fieldNames.map (Entries.get? d.entries)) :=
    Decode.fields_obj d.distinct_entries fieldNames
  rw [hparts]
  simp [fieldNames, entries, Entries.get?_append, get?_textEntry, get?_listEntry, Entries.get?]

theorem ofJson_toJson (d : Diagnostic) : ofJson d.toJson = .ok d := by
  have hdetails : Decode.list Detail.ofJson
      ((givenList (d.details.map Detail.toJson)).getD (.arr [])) = .ok d.details := by
    rw [getD_givenList]
    exact Decode.list_map Detail.ofJson_toJson d.details
  have hhints : Decode.list Decode.text ((givenList (d.hints.map .str)).getD (.arr [])) =
      .ok d.hints := by
    rw [getD_givenList]
    exact Decode.list_text d.hints
  refine Except.bind_eq_ok_iff.mpr ⟨_, d.parts_toJson, ?_⟩
  simp only [Decode.nullable_text, hdetails, hhints, required, Decode.text, pure_bind,
    Severity.ofJson_word]
  rfl

end Diagnostic

end DesignTokens
