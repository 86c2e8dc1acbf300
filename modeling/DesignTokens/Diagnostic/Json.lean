import DesignTokens.Diagnostic.Catalog
import DesignTokens.Json.Decode

namespace DesignTokens

def Severity.word : Severity → String
  | .error => "error"
  | .warning => "warning"
  | .info => "info"
  | .note => "note"

def DetailMark.word : DetailMark → String
  | .error => "error"
  | .info => "info"
  | .note => "note"

def Severity.ofJson (value : Json) : Decoded Severity :=
  Decode.word ([error, warning, info, note].map fun kind => (kind.word, kind)) value

def DetailMark.ofJson (value : Json) : Decoded DetailMark :=
  Decode.word ([error, info, note].map fun kind => (kind.word, kind)) value

namespace Detail

def toJson (d : Detail) : Json := .obj [("kind", .str d.kind.word), ("content", .str d.content)]

def ofJson (value : Json) : Decoded Detail := do
  match ← Decode.fields ["kind", "content"] value with
  | [some kind, some content] => return ⟨← DetailMark.ofJson kind, ← Decode.text content⟩
  | [some _, none] => throw (.missingField "content")
  | _ => throw (.missingField "kind")

end Detail

namespace Diagnostic

def textEntry (key : String) : Option String → Entries Json
  | some s => [(key, .str s)]
  | none => []

def listEntry (key : String) (items : List Json) : Entries Json :=
  if items.isEmpty then [] else [(key, .arr items)]

def toJson (d : Diagnostic) : Json :=
  .obj <| textEntry "code" d.code ++ [("title", .str d.title), ("kind", .str d.kind.word)] ++
    textEntry "problem" d.problem ++ listEntry "details" (d.details.map Detail.toJson) ++
    listEntry "hints" (d.hints.map .str)

def fieldNames : List String := ["code", "title", "kind", "problem", "details", "hints"]

def parts (value : Json) : Decoded (List (Option Json)) :=
  match value with
  | .arr items => if items.length < 4 then throw (.wrongLength items.length)
    else Decode.fields fieldNames value
  | _ => Decode.fields fieldNames value

def required (key : String) : Option Json → Decoded Json
  | some value => return value
  | none => throw (.missingField key)

def ofJson (value : Json) : Decoded Diagnostic := do
  match ← parts value with
  | [code, title, kind, problem, details, hints] =>
    return {
      code := ← Decode.nullable Decode.text (code.getD .null)
      title := ← Decode.text (← required "title" title)
      kind := ← Severity.ofJson (← required "kind" kind)
      problem := ← Decode.nullable Decode.text (problem.getD .null)
      details := ← Decode.list Detail.ofJson (details.getD (.arr []))
      hints := ← Decode.list Decode.text (hints.getD (.arr [])) }
  | fields => throw (.wrongLength fields.length)

end Diagnostic

end DesignTokens
