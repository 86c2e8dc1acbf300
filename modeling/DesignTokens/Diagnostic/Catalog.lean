import DesignTokens.Json.Basic
import DesignTokens.Diagnostic.Basic

namespace DesignTokens

structure CodeInfo where
  subsystem : String
  title : String
  messageTemplate : String
  docsUrl : Option String
  sinceVersion : String
  deriving DecidableEq, Repr

namespace Catalog

def docsPage (code : String) : String := "https://tokenc.dev/docs/errors/" ++ code

def entry (code subsystem title messageTemplate : String) : String × CodeInfo :=
  (code, { subsystem, title, messageTemplate, docsUrl := some (docsPage code)
           sinceVersion := "0.1.0" })

def codes : Entries CodeInfo := [
  entry "T-0-1" "internal" "Internal Error"
    "An internal error occurred. This is a bug in tokenc.",
  entry "T-1-1" "references" "Missing Reference"
    "A token references a path that is not defined in the dictionary.",
  entry "T-1-2" "references" "Circular Reference"
    "A chain of token references loops back on itself.",
  entry "T-1-3" "references" "Unresolved References"
    "Reference resolution stopped making progress before every token was resolved.",
  entry "T-2-1" "decorators" "Malformed @apply"
    "An @apply decorator must be shaped \x7bvalue: string\x7d.",
  entry "T-2-2" "decorators" "@apply Target Not An Object"
    "The path referenced by an @apply decorator does not resolve to an object.",
  entry "T-2-3" "decorators" "Malformed @group"
    "A @group decorator must be an object.",
  entry "T-3-1" "sources" "Property Collision"
    "A source file overwrites a value defined by an earlier source file."]

def info? (code : String) : Option CodeInfo := Entries.get? codes code

def docsUrl? (code : String) : Option String := (info? code).bind (·.docsUrl)

end Catalog

def Diagnostic.docsUrl? (d : Diagnostic) : Option String := d.code.bind Catalog.docsUrl?

end DesignTokens
