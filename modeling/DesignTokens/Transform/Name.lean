import DesignTokens.Text.Words
import DesignTokens.Transform.Basic

namespace DesignTokens.NameStyle

def pathWords (options : Entries Json) (path : List String) : List (List Char) :=
  (((Entries.get? options "prefix").bind Json.asString?).toList ++ path).flatMap
    fun text => Text.words text.toList

def joined (separator : List Char) (words : List (List Char)) : List Char :=
  separator.intercalate words

def kebab (words : List (List Char)) : List Char := joined ['-'] (words.map Text.lowercase)

def snake (words : List (List Char)) : List Char := joined ['_'] (words.map Text.lowercase)

def constant (words : List (List Char)) : List Char := joined ['_'] (words.map Text.uppercase)

def pascal (words : List (List Char)) : List Char := joined [] (words.map Text.capitalize)

def camel : List (List Char) → List Char
  | [] => []
  | first :: rest => Text.lowercase first ++ pascal rest

def transform (name : String) (style : List (List Char) → List Char) : Transform where
  name := name
  matcher := none
  effect := .name fun o t => String.ofList (style (pathWords o.options t.path))

end DesignTokens.NameStyle
