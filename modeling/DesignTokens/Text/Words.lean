import DesignTokens.Text.Alphanumeric
import DesignTokens.Text.LetterCase
import DesignTokens.Text.Split

namespace DesignTokens.Text

def isWordBoundary (previous current : Char) (next : Option Char) : Bool :=
  ((isLowercase previous || previous.isDigit) && isUppercase current) ||
    (isUppercase previous && isUppercase current && (next.map isLowercase).getD false)

def wordsOfRun : List Char → List (List Char)
  | [] => []
  | [c] => [[c]]
  | c :: d :: rest =>
    if isWordBoundary c d rest.head? then [c] :: wordsOfRun (d :: rest)
    else consFirst c (wordsOfRun (d :: rest))

def words (cs : List Char) : List (List Char) :=
  (splitWhere (fun c => !isAlphanumeric c) cs).flatMap wordsOfRun

end DesignTokens.Text

namespace DesignTokens

def wordsOf (text : String) : List String := (Text.words text.toList).map String.ofList

end DesignTokens
