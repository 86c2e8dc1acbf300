import DesignTokens.Binary64.Read
import DesignTokens.Json.Basic
import DesignTokens.Text.HexDigit

namespace DesignTokens

inductive Yaml
  | scalar (text : String) (plain : Bool)
  | list (items : List Yaml)
  | map (entries : List (String × Yaml))
  deriving Inhabited, Repr

inductive YamlFault
  | controlCharacter
  | cannotStart
  | unclosedQuote
  | unknownEscape
  | unclosedFlow
  | unexpectedColon
  | unexpectedText
  | expectedColon
  | badIndentation
  | blockHeader
  | keyNotText
  | numberOutOfRange
  | tooDeep
  | wrongShape
  | repeatedField (key : String)
  deriving DecidableEq, Repr

def YamlFault.message : YamlFault → String
  | .controlCharacter => "control characters are not allowed"
  | .cannotStart => "found character that cannot start any token"
  | .unclosedQuote => "found unexpected end of stream"
  | .unknownEscape => "found unknown escape character"
  | .unclosedFlow => "did not find expected ',' or closing bracket"
  | .unexpectedColon => "found unexpected ':'"
  | .unexpectedText => "mapping values are not allowed in this context"
  | .expectedColon => "could not find expected ':'"
  | .badIndentation => "did not find expected key"
  | .blockHeader => "did not find expected comment or line break"
  | .keyNotText => "invalid type: key is no scalar"
  | .numberOutOfRange => "number out of range"
  | .tooDeep => "recursion limit exceeded"
  | .wrongShape => "invalid type"
  | .repeatedField key => "duplicate field \x60" ++ key ++ "\x60"

namespace Yaml

def absent : Yaml := .scalar "" true

def nullWords : List String := ["null", "Null", "NULL", "~"]

def boolWords : List (String × Bool) :=
  [("true", true), ("True", true), ("TRUE", true), ("false", false), ("False", false),
    ("FALSE", false)]

def nonFiniteWords : List String :=
  [".inf", ".Inf", ".INF", "+.inf", "+.Inf", "+.INF", "-.inf", "-.Inf", "-.INF", ".nan", ".NaN",
    ".NAN"]

def isNullWord (text : String) : Bool := text.isEmpty || nullWords.contains text

def natOfBase? (base : Nat) (ds : List Char) : Option Nat :=
  if ds.isEmpty then none
  else ds.foldlM (fun n c => do
    let d ← Text.hexValue? c
    if d < base then some (base * n + d) else none) 0

def natOfDigits? : List Char → Option Nat
  | '0' :: 'x' :: ds => natOfBase? 16 ds
  | '0' :: 'o' :: ds => natOfBase? 8 ds
  | '0' :: 'b' :: ds => natOfBase? 2 ds
  | ds => natOfBase? 10 ds

def hasLeadingZero (cs : List Char) : Bool :=
  match (Binary64.takeSign cs).2 with
  | '0' :: c :: rest => (c :: rest).all Char.isDigit
  | _ => false

def int? (cs : List Char) : Option Int :=
  if hasLeadingZero cs then none
  else
    let (negative, ds) := Binary64.takeSign cs
    (natOfDigits? ds).map fun n => if negative then -(n : Int) else n

def float? (cs : List Char) : Option Finite64 :=
  if hasLeadingZero cs then none
  else
    let (negative, rest) := Binary64.takeSign cs
    if rest.head? = some '+' ∨ rest.head? = some '-' then none
    else match Binary64.parse? (if negative then cs else rest) with
      | some (.finite x) => some x
      | _ => none

def isWord (n : Int) : Bool := -(Nat.pow 2 63 : Nat) ≤ n && n < (Nat.pow 2 64 : Nat)

def isDoubleWord (n : Int) : Bool := -(Nat.pow 2 127 : Nat) ≤ n && n < (Nat.pow 2 128 : Nat)

def otherValue (text : String) : Json :=
  match float? text.toList with
  | some x => .num (.float x)
  | none => .str text

def plainValue (text : String) : Except YamlFault Json :=
  if isNullWord text || nonFiniteWords.contains text then .ok .null
  else match boolWords.lookup text with
    | some b => .ok (.bool b)
    | none =>
      match int? text.toList with
      | some n =>
        if isWord n then .ok (.num (.int n))
        else if isDoubleWord n then .error .numberOutOfRange
        else .ok (otherValue text)
      | none => .ok (otherValue text)

mutual

def depth : Yaml → Nat
  | .scalar _ _ => 0
  | .list items => itemsDepth items + 1
  | .map entries => entriesDepth entries + 1

def itemsDepth : List Yaml → Nat
  | [] => 0
  | item :: rest => max (depth item) (itemsDepth rest)

def entriesDepth : List (String × Yaml) → Nat
  | [] => 0
  | (_, value) :: rest => max (depth value) (entriesDepth rest)

end

mutual

def anyToJson : Yaml → Except YamlFault Json
  | .scalar text plain => if plain then plainValue text else .ok (.str text)
  | .list items => return .arr (← itemsToJson items)
  | .map entries => return .obj (Entries.ofList (← entriesToJson entries))

def itemsToJson : List Yaml → Except YamlFault (List Json)
  | [] => .ok []
  | item :: rest => return (← anyToJson item) :: (← itemsToJson rest)

def entriesToJson : List (String × Yaml) → Except YamlFault (List (String × Json))
  | [] => .ok []
  | (key, value) :: rest => return (key, ← anyToJson value) :: (← entriesToJson rest)

end

def maxDepth : Nat := 128

def toJson (value : Yaml) : Except YamlFault Json :=
  if maxDepth < value.depth then .error .tooDeep else anyToJson value

def items : Yaml → Except YamlFault (List Yaml)
  | .list items => .ok items
  | .scalar "" true => .ok []
  | _ => .error .wrongShape

def entries : Yaml → Except YamlFault (List (String × Yaml))
  | .map entries => .ok entries
  | .scalar "" true => .ok []
  | _ => .error .wrongShape

def text : Yaml → Except YamlFault String
  | .scalar text _ => .ok text
  | _ => .error .wrongShape

def texts (value : Yaml) : Except YamlFault (List String) := do (← value.items).mapM text

def optionalText (value : Yaml) : Except YamlFault (Option String) := do
  match value with
  | .scalar s true => return if isNullWord s then none else some s
  | value => return some (← value.text)

def field (entries : List (String × Yaml)) (key : String) : Except YamlFault (Option Yaml) :=
  match entries.filter (·.1 == key) with
  | [] => .ok none
  | [(_, value)] => .ok (some value)
  | _ => .error (.repeatedField key)

end Yaml

end DesignTokens
