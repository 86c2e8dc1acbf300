import DesignTokens.Binary64.Decimal
import DesignTokens.Binary64.Read
import DesignTokens.Json.Printer
import DesignTokens.Text.Alphanumeric
import DesignTokens.Text.Blank
import DesignTokens.Transform.Basic

namespace DesignTokens

def Token.category? (t : Token) : Option String :=
  (Entries.get? t.attributes "category").bind Json.asString?

namespace Measure

def exponentText : List Char → List Char
  | c :: rest =>
    if c = 'e' ∨ c = 'E' then
      let (sign, rest) := match rest with
        | '-' :: rest => (['-'], rest)
        | '+' :: rest => (['+'], rest)
        | rest => ([], rest)
      match rest.takeWhile Text.isDecimalDigit with
      | [] => []
      | ds => c :: sign ++ ds
    else []
  | [] => []

def mantissaText? (cs : List Char) : Option (List Char × List Char) :=
  match cs.span Text.isDecimalDigit with
  | ([], '.' :: rest) =>
    match rest.span Text.isDecimalDigit with
    | ([], _) => none
    | (ds, rest) => some ('.' :: ds, rest)
  | ([], _) => none
  | (whole, '.' :: rest) =>
    let (ds, rest) := rest.span Text.isDecimalDigit
    some (whole ++ '.' :: ds, rest)
  | (whole, rest) => some (whole, rest)

/-- The number at the start of a text, after blanks: a sign, digits of any script with a point among
them, and an exponent, of which only the digits have to be there. -/
def numberText? (cs : List Char) : Option (List Char) :=
  let (sign, rest) := match Text.trimLeft cs with
    | '-' :: rest => (['-'], rest)
    | '+' :: rest => (['+'], rest)
    | rest => ([], rest)
  (mantissaText? rest).map fun (mantissa, rest) => sign ++ mantissa ++ exponentText rest

def numberIn? : Json → Option Binary64
  | .num n => some n.toBinary64
  | .str s => (numberText? s.toList).bind Binary64.parse?
  | _ => none

def onNumber (f : Binary64 → String) (value : Json) : Json :=
  match numberIn? value with
  | some n => .str (f n)
  | none => value

def noNumberEvents (transform : String) (t : Token) : List Event :=
  match numberIn? t.value with
  | some _ => []
  | none =>
    [⟨.warn, "value is not a number; leaving it unchanged",
      [("token", t.pathText), ("transform", transform), ("value", t.value.compact)]⟩]

def numberTransform (name category : String) (f : Entries Json → Binary64 → String) :
    Transform where
  name := name
  matcher := some fun t => t.category? == some category
  effect :=
    .value (fun o t => onNumber (f o.options) t.value) fun _ t => noNumberEvents name t

def standardFontSize : Binary64 := .ofInt 16

def basePxFontSize (options : Entries Json) : Binary64 :=
  match (Entries.get? options "basePxFontSize").bind numberIn? with
  | some base => if base.isZero then standardFontSize else base
  | none => standardFontSize

def sizePx : Transform := numberTransform "size/px" "size" fun _ n => n.text ++ "px"

def sizeRem : Transform := numberTransform "size/rem" "size" fun _ n => n.text ++ "rem"

def sizePxToRem : Transform :=
  numberTransform "size/pxToRem" "size" fun options n =>
    (n.div (basePxFontSize options)).text ++ "rem"

def timeSeconds : Transform :=
  numberTransform "time/seconds" "time" fun _ n => (n.div (.ofInt 1000)).textFixed2 ++ "s"

def quote (value : Json) : Json :=
  match value with
  | .str s => .str ("'" ++ s ++ "'")
  | value => .str ("'" ++ value.compact ++ "'")

def contentQuote : Transform where
  name := "content/quote"
  matcher := some fun t => t.category? == some "content"
  effect := .value (fun _ t => quote t.value) fun _ _ => []

end Measure

end DesignTokens
