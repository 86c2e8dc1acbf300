import DesignTokens.Json.Numeral
import DesignTokens.Text.HexDigit

namespace DesignTokens

inductive JsonFault
  | endInValue
  | endInString
  | endInList
  | endInObject
  | expectedValue
  | expectedWord
  | expectedColon
  | expectedCommaOrBracket
  | expectedCommaOrBrace
  | expectedKey
  | trailingComma
  | trailingCharacters
  | invalidNumber
  | numberOutOfRange
  | controlCharacter
  | invalidEscape
  | loneSurrogate
  | tooDeep
  deriving DecidableEq, Repr

def JsonFault.message : JsonFault → String
  | .endInValue => "EOF while parsing a value"
  | .endInString => "EOF while parsing a string"
  | .endInList => "EOF while parsing a list"
  | .endInObject => "EOF while parsing an object"
  | .expectedValue => "expected value"
  | .expectedWord => "expected ident"
  | .expectedColon => "expected \x60:\x60"
  | .expectedCommaOrBracket => "expected \x60,\x60 or \x60]\x60"
  | .expectedCommaOrBrace => "expected \x60,\x60 or \x60\x7d\x60"
  | .expectedKey => "key must be a string"
  | .trailingComma => "trailing comma"
  | .trailingCharacters => "trailing characters"
  | .invalidNumber => "invalid number"
  | .numberOutOfRange => "number out of range"
  | .controlCharacter =>
    "control character (\\u0000-\\u001F) found while parsing a string"
  | .invalidEscape => "invalid escape"
  | .loneSurrogate => "lone leading surrogate in hex escape"
  | .tooDeep => "recursion limit exceeded"

inductive Lexeme
  | openBracket
  | closeBracket
  | openBrace
  | closeBrace
  | comma
  | colon
  | scalar (value : Json)
  | bad (fault : JsonFault)
  deriving DecidableEq, Repr

namespace Lexeme

def isBlank (c : Char) : Bool := c == ' ' || c == '\t' || c == '\n' || c == '\r'

def hex4? (a b c d : Char) : Option Nat := do
  let a ← Text.hexValue? a
  let b ← Text.hexValue? b
  let c ← Text.hexValue? c
  let d ← Text.hexValue? d
  return ((a * 16 + b) * 16 + c) * 16 + d

def simpleEscape? : Char → Option Char
  | '"' => some '"'
  | '\\' => some '\\'
  | '/' => some '/'
  | 'b' => some '\x08'
  | 'f' => some '\x0c'
  | 'n' => some '\n'
  | 'r' => some '\r'
  | 't' => some '\t'
  | _ => none

def pairValue (high low : Nat) : Char :=
  Char.ofNat (0x10000 + (high - 0xD800) * 0x400 + (low - 0xDC00))

/-- Reads a string up to its closing quote; `done` holds the characters read so far, backwards. -/
def string (done : List Char) : List Char → Except JsonFault (List Char × List Char)
  | [] => .error .endInString
  | '"' :: rest => .ok (done.reverse, rest)
  | '\\' :: 'u' :: a :: b :: c :: d :: rest =>
    match hex4? a b c d with
    | none => .error .invalidEscape
    | some n =>
      if 0xD800 ≤ n ∧ n < 0xDC00 then
        match rest with
        | '\\' :: 'u' :: e :: f :: g :: h :: rest =>
          match hex4? e f g h with
          | none => .error .invalidEscape
          | some m =>
            if 0xDC00 ≤ m ∧ m < 0xE000 then string (pairValue n m :: done) rest
            else .error .loneSurrogate
        | _ => .error .loneSurrogate
      else if 0xDC00 ≤ n ∧ n < 0xE000 then .error .loneSurrogate
      else string (Char.ofNat n :: done) rest
  | '\\' :: c :: rest =>
    match simpleEscape? c with
    | some e => string (e :: done) rest
    | none => .error .invalidEscape
  | c :: rest =>
    if c.toNat < 32 then .error .controlCharacter else string (c :: done) rest

def digits (cs : List Char) : List Char × List Char := cs.span (·.isDigit)

def missingDigits : List Char → JsonFault
  | [] => .endInValue
  | _ => .invalidNumber

def exponent : List Char → Except JsonFault (Option (Bool × List Char) × List Char)
  | c :: rest =>
    if c = 'e' ∨ c = 'E' then
      let (negative, rest) := match rest with
        | '-' :: rest => (true, rest)
        | '+' :: rest => (false, rest)
        | rest => (false, rest)
      match digits rest with
      | ([], rest) => .error (missingDigits rest)
      | (ds, rest) => .ok (some (negative, ds), rest)
    else .ok (none, c :: rest)
  | [] => .ok (none, [])

def fraction : List Char → Except JsonFault (Option (List Char) × List Char)
  | '.' :: rest =>
    match digits rest with
    | ([], rest) => .error (missingDigits rest)
    | (ds, rest) => .ok (some ds, rest)
  | rest => .ok (none, rest)

def numeral (cs : List Char) : Except JsonFault (Numeral × List Char) := do
  let (negative, rest) := match cs with
    | '-' :: rest => (true, rest)
    | rest => (false, rest)
  match digits rest with
  | ([], rest) => .error (missingDigits rest)
  | (whole, rest) =>
    if whole.head? = some '0' ∧ whole.length > 1 then .error .invalidNumber
    else
      let (fraction, rest) ← fraction rest
      let (exponent, rest) ← exponent rest
      return (⟨negative, whole, fraction, exponent⟩, rest)

def words : List (List Char × Json) :=
  [("null".toList, .null), ("true".toList, .bool true), ("false".toList, .bool false)]

def next (c : Char) (rest : List Char) : Lexeme × List Char :=
  match c with
  | '[' => (.openBracket, rest)
  | ']' => (.closeBracket, rest)
  | '\x7b' => (.openBrace, rest)
  | '\x7d' => (.closeBrace, rest)
  | ',' => (.comma, rest)
  | ':' => (.colon, rest)
  | '"' =>
    match string [] rest with
    | .ok (s, rest) => (.scalar (.str (String.ofList s)), rest)
    | .error fault => (.bad fault, [])
  | c =>
    if c = '-' ∨ c.isDigit then
      match numeral (c :: rest) with
      | .error fault => (.bad fault, [])
      | .ok (n, rest) =>
        match n.value? with
        | some value => (.scalar (.num value), rest)
        | none => (.bad .numberOutOfRange, [])
    else
      match words.find? fun w => w.1.isPrefixOf (c :: rest) with
      | some (word, value) => (.scalar value, (c :: rest).drop word.length)
      | none =>
        if words.any fun w => w.1.head? = some c then (.bad .expectedWord, [])
        else (.bad .expectedValue, [])

/-- The lexemes of a text, each with the number of characters from its start to the end of the text.
A bad lexeme is the last one. -/
def scan : Nat → List Char → List (Nat × Lexeme)
  | 0, _ => []
  | fuel + 1, cs =>
    match cs.dropWhile isBlank with
    | [] => []
    | c :: rest =>
      let (lexeme, after) := next c rest
      (rest.length + 1, lexeme) :: scan fuel after

def ofText (cs : List Char) : List (Nat × Lexeme) := scan cs.length cs

end Lexeme

end DesignTokens
