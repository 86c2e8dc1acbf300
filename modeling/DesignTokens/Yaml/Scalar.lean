import DesignTokens.Text.Split
import DesignTokens.Yaml.Basic

namespace DesignTokens

structure Placed where
  char : Char
  line : Nat
  column : Nat
  deriving DecidableEq, Repr

namespace Yaml

def placed : (line column : Nat) → List Char → List Placed
  | _, _, [] => []
  | line, column, c :: rest =>
    ⟨c, line, column⟩ ::
      if c = '\n' then placed (line + 1) 0 rest else placed line (column + 1) rest

def isBlank (c : Char) : Bool := c == ' ' || c == '\t'

def endsWord : List Placed → Bool
  | [] => true
  | p :: _ => isBlank p.char || p.char == '\n'

inductive Gap
  | blanks (cs : List Char)
  | breaks (lines : Nat)
  | joined (lines : Nat)
  deriving DecidableEq, Repr

def Gap.text : Gap → List Char
  | .blanks cs => cs
  | .breaks 0 => []
  | .breaks 1 => [' ']
  | .breaks (n + 2) => List.replicate (n + 1) '\n'
  | .joined n => List.replicate n '\n'

/-- A scalar of which a part is read: its characters, backwards, and the gap behind them. -/
structure Folding where
  done : List Char
  gap : Gap
  deriving DecidableEq, Repr

namespace Folding

def start : Folding := ⟨[], .blanks []⟩

def char (f : Folding) (c : Char) : Folding := ⟨c :: (f.gap.text ++ f.done), .blanks []⟩

def blank (f : Folding) (c : Char) : Folding :=
  match f.gap with
  | .blanks cs => { f with gap := .blanks (c :: cs) }
  | _ => f

def newline (f : Folding) : Folding :=
  match f.gap with
  | .blanks _ => { f with gap := .breaks 1 }
  | .breaks n => { f with gap := .breaks (n + 1) }
  | .joined n => { f with gap := .joined (n + 1) }

def joinLines (f : Folding) : Folding := ⟨f.gap.text ++ f.done, .joined 0⟩

def atLineStart (f : Folding) : Bool :=
  match f.gap with
  | .blanks _ => false
  | _ => true

def text (f : Folding) : List Char := (f.gap.text ++ f.done).reverse

end Folding

/-- Reads a text in single quotes from behind the first one.  A quote is written twice in it. -/
def singleQuoted : (afterQuote : Bool) → Folding → List Placed →
    Except YamlFault (List Char × List Placed)
  | true, f, [] => .ok (f.text, [])
  | false, _, [] => .error .unclosedQuote
  | true, f, p :: rest =>
    if p.char = '\'' then singleQuoted false (f.char '\'') rest else .ok (f.text, p :: rest)
  | false, f, p :: rest =>
    if p.char = '\'' then singleQuoted true f rest
    else if p.char = '\n' then singleQuoted false f.newline rest
    else if isBlank p.char then singleQuoted false (f.blank p.char) rest
    else singleQuoted false (f.char p.char) rest

inductive Escape
  | none
  | opened
  | digits (missing value : Nat)
  deriving DecidableEq, Repr

def escapes : List (Char × Char) :=
  [('0', '\x00'), ('a', '\x07'), ('b', '\x08'), ('t', '\t'), ('\t', '\t'), ('n', '\n'),
    ('v', '\x0b'), ('f', '\x0c'), ('r', '\r'), ('e', '\x1b'), (' ', ' '), ('"', '"'),
    ('\'', '\''), ('/', '/'), ('\\', '\\'), ('N', '\u0085'), ('_', '\u00a0'), ('L', '\u2028'),
    ('P', '\u2029')]

def codeEscapes : List (Char × Nat) := [('x', 1), ('u', 3), ('U', 7)]

def doubleQuoted : Escape → Folding → List Placed → Except YamlFault (List Char × List Placed)
  | _, _, [] => .error .unclosedQuote
  | .none, f, p :: rest =>
    if p.char = '"' then .ok (f.text, rest)
    else if p.char = '\\' then doubleQuoted .opened f rest
    else if p.char = '\n' then doubleQuoted .none f.newline rest
    else if isBlank p.char then doubleQuoted .none (f.blank p.char) rest
    else doubleQuoted .none (f.char p.char) rest
  | .opened, f, p :: rest =>
    if p.char = '\n' then doubleQuoted .none f.joinLines rest
    else match codeEscapes.lookup p.char, escapes.lookup p.char with
      | some missing, _ => doubleQuoted (.digits missing 0) f rest
      | none, some c => doubleQuoted .none (f.char c) rest
      | none, none => .error .unknownEscape
  | .digits missing value, f, p :: rest =>
    match Text.hexValue? p.char with
    | none => .error .unknownEscape
    | some d =>
      let value := 16 * value + d
      match missing with
      | missing + 1 => doubleQuoted (.digits missing value) f rest
      | 0 =>
        if value.isValidChar then doubleQuoted .none (f.char (Char.ofNat value)) rest
        else .error .unknownEscape

def indicators : List Char :=
  ['-', '?', ':', ',', '[', ']', '\x7b', '\x7d', '#', '&', '*', '!', '|', '>', '\'', '"', '%', '@',
    '\x60']

def flowIndicators : List Char := [',', '[', ']', '\x7b', '\x7d']

def startsPlain (flow : Bool) : List Placed → Bool
  | [] => false
  | p :: rest =>
    if p.char = '-' then !endsWord rest
    else if p.char = '?' ∨ p.char = ':' then !flow && !endsWord rest
    else !(isBlank p.char || p.char == '\n' || indicators.contains p.char)

def startsWith (cs : List Char) : List Placed → Bool
  | [] => false
  | p :: _ => cs.contains p.char

/-- Reads a plain scalar.  It goes on in the lines below that are indented by `least` columns,
between brackets in all lines; `behind` is what follows its last character. -/
def plain (flow : Bool) (least : Nat) : Folding → (behind : List Placed) → List Placed →
    Except YamlFault (List Char × List Placed)
  | f, behind, [] => .ok (f.done.reverse, behind)
  | f, behind, p :: rest =>
    if p.char = '\n' then plain flow least f.newline behind rest
    else if isBlank p.char then plain flow least (f.blank p.char) behind rest
    else if !flow && f.atLineStart && p.column < least then .ok (f.done.reverse, behind)
    else if p.char = '#' ∧ f.gap ≠ .blanks [] then .ok (f.done.reverse, behind)
    else if p.char = ':' ∧ endsWord rest then .ok (f.done.reverse, behind)
    else if flow && flowIndicators.contains p.char then .ok (f.done.reverse, behind)
    else if flow && p.char = ':' && startsWith ('?' :: flowIndicators) rest then
      .error .unexpectedColon
    else plain flow least (f.char p.char) rest rest

def readScalar (flow : Bool) (least : Nat) (ps : List Placed) :
    Except YamlFault (Yaml × List Placed) :=
  match ps with
  | [] => .error .cannotStart
  | p :: rest => do
    if p.char = '"' then
      let (text, rest) ← doubleQuoted .none .start rest
      return (.scalar (String.ofList text) false, rest)
    else if p.char = '\'' then
      let (text, rest) ← singleQuoted false .start rest
      return (.scalar (String.ofList text) false, rest)
    else if startsPlain flow ps then
      let (text, rest) ← plain flow least .start ps ps
      return (.scalar (String.ofList text) true, rest)
    else throw .cannotStart

inductive Chomp
  | strip
  | clip
  | keep
  deriving DecidableEq, Repr

structure BlockStyle where
  folded : Bool
  chomp : Chomp
  indent : Option Nat
  deriving DecidableEq, Repr

def chomp? : List Char → Option (Chomp × List Char)
  | '-' :: rest => some (.strip, rest)
  | '+' :: rest => some (.keep, rest)
  | _ => none

def indent? : List Char → Option (Nat × List Char)
  | c :: rest =>
    if '1' ≤ c ∧ c ≤ '9' then some (c.toNat - '0'.toNat, rest) else none
  | [] => none

def blockMarks (cs : List Char) : Option Chomp × Option Nat × List Char :=
  match chomp? cs with
  | some (chomp, rest) =>
    match indent? rest with
    | some (n, rest) => (some chomp, some n, rest)
    | none => (some chomp, none, rest)
  | none =>
    match indent? cs with
    | some (n, rest) =>
      match chomp? rest with
      | some (chomp, rest) => (some chomp, some n, rest)
      | none => (none, some n, rest)
    | none => (none, none, cs)

def isEmptyEnd (cs : List Char) : Bool :=
  match cs with
  | [] => true
  | c :: rest => isBlank c && ((rest.dropWhile isBlank).head?.all (· == '#'))

/-- Splits off a line.  There is nothing behind the last one, not even its end. -/
def takeLine : List Placed → List Char × Option (List Placed)
  | [] => ([], none)
  | p :: rest =>
    if p.char = '\n' then ([], some rest)
    else
      let (line, behind) := takeLine rest
      (p.char :: line, behind)

/-- The indentation of a block: that of its first line with text, or of an emptier line before it,
if that is larger. -/
def blockIndent (lines : List (List Char)) : Nat :=
  let (empty, rest) := lines.span (·.all (· == ' '))
  let first := ((rest.head?.getD []).takeWhile (· == ' ')).length
  (empty.map List.length).foldl max first

/-- The lines of a block without their indentation, whether the last of them has an end, and what
follows the block. -/
def blockLines (indent : Nat) : (fuel : Nat) → List Placed → List (List Char) × Bool × List Placed
  | 0, ps => ([], true, ps)
  | fuel + 1, ps =>
    let rest := ps.dropWhile fun p => p.char == ' ' && p.column < indent
    match rest with
    | [] => ([], true, [])
    | p :: below =>
      if p.char = '\n' then
        let (lines, ended, behind) := blockLines indent fuel below
        ([] :: lines, ended, behind)
      else if p.column < indent then ([], true, ps)
      else match takeLine rest with
        | (line, none) => ([line], false, [])
        | (line, some below) =>
          let (lines, ended, behind) := blockLines indent fuel below
          (line :: lines, ended, behind)

def startsBlank (line : List Char) : Bool := line.head?.any isBlank

def lineBreak (folded : Bool) (before line : List Char) (empty : Nat) : List Char :=
  if folded && !startsBlank before && !startsBlank line then
    if empty = 0 then [' '] else List.replicate empty '\n'
  else List.replicate (empty + 1) '\n'

def blockText (folded : Bool) : (before : Option (List Char)) → (empty : Nat) → List (List Char) →
    List Char × Nat
  | _, empty, [] => ([], empty)
  | before, empty, [] :: rest => blockText folded before (empty + 1) rest
  | before, empty, line :: rest =>
    let (text, left) := blockText folded (some line) 0 rest
    let gap := match before with
      | none => List.replicate empty '\n'
      | some before => lineBreak folded before line empty
    (gap ++ line ++ text, left)

def blockEnd (chomp : Chomp) (ended : Bool) (text : List Char) (empty : Nat) : List Char :=
  let last := if text.isEmpty || !ended then [] else ['\n']
  match chomp with
  | .strip => []
  | .clip => last
  | .keep => last ++ List.replicate empty '\n'

/-- Reads a block from behind the character that starts it.  It is indented by `least` columns at
least. -/
def readBlock (folded : Bool) (least : Nat) (ps : List Placed) :
    Except YamlFault (Yaml × List Placed) :=
  let (header, below) := takeLine ps
  let (chomp, indent, rest) := blockMarks header
  if !isEmptyEnd rest then .error .blockHeader
  else
    let below := below.getD []
    let indent := match indent with
      | some n => least - 1 + n
      | none => max (max (blockIndent (Text.splitAt '\n' (below.map (·.char)))) least) 1
    let (lines, ended, behind) := blockLines indent (below.length + 1) below
    let (text, empty) := blockText folded none 0 lines
    let whole := text ++ blockEnd (chomp.getD .clip) ended text empty
    .ok (.scalar (String.ofList whole) false, behind)

end Yaml

end DesignTokens
