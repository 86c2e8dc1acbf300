import DesignTokens.Yaml.Scalar

namespace DesignTokens.Yaml

def skipBlanks (ps : List Placed) : List Placed := ps.dropWhile fun p => isBlank p.char

/-- Leaves out blanks, comments and empty lines.  At the start of a line a tab is no blank, unless
`tabs` is set. -/
def toContent (tabs : Bool) : (comment : Bool) → List Placed → List Placed
  | _, [] => []
  | comment, p :: rest =>
    if p.char = '\n' then toContent tabs false rest
    else if comment then toContent tabs true rest
    else if p.char = ' ' ∨ (tabs = true ∧ p.char = '\t') then toContent tabs false rest
    else if p.char = '#' then toContent tabs true rest
    else p :: rest

def flowContent (ps : List Placed) : List Placed := toContent true false ps

def blockContent (ps : List Placed) : List Placed := toContent false false ps

def atLineEnd (ps : List Placed) : Bool := ps.isEmpty || startsWith ['\n', '#'] ps

def endLine (ps : List Placed) : Except YamlFault (List Placed) :=
  let ps := skipBlanks ps
  if atLineEnd ps then .ok (blockContent ps) else .error .unexpectedText

def startsItem : List Placed → Bool
  | [] => false
  | p :: rest => p.char == '-' && endsWord rest

def startsValue : List Placed → Bool
  | [] => false
  | p :: rest => p.char == ':' && endsWord rest

def keyText : Yaml → Except YamlFault String
  | .scalar text _ => .ok text
  | _ => .error .keyNotText

mutual

def flowValue : (fuel : Nat) → List Placed → Except YamlFault (Yaml × List Placed)
  | 0, _ | _, [] => .error .unclosedFlow
  | fuel + 1, p :: rest =>
    if p.char = '[' then flowItems fuel [] (flowContent rest)
    else if p.char = '\x7b' then flowEntries fuel [] (flowContent rest)
    else readScalar true 0 (p :: rest)

def flowItems : (fuel : Nat) → (done : List Yaml) → List Placed →
    Except YamlFault (Yaml × List Placed)
  | 0, _, _ | _, _, [] => .error .unclosedFlow
  | fuel + 1, done, p :: rest =>
    if p.char = ']' then .ok (.list done.reverse, rest)
    else do
      let (item, behind) ← flowItem fuel (p :: rest)
      match flowContent behind with
      | [] => throw .unclosedFlow
      | q :: rest =>
        if q.char = ',' then flowItems fuel (item :: done) (flowContent rest)
        else if q.char = ']' then return (.list (item :: done).reverse, rest)
        else throw .unclosedFlow

def flowItem : (fuel : Nat) → List Placed → Except YamlFault (Yaml × List Placed)
  | 0, _ => .error .unclosedFlow
  | fuel + 1, ps => do
    let (item, behind) ← flowValue fuel ps
    let content := flowContent behind
    if startsWith [':'] content then
      let key ← keyText item
      let (value, behind) ← flowEntryValue fuel content
      return (.map [(key, value)], behind)
    else return (item, behind)

def flowEntryValue : (fuel : Nat) → List Placed → Except YamlFault (Yaml × List Placed)
  | 0, _ => .error .unclosedFlow
  | _, [] => .ok (absent, [])
  | fuel + 1, p :: rest =>
    if p.char = ':' then
      let content := flowContent rest
      if startsWith [',', ']', '\x7d'] content then .ok (absent, content)
      else flowValue fuel content
    else .ok (absent, p :: rest)

def flowEntries : (fuel : Nat) → (done : List (String × Yaml)) → List Placed →
    Except YamlFault (Yaml × List Placed)
  | 0, _, _ | _, _, [] => .error .unclosedFlow
  | fuel + 1, done, p :: rest =>
    if p.char = '\x7d' then .ok (.map done.reverse, rest)
    else do
      let (key, behind) ← flowValue fuel (p :: rest)
      let key ← keyText key
      let (value, behind) ← flowEntryValue fuel (flowContent behind)
      match flowContent behind with
      | [] => throw .unclosedFlow
      | q :: rest =>
        if q.char = ',' then flowEntries fuel ((key, value) :: done) (flowContent rest)
        else if q.char = '\x7d' then return (.map ((key, value) :: done).reverse, rest)
        else throw .unclosedFlow

end

def inlineValue (fuel least : Nat) (ps : List Placed) : Except YamlFault (Yaml × List Placed) :=
  if startsWith ['[', '\x7b'] ps then flowValue fuel ps else readScalar false least ps

mutual

def blockValue : (fuel least : Nat) → List Placed → Except YamlFault (Yaml × List Placed)
  | 0, _, _ => .error .badIndentation
  | _, _, [] => .ok (absent, [])
  | fuel + 1, least, p :: rest =>
    if startsItem (p :: rest) then blockItems fuel p.column [] (p :: rest)
    else if p.char = '|' ∨ p.char = '>' then do
      let (value, behind) ← readBlock (p.char == '>') least rest
      return (value, blockContent behind)
    else do
      let (value, behind) ← inlineValue fuel least (p :: rest)
      if startsValue (skipBlanks behind) then blockEntries fuel p.column [] (p :: rest)
      else return (value, ← endLine behind)

def blockItems : (fuel column : Nat) → (done : List Yaml) → List Placed →
    Except YamlFault (Yaml × List Placed)
  | 0, _, _, _ => .error .badIndentation
  | fuel + 1, column, done, ps => do
    let rest := skipBlanks (ps.drop 1)
    let (item, next) ←
      if atLineEnd rest then
        let content := blockContent rest
        if content.head?.any (column < ·.column) then blockValue fuel (column + 1) content
        else pure (absent, content)
      else blockValue fuel (column + 1) rest
    match next with
    | [] => return (.list (item :: done).reverse, [])
    | q :: _ =>
      if q.column = column ∧ startsItem next then blockItems fuel column (item :: done) next
      else if q.column ≤ column then return (.list (item :: done).reverse, next)
      else throw .badIndentation

/-- Reads the value of a key in a column, from behind the colon.  A list below it may start in the
same column. -/
def entryValue : (fuel column : Nat) → List Placed → Except YamlFault (Yaml × List Placed)
  | 0, _, _ => .error .badIndentation
  | fuel + 1, column, ps =>
    match skipBlanks ps with
    | [] => .ok (absent, [])
    | p :: rest =>
      if atLineEnd (p :: rest) then
        let content := blockContent (p :: rest)
        if content.head?.any (column < ·.column) then blockValue fuel (column + 1) content
        else if content.head?.any (·.column == column) && startsItem content then
          blockItems fuel column [] content
        else .ok (absent, content)
      else if p.char = '|' ∨ p.char = '>' then do
        let (value, behind) ← readBlock (p.char == '>') (column + 1) rest
        return (value, blockContent behind)
      else do
        let (value, behind) ← inlineValue fuel (column + 1) (p :: rest)
        return (value, ← endLine behind)

def blockEntries : (fuel column : Nat) → (done : List (String × Yaml)) → List Placed →
    Except YamlFault (Yaml × List Placed)
  | 0, _, _, _ => .error .badIndentation
  | fuel + 1, column, done, ps => do
    let (key, behind) ← inlineValue fuel (column + 1) ps
    let key ← keyText key
    match skipBlanks behind with
    | [] => throw .expectedColon
    | p :: rest =>
      if p.char = ':' ∧ endsWord rest ∧ ps.head?.any (·.line == p.line) then
        let (value, next) ← entryValue fuel column rest
        match next with
        | [] => return (.map ((key, value) :: done).reverse, [])
        | q :: _ =>
          if q.column = column then blockEntries fuel column ((key, value) :: done) next
          else if q.column < column then return (.map ((key, value) :: done).reverse, next)
          else throw .badIndentation
      else throw .expectedColon

end

def unixLines : List Char → List Char
  | '\r' :: '\n' :: rest => '\n' :: unixLines rest
  | '\r' :: rest => '\n' :: unixLines rest
  | '\u0085' :: rest => '\n' :: unixLines rest
  | c :: rest => c :: unixLines rest
  | [] => []

def isAllowed (c : Char) : Bool :=
  let n := c.toNat
  n == 0x09 || n == 0x0A || n == 0x0D || (0x20 ≤ n && n ≤ 0x7E) || n == 0x85 ||
    (0xA0 ≤ n && n ≤ 0xFFFD && n != 0xFEFF) || 0x10000 ≤ n

def skipMark : List Placed → List Placed
  | p :: q :: r :: rest =>
    if p.column = 0 ∧ p.char = '-' ∧ q.char = '-' ∧ r.char = '-' ∧ endsWord rest then
      blockContent (skipBlanks rest)
    else p :: q :: r :: rest
  | ps => ps

/-- Reads a text.  Every second step of the readers takes a character at least. -/
def parse (text : String) : Except YamlFault Yaml := do
  let cs := match text.toList with
    | '\ufeff' :: rest => rest
    | cs => cs
  if !cs.all isAllowed then throw .controlCharacter
  let content := skipMark (blockContent (placed 0 0 (unixLines cs)))
  let (value, behind) ← blockValue (4 * content.length + 8) 0 content
  if behind.isEmpty then return value else throw .badIndentation

end DesignTokens.Yaml
