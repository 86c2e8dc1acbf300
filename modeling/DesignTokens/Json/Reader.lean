import DesignTokens.Json.Lexeme

namespace DesignTokens

inductive OpenValue
  | items (done : List Json)
  | entries (done : List (String × Json)) (key : String)
  deriving DecidableEq, Repr

inductive Expected
  | value
  | valueOrEnd
  | key (done : List (String × Json))
  | keyOrEnd
  | colon (done : List (String × Json)) (key : String)
  | separator
  | nothing (value : Json)
  deriving DecidableEq, Repr

structure JsonReader where
  stack : List OpenValue
  expected : Expected
  deriving DecidableEq, Repr

namespace JsonReader

def maxDepth : Nat := 127

def start : JsonReader := ⟨[], .value⟩

def complete (stack : List OpenValue) (value : Json) : JsonReader :=
  match stack with
  | [] => ⟨[], .nothing value⟩
  | .items done :: rest => ⟨.items (value :: done) :: rest, .separator⟩
  | .entries done key :: rest => ⟨.entries ((key, value) :: done) key :: rest, .separator⟩

def stepValue (r : JsonReader) : Lexeme → Except JsonFault JsonReader
  | .scalar value => .ok (complete r.stack value)
  | .openBracket =>
    if r.stack.length < maxDepth then .ok ⟨.items [] :: r.stack, .valueOrEnd⟩ else .error .tooDeep
  | .openBrace =>
    if r.stack.length < maxDepth then .ok ⟨r.stack, .keyOrEnd⟩ else .error .tooDeep
  | .bad fault => .error fault
  | .closeBracket | .closeBrace | .comma | .colon => .error .expectedValue

def stepKey (r : JsonReader) (done : List (String × Json)) : Lexeme → Except JsonFault JsonReader
  | .scalar (.str key) => .ok ⟨r.stack, .colon done key⟩
  | .bad .endInString => .error .endInString
  | _ => .error .expectedKey

def step (r : JsonReader) (lexeme : Lexeme) : Except JsonFault JsonReader :=
  match r.expected with
  | .value =>
    match r.stack, lexeme with
    | .items _ :: _, .closeBracket => .error .trailingComma
    | _, _ => r.stepValue lexeme
  | .valueOrEnd =>
    match r.stack, lexeme with
    | .items _ :: rest, .closeBracket => .ok (complete rest (.arr []))
    | _, _ => r.stepValue lexeme
  | .keyOrEnd =>
    match lexeme with
    | .closeBrace => .ok (complete r.stack (.obj []))
    | _ => r.stepKey [] lexeme
  | .key done =>
    match lexeme with
    | .closeBrace => .error .trailingComma
    | _ => r.stepKey done lexeme
  | .colon done key =>
    match lexeme with
    | .colon => .ok ⟨.entries done key :: r.stack, .value⟩
    | _ => .error .expectedColon
  | .separator =>
    match r.stack, lexeme with
    | .items _ :: _, .comma => .ok ⟨r.stack, .value⟩
    | .items done :: rest, .closeBracket => .ok (complete rest (.arr done.reverse))
    | .items _ :: _, _ => .error .expectedCommaOrBracket
    | .entries done _ :: rest, .comma => .ok ⟨rest, .key done⟩
    | .entries done _ :: rest, .closeBrace => .ok (complete rest (.obj done.reverse))
    | .entries _ _ :: _, _ => .error .expectedCommaOrBrace
    | [], _ => .error .trailingCharacters
  | .nothing _ => .error .trailingCharacters

def faultAtEnd (r : JsonReader) : JsonFault :=
  match r.expected, r.stack with
  | .valueOrEnd, _ => .endInList
  | .keyOrEnd, _ | .key _, _ | .colon _ _, _ => .endInObject
  | .separator, .entries _ _ :: _ => .endInObject
  | .separator, _ => .endInList
  | _, _ => .endInValue

def run (r : JsonReader) : List (Nat × Lexeme) → Except (Nat × JsonFault) Json
  | [] =>
    match r.expected with
    | .nothing value => .ok value
    | _ => .error (0, r.faultAtEnd)
  | (left, lexeme) :: rest =>
    match r.step lexeme with
    | .ok r => r.run rest
    | .error fault => .error (left, fault)

end JsonReader

structure JsonError where
  fault : JsonFault
  line : Nat
  column : Nat
  deriving DecidableEq, Repr

namespace JsonError

def message (e : JsonError) : String :=
  e.fault.message ++ " at line " ++ toString e.line ++ " column " ++ toString e.column

def after (read : List Char) (fault : JsonFault) : JsonError where
  fault := fault
  line := (read.filter (· == '\n')).length + 1
  column := (read.reverse.takeWhile (· != '\n')).foldl (· + ·.utf8Size) 0

end JsonError

namespace Json

/-- Reads a text as it is written: a repeated key of an object is kept every time. -/
def parseEntries (text : String) : Except JsonError Json :=
  let cs := text.toList
  match JsonReader.start.run (Lexeme.ofText cs) with
  | .ok value => .ok value
  | .error (left, fault) => .error (.after (cs.take (cs.length - left + 1)) fault)

def parse (text : String) : Except JsonError Json := (parseEntries text).map withDistinctKeys

end Json

end DesignTokens
