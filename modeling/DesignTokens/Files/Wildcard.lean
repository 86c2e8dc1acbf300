
namespace DesignTokens

inductive CharSpan
  | single (c : Char)
  | between (first last : Char)
  deriving DecidableEq, Repr

inductive Wildcard
  | char (c : Char)
  | anyChar
  | anyText
  | anyDirectories
  | oneOf (spans : List CharSpan)
  | noneOf (spans : List CharSpan)
  deriving DecidableEq, Repr

inductive WildcardFault
  | tooManyStars
  | notAlone
  | openBracket
  deriving DecidableEq, Repr

structure WildcardError where
  fault : WildcardFault
  position : Nat
  deriving DecidableEq, Repr

def WildcardFault.message : WildcardFault → String
  | .tooManyStars => "wildcards are either regular \x60*\x60 or recursive \x60**\x60"
  | .notAlone => "recursive wildcards must form a single path component"
  | .openBracket => "invalid range pattern"

def WildcardError.message (e : WildcardError) : String :=
  "Pattern syntax error near position " ++ toString e.position ++ ": " ++ e.fault.message

def CharSpan.has (c : Char) : CharSpan → Bool
  | .single s => c == s
  | .between first last => first ≤ c && c ≤ last

namespace Wildcard

def spans : List Char → List CharSpan
  | first :: '-' :: last :: rest => .between first last :: spans rest
  | c :: rest => .single c :: spans rest
  | [] => []

def closing? : List Char → Option (List Char × List Char)
  | [] => none
  | first :: cs =>
    match cs.span (· != ']') with
    | (_, []) => none
    | (inner, _ :: rest) => some (first :: inner, rest)

/-- Reads what follows an opening bracket.  There is at least one character between the brackets,
which may be a closing bracket itself. -/
def bracket? : List Char → Option (Wildcard × List Char)
  | '!' :: rest => (closing? rest).map fun (inner, rest) => (.noneOf (spans inner), rest)
  | rest => (closing? rest).map fun (inner, rest) => (.oneOf (spans inner), rest)

/-- Reads two stars at a position.  They stand alone between slashes and the ends of the pattern; a
slash behind them belongs to them. -/
def stars (position : Nat) (before : Option Char) (rest : List Char) :
    Except WildcardError (List Char) :=
  if before = none ∨ before = some '/' then
    match rest with
    | [] => .ok []
    | '/' :: rest => .ok rest
    | _ => .error ⟨.notAlone, position + 2⟩
  else .error ⟨.notAlone, position - 1⟩

def read : (fuel position : Nat) → (before : Option Char) → List Char →
    Except WildcardError (List Wildcard)
  | 0, _, _, _ => .ok []
  | _ + 1, _, _, [] => .ok []
  | fuel + 1, position, _, '?' :: rest =>
    return .anyChar :: (← read fuel (position + 1) (some '?') rest)
  | _ + 1, position, _, '*' :: '*' :: '*' :: _ => .error ⟨.tooManyStars, position + 2⟩
  | fuel + 1, position, before, '*' :: '*' :: rest => do
    let after ← stars position before rest
    let taken := 2 + (rest.length - after.length)
    return .anyDirectories ::
      (← read fuel (position + taken) (some (if taken = 2 then '*' else '/')) after)
  | fuel + 1, position, _, '*' :: rest =>
    return .anyText :: (← read fuel (position + 1) (some '*') rest)
  | fuel + 1, position, _, '[' :: rest =>
    match bracket? rest with
    | none => .error ⟨.openBracket, position⟩
    | some (w, after) => do
      return w :: (← read fuel (position + 1 + (rest.length - after.length)) (some ']') after)
  | fuel + 1, position, _, c :: rest =>
    return .char c :: (← read fuel (position + 1) (some c) rest)

def parse (text : String) : Except WildcardError (List Wildcard) :=
  read text.length 0 none text.toList

def fits (c : Char) : Wildcard → Bool
  | .char p => p == c
  | .anyChar => true
  | .oneOf spans => spans.any (·.has c)
  | .noneOf spans => !spans.any (·.has c)
  | .anyText | .anyDirectories => false

def isText : Wildcard → Bool
  | .anyText | .anyDirectories => true
  | _ => false

def ends : List Char → List (List Char)
  | [] => [[]]
  | c :: rest => (c :: rest) :: ends rest

def accepts : List Wildcard → List Char → Bool
  | [], cs => cs.isEmpty
  | w :: ws, cs =>
    if w.isText then (ends cs).any (accepts ws)
    else match cs with
      | [] => false
      | c :: rest => w.fits c && accepts ws rest

def literal? : List Wildcard → Option (List Char)
  | [] => some []
  | .char c :: ws => (literal? ws).map (c :: ·)
  | _ :: _ => none

end Wildcard

end DesignTokens
