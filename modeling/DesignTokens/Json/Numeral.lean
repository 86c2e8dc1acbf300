import DesignTokens.Json.Basic

/-!
The value of a JSON numeral.  A whole number that fits a 64-bit word stays an integer; any other
numeral becomes a binary64 number, from as many leading digits as fit an unsigned 64-bit word and a
power of ten, with one rounding for the digits and one for the power.
-/

namespace DesignTokens

structure Numeral where
  negative : Bool
  whole : List Char
  fraction : Option (List Char)
  exponent : Option (Bool × List Char)
  deriving DecidableEq, Repr

namespace Numeral

def digitValue (c : Char) : Nat := c.toNat - '0'.toNat

def natOfDigits (ds : List Char) : Nat := ds.foldl (fun n c => 10 * n + digitValue c) 0

def maxWord : Nat := Nat.pow 2 64 - 1

def wholePart : List Char → Nat × Nat → Nat × Nat
  | [], acc => acc
  | c :: rest, (digits, dropped) =>
    if dropped = 0 ∧ 10 * digits + digitValue c ≤ maxWord then
      wholePart rest (10 * digits + digitValue c, 0)
    else wholePart rest (digits, dropped + 1)

def fractionPart : List Char → Nat × Nat → Nat × Nat
  | [], acc => acc
  | c :: rest, (digits, taken) =>
    if 10 * digits + digitValue c ≤ maxWord then
      fractionPart rest (10 * digits + digitValue c, taken + 1)
    else (digits, taken)

/-- The quotient of a number and a power of ten, in steps of at most `10 ^ 308`. -/
def divPow10 (x : Binary64) (power : Nat) : Binary64 :=
  if power ≤ 308 then x.div (.ofDecimal false 1 power)
  else if x.isZero then x
  else divPow10 (x.div (.ofDecimal false 1 308)) (power - 308)
termination_by power

def scale (x : Binary64) (power : Int) : Option Binary64 :=
  if power < 0 then some (divPow10 x power.natAbs)
  else if x.isZero then some x
  else if 308 < power then none
  else match x.mul (.ofDecimal false 1 power) with
    | .infinite _ => none
    | y => some y

def float (negative : Bool) (digits : Nat) (power : Int) : Option Number :=
  match scale (.ofInt digits) power with
  | some (.finite x) => some (.float { x with negative := negative })
  | _ => none

def maxPower : Nat := Nat.pow 2 31 - 1

def value? (n : Numeral) : Option Number :=
  let (digits, dropped) := wholePart n.whole (0, 0)
  match n.fraction, n.exponent with
  | none, none =>
    if dropped ≠ 0 then float n.negative digits dropped
    else if !n.negative then some (.int digits)
    else if digits = 0 ∨ digits > Nat.pow 2 63 then float true digits 0
    else some (.int (-digits))
  | fraction, exponent =>
    let (digits, taken) := fractionPart (fraction.getD []) (digits, 0)
    let power : Int := dropped - taken
    match exponent with
    | none => float n.negative digits power
    | some (negativeExponent, ds) =>
      let e := natOfDigits ds
      if e > maxPower then
        if digits ≠ 0 ∧ !negativeExponent then none else some (.float (.zero n.negative))
      else float n.negative digits (if negativeExponent then power - e else power + e)

end Numeral

end DesignTokens
