import DesignTokens.Binary64.Basic

namespace DesignTokens

structure Decimal where
  digits : Nat
  exponent : Int
  deriving DecidableEq, Repr

namespace Decimal

def compareScaled (a : Nat) (i : Int) (n : Nat) (j : Int) : Ordering :=
  compare (a * Nat.pow 10 i.toNat * Nat.pow 2 (-j).toNat)
    (n * Nat.pow 2 j.toNat * Nat.pow 10 (-i).toNat)

def digitChars (n : Nat) : List Char := Nat.toDigits 10 n

def stripZeros : Nat → Decimal → Decimal
  | 0, d => d
  | fuel + 1, d =>
    if d.digits ≠ 0 ∧ d.digits % 10 = 0 then stripZeros fuel ⟨d.digits / 10, d.exponent + 1⟩ else d

def normalize (d : Decimal) : Decimal := stripZeros d.digits.log2 d

def positional (d : Decimal) : List Char :=
  let ds := digitChars d.digits
  if 0 ≤ d.exponent then ds ++ List.replicate d.exponent.toNat '0'
  else
    let places := (-d.exponent).toNat
    if places < ds.length then ds.take (ds.length - places) ++ '.' :: ds.drop (ds.length - places)
    else '0' :: '.' :: (List.replicate (places - ds.length) '0' ++ ds)

def leadingExponent (d : Decimal) : Int := d.exponent + (digitChars d.digits).length - 1

def scientific (d : Decimal) : List Char :=
  let mantissa := match digitChars d.digits with
    | first :: next :: rest => first :: '.' :: next :: rest
    | ds => ds
  let e := d.leadingExponent
  mantissa ++ 'e' :: (if e < 0 then '-' else '+') :: digitChars e.natAbs

end Decimal

namespace Finite64

def readsBack (x : Finite64) (d : Decimal) : Bool :=
  let narrow := x.significand == Nat.pow 2 52 && x.exponent > -1074
  let low := if narrow then 4 * x.significand - 1 else 4 * x.significand - 2
  let high := 4 * x.significand + 2
  let closed := x.significand % 2 == 0
  let atLow := Decimal.compareScaled d.digits d.exponent low (x.exponent - 2)
  let atHigh := Decimal.compareScaled d.digits d.exponent high (x.exponent - 2)
  (atLow == .gt || (closed && atLow == .eq)) && (atHigh == .lt || (closed && atHigh == .eq))

def decimalWidth (x : Finite64) : Int :=
  let (num, den) := x.ratio
  if den ≤ num then (Decimal.digitChars (num / den)).length
  else 1 - (Decimal.digitChars ((den - 1) / num)).length

def onGrid (tie : Tie) (x : Finite64) (step : Int) : Option Decimal :=
  let (num, den) := x.ratio
  let num := num * Nat.pow 10 (-step).toNat
  let den := den * Nat.pow 10 step.toNat
  let below : Decimal := ⟨num / den, step⟩
  let above : Decimal := ⟨num / den + 1, step⟩
  match x.readsBack below, x.readsBack above with
  | true, true => some ⟨tie.roundDiv num den, step⟩
  | true, false => some below
  | false, true => some above
  | false, false => none

def shortest (tie : Tie) (x : Finite64) : Decimal :=
  if x.isZero then ⟨0, 0⟩
  else
    let grids := (List.range 17).map fun (n : Nat) => x.decimalWidth - 1 - (n : Int)
    ((grids.findSome? (x.onGrid tie)).getD ⟨x.significand, 0⟩).normalize

def sign (x : Finite64) : List Char := if x.negative then ['-'] else []

def fixed (places : Nat) (x : Finite64) : List Char :=
  let (num, den) := x.ratio
  let digits := Decimal.digitChars (Tie.roundDiv .toEven (num * Nat.pow 10 places) den)
  let digits := List.replicate (places + 1 - digits.length) '0' ++ digits
  digits.take (digits.length - places) ++ '.' :: digits.drop (digits.length - places)

end Finite64

namespace Binary64

/-- The text of a number in style names and sizes: the fewest digits, positional, no point in
integers, and words for the values that are not finite.  A tie between two shortest texts goes up.
-/
def text : Binary64 → String
  | .finite x => String.ofList (x.sign ++ (x.shortest .awayFromZero).positional)
  | .infinite negative => if negative then "-inf" else "inf"
  | .nan => "NaN"

def textFixed2 : Binary64 → String
  | .finite x => String.ofList (x.sign ++ x.fixed 2)
  | x => x.text

end Binary64

namespace Finite64

/-- The text of a number in JSON: the fewest digits, positional with at least one place if the
leading digit stands for a power of ten from -5 to 15, and with a power of ten otherwise. -/
def jsonText (x : Finite64) : String :=
  let d := x.shortest .toEven
  let magnitude :=
    if x.isZero || (-5 ≤ d.leadingExponent && d.leadingExponent < 16) then
      if 0 ≤ d.exponent then d.positional ++ ['.', '0'] else d.positional
    else d.scientific
  String.ofList (x.sign ++ magnitude)

end Finite64

end DesignTokens
