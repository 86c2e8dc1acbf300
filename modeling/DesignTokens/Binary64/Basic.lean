/-!
Binary64 numbers in exact integer arithmetic.  A finite number is a sign, a significand and a power
of two; every operation computes the exact result and rounds it once, to nearest with ties to even.
-/

namespace DesignTokens

inductive Tie
  | toEven
  | awayFromZero
  deriving DecidableEq, Repr

def Tie.roundDiv (tie : Tie) (num den : Nat) : Nat :=
  let quotient := num / den
  let rest := 2 * (num % den)
  if rest < den then quotient
  else if den < rest then quotient + 1
  else match tie with
    | .toEven => if quotient % 2 = 0 then quotient else quotient + 1
    | .awayFromZero => quotient + 1

/-- The significands and exponents of binary64 numbers.  A significand is below `2 ^ 52` only with
the least exponent. -/
def Canonical64 (significand : Nat) (exponent : Int) : Prop :=
  significand < Nat.pow 2 53 ∧ -1074 ≤ exponent ∧ exponent ≤ 971 ∧
    (exponent = -1074 ∨ Nat.pow 2 52 ≤ significand)

instance (significand : Nat) (exponent : Int) : Decidable (Canonical64 significand exponent) :=
  inferInstanceAs (Decidable (_ ∧ _))

structure Finite64 where
  negative : Bool
  significand : Nat
  exponent : Int
  canonical : Canonical64 significand exponent
  deriving DecidableEq, Repr

inductive Binary64
  | finite (x : Finite64)
  | infinite (negative : Bool)
  | nan
  deriving DecidableEq, Repr

namespace Finite64

def zero (negative : Bool) : Finite64 := ⟨negative, 0, -1074, by decide⟩

def isZero (x : Finite64) : Bool := x.significand == 0

def equal (x y : Finite64) : Bool := (x.isZero && y.isZero) || x == y

def ratio (x : Finite64) : Nat × Nat :=
  (x.significand * Nat.pow 2 x.exponent.toNat, Nat.pow 2 (-x.exponent).toNat)

end Finite64

namespace Binary64

def floorLog2 (num den : Nat) : Int :=
  let guess : Int := (num.log2 : Int) - den.log2
  if den * Nat.pow 2 guess.toNat ≤ num * Nat.pow 2 (-guess).toNat then guess else guess - 1

/-- The binary64 number nearest to a fraction, ties to the even significand.  What rounds to more than
the greatest one is infinite. -/
def ofRatio (negative : Bool) (num den : Nat) : Binary64 :=
  if num = 0 then .finite (.zero negative)
  else
    let exponent := max (-1074) (floorLog2 num den - 52)
    let significand :=
      Tie.roundDiv .toEven (num * Nat.pow 2 (-exponent).toNat) (den * Nat.pow 2 exponent.toNat)
    let (significand, exponent) :=
      if significand = Nat.pow 2 53 then (Nat.pow 2 52, exponent + 1) else (significand, exponent)
    if h : Canonical64 significand exponent then .finite ⟨negative, significand, exponent, h⟩
    else .infinite negative

/-- The binary64 number nearest to `digits * 10 ^ exponent`.  Powers far outside the range are
decided without being computed. -/
def ofDecimal (negative : Bool) (digits : Nat) (exponent : Int) : Binary64 :=
  if digits = 0 then .finite (.zero negative)
  else if exponent > 308 then .infinite negative
  else if 3 * exponent + digits.log2 + 1 < -1075 then .finite (.zero negative)
  else ofRatio negative (digits * Nat.pow 10 exponent.toNat) (Nat.pow 10 (-exponent).toNat)

def ofInt (n : Int) : Binary64 := ofRatio (n < 0) n.natAbs 1

def isZero : Binary64 → Bool
  | .finite x => x.isZero
  | _ => false

def mul : Binary64 → Binary64 → Binary64
  | .nan, _ | _, .nan => .nan
  | .infinite a, .infinite b => .infinite (a != b)
  | .infinite a, .finite y => if y.isZero then .nan else .infinite (a != y.negative)
  | .finite x, .infinite b => if x.isZero then .nan else .infinite (x.negative != b)
  | .finite x, .finite y =>
    ofRatio (x.negative != y.negative) (x.ratio.1 * y.ratio.1) (x.ratio.2 * y.ratio.2)

def div : Binary64 → Binary64 → Binary64
  | .nan, _ | _, .nan => .nan
  | .infinite _, .infinite _ => .nan
  | .infinite a, .finite y => .infinite (a != y.negative)
  | .finite x, .infinite b => .finite (.zero (x.negative != b))
  | .finite x, .finite y =>
    let negative := x.negative != y.negative
    if y.isZero then (if x.isZero then .nan else .infinite negative)
    else ofRatio negative (x.ratio.1 * y.ratio.2) (x.ratio.2 * y.ratio.1)

end Binary64

end DesignTokens
