
namespace DesignTokens

/-- The code points `first`, `first + step`, … up to `last`. -/
structure CodePointRun where
  first : Nat
  last : Nat
  step : Nat
  deriving DecidableEq, Repr

namespace CodePointRun

def covers (r : CodePointRun) (n : Nat) : Bool :=
  r.first ≤ n && n ≤ r.last && (n - r.first) % r.step == 0

def coversAny (runs : List CodePointRun) (c : Char) : Bool :=
  runs.any (·.covers c.toNat)

end CodePointRun

end DesignTokens
