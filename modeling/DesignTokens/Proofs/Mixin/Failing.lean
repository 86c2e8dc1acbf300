import DesignTokens.Proofs.Diagnostic.Collector
import DesignTokens.Proofs.Mixin.Places

namespace DesignTokens

namespace Mixin

variable {d branch : Dictionary} {path more : List String} {directive : Json} {depth : Nat}
  {fault : MixinFault} {faults : List MixinFault} {key : String}

structure Reports (path : List String) (directive : Json) (m : Diagnostic) : Prop where
  code : m.code = some (if (targetOf? directive).isSome then "T-2-2" else "T-2-1")
  problem : ∃ rest, m.problem = some ("\x60@apply\x60 on " ++ locationText path ++ rest)

/-- A collector that gets the diagnostics of some faults holds one for a directive. -/
def Reported (c : Collector) (faults : List MixinFault) (path : List String) (directive : Json) :
    Prop :=
  ∃ m ∈ (c.addAll .decorators (faults.map MixinFault.diagnostic)).messages .decorators,
    Reports path directive m

end Mixin

end DesignTokens
