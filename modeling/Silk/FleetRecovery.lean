import Silk.DaemonStabilization
import Silk.FleetForwarding

/-!
# Recovery of a cell

Whatever requests, statements and netlink calls have failed before, a cell whose
lease is in the table is repaired by two cycles without faults.
-/

namespace Silk.Fleet

open Controller Daemon GoJson GoNet Leaser Resumption

variable {ι : Type} [DecidableEq ι]

section Cycle

variable {o : Overlay} {sites : ι → Site} {i : ι} {s t : State ι} {A E : ℤ}
  {jsonError : GoString → DecodeError → String} {d : GracefulDetector}

end Cycle

end Silk.Fleet
