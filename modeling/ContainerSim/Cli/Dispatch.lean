import ContainerSim.Cli.Exec
import ContainerSim.EventBus.Bus
import ContainerSim.Image.Registry
import ContainerSim.Alerts.Table

/-!
# The commands of the shell

What `main` makes of the words of a line, and `cmd_orch` of those behind `orch`:
the call they lead to, or the message that tells how the command is used.
-/

namespace ContainerSim.Cli

open Lib ContainerSim.Runtime ContainerSim.Alerts ContainerSim.Image

/-- What the loop of `events` over its options leaves behind. -/
structure EventsOptions where
  follow : Bool
  n : Int32
  filter : Option EventBus.EventType
  /-- the types it did not find -/
  unknown : List Bytes
  deriving DecidableEq, Repr

/-- Before the loop. -/
def EventsOptions.init : EventsOptions :=
  { follow := false, n := 20, filter := none, unknown := [] }

end ContainerSim.Cli
