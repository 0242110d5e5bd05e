import ContainerSim.Lib.Digraph
import ContainerSim.Lib.Bytes
import ContainerSim.Lib.Decimal
import ContainerSim.Lib.Run
import ContainerSim.Sched.Scheduler
import ContainerSim.Runtime.Types
import ContainerSim.Runtime.Ops
import ContainerSim.Runtime.Lists
import ContainerSim.Runtime.Start
import ContainerSim.Runtime.Records
import ContainerSim.Runtime.Evolution
import ContainerSim.Runtime.Lifecycle
import ContainerSim.Orch.Spec
import ContainerSim.Orch.TopoSort
import ContainerSim.Orch.System
import ContainerSim.Orch.Moves
import ContainerSim.Orch.Shutdown
import ContainerSim.Orch.Calls
import ContainerSim.Orch.Security
import ContainerSim.Orch.RestartPolicy
import ContainerSim.Orch.RestartOnce
import ContainerSim.Orch.Ownership
import ContainerSim.Orch.Slots
import ContainerSim.Orch.Orphans
import ContainerSim.Runtime.Signals
import ContainerSim.Sched.Thread
import ContainerSim.Lib.Rotation
import ContainerSim.Sched.RoundRobin
import ContainerSim.Sched.Lost
import ContainerSim.Lib.Lines
import ContainerSim.Runtime.Metadata
import ContainerSim.Runtime.Restart
import ContainerSim.Orch.Json
import ContainerSim.Orch.JsonText
import ContainerSim.Orch.JsonRound
import ContainerSim.Orch.JsonValues
import ContainerSim.Orch.ParseSpec
import ContainerSim.Orch.Writes
import ContainerSim.Orch.HealthCount
import ContainerSim.Orch.HealthResults
import ContainerSim.Runtime.Pairing
import ContainerSim.Runtime.Rule
import ContainerSim.Runtime.Network
import ContainerSim.Lib.RingBuf
import ContainerSim.EventBus.Bus
import ContainerSim.EventBus.Persist
import ContainerSim.EventBus.Replay
import ContainerSim.EventBus.Emitters
import ContainerSim.EventBus.Follow
import ContainerSim.Image.Registry
import ContainerSim.Image.FiniteMap
import ContainerSim.Runtime.Appends
import ContainerSim.Runtime.Events
import ContainerSim.Orch.Document
import ContainerSim.Lib.Words
import ContainerSim.Cli.Flags
import ContainerSim.Cli.Command
import ContainerSim.Runtime.Addresses
import ContainerSim.Runtime.AddressPool
import ContainerSim.Lib.Pipe
import ContainerSim.Namespace.Handshake
import ContainerSim.Namespace.Moves
import ContainerSim.Namespace.Order
import ContainerSim.Namespace.Verdict
import ContainerSim.Runtime.Targets
import ContainerSim.Sched.Paused
import ContainerSim.Sched.Coverage
import ContainerSim.Orch.Lenient
import ContainerSim.Lib.Bpf
import ContainerSim.Security.Seccomp
import ContainerSim.Cli.Exec
import ContainerSim.Alerts.Table
import ContainerSim.Lib.JsonExact
import ContainerSim.Lib.OutBuf
import ContainerSim.Web.Escape
import ContainerSim.Alerts.AlertJson
import ContainerSim.EventBus.RecentJson
import ContainerSim.Runtime.ContainerJson
import ContainerSim.Web.ListJson
import ContainerSim.Lib.Scan
import ContainerSim.Web.Routes
import ContainerSim.Filesystem.CopyPath
import ContainerSim.Lib.JsonUnique
import ContainerSim.Runtime.LogTail
import ContainerSim.Lib.LinkedList
import ContainerSim.Runtime.Rollback
import ContainerSim.Runtime.Prune
import ContainerSim.Runtime.Reap
import ContainerSim.Orch.Backoff
import ContainerSim.Lib.OrderStat
import ContainerSim.Telemetry.Counters
import ContainerSim.Telemetry.Latency
import ContainerSim.Telemetry.Persistence
import ContainerSim.Telemetry.Restore
import ContainerSim.Telemetry.Plausible
import ContainerSim.Alerts.Sampling
import ContainerSim.Cli.FlagList
import ContainerSim.Cli.Limits
import ContainerSim.Cli.Tokens
import ContainerSim.EventBus.RecentWindow
import ContainerSim.Monitor.ProcStat
import ContainerSim.Filesystem.CopyTermination
import ContainerSim.Lib.Logged
import ContainerSim.Orch.JsonAccess
import ContainerSim.Orch.JsonBounds
import ContainerSim.Web.EscapeRoom
import ContainerSim.Web.Query
import ContainerSim.EventBus.RingInvariant
import ContainerSim.Lib.Filled
import ContainerSim.Sched.Table
import ContainerSim.Runtime.Pointers
import ContainerSim.Lib.AtomicFile
import ContainerSim.Runtime.CrashSafety
import ContainerSim.Image.Crashes
import ContainerSim.Lib.Privileges
import ContainerSim.Security.Confinement
import ContainerSim.Network.Commands
import ContainerSim.Network.Bridge
import ContainerSim.Network.Accounts
import ContainerSim.Lib.Jail
import ContainerSim.Filesystem.Isolate
import ContainerSim.Security.HostRoot
import ContainerSim.Runtime.LogFollow
import ContainerSim.Filesystem.Bootstrap
import ContainerSim.Web.Server
import ContainerSim.Telemetry.Torn
import ContainerSim.Runtime.Exit
import ContainerSim.Resource.Cgroup
import ContainerSim.Lib.Typing
import ContainerSim.Cli.Dispatch
import ContainerSim.Cli.Help
import ContainerSim.Cli.Shell
import ContainerSim.Lib.KeyLines
import ContainerSim.Monitor.ProcFiles
import ContainerSim.Runtime.StatsJson
