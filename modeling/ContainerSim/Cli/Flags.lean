import ContainerSim.Runtime.PortMaps

/-!
# The flags of `run`, `runbg` and `create`

`parse_limit_flags`, with the capability names of `security.c`. A flag stands
alone or takes the word behind it; the first word that does not start with a
dash ends the flags.
-/

namespace ContainerSim.Cli

open Lib ContainerSim.Runtime

/-! ## Capabilities by name -/

/-- `security_config_none`. -/
def securityConfigNone : SecurityConfig :=
  { privileged := 1, readonlyRootfs := 0, capKeep := 0xFFFFFFFFFFFFFFFF, seccompEnabled := 0 }

/-- The capabilities from number `0` on, without `CAP_`. -/
def capNames : List Bytes :=
  ["CHOWN", "DAC_OVERRIDE", "DAC_READ_SEARCH", "FOWNER", "FSETID", "KILL", "SETGID", "SETUID",
    "SETPCAP", "LINUX_IMMUTABLE", "NET_BIND_SERVICE", "NET_BROADCAST", "NET_ADMIN", "NET_RAW",
    "IPC_LOCK", "IPC_OWNER", "SYS_MODULE", "SYS_RAWIO", "SYS_CHROOT", "SYS_PTRACE", "SYS_PACCT",
    "SYS_ADMIN", "SYS_BOOT", "SYS_NICE", "SYS_RESOURCE", "SYS_TIME", "SYS_TTY_CONFIG", "MKNOD",
    "LEASE", "AUDIT_WRITE", "AUDIT_CONTROL", "SETFCAP", "MAC_OVERRIDE", "MAC_ADMIN", "SYSLOG",
    "WAKE_ALARM", "BLOCK_SUSPEND", "AUDIT_READ"].map bytes

/-- `g_cap_names`. -/
def gCapNames : List (Bytes × Nat) :=
  capNames.zipIdx.flatMap fun x => [(bytes "CAP_" ++ x.1, x.2), (x.1, x.2)]

/-- `tolower` in the C locale. -/
def toLower (c : UInt8) : UInt8 := if 65 ≤ c ∧ c ≤ 90 then c + 32 else c

/-- `security_cap_number`; `none` for `-1`. -/
def securityCapNumber (name : Bytes) : Option Nat :=
  (gCapNames.find? fun x => name.map toLower = x.1.map toLower).map Prod.snd

/-- `security_cap_add`. -/
def securityCapAdd (cfg : SecurityConfig) (nr : Nat) : SecurityConfig :=
  if nr > 63 then cfg else { cfg with capKeep := cfg.capKeep ||| (1 <<< UInt64.ofNat nr) }

/-- `security_cap_drop`. -/
def securityCapDrop (cfg : SecurityConfig) (nr : Nat) : SecurityConfig :=
  if nr > 63 then cfg else { cfg with capKeep := cfg.capKeep &&& ~~~(1 <<< UInt64.ofNat nr) }

/-! ## The loop over the flags -/

/-- What the flags are written to; `none` is a NULL pointer. -/
structure LimitFlags where
  limits : ResourceConfig
  autoRemove : Option Bool
  portMaps : Option (List PortMapping)
  security : SecurityConfig
  deriving DecidableEq, Repr

/-- Before the flags of `run` and `runbg`. -/
def LimitFlags.run : LimitFlags :=
  { limits := ⟨0, 0, 0⟩, autoRemove := some false, portMaps := some []
    security := securityConfigDefault }

/-- Before the flags of `create`. -/
def LimitFlags.create : LimitFlags :=
  { limits := ⟨0, 0, 0⟩, autoRemove := none, portMaps := none, security := securityConfigDefault }

/-- `(unsigned int)strtoul(value, NULL, 10)`. -/
def limitValue (value : Bytes) : UInt32 := UInt32.ofNat (strtoul value)

/-- A flag that stands alone. -/
def plainFlag (flag : Bytes) : Option (LimitFlags → LimitFlags) :=
  if flag = bytes "--rm" then some fun f => { f with autoRemove := f.autoRemove.map fun _ => true }
  else if flag = bytes "--privileged" then some fun f => { f with security := securityConfigNone }
  else if flag = bytes "--read-only" then
    some fun f => { f with security := { f.security with readonlyRootfs := 1 } }
  else none

/-- A flag that takes a value. -/
def valueFlag (flag : Bytes) : Option (Bytes → LimitFlags → LimitFlags) :=
  if flag = bytes "--cpu" then
    some fun v f => { f with limits := { f.limits with cpuSeconds := limitValue v } }
  else if flag = bytes "--mem" then
    some fun v f => { f with limits := { f.limits with memoryMb := limitValue v } }
  else if flag = bytes "--pids" then
    some fun v f => { f with limits := { f.limits with maxProcesses := limitValue v } }
  else if flag = bytes "--publish" ∨ flag = bytes "-p" then
    some fun v f => { f with
      portMaps := f.portMaps.map fun maps =>
        if maps.length < maxPortMaps then
          maps ++ bridgeParsePortMaps v (maxPortMaps - maps.length)
        else maps }
  else if flag = bytes "--cap-add" then
    some fun v f => { f with
      security := (securityCapNumber v).elim f.security (securityCapAdd f.security) }
  else if flag = bytes "--cap-drop" then
    some fun v f => { f with
      security := (securityCapNumber v).elim f.security (securityCapDrop f.security) }
  else none

/-- `parse_limit_flags`: the values and the words from `*index` on; `none` for
an unknown flag or a missing value. -/
def parseLimitFlags : List Bytes → LimitFlags → Option (LimitFlags × List Bytes)
  | [], f => some (f, [])
  | flag :: args, f =>
    if flag.head? ≠ some 45 then some (f, flag :: args)
    else
      match plainFlag flag, valueFlag flag, args with
      | some set, _, args => parseLimitFlags args (set f)
      | none, some set, value :: args => parseLimitFlags args (set value f)
      | none, _, _ => none

/-- What the flags leave is the end of the words. -/
theorem parseLimitFlags_suffix {args rest : List Bytes} {f f' : LimitFlags}
    (h : parseLimitFlags args f = some (f', rest)) : rest <:+ args := by
  fun_induction parseLimitFlags args f with
  | case1 f =>
    cases h
    exact List.suffix_rfl
  | case2 flag args f hdash =>
    cases h
    exact List.suffix_rfl
  | case3 flag args f hdash set _ ih => exact (ih h).trans (List.suffix_cons _ _)
  | case4 flag f hdash _ set value args _ ih =>
    exact (ih h).trans ((List.suffix_cons _ _).trans (List.suffix_cons _ _))
  | case5 => cases h

end ContainerSim.Cli
