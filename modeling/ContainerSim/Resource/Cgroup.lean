import ContainerSim.Lib.Decimal
import ContainerSim.Lib.Run
import ContainerSim.Runtime.Types
import Mathlib.Logic.Function.Basic

/-!
# Control groups

`resource_try_cgroup` makes a directory under `/sys/fs/cgroup` for a container,
writes its limits and moves its first process there; `resource_cleanup_cgroup`
removes the directory once the container has ended. Over any run the processes of
a container for which it worked are in its own group and in no other, under the
limits of its own that the kernel took, and no directory is left behind
(`limits_in_force`).
-/

namespace ContainerSim.Resource

open Lib ContainerSim.Runtime

/-! ## The file system of the kernel -/

/-- The limits of a group, as its files read. -/
structure Limits where
  memoryMax : Bytes
  memorySwapMax : Bytes
  pidsMax : Bytes
  deriving DecidableEq, Repr

/-- Those of a new group. -/
def Limits.fresh : Limits := ⟨bytes "max\n", bytes "max\n", bytes "max\n"⟩

/-- The groups by their paths, and which process is in which; one that is not
listed is elsewhere. -/
structure CgroupFs where
  groups : Bytes → Option Limits
  member : List (Int × Bytes)

namespace CgroupFs

def put (fs : CgroupFs) (path : Bytes) (l : Option Limits) : CgroupFs :=
  { fs with groups := Function.update fs.groups path l }

/-- A write to `cgroup.procs`. -/
def join (fs : CgroupFs) (pid : Int) (path : Bytes) : CgroupFs :=
  { fs with member := (pid, path) :: fs.member.filter fun p => p.1 ≠ pid }

/-- Only a group without processes can be removed. -/
def rmdir (fs : CgroupFs) (path : Bytes) : CgroupFs :=
  if fs.member.all fun p => p.2 ≠ path then fs.put path none else fs

end CgroupFs

/-! ## The functions -/

/-- The files that `write_cgroup_file` writes. -/
inductive CgroupFile where
  | memoryMax
  | memorySwapMax
  | pidsMax
  | procs
  deriving DecidableEq, Repr

/-- Whether a `mkdir` of what is not there works, and a `write_cgroup_file`. -/
structure CgroupOutcome where
  mkdir : Bool
  write : CgroupFile → Bool

/-- `cgroup_path` -/
def cgroupPath (containerId : Bytes) : Bytes :=
  snprintfStr 256 (bytes "/sys/fs/cgroup" ++ 47 :: containerId)

/-- The value for `memory.max`. -/
def memoryText (config : ResourceConfig) : Bytes :=
  fmtNat (config.memoryMb.toNat * 1024 * 1024) ++ [10]

/-- The value for `pids.max`. -/
def pidsText (config : ResourceConfig) : Bytes := fmtNat config.maxProcesses.toNat ++ [10]

/-- `memory.max` and, as far as it goes, `memory.swap.max`. -/
def memoryLimits (o : CgroupOutcome) (config : ResourceConfig) (l : Limits) : Option Limits :=
  if config.memoryMb = 0 then some l
  else if o.write .memoryMax then
    let l := { l with memoryMax := memoryText config }
    some (if o.write .memorySwapMax then { l with memorySwapMax := bytes "0\n" } else l)
  else none

/-- `pids.max`, as far as it goes. -/
def pidsLimit (o : CgroupOutcome) (config : ResourceConfig) (l : Limits) : Limits :=
  if config.maxProcesses ≠ 0 ∧ o.write .pidsMax then { l with pidsMax := pidsText config } else l

/-- `resource_try_cgroup` from the files on, in a group with the limits `l`. -/
def writeLimits (o : CgroupOutcome) (path : Bytes) (config : ResourceConfig) (pid : Int)
    (l : Limits) (fs : CgroupFs) : CgroupFs × Int :=
  match memoryLimits o config l with
  | none => (fs.rmdir path, -1)
  | some l =>
    let fs := fs.put path (some (pidsLimit o config l))
    if o.write .procs then (fs.join pid path, 0) else (fs.rmdir path, -1)

/-- `resource_try_cgroup`. A group that is there is used. -/
def resourceTryCgroup (o : CgroupOutcome) (containerId : Option Bytes)
    (config : Option ResourceConfig) (pid : Int) (fs : CgroupFs) : CgroupFs × Int :=
  match containerId, config with
  | some id, some config =>
    if pid ≤ 0 then (fs, -1)
    else
      let path := cgroupPath id
      match fs.groups path with
      | some l => writeLimits o path config pid l fs
      | none =>
        if !o.mkdir then (fs, -1)
        else writeLimits o path config pid .fresh (fs.put path (some .fresh))
  | _, _ => (fs, -1)

/-- `resource_cleanup_cgroup`. -/
def resourceCleanupCgroup (containerId : Option Bytes) (fs : CgroupFs) : CgroupFs :=
  match containerId with
  | none => fs
  | some id => fs.rmdir (cgroupPath id)

/-! ## What they do -/

/-- The limits of a container are in force in a group that had `base`: `memory.max`
always, the other two wherever the file could be written. A limit that is not set
stays what it was. -/
structure InForce (config : ResourceConfig) (o : CgroupOutcome) (base l : Limits) : Prop where
  memory : l.memoryMax = if config.memoryMb = 0 then base.memoryMax else memoryText config
  swap : l.memorySwapMax =
    if config.memoryMb ≠ 0 ∧ o.write .memorySwapMax = true then bytes "0\n" else base.memorySwapMax
  pids : l.pidsMax =
    if config.maxProcesses ≠ 0 ∧ o.write .pidsMax = true then pidsText config else base.pidsMax

variable {o : CgroupOutcome} {config : ResourceConfig} {pid : Int} {id path : Bytes}
  {fs fs' : CgroupFs}

@[simp] theorem CgroupFs.groups_put_self (fs : CgroupFs) (path : Bytes) (l : Option Limits) :
    (fs.put path l).groups path = l := by
  simp [CgroupFs.put]

theorem CgroupFs.groups_put_of_ne {path' : Bytes} (h : path' ≠ path) (l : Option Limits) :
    (fs.put path l).groups path' = fs.groups path' := by
  simp [CgroupFs.put, h]

theorem CgroupFs.put_put (fs : CgroupFs) (path : Bytes) (l l' : Option Limits) :
    (fs.put path l).put path l' = fs.put path l' := by
  simp [CgroupFs.put]

theorem CgroupFs.rmdir_empty (hempty : ∀ q, (q, path) ∉ fs.member) :
    fs.rmdir path = fs.put path none := by
  refine if_pos ?_
  rw [List.all_eq_true]
  intro p hp
  rw [decide_eq_true_eq]
  rintro rfl
  exact hempty p.1 hp

theorem CgroupFs.join_new (hnew : ∀ path, (pid, path) ∉ fs.member) (path : Bytes) :
    fs.join pid path = { fs with member := (pid, path) :: fs.member } := by
  have hfilter : fs.member.filter (fun p => p.1 ≠ pid) = fs.member := by
    rw [List.filter_eq_self]
    intro p hp
    rw [decide_eq_true_eq]
    rintro rfl
    exact hnew p.2 hp
  rw [CgroupFs.join, hfilter]

/-- The memory limits are in force, and that on processes is not touched. -/
theorem memoryLimits_spec {base l : Limits} (h : memoryLimits o config base = some l) :
    l.memoryMax = (if config.memoryMb = 0 then base.memoryMax else memoryText config) ∧
      l.memorySwapMax = (if config.memoryMb ≠ 0 ∧ o.write .memorySwapMax = true then bytes "0\n"
        else base.memorySwapMax) ∧
      l.pidsMax = base.pidsMax := by
  unfold memoryLimits at h
  split at h
  · rename_i hzero
    cases h
    exact ⟨(if_pos hzero).symm, (if_neg fun hset => hset.1 hzero).symm, rfl⟩
  · rename_i hmemory
    rw [if_neg hmemory]
    split at h
    · cases h
      cases o.write .memorySwapMax with
      | true => exact ⟨rfl, (if_pos ⟨hmemory, rfl⟩).symm, rfl⟩
      | false => exact ⟨rfl, (if_neg fun hset => Bool.false_ne_true hset.2).symm, rfl⟩
    · cases h

theorem inForce_pidsLimit {base l : Limits} (h : memoryLimits o config base = some l) :
    InForce config o base (pidsLimit o config l) := by
  obtain ⟨hmemory, hswap, hpids⟩ := memoryLimits_spec h
  unfold pidsLimit
  split
  · rename_i hwritten
    exact ⟨hmemory, hswap, (if_pos hwritten).symm⟩
  · rename_i hnot
    exact ⟨hmemory, hswap, hpids.trans (if_neg hnot).symm⟩

/-- The group is there with the limits and the process in it, or it is gone. -/
theorem writeLimits_cases (o : CgroupOutcome) (config : ResourceConfig)
    (hempty : ∀ q, (q, path) ∉ fs.member) (hnew : ∀ path, (pid, path) ∉ fs.member)
    (base : Limits) :
    (∃ l, InForce config o base l ∧ writeLimits o path config pid base fs =
      ({ fs.put path (some l) with member := (pid, path) :: fs.member }, 0)) ∨
    writeLimits o path config pid base fs = (fs.put path none, -1) := by
  unfold writeLimits
  cases hmemory : memoryLimits o config base with
  | none =>
    right
    simp only [CgroupFs.rmdir_empty hempty]
  | some l =>
    simp only
    split
    · refine .inl ⟨_, inForce_pidsLimit hmemory, ?_⟩
      rw [CgroupFs.join_new (by exact hnew)]
      rfl
    · right
      have hempty' : ∀ q, (q, path) ∉ (fs.put path (some (pidsLimit o config l))).member := hempty
      rw [CgroupFs.rmdir_empty hempty', CgroupFs.put_put]

/-- **What `resource_try_cgroup` does**: the other groups stay, and its own is there
with the limits in force and the process in it, or is not there. -/
theorem resourceTryCgroup_cases (o : CgroupOutcome) (config : ResourceConfig) (hpid : 0 < pid)
    (hempty : ∀ q, (q, cgroupPath id) ∉ fs.member) (hnew : ∀ path, (pid, path) ∉ fs.member) :
    (∃ l, InForce config o ((fs.groups (cgroupPath id)).getD .fresh) l ∧
      resourceTryCgroup o (some id) (some config) pid fs =
        ({ fs.put (cgroupPath id) (some l) with member := (pid, cgroupPath id) :: fs.member }, 0)) ∨
    resourceTryCgroup o (some id) (some config) pid fs = (fs.put (cgroupPath id) none, -1) := by
  unfold resourceTryCgroup
  simp only [if_neg (Int.not_le.mpr hpid)]
  cases hgroup : fs.groups (cgroupPath id) with
  | some l => exact writeLimits_cases o config hempty hnew l
  | none =>
    simp only
    split
    · right
      have hsame : fs.put (cgroupPath id) none = fs := by
        rw [CgroupFs.put, ← hgroup, Function.update_eq_self]
      rw [hsame]
    · have hempty' : ∀ q, (q, cgroupPath id) ∉ (fs.put (cgroupPath id) (some .fresh)).member :=
        hempty
      have hcases := writeLimits_cases o config hempty' hnew .fresh
      simp only [CgroupFs.put_put] at hcases
      exact hcases

/-! ## Containers and their processes -/

/-- A container that has been started and not yet been collected. -/
structure Running where
  id : Bytes
  config : ResourceConfig
  /-- what `resource_try_cgroup` met with -/
  answers : CgroupOutcome
  /-- it has returned 0 -/
  applied : Bool

structure CgroupSys where
  fs : CgroupFs
  /-- the processes, by the container whose process namespace they are in -/
  procs : List (Int × Bytes)
  running : List Running

/-- Groups may have been left behind, with no process in them. -/
def CgroupSys.init (groups : Bytes → Option Limits) : CgroupSys :=
  { fs := ⟨groups, []⟩, procs := [], running := [] }

inductive CgroupAct where
  /-- a container starts, with its first process -/
  | start (id : Bytes) (config : ResourceConfig) (pid : Int) (o : CgroupOutcome)
  | fork (parent child : Int)
  | exit (pid : Int)
  /-- the first process ends and with it all in its namespace -/
  | shutdown (id : Bytes)
  /-- the manager has waited for the first process -/
  | reaped (id : Bytes)

/-- The process is gone. -/
def CgroupFs.leave (fs : CgroupFs) (p : Int → Bool) : CgroupFs :=
  { fs with member := fs.member.filter fun q => !p q.1 }

def cgroupStep (s : CgroupSys) : CgroupAct → Option CgroupSys
  | .start id config pid o =>
    if 0 < pid ∧ id.length < idLen ∧ (∀ p ∈ s.procs, p.1 ≠ pid) ∧ ∀ r ∈ s.running, r.id ≠ id then
      let (fs, result) := resourceTryCgroup o (some id) (some config) pid s.fs
      some { fs, procs := (pid, id) :: s.procs, running := ⟨id, config, o, result = 0⟩ :: s.running }
    else none
  | .fork parent child =>
    match s.procs.find? fun p => p.1 = parent with
    | none => none
    | some p =>
      if 0 < child ∧ ∀ q ∈ s.procs, q.1 ≠ child then
        let fs := match s.fs.member.find? fun q => q.1 = parent with
          | none => s.fs
          | some q => s.fs.join child q.2
        some { s with fs, procs := (child, p.2) :: s.procs }
      else none
  | .exit pid =>
    some { s with fs := s.fs.leave (· = pid), procs := s.procs.filter fun p => p.1 ≠ pid }
  | .shutdown id =>
    some { s with
      fs := s.fs.leave fun pid => (pid, id) ∈ s.procs
      procs := s.procs.filter fun p => p.2 ≠ id }
  | .reaped id =>
    if (∀ p ∈ s.procs, p.2 ≠ id) ∧ ∃ r ∈ s.running, r.id = id then
      some { s with
        fs := resourceCleanupCgroup (some id) s.fs
        running := s.running.filter fun r => r.id ≠ id }
    else none

/-- The names of containers are short enough to be told apart by their paths. -/
theorem cgroupPath_inj {id id' : Bytes} (h : id.length < idLen) (h' : id'.length < idLen)
    (heq : cgroupPath id = cgroupPath id') : id = id' := by
  have hwhole : ∀ id : Bytes, id.length < idLen →
      cgroupPath id = bytes "/sys/fs/cgroup" ++ 47 :: id := by
    intro id hid
    refine snprintfStr_eq_self ?_
    rw [List.length_append, List.length_cons]
    have hroot : (bytes "/sys/fs/cgroup").length = 14 := by decide
    have hlen : idLen = 64 := rfl
    omega
  rw [hwhole id h, hwhole id' h', List.append_cancel_left_eq] at heq
  exact List.tail_eq_of_cons_eq heq

/-- `stale` are the groups that were there before. -/
structure CgroupInv (stale : Bytes → Option Limits) (s : CgroupSys) : Prop where
  ids : (s.running.map Running.id).Nodup
  short : ∀ r ∈ s.running, r.id.length < idLen
  owner : ∀ p ∈ s.procs, ∃ r ∈ s.running, r.id = p.2
  pids : (s.procs.map Prod.fst).Nodup
  inside : ∀ r ∈ s.running, r.applied = true → ∀ p ∈ s.procs, p.2 = r.id →
    (p.1, cgroupPath r.id) ∈ s.fs.member
  member : ∀ q ∈ s.fs.member,
    ∃ r ∈ s.running, r.applied = true ∧ q.2 = cgroupPath r.id ∧ (q.1, r.id) ∈ s.procs
  limits : ∀ r ∈ s.running, r.applied = true → ∃ base l,
    (base = .fresh ∨ stale (cgroupPath r.id) = some base) ∧
      s.fs.groups (cgroupPath r.id) = some l ∧ InForce r.config r.answers base l
  left : ∀ path l, s.fs.groups path = some l →
    (∃ r ∈ s.running, r.applied = true ∧ path = cgroupPath r.id) ∨ stale path = some l

variable {stale : Bytes → Option Limits} {s s' : CgroupSys}

theorem cgroupInv_init (stale : Bytes → Option Limits) : CgroupInv stale (.init stale) where
  ids := List.nodup_nil
  short := fun _ hr => absurd hr List.not_mem_nil
  owner := fun _ hp => absurd hp List.not_mem_nil
  pids := List.nodup_nil
  inside := fun _ hr => absurd hr List.not_mem_nil
  member := fun _ hq => absurd hq List.not_mem_nil
  limits := fun _ hr => absurd hr List.not_mem_nil
  left := fun _ _ hl => .inr hl

/-- A process is in one container. -/
theorem CgroupInv.owner_unique (h : CgroupInv stale s) {pid : Int} {id id' : Bytes}
    (hp : (pid, id) ∈ s.procs) (hp' : (pid, id') ∈ s.procs) : id = id' :=
  congrArg Prod.snd (List.inj_on_of_nodup_map h.pids hp hp' rfl)

/-- Processes end. -/
theorem CgroupInv.leave (h : CgroupInv stale s) (gone : Int → Bool) :
    CgroupInv stale
      { s with fs := s.fs.leave gone, procs := s.procs.filter fun p => !gone p.1 } where
  ids := h.ids
  short := h.short
  owner := fun p hp => h.owner p (List.mem_of_mem_filter hp)
  pids := h.pids.sublist (List.filter_sublist.map _)
  inside := by
    intro r hr happlied p hp hid
    obtain ⟨hp, hstays⟩ := List.mem_filter.mp hp
    exact List.mem_filter.mpr ⟨h.inside r hr happlied p hp hid, hstays⟩
  member := by
    intro q hq
    obtain ⟨hq, hstays⟩ := List.mem_filter.mp hq
    obtain ⟨r, hr, happlied, hpath, hp⟩ := h.member q hq
    exact ⟨r, hr, happlied, hpath, List.mem_filter.mpr ⟨hp, hstays⟩⟩
  limits := h.limits
  left := h.left

theorem CgroupInv.shutdown (h : CgroupInv stale s) (id : Bytes) :
    CgroupInv stale
      { s with
        fs := s.fs.leave fun pid => (pid, id) ∈ s.procs
        procs := s.procs.filter fun p => p.2 ≠ id } := by
  have hsame : s.procs.filter (fun p => p.2 ≠ id) =
      s.procs.filter fun p => !decide ((p.1, id) ∈ s.procs) := by
    refine List.filter_congr fun p hp => ?_
    rw [← decide_not, decide_eq_decide, not_iff_not]
    constructor
    · rintro rfl
      exact hp
    · intro hin
      exact h.owner_unique hp hin
  rw [hsame]
  exact h.leave _

/-- Nothing of a container that has no process is in its group. -/
theorem CgroupInv.empty (h : CgroupInv stale s) {id : Bytes} (hid : id.length < idLen)
    (hnone : ∀ p ∈ s.procs, p.2 ≠ id) (q : Int) : (q, cgroupPath id) ∉ s.fs.member := by
  intro hq
  obtain ⟨r, hr, -, hpath, hp⟩ := h.member _ hq
  exact hnone _ hp (cgroupPath_inj (h.short r hr) hid hpath.symm)

theorem CgroupInv.reaped (h : CgroupInv stale s) {id : Bytes} (hnone : ∀ p ∈ s.procs, p.2 ≠ id)
    (hthere : ∃ r ∈ s.running, r.id = id) :
    CgroupInv stale
      { s with
        fs := resourceCleanupCgroup (some id) s.fs
        running := s.running.filter fun r => r.id ≠ id } := by
  obtain ⟨r₀, hr₀, rfl⟩ := hthere
  have hid := h.short r₀ hr₀
  -- its processes are gone, so `rmdir` works
  have hrmdir : resourceCleanupCgroup (some r₀.id) s.fs = s.fs.put (cgroupPath r₀.id) none :=
    CgroupFs.rmdir_empty (h.empty hid hnone)
  have hstays : ∀ r ∈ s.running, r.id ≠ r₀.id →
      r ∈ s.running.filter (fun r => r.id ≠ r₀.id) ∧ cgroupPath r.id ≠ cgroupPath r₀.id := by
    intro r hr hne
    refine ⟨List.mem_filter.mpr ⟨hr, by simpa using hne⟩, fun heq => hne ?_⟩
    exact cgroupPath_inj (h.short r hr) hid heq
  have hback : ∀ r ∈ s.running.filter (fun r => r.id ≠ r₀.id), r ∈ s.running ∧ r.id ≠ r₀.id := by
    intro r hr
    obtain ⟨hr, hne⟩ := List.mem_filter.mp hr
    exact ⟨hr, by simpa using hne⟩
  rw [hrmdir]
  exact
    { ids := h.ids.sublist (List.filter_sublist.map _)
      short := fun r hr => h.short r (hback r hr).1
      owner := fun p hp => by
        obtain ⟨r, hr, hrid⟩ := h.owner p hp
        exact ⟨r, (hstays r hr (hrid ▸ hnone p hp)).1, hrid⟩
      pids := h.pids
      inside := fun r hr => h.inside r (hback r hr).1
      member := fun q hq => by
        obtain ⟨r, hr, happlied, hpath, hp⟩ := h.member q hq
        exact ⟨r, (hstays r hr (hnone _ hp)).1, happlied, hpath, hp⟩
      limits := fun r hr happlied => by
        obtain ⟨hr, hne⟩ := hback r hr
        obtain ⟨base, l, hbase, hgroup, hforce⟩ := h.limits r hr happlied
        refine ⟨base, l, hbase, ?_, hforce⟩
        exact (CgroupFs.groups_put_of_ne (hstays r hr hne).2 none).trans hgroup
      left := fun path l hgroup => by
        change (s.fs.put _ none).groups path = some l at hgroup
        -- no group is left behind by this manager: the one of `id` is gone
        have hne : path ≠ cgroupPath r₀.id := by
          rintro rfl
          rw [CgroupFs.groups_put_self] at hgroup
          cases hgroup
        rw [CgroupFs.groups_put_of_ne hne] at hgroup
        rcases h.left path l hgroup with ⟨r, hr, happlied, hpath⟩ | hstale
        · refine .inl ⟨r, (hstays r hr fun heq => hne ?_).1, happlied, hpath⟩
          rw [hpath, heq]
        · exact .inr hstale }

/-! A container starts: what holds of it and the others, whatever becomes of its
group. -/

/-- The container and its first process are new. -/
structure CgroupSys.New (s : CgroupSys) (id : Bytes) (pid : Int) : Prop where
  short : id.length < idLen
  pid : ∀ p ∈ s.procs, p.1 ≠ pid
  id : ∀ r ∈ s.running, r.id ≠ id

theorem CgroupInv.new_idle (h : CgroupInv stale s) (hn : s.New id pid) :
    ∀ p ∈ s.procs, p.2 ≠ id := by
  intro p hp heq
  obtain ⟨r, hr, hrid⟩ := h.owner p hp
  exact hn.id r hr (hrid.trans heq)

theorem CgroupInv.new_apart (h : CgroupInv stale s) (hn : s.New id pid) :
    ∀ r ∈ s.running, cgroupPath r.id ≠ cgroupPath id :=
  fun r hr heq => hn.id r hr (cgroupPath_inj (h.short r hr) hn.short heq)

/-- What its group holds before is fresh, or what an earlier manager left. -/
theorem CgroupInv.new_base (h : CgroupInv stale s) (hn : s.New id pid) :
    (s.fs.groups (cgroupPath id)).getD .fresh = .fresh ∨
      stale (cgroupPath id) = some ((s.fs.groups (cgroupPath id)).getD .fresh) := by
  cases hgroup : s.fs.groups (cgroupPath id) with
  | none => exact .inl rfl
  | some l =>
    rcases h.left _ l hgroup with ⟨r, hr, -, hpath⟩ | hstale
    · exact absurd hpath.symm (h.new_apart hn r hr)
    · exact .inr hstale

theorem CgroupInv.new_ids (h : CgroupInv stale s) (hn : s.New id pid) :
    (id :: s.running.map Running.id).Nodup := by
  refine List.nodup_cons.mpr ⟨fun hmem => ?_, h.ids⟩
  obtain ⟨r, hr, hrid⟩ := List.mem_map.mp hmem
  exact hn.id r hr hrid

theorem CgroupInv.new_pids (h : CgroupInv stale s)
    (hfresh : ∀ p ∈ s.procs, p.1 ≠ pid) : (pid :: s.procs.map Prod.fst).Nodup := by
  refine List.nodup_cons.mpr ⟨fun hmem => ?_, h.pids⟩
  obtain ⟨p, hp, hppid⟩ := List.mem_map.mp hmem
  exact hfresh p hp hppid

theorem CgroupInv.new_owner (h : CgroupInv stale s) (pid : Int) (new : Running) :
    ∀ p ∈ (pid, new.id) :: s.procs, ∃ r ∈ new :: s.running, r.id = p.2 := by
  refine List.forall_mem_cons.mpr ⟨⟨_, List.mem_cons_self, rfl⟩, fun p hp => ?_⟩
  obtain ⟨r, hr, hrid⟩ := h.owner p hp
  exact ⟨r, List.mem_cons_of_mem _ hr, hrid⟩

/-- A write to its group leaves those of the others. -/
theorem CgroupInv.new_limits (h : CgroupInv stale s) (hn : s.New id pid) (l : Option Limits) :
    ∀ r ∈ s.running, r.applied = true → ∃ base l',
      (base = .fresh ∨ stale (cgroupPath r.id) = some base) ∧
        (s.fs.put (cgroupPath id) l).groups (cgroupPath r.id) = some l' ∧
        InForce r.config r.answers base l' := by
  intro r hr happlied
  obtain ⟨base, l', hbase, hgroup, hforce⟩ := h.limits r hr happlied
  refine ⟨base, l', hbase, ?_, hforce⟩
  exact (CgroupFs.groups_put_of_ne (h.new_apart hn r hr) l).trans hgroup

theorem CgroupInv.new_inside (h : CgroupInv stale s) (hn : s.New id pid) :
    ∀ r ∈ s.running, r.applied = true → ∀ p ∈ (pid, id) :: s.procs, p.2 = r.id →
      (p.1, cgroupPath r.id) ∈ s.fs.member := by
  intro r hr happlied p hp hpid
  rcases List.mem_cons.mp hp with rfl | hp
  · exact absurd hpid.symm (hn.id r hr)
  · exact h.inside r hr happlied p hp hpid

theorem CgroupInv.new_member (h : CgroupInv stale s) (p : Int × Bytes) (new : Running) :
    ∀ q ∈ s.fs.member, ∃ r ∈ new :: s.running,
      r.applied = true ∧ q.2 = cgroupPath r.id ∧ (q.1, r.id) ∈ p :: s.procs := by
  intro q hq
  obtain ⟨r, hr, happlied, hpath, hp⟩ := h.member q hq
  exact ⟨r, List.mem_cons_of_mem _ hr, happlied, hpath, List.mem_cons_of_mem _ hp⟩

theorem CgroupInv.new_left (h : CgroupInv stale s) {path : Bytes} (hpath : path ≠ cgroupPath id)
    {l : Option Limits} {l' : Limits} (hgroup : (s.fs.put (cgroupPath id) l).groups path = some l')
    (new : Running) :
    (∃ r ∈ new :: s.running, r.applied = true ∧ path = cgroupPath r.id) ∨
      stale path = some l' := by
  rw [CgroupFs.groups_put_of_ne hpath] at hgroup
  refine (h.left path l' hgroup).imp_left ?_
  rintro ⟨r, hr, happlied, hpath⟩
  exact ⟨r, List.mem_cons_of_mem _ hr, happlied, hpath⟩

/-- A new container, in a group of its own or in none. -/
theorem CgroupInv.start (h : CgroupInv stale s) (hpid : 0 < pid) (hn : s.New id pid)
    (config : ResourceConfig) (o : CgroupOutcome) :
    let r := resourceTryCgroup o (some id) (some config) pid s.fs
    CgroupInv stale
      { fs := r.1, procs := (pid, id) :: s.procs
        running := ⟨id, config, o, r.2 = 0⟩ :: s.running } := by
  have hidle := h.new_idle hn
  have hnew : ∀ path, (pid, path) ∉ s.fs.member := by
    intro path hq
    obtain ⟨r, -, -, -, hp⟩ := h.member _ hq
    exact hn.pid _ hp rfl
  -- the group is set up whole, or taken down again
  rcases resourceTryCgroup_cases o config hpid (h.empty hn.short hidle) hnew with
    ⟨l, hforce, hcall⟩ | hcall
  · rw [hcall]
    exact
      { ids := h.new_ids hn
        short := List.forall_mem_cons.mpr ⟨hn.short, h.short⟩
        owner := h.new_owner pid ⟨id, config, o, _⟩
        pids := h.new_pids hn.pid
        inside := by
          refine List.forall_mem_cons.mpr ⟨fun _ p hp hpid => ?_, fun r hr happlied p hp hpid => ?_⟩
          · rcases List.mem_cons.mp hp with rfl | hp
            · exact List.mem_cons_self
            · exact absurd hpid (hidle p hp)
          · exact List.mem_cons_of_mem _ (h.new_inside hn r hr happlied p hp hpid)
        member := by
          refine List.forall_mem_cons.mpr ⟨?_, h.new_member _ _⟩
          exact ⟨_, List.mem_cons_self, rfl, rfl, List.mem_cons_self⟩
        limits := by
          refine List.forall_mem_cons.mpr ⟨fun _ => ?_, h.new_limits hn _⟩
          exact ⟨_, l, h.new_base hn, CgroupFs.groups_put_self _ _ _, hforce⟩
        left := fun path l' hgroup => by
          by_cases hpath : path = cgroupPath id
          · exact .inl ⟨_, List.mem_cons_self, rfl, hpath⟩
          · exact h.new_left hpath hgroup _ }
  · rw [hcall]
    exact
      { ids := h.new_ids hn
        short := List.forall_mem_cons.mpr ⟨hn.short, h.short⟩
        owner := h.new_owner pid ⟨id, config, o, _⟩
        pids := h.new_pids hn.pid
        inside := List.forall_mem_cons.mpr ⟨(fun happlied => by cases happlied), h.new_inside hn⟩
        member := h.new_member _ _
        limits := List.forall_mem_cons.mpr ⟨(fun happlied => by cases happlied), h.new_limits hn _⟩
        left := fun path l' hgroup => by
          by_cases hpath : path = cgroupPath id
          · change (s.fs.put _ none).groups path = some l' at hgroup
            subst hpath
            rw [CgroupFs.groups_put_self] at hgroup
            cases hgroup
          · exact h.new_left hpath hgroup _ }

/-- A child is in the group of its parent. -/
theorem CgroupInv.fork (h : CgroupInv stale s) {p : Int × Bytes} (hp : p ∈ s.procs) {child : Int}
    (hfresh : ∀ q ∈ s.procs, q.1 ≠ child) :
    CgroupInv stale
      { s with
        fs := match s.fs.member.find? fun q => q.1 = p.1 with
          | none => s.fs
          | some q => s.fs.join child q.2
        procs := (child, p.2) :: s.procs } := by
  have hpids := h.new_pids hfresh
  have howner : ∀ q ∈ (child, p.2) :: s.procs, ∃ r ∈ s.running, r.id = q.2 :=
    List.forall_mem_cons.mpr ⟨h.owner p hp, h.owner⟩
  have hmember : ∀ q ∈ s.fs.member, ∃ r ∈ s.running,
      r.applied = true ∧ q.2 = cgroupPath r.id ∧ (q.1, r.id) ∈ (child, p.2) :: s.procs := by
    intro q hq
    obtain ⟨r, hr, happlied, hpath, hin⟩ := h.member q hq
    exact ⟨r, hr, happlied, hpath, List.mem_cons_of_mem _ hin⟩
  cases hfind : s.fs.member.find? fun q => q.1 = p.1 with
  | none =>
    -- the parent is in no group, so its container has none
    refine
      { ids := h.ids, short := h.short, owner := howner, pids := hpids, inside := ?_
        member := hmember, limits := h.limits, left := h.left }
    intro r hr happlied q hq hqid
    rcases List.mem_cons.mp hq with rfl | hq
    · have hparent := h.inside r hr happlied p hp hqid
      have hnot := List.find?_eq_none.mp hfind _ hparent
      simp at hnot
    · exact h.inside r hr happlied q hq hqid
  | some q =>
    have hq := List.mem_of_find?_eq_some hfind
    have hqpid : q.1 = p.1 := by simpa using List.find?_some hfind
    obtain ⟨r₀, hr₀, happlied₀, hpath₀, hin₀⟩ := h.member q hq
    have hid₀ : r₀.id = p.2 := by
      rw [hqpid] at hin₀
      exact h.owner_unique hin₀ hp
    have hnew : ∀ path, (child, path) ∉ s.fs.member := by
      intro path hmem
      obtain ⟨r, -, -, -, hin⟩ := h.member _ hmem
      exact hfresh _ hin rfl
    simp only
    rw [CgroupFs.join_new hnew]
    refine
      { ids := h.ids, short := h.short, owner := howner, pids := hpids, inside := ?_
        member := ?_, limits := h.limits, left := h.left }
    · intro r hr happlied q' hq' hqid
      rcases List.mem_cons.mp hq' with rfl | hq'
      · have hsame : q.2 = cgroupPath r.id := by rw [hpath₀, hid₀, hqid]
        rw [← hsame]
        exact List.mem_cons_self
      · exact List.mem_cons_of_mem _ (h.inside r hr happlied q' hq' hqid)
    · refine List.forall_mem_cons.mpr ⟨⟨r₀, hr₀, happlied₀, hpath₀, ?_⟩, hmember⟩
      rw [hid₀]
      exact List.mem_cons_self

theorem CgroupInv.step {a : CgroupAct} (h : CgroupInv stale s) (hs : cgroupStep s a = some s') :
    CgroupInv stale s' := by
  cases a with
  | start id config pid o =>
    obtain ⟨⟨hpid, hid, hfresh, hidle⟩, hs⟩ := Option.ite_none_right_eq_some.mp hs
    cases hs
    exact h.start hpid ⟨hid, hfresh, hidle⟩ config o
  | fork parent child =>
    simp only [cgroupStep] at hs
    cases hfind : s.procs.find? fun p => p.1 = parent with
    | none =>
      rw [hfind] at hs
      cases hs
    | some p =>
      rw [hfind] at hs
      obtain ⟨⟨-, hfresh⟩, hs⟩ := Option.ite_none_right_eq_some.mp hs
      have hpid : p.1 = parent := by simpa using List.find?_some hfind
      subst hpid
      cases hs
      exact h.fork (List.mem_of_find?_eq_some hfind) hfresh
  | exit pid =>
    cases hs
    have hleave := h.leave (· = pid)
    simpa using hleave
  | shutdown id =>
    cases hs
    exact h.shutdown id
  | reaped id =>
    obtain ⟨⟨hnone, hthere⟩, hs⟩ := Option.ite_none_right_eq_some.mp hs
    cases hs
    exact h.reaped hnone hthere

/-- **The limits are in force.** In every run, a container for which
`resource_try_cgroup` worked has all its processes in its own group, with the limits
of its own in the files that could be written; no process is in the group of another
container; and a group that exists is that of a container that has not been
collected, or was there before the run. -/
theorem limits_in_force {as : List CgroupAct} (hrun : Runs cgroupStep (.init stale) as s) :
    (∀ r ∈ s.running, r.applied = true →
      (∃ base l, (base = .fresh ∨ stale (cgroupPath r.id) = some base) ∧
        s.fs.groups (cgroupPath r.id) = some l ∧ InForce r.config r.answers base l) ∧
      ∀ p ∈ s.procs, p.2 = r.id → (p.1, cgroupPath r.id) ∈ s.fs.member) ∧
    (∀ q ∈ s.fs.member, ∃ id, (q.1, id) ∈ s.procs ∧ q.2 = cgroupPath id) ∧
    ∀ path l, s.fs.groups path = some l →
      (∃ r ∈ s.running, r.applied = true ∧ path = cgroupPath r.id) ∨ stale path = some l := by
  have h : CgroupInv stale s :=
    hrun.invariant (fun _ _ _ h _ hs => h.step hs) (cgroupInv_init stale)
  refine ⟨fun r hr happlied => ⟨h.limits r hr happlied, h.inside r hr happlied⟩, fun q hq => ?_,
    h.left⟩
  obtain ⟨r, -, -, hpath, hp⟩ := h.member q hq
  exact ⟨r.id, hp, hpath⟩

/-- One container with limits and a child, and one whose group is refused. -/
def twoContainers : List CgroupAct :=
  let works : CgroupOutcome := { mkdir := true, write := fun _ => true }
  [.start (bytes "container-0001") ⟨0, 64, 20⟩ 100 works, .fork 100 101,
    .start (bytes "container-0002") ⟨0, 32, 0⟩ 200 { works with write := fun _ => false }]

theorem limits_in_force_two :
    ∃ s, Runs cgroupStep (.init fun _ => none) twoContainers s ∧
      (101, cgroupPath (bytes "container-0001")) ∈ s.fs.member ∧
      ∃ l, s.fs.groups (cgroupPath (bytes "container-0001")) = some l ∧
        l.memoryMax = bytes "67108864\n" ∧ l.pidsMax = bytes "20\n" := by
  obtain ⟨s, hrun, hchild, r, hr, hid, hconfig, happlied, hpids⟩ :=
    exists_runOk_of_exec cgroupStep (fun _ _ => True) (.init fun _ => none) twoContainers
      (fun s => (101, bytes "container-0001") ∈ s.procs ∧ ∃ r ∈ s.running,
        r.id = bytes "container-0001" ∧ r.config = ⟨0, 64, 20⟩ ∧ r.applied = true ∧
          r.answers.write .pidsMax = true)
      (by decide +kernel)
  obtain ⟨⟨base, l, -, hgroup, hforce⟩, hinside⟩ := (limits_in_force hrun).1 r hr happlied
  rw [hid] at hgroup
  refine ⟨s, hrun, hid ▸ hinside _ hchild hid.symm, l, hgroup, ?_, ?_⟩
  · rw [hforce.memory, hconfig, if_neg (by decide)]
    decide +kernel
  · rw [hforce.pids, hconfig, if_pos ⟨by decide, hpids⟩]
    decide +kernel

end ContainerSim.Resource
