import ContainerSim.Orch.RestartPolicy

/-!
# One restart for one exit

As long as nobody else works on the containers, the manager hands out every id
once. A service whose current container has been decided on is not ready and
has no health result on its way (`Once.spent`), so the pass does not decide on
that container again.
-/

namespace ContainerSim.Orch

open Lib ContainerSim.Runtime

/-- The counter has passed this id, if it ever hands it out. -/
def Past (m : Manager) (x : Bytes) : Prop := ∀ k, m.nextSequence ≤ k → x ≠ containerId k

theorem Past.mono {m m' : Manager} {x : Bytes} (h : Past m x)
    (hseq : m.nextSequence ≤ m'.nextSequence) : Past m' x :=
  fun k hk => h k (Nat.le_trans hseq hk)

theorem past_nil (m : Manager) : Past m [] := fun k _ h => containerId_ne_nil k h.symm

/-- The id is on its way into the spec. -/
def InFlight (s : Sys) (x : Bytes) : Prop := s.cli.new = some x ∨ s.mon.new = some x

structure Once (s : Sys) : Prop where
  cids : ∀ e ∈ decided s, e.cid ≠ [] ∧ Past s.mgr e.cid
  ids : ∀ i, Past s.mgr (s.svc i).containerId
  new : ∀ x, InFlight s x →
    x ≠ [] ∧ Past s.mgr x ∧ (∀ e ∈ decided s, e.cid ≠ x) ∧ ∀ i, (s.svc i).containerId ≠ x
  apart : ∀ x, s.cli.new = some x → s.mon.new ≠ some x
  spent : ∀ e ∈ decided s, e.cid = (s.svc e.svc).containerId →
    ¬ Ready (s.svc e.svc).state ∧ ¬ HasHealth s.mon.work e.svc
  nodup : ((decided s).map fun e => (e.svc, e.cid)).Nodup

/-- What a step that decides nothing may do to a service. -/
def SvcOnce (s : Sys) (i : Nat) (svc' : Service) : Prop :=
  (svc'.containerId = (s.svc i).containerId ∧
    (Ready svc'.state → Ready (s.svc i).state ∨ HasHealth s.mon.work i)) ∨
  svc'.containerId = [] ∨ InFlight s svc'.containerId

theorem SvcOnce.refl (s : Sys) (i : Nat) : SvcOnce s i (s.svc i) := .inl ⟨rfl, .inl⟩

theorem SvcOnce.set {s : Sys} {i : Nat} {f : Service → Service} (hf : SvcOnce s i (f (s.svc i)))
    (j : Nat) : SvcOnce s j ((s.setSvc i f).svc j) := by
  rcases s.svc_setSvc i j f with hj | ⟨rfl, hj⟩
  · rw [hj]
    exact SvcOnce.refl s j
  · rw [hj]
    exact hf

/-- A step that neither decides nor launches. -/
theorem Once.weaken {s s' : Sys} (h : Once s) (hdec : (decided s').Sublist (decided s))
    (hseq : s.mgr.nextSequence ≤ s'.mgr.nextSequence) (hsvc : ∀ i, SvcOnce s i (s'.svc i))
    (hhealth : ∀ i, HasHealth s'.mon.work i → HasHealth s.mon.work i ∨ Ready (s.svc i).state)
    (hcli : s'.cli.new = none ∨ s'.cli.new = s.cli.new)
    (hmon : s'.mon.new = none ∨ s'.mon.new = s.mon.new)
    (hstored : ∀ i x, InFlight s' x → (s'.svc i).containerId ≠ x) : Once s' := by
  -- no new id is in flight, so the old facts carry over
  have hflight : ∀ x, InFlight s' x → InFlight s x := by
    rintro x (hx | hx)
    · rcases hcli with hn | hn <;> rw [hn] at hx
      · cases hx
      · exact .inl hx
    · rcases hmon with hn | hn <;> rw [hn] at hx
      · cases hx
      · exact .inr hx
  constructor
  · intro e he
    obtain ⟨hne, hpast⟩ := h.cids e (hdec.subset he)
    exact ⟨hne, hpast.mono hseq⟩
  · intro i
    rcases hsvc i with ⟨hid, -⟩ | hid | hid
    · rw [hid]
      exact (h.ids i).mono hseq
    · rw [hid]
      exact past_nil _
    · exact (h.new _ hid).2.1.mono hseq
  · intro x hx
    obtain ⟨hne, hpast, hcid, -⟩ := h.new x (hflight x hx)
    exact ⟨hne, hpast.mono hseq, fun e he => hcid e (hdec.subset he), fun i => hstored i x hx⟩
  · intro x hx hx'
    have hc : s.cli.new = some x := by
      rcases hcli with hn | hn <;> rw [hn] at hx
      · cases hx
      · exact hx
    have hm : s.mon.new = some x := by
      rcases hmon with hn | hn <;> rw [hn] at hx'
      · cases hx'
      · exact hx'
    exact h.apart x hc hm
  · intro e he hcid
    have he' := hdec.subset he
    rcases hsvc e.svc with ⟨hid, hready⟩ | hid | hid
    · obtain ⟨hnr, hnh⟩ := h.spent e he' (hcid.trans hid)
      exact ⟨fun hr => (hready hr).elim hnr hnh, fun hh => (hhealth _ hh).elim hnh hnr⟩
    · exact absurd (hcid.trans hid) (h.cids e he').1
    · exact absurd hcid ((h.new _ hid).2.2.1 e he')
  · exact h.nodup.sublist (hdec.map _)

/-- Nothing is entered into the spec. -/
theorem Once.keep {s s' : Sys} (h : Once s) (hdec : (decided s').Sublist (decided s))
    (hseq : s.mgr.nextSequence ≤ s'.mgr.nextSequence)
    (hsvc : ∀ i, (s'.svc i).containerId = (s.svc i).containerId ∧
      (Ready (s'.svc i).state → Ready (s.svc i).state ∨ HasHealth s.mon.work i))
    (hhealth : ∀ i, HasHealth s'.mon.work i → HasHealth s.mon.work i ∨ Ready (s.svc i).state)
    (hcli : s'.cli.new = none ∨ s'.cli.new = s.cli.new)
    (hmon : s'.mon.new = none ∨ s'.mon.new = s.mon.new) : Once s' := by
  refine h.weaken hdec hseq (fun i => .inl (hsvc i)) hhealth hcli hmon fun i x hx => ?_
  rw [(hsvc i).1]
  refine (h.new x ?_).2.2.2 i
  rcases hx with hx | hx
  · rcases hcli with hn | hn <;> rw [hn] at hx
    · cases hx
    · exact .inl hx
  · rcases hmon with hn | hn <;> rw [hn] at hx
    · cases hx
    · exact .inr hx

/-- A container has been started: its id is the next one. -/
theorem Once.launched {s s' : Sys} (h : Once s) (hdec : decided s' = decided s)
    (hspec : s'.spec = s.spec) (hseq : s.mgr.nextSequence ≤ s'.mgr.nextSequence)
    (hwork : s'.mon.work ⊆ s.mon.work)
    (hflight : ∀ x, InFlight s' x → InFlight s x ∨
      (x = containerId s.mgr.nextSequence ∧ s.mgr.nextSequence < s'.mgr.nextSequence))
    (hapart : ∀ x, s'.cli.new = some x → s'.mon.new ≠ some x) : Once s' := by
  have hsvc : ∀ i, s'.svc i = s.svc i := fun i => by rw [Sys.svc, Sys.svc, hspec]
  constructor
  · intro e he
    obtain ⟨hne, hpast⟩ := h.cids e (hdec ▸ he)
    exact ⟨hne, hpast.mono hseq⟩
  · intro i
    rw [hsvc]
    exact (h.ids i).mono hseq
  · intro x hx
    -- the new id is above every id that has been decided about
    rcases hflight x hx with hx | ⟨rfl, hlt⟩
    · obtain ⟨hne, hpast, hcid, hid⟩ := h.new x hx
      refine ⟨hne, hpast.mono hseq, fun e he => hcid e (hdec ▸ he), fun i => ?_⟩
      rw [hsvc]
      exact hid i
    · refine ⟨containerId_ne_nil _, fun k hk heq => ?_, fun e he => ?_, fun i => ?_⟩
      · have := containerId_injective heq
        omega
      · exact (h.cids e (hdec ▸ he)).2 _ (Nat.le_refl _)
      · rw [hsvc]
        exact h.ids i _ (Nat.le_refl _)
  · exact hapart
  · intro e he hcid
    rw [hsvc] at hcid ⊢
    obtain ⟨hnr, hnh⟩ := h.spent e (hdec ▸ he) hcid
    exact ⟨hnr, fun hh => hnh (hh.mono hwork)⟩
  · rw [hdec]
    exact h.nodup

theorem once_init (m : Manager) : Once (Sys.init m) where
  cids := nofun
  ids := fun _ => past_nil m
  new := fun _ h => h.elim nofun nofun
  apart := nofun
  spent := nofun
  nodup := List.nodup_nil

/-- The pass decides on the container of service `k`: for the first time. -/
theorem Once.collectedRestart {now : Int} {k : Nat} {work : List WorkItem} {s : Sys}
    (h : Once s) (hlim : Limited s) (hmon : s.mon = .collect now k work)
    (hk : k < s.spec.count) (hskip : skipped (s.svc k) = false) {cst : ContainerState} {ec : Int}
    (hexit : exitNoticed (s.svc k) cst = true)
    (heq : collectSvc now k (s.svc k) cst ec = ({ s.svc k with state := .restarting },
      [.restart (.ofService k (s.svc k)) (s.svc k).containerId
        (backoffOf (s.svc k).restartCount) ec]))
    {m : Manager} (hseq : s.mgr.nextSequence ≤ m.nextSequence) :
    Once (collectedSys now k work cst ec m s) := by
  have hready := ready_of_exitNoticed hskip hexit
  obtain ⟨hdec, hsvck, hsvcne, hitems⟩ := collectedSys_restart hmon hk heq m
  have hne : (s.svc k).containerId ≠ [] := by
    simp only [skipped, decide_eq_false_iff_not, not_or] at hskip
    exact hskip.1
  -- no earlier decision is about this container
  have hfresh : ∀ e ∈ decided s, e.svc = k → e.cid ≠ (s.svc k).containerId := by
    intro e he hsvc hcid
    have hsp := h.spent e he (by rw [hsvc]; exact hcid)
    rw [hsvc] at hsp
    exact hsp.1 hready
  have hids : ∀ i, ((collectedSys now k work cst ec m s).svc i).containerId =
      (s.svc i).containerId := by
    intro i
    by_cases hi : i = k
    · rw [hi, hsvck]
    · rw [hsvcne i hi]
  have hflight : ∀ x, InFlight (collectedSys now k work cst ec m s) x → InFlight s x := by
    rintro x (hx | hx)
    · exact .inl hx
    · cases hx
  constructor
  · intro e he
    rw [hdec] at he
    rcases List.mem_append.mp he with he | he
    · obtain ⟨hn, hpast⟩ := h.cids e he
      exact ⟨hn, hpast.mono hseq⟩
    · rw [List.mem_singleton.mp he]
      exact ⟨hne, (h.ids k).mono hseq⟩
  · intro i
    rw [hids]
    exact (h.ids i).mono hseq
  · intro x hx
    obtain ⟨hn, hpast, hcid, hid⟩ := h.new x (hflight x hx)
    refine ⟨hn, hpast.mono hseq, fun e he => ?_, fun i => ?_⟩
    · rw [hdec] at he
      rcases List.mem_append.mp he with he | he
      · exact hcid e he
      · rw [List.mem_singleton.mp he]
        exact hid k
    · rw [hids]
      exact hid i
  · intro x _ hx
    cases hx
  · intro e he hcid
    rw [hids] at hcid
    by_cases hi : e.svc = k
    · rw [hi, hsvck]
      refine ⟨by simp [Ready], fun hh => ?_⟩
      exact absurd (hlim.health_lt hmon (hitems k hh)) (Nat.lt_irrefl k)
    · rw [hdec] at he
      rcases List.mem_append.mp he with he | he
      · obtain ⟨hnr, hnh⟩ := h.spent e he hcid
        rw [hsvcne _ hi]
        exact ⟨hnr, fun hh => hnh (hitems _ hh)⟩
      · rw [List.mem_singleton.mp he] at hi
        exact absurd rfl hi
  · rw [hdec, List.map_append, List.nodup_append]
    refine ⟨h.nodup, List.nodup_singleton _, ?_⟩
    intro p hp q hq hpq
    obtain ⟨e, he, rfl⟩ := List.mem_map.mp hp
    rw [List.map_singleton, List.mem_singleton] at hq
    rw [hq, Prod.mk.injEq] at hpq
    exact hfresh e he hpq.1 hpq.2

/-- The pass looks at service `k` and decides nothing. -/
theorem Once.collectedOther {now : Int} {k : Nat} {work : List WorkItem} {s : Sys} (h : Once s)
    (hmon : s.mon = .collect now k work) {cst : ContainerState} {ec : Int}
    (hpass : Passed k (s.svc k) (collectSvc now k (s.svc k) cst ec))
    {m : Manager} (hseq : s.mgr.nextSequence ≤ m.nextSequence) :
    Once (collectedSys now k work cst ec m s) := by
  obtain ⟨hdec, hhealth⟩ := collectedSys_passed hmon hpass m
  have hsvc : ∀ i, ((collectedSys now k work cst ec m s).svc i).containerId =
      (s.svc i).containerId ∧ (Ready ((collectedSys now k work cst ec m s).svc i).state →
        Ready (s.svc i).state ∨ HasHealth s.mon.work i) := by
    intro i
    rcases s.svc_setSvc k i (fun svc => (collectSvc now k svc cst ec).1) with hi | ⟨rfl, hi⟩
    · rw [show (collectedSys now k work cst ec m s).svc i = s.svc i from hi]
      exact ⟨rfl, .inl⟩
    · rw [show (collectedSys now i work cst ec m s).svc i = _ from hi]
      exact ⟨collectSvc_containerId now i (s.svc i) cst ec, fun hr => .inl (hpass.ready hr)⟩
  exact h.keep (by rw [hdec]) hseq hsvc hhealth (.inr rfl) (.inl rfl)

theorem Once.collected {now : Int} {k : Nat} {work : List WorkItem} {s : Sys} (h : Once s)
    (hlim : Limited s) (hmon : s.mon = .collect now k work) (hk : k < s.spec.count)
    (hskip : skipped (s.svc k) = false) (cst : ContainerState) (ec : Int) {m : Manager}
    (hseq : s.mgr.nextSequence ≤ m.nextSequence) : Once (collectedSys now k work cst ec m s) := by
  rcases collectSvc_decides now k (s.svc k) cst ec with ⟨hexit, -, heq⟩ | hpass
  · exact h.collectedRestart hlim hmon hk hskip hexit heq hseq
  · exact h.collectedOther hmon hpass hseq

/-- Items are dropped, the spec and the log are left alone. -/
theorem Once.drop {s s' : Sys} (h : Once s) (hspec : s'.spec = s.spec)
    (hlog : s'.log.restarts = s.log.restarts)
    (hseq : s.mgr.nextSequence ≤ s'.mgr.nextSequence)
    (hwork : s'.mon.work.Sublist s.mon.work)
    (hcli : s'.cli.new = none ∨ s'.cli.new = s.cli.new)
    (hmon : s'.mon.new = none ∨ s'.mon.new = s.mon.new) : Once s' := by
  refine h.keep ?_ hseq (fun i => ?_) (fun i hh => .inl (hh.mono hwork.subset)) hcli hmon
  · rw [decided, decided, hlog]
    exact (List.Sublist.refl _).append (hwork.filterMap _)
  · rw [show s'.svc i = s.svc i by rw [Sys.svc, Sys.svc, hspec]]
    exact ⟨rfl, .inl⟩

/-- A container that was on its way is entered into the spec, or given up. -/
theorem Once.store {s s' : Sys} (h : Once s) {i : Nat} {f : Service → Service}
    (hspec : s'.spec = (s.setSvc i f).spec) (hlog : s'.log.restarts = s.log.restarts)
    (hseq : s.mgr.nextSequence ≤ s'.mgr.nextSequence)
    (hwork : s'.mon.work.Sublist s.mon.work) (hf : SvcOnce s i (f (s.svc i)))
    (hcli : s'.cli.new = none ∨ s'.cli.new = s.cli.new)
    (hmon : s'.mon.new = none ∨ s'.mon.new = s.mon.new)
    (hstored : ∀ x, InFlight s' x → (f (s.svc i)).containerId ≠ x) : Once s' := by
  have hsvc : ∀ j, s'.svc j = (s.setSvc i f).svc j := fun j => by rw [Sys.svc, Sys.svc, hspec]
  refine h.weaken ?_ hseq (fun j => ?_) (fun j hh => .inl (hh.mono hwork.subset)) hcli hmon
    (fun j x hx => ?_)
  · rw [decided, decided, hlog]
    exact (List.Sublist.refl _).append (hwork.filterMap _)
  · rw [hsvc]
    exact hf.set j
  · rw [hsvc]
    rcases s.svc_setSvc i j f with hj | ⟨-, hj⟩
    · rw [hj]
      refine (h.new x ?_).2.2.2 j
      rcases hx with hx | hx
      · rcases hcli with hn | hn <;> rw [hn] at hx
        · cases hx
        · exact .inl hx
      · rcases hmon with hn | hn <;> rw [hn] at hx
        · cases hx
        · exact .inr hx
    · rw [hj]
      exact hstored x hx

theorem MonPc.between_new {mon : MonPc} (h : mon.between = true) : mon.new = none := by
  cases mon with
  | commit | undoStop | undoDelete => cases h
  | _ => rfl

theorem Once.mon {o : Answers} {s s' : Sys} (h : Once s) (hlim : Limited s)
    (hs : monStep o s = some s') (hseq : s.mgr.nextSequence ≤ s'.mgr.nextSequence) : Once s' := by
  cases monStep_move hs with
  | goOn _ _ hwork hbetween =>
    exact h.drop rfl rfl hseq hwork (.inr rfl) (.inl (MonPc.between_new hbetween))
  | skip hmon =>
    refine h.drop rfl rfl hseq ?_ (.inr rfl) (.inl rfl)
    rw [hmon]
    exact List.Sublist.refl _
  | seen hmon hi hskip => exact h.collected hlim hmon hi hskip _ _ hseq
  | @health svc cid hcmd name hc rest hmon =>
    -- the service of a health result has one on its way
    have hhealth : HasHealth s.mon.work svc := by
      rw [hmon]
      exact ⟨cid, hcmd, name, List.mem_cons_self⟩
    have hid : (applyHealth hc (s.svc svc)).containerId = (s.svc svc).containerId := by
      unfold applyHealth
      split <;> rfl
    refine h.store (i := svc) (f := applyHealth hc) rfl rfl hseq ?_
      (.inl ⟨hid, fun _ => .inr hhealth⟩) (.inr rfl) (.inl rfl) fun x hx => ?_
    · rw [hmon]
      exact List.sublist_cons_self _ _
    · rw [hid]
      exact (h.new x (hx.elim .inl nofun)).2.2.2 svc
  | delete hmon =>
    refine h.drop rfl rfl hseq ?_ (.inr rfl) (.inl rfl)
    rw [hmon]
    exact List.Sublist.refl _
  | @launch job cid backoffS ec rest hmon =>
    have hnew : ∀ x, (callLaunch o job s).2 = some x → x = containerId s.mgr.nextSequence ∧
        s.mgr.nextSequence < (callLaunch o job s).1.mgr.nextSequence := by
      intro x hx
      obtain ⟨hid, -, hlt⟩ := containerRunBackground_some hx
      exact ⟨hid, hlt⟩
    refine h.launched ?_ rfl hseq ?_ ?_ ?_
    · rw [decided, decided, hmon]
      show (s.log.restarts ++ [_]) ++ rest.filterMap WorkItem.exit? = _
      rw [List.append_assoc]
      rfl
    · rw [hmon]
      exact List.subset_cons_self _ _
    · rintro x (hx | hx)
      · exact .inl (.inl hx)
      · exact .inr (hnew x hx)
    · -- the other thread's container has an older id
      intro x hx hx'
      have hpast := (h.new x (.inl hx)).2.1
      exact hpast _ (Nat.le_refl _) (hnew x hx').1
  | @commit job cid id backoffS ec rest hmon =>
    have hnew : s.mon.new = some id := by rw [hmon]; rfl
    refine h.store (i := job.svc) (f := restarted id o.now) rfl rfl hseq ?_
      (.inr (.inr (.inr hnew))) (.inr rfl) (.inl rfl) ?_
    · rw [hmon]
      exact List.Sublist.refl _
    · rintro x (hx | hx)
      · intro hid
        exact h.apart x hx (hnew.trans (congrArg some hid))
      · cases hx
  | @failed job cid backoffS ec rest hmon =>
    refine h.store (i := job.svc) (f := failedSvc) rfl rfl hseq ?_
      (.inl ⟨rfl, fun hr => absurd hr (by simp [Ready, failedSvc])⟩) (.inr rfl) (.inl rfl) ?_
    · rw [hmon]
      exact List.Sublist.refl _
    · rintro x (hx | hx)
      · exact (h.new x (.inl hx)).2.2.2 job.svc
      · cases hx
  | takeBack hmon | undoStop hmon =>
    refine h.drop rfl rfl hseq ?_ (.inr rfl) (.inr ?_)
    · rw [hmon]
      exact List.Sublist.refl _
    · rw [hmon]
      rfl
  | giveUp hmon | undoDelete hmon =>
    refine h.drop rfl rfl hseq ?_ (.inr rfl) (.inl rfl)
    rw [hmon]
    exact List.Sublist.refl _

/-- The command line starts a container. -/
theorem Once.launchedCli {o : Answers} {job : Job} {s s' : Sys} (h : Once s)
    (hmgr : s'.mgr = (callLaunch o job s).1.mgr) (hspec : s'.spec = s.spec)
    (hmon : s'.mon = s.mon) (hlog : s'.log.restarts = s.log.restarts)
    (hcli : s'.cli.new = (callLaunch o job s).2)
    (hseq : s.mgr.nextSequence ≤ s'.mgr.nextSequence) : Once s' := by
  have hnew : ∀ x, s'.cli.new = some x → x = containerId s.mgr.nextSequence ∧
      s.mgr.nextSequence < s'.mgr.nextSequence := by
    intro x hx
    obtain ⟨hid, -, hlt⟩ := containerRunBackground_some (hcli ▸ hx)
    rw [hmgr]
    exact ⟨hid, hlt⟩
  refine h.launched ?_ hspec hseq ?_ ?_ ?_
  · rw [decided, decided, hmon, hlog]
  · rw [hmon]
    exact List.Subset.refl _
  · rintro x (hx | hx)
    · exact .inr (hnew x hx)
    · rw [hmon] at hx
      exact .inl (.inr hx)
  · intro x hx hx'
    rw [hmon] at hx'
    exact (h.new x (.inr hx')).2.1 _ (Nat.le_refl _) (hnew x hx).1

/-- The command line updates a service, with the monitor where it was. -/
theorem Once.storeCli {s s' : Sys} (h : Once s) {i : Nat} {f : Service → Service}
    (hspec : s'.spec = (s.setSvc i f).spec) (hlog : s'.log.restarts = s.log.restarts)
    (hmon : s'.mon = s.mon) (hcli : s'.cli.new = none)
    (hseq : s.mgr.nextSequence ≤ s'.mgr.nextSequence) (hf : SvcOnce s i (f (s.svc i)))
    (hstored : ∀ x, s.mon.new = some x → (f (s.svc i)).containerId ≠ x) : Once s' := by
  refine h.store hspec hlog hseq ?_ hf (.inl hcli) (.inr (by rw [hmon])) ?_
  · rw [hmon]
  · rintro x (hx | hx)
    · rw [hcli] at hx
      cases hx
    · rw [hmon] at hx
      exact hstored x hx

theorem Once.cli {o : Answers} {s s' : Sys} (h : Once s) (hs : cliStep o s = some s')
    (hseq : s.mgr.nextSequence ≤ s'.mgr.nextSequence) : Once s' := by
  have hmonNew : ∀ i x, s.mon.new = some x → (s.svc i).containerId ≠ x :=
    fun i x hx => (h.new x (.inr hx)).2.2.2 i
  -- a write that keeps the id keeps what was decided about it
  have hidle : ∀ i (f : Service → Service), (f (s.svc i)).containerId = (s.svc i).containerId →
      ¬ Ready (f (s.svc i)).state → SvcOnce s i (f (s.svc i)) :=
    fun i f hid hr => .inl ⟨hid, fun hr' => absurd hr' hr⟩
  have happart : ∀ id, s.cli.new = some id → ∀ x, s.mon.new = some x → id ≠ x :=
    fun id hnew x hx hid => h.apart x (hnew.trans (congrArg some hid)) hx
  cases cliStep_move hs with
  | @runNext i =>
    exact h.storeCli (i := i) (f := startingSvc) rfl rfl rfl rfl hseq
      (hidle i _ rfl (by simp [Ready, startingSvc])) (hmonNew i)
  | runLaunch => exact h.launchedCli rfl rfl rfl rfl rfl hseq
  | rstLaunch => exact h.launchedCli rfl rfl rfl rfl rfl hseq
  | @runFailed i | @rstFailed i =>
    exact h.storeCli (i := i) (f := failedSvc) rfl rfl rfl rfl hseq
      (hidle i _ rfl (by simp [Ready, failedSvc])) (hmonNew i)
  | @runStore i id todo hcli =>
    have hnew : s.cli.new = some id := by rw [hcli]; rfl
    exact h.storeCli (i := i) (f := startedSvc id o.now) rfl rfl rfl rfl hseq
      (.inr (.inr (.inl hnew))) (happart id hnew)
  | @rstStore i old id hcli =>
    have hnew : s.cli.new = some id := by rw [hcli]; rfl
    exact h.storeCli (i := i) (f := restarted id o.now) rfl rfl rfl rfl hseq
      (.inr (.inr (.inl hnew))) (happart id hnew)
  | runSpawn =>
    refine h.drop rfl rfl hseq ?_ (.inl rfl) (.inl ?_)
    · show (MonPc.work (if o.spawn = true then _ else _)).Sublist _
      split <;> exact List.nil_sublist _
    · show MonPc.new (if o.spawn = true then _ else _) = none
      split <;> rfl
  | @downDelete i =>
    refine h.storeCli (i := i) (f := clearedSvc) rfl rfl rfl rfl hseq (.inr (.inl rfl))
      fun x hx hid => ?_
    exact (h.new x (.inr hx)).1 hid.symm
  | runEnd | rstStop | rstDelete | downJoin | downEnd | downSkip | downStop =>
    exact h.drop rfl rfl hseq (List.Sublist.refl _) (.inl rfl) (.inr rfl)

/-- A new spec: no service has a container and none is on its way. -/
theorem once_begun {s : Sys} (parsed : ParsedSpec) (hoff : s.mon = .off) :
    Once (begun parsed s) := by
  have hnil : decided (begun parsed s) = [] := by
    rw [decided, begun, hoff]
    rfl
  have hids : ∀ i, ((begun parsed s).svc i).containerId = [] := by
    intro i
    simp only [Sys.svc, begun]
    cases hget : parsed.spec.services[i]? with
    | none => rfl
    | some svc => exact (parsed.fresh svc (List.mem_of_getElem? hget)).1
  have hflight : ∀ x, ¬ InFlight (begun parsed s) x := by
    rintro x (hx | hx)
    · cases hx
    · change s.mon.new = some x at hx
      rw [hoff] at hx
      cases hx
  constructor
  · rw [hnil]; exact List.forall_mem_nil _
  · intro i; rw [hids]; exact past_nil _
  · exact fun x hx => absurd hx (hflight x)
  · exact fun x hx => absurd (.inl hx) (hflight x)
  · rw [hnil]; exact List.forall_mem_nil _
  · rw [hnil]; exact List.nodup_nil

theorem Once.step {s s' : Sys} {a : Action} (h : Once s) (hwf : Wf s.mgr) (hin : InOrder s)
    (hlim : Limited s) (hu : a.isUser = false) (hs : sysStep s a = some s') : Once s' := by
  have hseq := seq_le_sysStep hwf hs hu
  cases sysStep_move hs with
  | refused => exact h
  | run hidle hstopped => exact once_begun _ (hin.monOff (.inr ⟨hidle, hstopped⟩))
  | @restart name i =>
    refine h.storeCli (i := i) (f := restartingSvc) rfl rfl rfl rfl hseq
      (.inl ⟨rfl, fun hr => absurd hr (by simp [Ready, restartingSvc])⟩) ?_
    exact fun x hx => (h.new x (.inr hx)).2.2.2 i
  | down => exact h.drop rfl rfl hseq (List.Sublist.refl _) (.inl rfl) (.inr rfl)
  | cli hs => exact h.cli hs hseq
  | mon hs => exact h.mon hlim hs hseq
  | user => cases hu

/-- **The restart policy is never exceeded.** In every state of every run, of
the automatic restarts since `orch_run`: none is of a service with policy
`never`, those of a service with policy `on-failure` follow an exit with
non-zero code, each answers an exit of its own that the monitor has noticed
before, and a service with `max_restarts` `m > 0` has at most `m`. When nobody
else works on the containers, no container is answered twice. -/
theorem restart_policy_respected {m : Manager} (hwf : Wf m) {as : List Action} {s : Sys}
    (hrun : Runs sysStep (Sys.init m) as s) :
    (∀ e ∈ s.log.restarts, (s.svc e.svc).restart ≠ .never ∧
      ((s.svc e.svc).restart = .onFailure → e.code ≠ 0)) ∧
    s.log.restarts.Sublist s.log.exits ∧
    (∀ i, 0 < (s.svc i).maxRestarts →
      ((s.log.restarts.countP fun e => e.svc = i : Nat) : Int) ≤ (s.svc i).maxRestarts) ∧
    ((∀ a ∈ as, a.isUser = false) → (s.log.restarts.map fun e => (e.svc, e.cid)).Nodup) := by
  obtain ⟨-, hlim⟩ := limited_of_runs hrun
  have hsub : s.log.restarts.Sublist (decided s) := List.sublist_append_left _ _
  refine ⟨fun e he => ?_, hsub.trans hlim.seen, fun i hpos => ?_, fun hquiet => ?_⟩
  · rcases hlim.allowed e (hsub.subset he) with halways | ⟨hfail, hcode⟩
    · rw [halways]
      exact ⟨nofun, nofun⟩
    · rw [hfail]
      exact ⟨nofun, fun _ => hcode⟩
  · exact (decisions_le_of_sublist hsub i).trans (hlim.bound i hpos)
  · have hinv : Wf s.mgr ∧ InOrder s ∧ Limited s ∧ Once s :=
      (hrun.of_forall hquiet).invariant
        (I := fun s => Wf s.mgr ∧ InOrder s ∧ Limited s ∧ Once s)
        (fun _ _ _ h hu hs => ⟨wf_step h.1 hs, h.2.1.step hs, h.2.2.1.step h.2.1 hs,
          h.2.2.2.step h.1 h.2.1 h.2.2.1 hu hs⟩)
        ⟨hwf, inOrder_init m, limited_init m, once_init m⟩
    exact hinv.2.2.2.nodup.sublist (hsub.map _)

/-- The monitor finds `web` (at address 1) exited with code 7 and restarts it. -/
def webCrash : List Action :=
  monSteps (.ofNat 1) 1 ++ monSees 1 7 :: monSteps (.ofNat 200) 7

theorem restart_policy_web :
    ∃ s, Runs sysStep (Sys.init .init) (webUp ++ webCrash) s ∧
      s.log.restarts = [⟨0, containerId 2, 7⟩] ∧ (s.svc 0).containerId = containerId 3 ∧
      s.log.restarts.Sublist s.log.exits := by
  obtain ⟨s, hrun, hrestarts, hid⟩ := exists_runOk_of_exec sysStep (fun _ _ => True)
    (Sys.init .init) (webUp ++ webCrash)
    (fun s => s.log.restarts = [⟨0, containerId 2, 7⟩] ∧ (s.svc 0).containerId = containerId 3)
    (by decide +kernel)
  exact ⟨s, hrun, hrestarts, hid, (restart_policy_respected wf_init hrun).2.1⟩

end ContainerSim.Orch
