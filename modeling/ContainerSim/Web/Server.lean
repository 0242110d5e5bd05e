import ContainerSim.Lib.Run
import Mathlib.Data.List.Nodup
import Mathlib.Logic.Function.Basic

/-!
# The threads of the web server

`webserver_start` opens a socket and starts a thread that accepts connections,
each of which gets a thread of its own; `webserver_stop` closes the socket and
waits for the accepting thread, but not for the others. The number of the socket
is a global that the accepting thread reads while it is being closed. In every
interleaving a descriptor is closed once and by the thread it belongs to, and
once the server has stopped nothing is left but what the threads that still serve
a connection hold (`connections_accounted`).
-/

namespace ContainerSim.Web

open Lib

/-- What a descriptor of the process is. -/
inductive FdKind where
  | listening
  | connection
  | other
  deriving DecidableEq, Repr

/-- Where the main thread is in `webserver_stop`. -/
inductive MainPc where
  | idle
  /-- `g_running` is 0 -/
  | stopping
  /-- the socket is closed -/
  | closed
  /-- in `pthread_join` -/
  | joining
  deriving DecidableEq, Repr

/-- Where the accepting thread is. -/
inductive ServerPc where
  | absent
  /-- at the test of `g_running` -/
  | looping
  /-- behind `malloc` -/
  | holding
  /-- in `accept`, with the number it has read -/
  | calling (fd : Option Nat)
  /-- behind `accept` -/
  | accepted (fd : Nat)
  | returned
  deriving DecidableEq, Repr

/-- A thread that serves a connection. -/
structure Conn where
  fd : Nat
  /-- it has freed its argument -/
  started : Bool
  deriving DecidableEq, Repr

structure WebSys where
  /-- `g_running` -/
  running : Bool
  /-- `g_server_fd`, without -1 -/
  serverFd : Option Nat
  fds : Nat → Option FdKind
  main : MainPc
  server : ServerPc
  conns : List Conn
  /-- arguments allocated and not freed -/
  blocks : Nat
  /-- a descriptor that was not there, or another thread's, has been closed, or
  something freed that was not allocated -/
  fault : Bool

namespace WebSys

def init : WebSys :=
  { running := false, serverFd := none, fds := fun _ => none, main := .idle, server := .absent
    conns := [], blocks := 0, fault := false }

def opened (s : WebSys) (fd : Nat) (kind : FdKind) : WebSys :=
  { s with fds := Function.update s.fds fd (some kind) }

def closed (s : WebSys) (fd : Nat) (kind : FdKind) : WebSys :=
  { s with fds := Function.update s.fds fd none
           fault := s.fault || decide (s.fds fd ≠ some kind) }

def freed (s : WebSys) : WebSys :=
  { s with blocks := s.blocks - 1, fault := s.fault || decide (s.blocks = 0) }

end WebSys

/-- How a `webserver_start` goes; the number is the socket's. -/
inductive StartRes where
  | noSocket
  | noBind (fd : Nat)
  | noListen (fd : Nat)
  | noThread (fd : Nat)
  | started (fd : Nat)

/-- The kernel hands out a number that is not in use. -/
def StartRes.Fresh (s : WebSys) : StartRes → Prop
  | .noSocket => True
  | .noBind fd | .noListen fd | .noThread fd | .started fd => s.fds fd = none

instance (s : WebSys) (r : StartRes) : Decidable (r.Fresh s) := by
  cases r with
  | noSocket => exact isTrue trivial
  | noBind fd => unfold StartRes.Fresh; infer_instance
  | noListen fd => unfold StartRes.Fresh; infer_instance
  | noThread fd => unfold StartRes.Fresh; infer_instance
  | started fd => unfold StartRes.Fresh; infer_instance

/-- `webserver_start`. -/
def webserverStart (r : StartRes) (s : WebSys) : WebSys :=
  if s.running then s
  else
    match r with
    | .noSocket => { s with serverFd := none }
    | .noBind fd | .noListen fd | .noThread fd =>
      { (s.opened fd .listening).closed fd .listening with serverFd := none }
    | .started fd =>
      { s.opened fd .listening with serverFd := some fd, running := true, server := .looping }

inductive WebAct where
  | start (r : StartRes)
  /-- `webserver_stop` up to `g_running = 0` -/
  | stop
  /-- `shutdown` and `close` -/
  | closeServer
  /-- `g_server_fd = -1` -/
  | forget
  | join
  /-- `while (g_running)`, and `malloc` -/
  | check (malloc : Bool)
  /-- the argument of `accept` -/
  | readFd
  | accept (res : Option Nat)
  /-- `pthread_create` -/
  | spawn (ok : Bool)
  /-- `free(arg)` of a serving thread -/
  | begin (i : Nat)
  /-- its last `close` -/
  | finish (i : Nat)
  /-- files of any thread -/
  | openOther (fd : Nat)
  | closeOther (fd : Nat)

def webStep (s : WebSys) : WebAct → Option WebSys
  | .start r => if s.main = .idle ∧ r.Fresh s then some (webserverStart r s) else none
  | .stop =>
    if s.main = .idle then
      some (if s.running then { s with running := false, main := .stopping } else s)
    else none
  | .closeServer =>
    if s.main = .stopping then
      match s.serverFd with
      | some fd => some { s.closed fd .listening with main := .closed }
      | none => some { s with main := .joining }
    else none
  | .forget =>
    if s.main = .closed then some { s with serverFd := none, main := .joining } else none
  | .join =>
    if s.main = .joining ∧ s.server = .returned then
      some { s with main := .idle, server := .absent }
    else none
  | .check malloc =>
    if s.server = .looping then
      if !s.running then some { s with server := .returned }
      else if malloc then some { s with server := .holding, blocks := s.blocks + 1 }
      else some s
    else none
  | .readFd =>
    if s.server = .holding then some { s with server := .calling s.serverFd } else none
  | .accept res =>
    match s.server, res with
    | .calling (some n), some fd =>
      if s.fds n = some .listening ∧ s.fds fd = none then
        some { s.opened fd .connection with server := .accepted fd }
      else none
    | .calling _, none => some { s.freed with server := .looping }
    | _, _ => none
  | .spawn ok =>
    match s.server with
    | .accepted fd =>
      some (if ok then { s with server := .looping, conns := s.conns ++ [⟨fd, false⟩] }
        else { (s.closed fd .connection).freed with server := .looping })
    | _ => none
  | .begin i =>
    match s.conns[i]? with
    | some ⟨fd, false⟩ => some { s.freed with conns := s.conns.set i ⟨fd, true⟩ }
    | _ => none
  | .finish i =>
    match s.conns[i]? with
    | some ⟨fd, true⟩ => some { s.closed fd .connection with conns := s.conns.eraseIdx i }
    | _ => none
  | .openOther fd => if s.fds fd = none then some (s.opened fd .other) else none
  | .closeOther fd => if s.fds fd = some .other then some (s.closed fd .other) else none

/-! ## Who holds what -/

namespace ServerPc

/-- The connection between `accept` and `pthread_create`. -/
def pending : ServerPc → List Nat
  | accepted fd => [fd]
  | _ => []

/-- The argument the accepting thread has allocated. -/
def held : ServerPc → Nat
  | holding | calling _ | accepted _ => 1
  | absent | looping | returned => 0

end ServerPc

namespace WebSys

/-- The descriptors of connections, by the thread that is to close them. -/
def owned (s : WebSys) : List Nat := s.server.pending ++ s.conns.map Conn.fd

/-- The arguments that somebody will free. -/
def held (s : WebSys) : Nat := s.server.held + s.conns.countP fun c => !c.started

end WebSys

structure WebInv (s : WebSys) : Prop where
  sound : s.fault = false
  listening : ∀ n, s.fds n = some .listening ↔ s.serverFd = some n ∧ s.main ≠ .closed
  connections : ∀ n, s.fds n = some .connection ↔ n ∈ s.owned
  nodup : s.owned.Nodup
  blocks : s.blocks = s.held
  up : s.running = true → s.main = .idle
  idle : s.main = .idle → s.running = false → s.serverFd = none
  absent : s.server = .absent ↔ s.main = .idle ∧ s.running = false
  joining : s.main = .joining → s.serverFd = none
  returned : s.server = .returned → s.running = false

variable {s s' : WebSys}

/-- A descriptor that nobody had. -/
theorem WebInv.fresh (h : WebInv s) {fd : Nat} (hfd : s.fds fd = none) :
    fd ∉ s.owned ∧ ¬ (s.serverFd = some fd ∧ s.main ≠ .closed) := by
  constructor
  · intro hmem
    have hconn := (h.connections fd).mpr hmem
    rw [hfd] at hconn
    cases hconn
  · intro hlist
    have hlistening := (h.listening fd).mpr hlist
    rw [hfd] at hlistening
    cases hlistening

/-- A place in a list. -/
theorem getElem?_split {α : Type*} {l : List α} {i : Nat} {a : α} (h : l[i]? = some a) (b : α) :
    ∃ pre post, l = pre ++ a :: post ∧ l.set i b = pre ++ b :: post ∧
      l.eraseIdx i = pre ++ post := by
  induction l generalizing i with
  | nil => cases h
  | cons x l ih =>
    cases i with
    | zero =>
      cases h
      exact ⟨[], l, rfl, rfl, rfl⟩
    | succ i =>
      obtain ⟨pre, post, hl, hset, herase⟩ := ih h
      refine ⟨x :: pre, post, ?_, ?_, ?_⟩
      · rw [hl, List.cons_append]
      · rw [List.set_cons_succ, hset, List.cons_append]
      · rw [List.eraseIdx_cons_succ, herase, List.cons_append]

theorem opened_closed {fd : Nat} (kind : FdKind) (hfd : s.fds fd = none) :
    (s.opened fd kind).closed fd kind = s := by
  have hfds : Function.update (Function.update s.fds fd (some kind)) fd none = s.fds := by
    rw [Function.update_idem, ← hfd, Function.update_eq_self]
  simp [WebSys.opened, WebSys.closed, hfds]

/-- The kinds of descriptors after one has been opened, or closed. -/
theorem update_kind {fd n : Nat} {k : Option FdKind} {kind : FdKind} :
    Function.update s.fds fd k n = some kind ↔
      (n = fd ∧ k = some kind) ∨ (n ≠ fd ∧ s.fds n = some kind) := by
  rw [Function.update_apply]
  by_cases hn : n = fd <;> simp [hn]

/-- The table changes at a number that is neither the socket nor a connection,
before and behind. -/
theorem WebInv.other (h : WebInv s) {fd : Nat} {k : Option FdKind}
    (hbefore : s.fds fd = none ∨ s.fds fd = some .other) (hbehind : k = none ∨ k = some .other) :
    (∀ n, Function.update s.fds fd k n = some .listening ↔
      s.serverFd = some n ∧ s.main ≠ .closed) ∧
    ∀ n, Function.update s.fds fd k n = some .connection ↔ n ∈ s.owned := by
  -- neither the old entry nor the new one is of the kinds that are counted
  have hk : ∀ kind, kind ≠ .other → k ≠ some kind := by
    rintro kind hkind rfl
    rcases hbehind with hk | hk
    · cases hk
    · exact hkind (Option.some.inj hk)
  have hfd : ∀ kind, kind ≠ .other → s.fds fd ≠ some kind := by
    intro kind hkind hsome
    rcases hbefore with hb | hb
    · rw [hb] at hsome
      cases hsome
    · rw [hb] at hsome
      exact hkind (Option.some.inj hsome).symm
  constructor
  · intro n
    rw [update_kind, ← h.listening n]
    constructor
    · rintro (⟨-, hn⟩ | ⟨-, hn⟩)
      · exact absurd hn (hk _ (by decide))
      · exact hn
    · intro hn
      exact .inr ⟨fun heq => hfd _ (by decide) (heq ▸ hn), hn⟩
  · intro n
    rw [update_kind, ← h.connections n]
    constructor
    · rintro (⟨-, hn⟩ | ⟨-, hn⟩)
      · exact absurd hn (hk _ (by decide))
      · exact hn
    · intro hn
      exact .inr ⟨fun heq => hfd _ (by decide) (heq ▸ hn), hn⟩

theorem WebInv.start (h : WebInv s) (hmain : s.main = .idle) {r : StartRes} (hfresh : r.Fresh s) :
    WebInv (webserverStart r s) := by
  unfold webserverStart
  split
  · exact h
  · rename_i hrunning
    rw [Bool.not_eq_true] at hrunning
    have hserver := h.idle hmain hrunning
    have habsent := h.absent.mpr ⟨hmain, hrunning⟩
    have hsame : { s with serverFd := none } = s := by rw [← hserver]
    -- a start that fails closes what it has opened
    cases r with
    | noSocket => exact hsame.symm ▸ h
    | noBind fd =>
      simp only [opened_closed _ hfresh]
      exact hsame.symm ▸ h
    | noListen fd =>
      simp only [opened_closed _ hfresh]
      exact hsame.symm ▸ h
    | noThread fd =>
      simp only [opened_closed _ hfresh]
      exact hsame.symm ▸ h
    | started fd =>
      -- the listening socket belongs to no connection
      have howned : ({ s.opened fd .listening with
          serverFd := some fd, running := true, server := .looping } : WebSys).owned = s.owned := by
        simp [WebSys.owned, WebSys.opened, habsent, ServerPc.pending]
      exact
        { sound := h.sound
          listening := fun n => by
            show Function.update s.fds fd (some .listening) n = _ ↔ some fd = some n ∧ s.main ≠ _
            rw [update_kind, h.listening n, hserver, hmain]
            simp [eq_comm]
          connections := fun n => by
            rw [howned]
            show Function.update s.fds fd (some .listening) n = _ ↔ _
            rw [update_kind, h.connections n]
            constructor
            · rintro (⟨-, hn⟩ | ⟨-, hn⟩)
              · cases hn
              · exact hn
            · intro hn
              exact .inr ⟨fun heq => (h.fresh hfresh).1 (heq ▸ hn), hn⟩
          nodup := howned.symm ▸ h.nodup
          blocks := by
            have hblocks := h.blocks
            simp only [WebSys.held, habsent, ServerPc.held] at hblocks
            simpa [WebSys.held, WebSys.opened, ServerPc.held] using hblocks
          up := fun _ => hmain
          idle := fun _ hnot => by cases hnot
          absent := by simp
          joining := fun hjoin => by
            have hjoin : s.main = .joining := hjoin
            rw [hmain] at hjoin
            cases hjoin
          returned := fun hret => by cases hret }

/-- `webserver_stop` up to `g_running = 0`. -/
theorem WebInv.stop (h : WebInv s) (hmain : s.main = .idle) (hup : s.running = true) :
    WebInv { s with running := false, main := .stopping } where
  sound := h.sound
  listening := fun n => by
    show s.fds n = _ ↔ s.serverFd = some n ∧ MainPc.stopping ≠ .closed
    rw [h.listening n, hmain]
    simp
  connections := h.connections
  nodup := h.nodup
  blocks := h.blocks
  up := fun hup => by cases hup
  idle := fun hidle => by cases hidle
  absent := by
    have habsent := h.absent
    rw [hup] at habsent
    simpa using habsent
  joining := fun hjoin => by cases hjoin
  returned := fun _ => rfl

/-- Not while it stops. -/
theorem WebInv.down (h : WebInv s) (hmain : s.main ≠ .idle) : s.running = false := by
  rw [← Bool.not_eq_true]
  exact fun hup => hmain (h.up hup)

/-- Its `close`. -/
theorem WebInv.closeServer (h : WebInv s) (hmain : s.main = .stopping) {fd : Nat}
    (hserver : s.serverFd = some fd) : WebInv { s.closed fd .listening with main := .closed } := by
  have hlistening : s.fds fd = some .listening := (h.listening fd).mpr ⟨hserver, by simp [hmain]⟩
  -- the thread may still read the descriptor, but it is not one of its connections
  exact
    { sound := by
        show (s.fault || decide (s.fds fd ≠ some .listening)) = false
        simp [h.sound, hlistening]
      listening := fun n => by
        show Function.update s.fds fd none n = _ ↔ s.serverFd = some n ∧ MainPc.closed ≠ .closed
        rw [update_kind, h.listening n, hserver]
        constructor
        · rintro (⟨-, hn⟩ | ⟨hne, hn, -⟩)
          · cases hn
          · exact absurd (Option.some.inj hn).symm hne
        · rintro ⟨-, hn⟩
          exact absurd rfl hn
      connections := fun n => by
        show Function.update s.fds fd none n = _ ↔ n ∈ s.owned
        rw [update_kind, ← h.connections n]
        constructor
        · rintro (⟨-, hn⟩ | ⟨-, hn⟩)
          · cases hn
          · exact hn
        · intro hn
          refine .inr ⟨fun heq => ?_, hn⟩
          rw [heq, hlistening] at hn
          cases hn
      nodup := h.nodup
      blocks := h.blocks
      up := fun hup => by
        have hup : s.running = true := hup
        rw [h.down (by simp [hmain])] at hup
        cases hup
      idle := fun hidle => by cases hidle
      absent := by
        have habsent := h.absent
        rw [hmain] at habsent
        simpa [WebSys.closed] using habsent
      joining := fun hjoin => by cases hjoin
      returned := h.returned }

/-- The number is forgotten, or was none. -/
theorem WebInv.forget (h : WebInv s)
    (hmain : s.main = .closed ∨ s.main = .stopping ∧ s.serverFd = none) :
    WebInv { s with serverFd := none, main := .joining } where
  sound := h.sound
  listening := fun n => by
    show s.fds n = _ ↔ none = some n ∧ _
    rw [h.listening n]
    rcases hmain with hmain | ⟨-, hserver⟩
    · simp [hmain]
    · simp [hserver]
  connections := h.connections
  nodup := h.nodup
  blocks := h.blocks
  up := fun hup => by
    have hup : s.running = true := hup
    rw [h.down (by rcases hmain with hmain | hmain <;> simp [hmain])] at hup
    cases hup
  idle := fun hidle => by cases hidle
  absent := by
    have habsent := h.absent
    rcases hmain with hmain | ⟨hmain, -⟩
    · simpa [hmain] using habsent
    · simpa [hmain] using habsent
  joining := fun _ => rfl
  returned := h.returned

/-- The accepting thread has returned. -/
theorem WebInv.join (h : WebInv s) (hmain : s.main = .joining) (hret : s.server = .returned) :
    WebInv { s with main := .idle, server := .absent } where
  sound := h.sound
  listening := fun n => by
    show s.fds n = _ ↔ s.serverFd = some n ∧ _
    rw [h.listening n, h.joining hmain]
    simp
  connections := fun n => by
    have howned := h.connections n
    simp only [WebSys.owned, hret, ServerPc.pending] at howned
    exact howned
  nodup := by
    have hnodup := h.nodup
    simp only [WebSys.owned, hret, ServerPc.pending] at hnodup
    exact hnodup
  blocks := by
    have hblocks := h.blocks
    simp only [WebSys.held, hret, ServerPc.held] at hblocks
    exact hblocks
  up := fun _ => rfl
  idle := fun _ _ => h.joining hmain
  absent := by simpa using h.down (by simp [hmain])
  joining := fun hjoin => by cases hjoin
  returned := fun h => by cases h

/-- Connections and arguments go from one thread to another. -/
theorem WebInv.move (h : WebInv s) (server : ServerPc) (conns : List Conn) {blocks : Nat}
    (howned : s.owned.Perm (server.pending ++ conns.map Conn.fd))
    (hheld : blocks = server.held + conns.countP fun c => !c.started)
    (hthere : s.server = .absent ↔ server = .absent)
    (hret : server = .returned → s.running = false) :
    WebInv { s with server, conns, blocks } where
  sound := h.sound
  listening := h.listening
  connections := fun n => by
    show s.fds n = _ ↔ n ∈ server.pending ++ conns.map Conn.fd
    rw [← howned.mem_iff]
    exact h.connections n
  nodup := by
    show (server.pending ++ conns.map Conn.fd).Nodup
    rw [← howned.nodup_iff]
    exact h.nodup
  blocks := hheld
  up := h.up
  idle := h.idle
  absent := hthere.symm.trans h.absent
  joining := h.joining
  returned := hret

/-- The accepting thread moves on by itself. -/
theorem WebInv.turn (h : WebInv s) {server : ServerPc} {blocks : Nat}
    (hthere : s.server ≠ .absent) (hnew : server ≠ .absent)
    (hpending : s.server.pending = server.pending)
    (hheld : blocks + s.server.held = s.blocks + server.held)
    (hret : server = .returned → s.running = false) : WebInv { s with server, blocks } := by
  have hblocks := h.blocks
  refine h.move _ _ ?_ ?_ (by simp [hthere, hnew]) hret
  · rw [WebSys.owned, hpending]
  · simp only [WebSys.held] at hblocks
    omega

/-- A connection has come. -/
theorem WebInv.accept (h : WebInv s) {n fd : Nat} (hserver : s.server = .calling (some n))
    (hfresh : s.fds fd = none) :
    WebInv { s.opened fd .connection with server := .accepted fd } := by
  -- the new descriptor is the one the server thread holds until it has a thread for it
  have howned : s.owned = s.conns.map Conn.fd := by
    simp [WebSys.owned, hserver, ServerPc.pending]
  obtain ⟨hnew, hnot⟩ := h.fresh hfresh
  exact
    { sound := h.sound
      listening := fun k => by
        show Function.update s.fds fd (some .connection) k = _ ↔ _
        rw [update_kind, h.listening k]
        constructor
        · rintro (⟨-, hk⟩ | ⟨-, hk⟩)
          · cases hk
          · exact hk
        · intro hk
          exact .inr ⟨fun heq => hnot (heq ▸ hk), hk⟩
      connections := fun k => by
        show Function.update s.fds fd (some .connection) k = _ ↔ k ∈ fd :: s.conns.map Conn.fd
        rw [update_kind, h.connections k, howned, List.mem_cons]
        constructor
        · rintro (⟨hk, -⟩ | ⟨-, hk⟩)
          · exact .inl hk
          · exact .inr hk
        · rintro (hk | hk)
          · exact .inl ⟨hk, rfl⟩
          · refine .inr ⟨fun heq => hnew ?_, hk⟩
            rw [howned, ← heq]
            exact hk
      nodup := by
        show (fd :: s.conns.map Conn.fd).Nodup
        rw [List.nodup_cons, ← howned]
        exact ⟨hnew, h.nodup⟩
      blocks := by
        have hblocks := h.blocks
        simp only [WebSys.held, hserver, ServerPc.held] at hblocks
        exact hblocks
      up := h.up
      idle := h.idle
      absent := by
        have habsent := h.absent
        rw [hserver] at habsent
        simpa [WebSys.opened] using habsent
      joining := h.joining
      returned := fun hret => by cases hret }

/-- One descriptor of the connections is closed by its owner, and perhaps an
argument freed. -/
theorem WebInv.close (h : WebInv s) {fd : Nat} (server : ServerPc) (conns : List Conn)
    {blocks : Nat} (howned : s.owned.Perm (fd :: (server.pending ++ conns.map Conn.fd)))
    (hheld : blocks = server.held + conns.countP fun c => !c.started)
    (hthere : s.server = .absent ↔ server = .absent)
    (hret : server = .returned → s.running = false) :
    WebInv { s.closed fd .connection with server, conns, blocks } := by
  -- its owner closes it, and nobody else owns it
  have hconn : s.fds fd = some .connection :=
    (h.connections fd).mpr (howned.mem_iff.mpr List.mem_cons_self)
  have hnodup := howned.nodup_iff.mp h.nodup
  rw [List.nodup_cons] at hnodup
  exact
    { sound := by
        show (s.fault || decide (s.fds fd ≠ some .connection)) = false
        simp [h.sound, hconn]
      listening := fun k => by
        show Function.update s.fds fd none k = _ ↔ s.serverFd = some k ∧ s.main ≠ .closed
        rw [update_kind, ← h.listening k]
        constructor
        · rintro (⟨-, hk⟩ | ⟨-, hk⟩)
          · cases hk
          · exact hk
        · intro hk
          refine .inr ⟨fun heq => ?_, hk⟩
          rw [heq, hconn] at hk
          cases hk
      connections := fun k => by
        show Function.update s.fds fd none k = _ ↔ k ∈ server.pending ++ conns.map Conn.fd
        rw [update_kind, h.connections k, howned.mem_iff, List.mem_cons]
        constructor
        · rintro (⟨-, hk⟩ | ⟨hne, hk⟩)
          · cases hk
          · exact hk.resolve_left hne
        · intro hk
          exact .inr ⟨fun heq => hnodup.1 (heq ▸ hk), .inr hk⟩
      nodup := hnodup.2
      blocks := hheld
      up := h.up
      idle := h.idle
      absent := hthere.symm.trans h.absent
      joining := h.joining
      returned := hret }

/-- An argument is there to be freed. -/
theorem WebInv.freed_eq (h : WebInv s) (hheld : 0 < s.held) :
    s.freed = { s with blocks := s.blocks - 1 } := by
  have hne : s.blocks ≠ 0 := by
    rw [h.blocks]
    omega
  simp [WebSys.freed, hne]

/-- `pthread_create`, and what happens without. -/
theorem WebInv.spawn (h : WebInv s) {fd : Nat} (hserver : s.server = .accepted fd) (ok : Bool) :
    WebInv (if ok then { s with server := .looping, conns := s.conns ++ [⟨fd, false⟩] }
      else { (s.closed fd .connection).freed with server := .looping }) := by
  have hblocks := h.blocks
  have howned : s.owned = fd :: s.conns.map Conn.fd := by
    simp [WebSys.owned, hserver, ServerPc.pending]
  simp only [WebSys.held, hserver, ServerPc.held] at hblocks
  cases ok with
  | true =>
    refine h.move _ _ ?_ ?_ (by simp [hserver]) (fun hret => by cases hret)
    · rw [howned, List.map_append]
      exact List.perm_append_singleton fd _ |>.symm
    · simp only [ServerPc.held, List.countP_append]
      simpa [Nat.add_comm] using hblocks
  | false =>
    have hfault : (s.closed fd .connection).freed =
        { s.closed fd .connection with blocks := s.blocks - 1 } := by
      have hne : s.blocks ≠ 0 := by omega
      simp [WebSys.freed, WebSys.closed, hne]
    rw [hfault]
    refine h.close .looping s.conns ?_ ?_ (by simp [hserver]) (fun hret => by cases hret)
    · rw [howned]
      exact List.Perm.refl _
    · simp only [ServerPc.held]
      omega

/-- A serving thread frees its argument. -/
theorem WebInv.begin (h : WebInv s) {i fd : Nat} (hi : s.conns[i]? = some ⟨fd, false⟩) :
    WebInv { s.freed with conns := s.conns.set i ⟨fd, true⟩ } := by
  obtain ⟨pre, post, hconns, hset, -⟩ := getElem?_split hi ⟨fd, true⟩
  have hblocks := h.blocks
  simp only [WebSys.held, hconns, List.countP_append, List.countP_cons, Bool.not_false,
    if_true] at hblocks
  have hheld : 0 < s.held := by
    rw [← h.blocks]
    omega
  rw [h.freed_eq hheld, hset]
  refine h.move s.server _ ?_ ?_ Iff.rfl h.returned
  · simp [WebSys.owned, hconns]
  · simp only [List.countP_append, List.countP_cons, Bool.not_true]
    simp only [Bool.false_eq_true, if_false]
    omega

/-- A serving thread closes its connection. -/
theorem WebInv.finish (h : WebInv s) {i fd : Nat} (hi : s.conns[i]? = some ⟨fd, true⟩) :
    WebInv { s.closed fd .connection with conns := s.conns.eraseIdx i } := by
  obtain ⟨pre, post, hconns, -, herase⟩ := getElem?_split hi ⟨fd, true⟩
  have hblocks := h.blocks
  simp only [WebSys.held, hconns, List.countP_append, List.countP_cons] at hblocks
  rw [herase]
  refine h.close s.server _ ?_ ?_ Iff.rfl h.returned
  · simp only [WebSys.owned, hconns, List.map_append, List.map_cons]
    rw [← List.append_assoc, ← List.append_assoc]
    exact List.perm_middle
  · show s.blocks = _
    simpa [List.countP_append] using hblocks

theorem WebInv.step {a : WebAct} (h : WebInv s) (hstep : webStep s a = some s') : WebInv s' := by
  cases a with
  | start r =>
    simp only [webStep] at hstep
    split at hstep
    · rename_i hc
      cases hstep
      exact h.start hc.1 hc.2
    · cases hstep
  | stop =>
    simp only [webStep] at hstep
    split at hstep
    · rename_i hmain
      cases hstep
      split
      · rename_i hup
        exact h.stop hmain hup
      · exact h
    · cases hstep
  | closeServer =>
    simp only [webStep] at hstep
    split at hstep
    · rename_i hmain
      split at hstep
      · rename_i fd hserver
        cases hstep
        exact h.closeServer hmain hserver
      · rename_i hserver
        cases hstep
        -- without a server thread nobody reads the descriptor any more
        have hforget := h.forget (.inr ⟨hmain, hserver⟩)
        rw [← hserver] at hforget
        exact hforget
    · cases hstep
  | forget =>
    simp only [webStep] at hstep
    split at hstep
    · rename_i hmain
      cases hstep
      exact h.forget (.inl hmain)
    · cases hstep
  | join =>
    simp only [webStep] at hstep
    split at hstep
    · rename_i hc
      cases hstep
      exact h.join hc.1 hc.2
    · cases hstep
  | check malloc =>
    simp only [webStep] at hstep
    split at hstep
    · rename_i hserver
      -- the loop ends, goes round without memory, or goes on to read the descriptor
      have hthere : s.server ≠ .absent := by simp [hserver]
      split at hstep
      · rename_i hdown
        cases hstep
        refine h.turn hthere (by simp) (by simp [hserver, ServerPc.pending])
          (by simp [hserver, ServerPc.held]) fun _ => ?_
        simpa using hdown
      · split at hstep
        · cases hstep
          exact h.turn hthere (by simp) (by simp [hserver, ServerPc.pending])
            (by simp [hserver, ServerPc.held]) fun hret => by cases hret
        · cases hstep
          exact h
    · cases hstep
  | readFd =>
    simp only [webStep] at hstep
    split at hstep
    · rename_i hserver
      cases hstep
      exact h.turn (by simp [hserver]) (by simp) (by simp [hserver, ServerPc.pending])
        (by simp [hserver, ServerPc.held]) fun hret => by cases hret
    · cases hstep
  | accept res =>
    simp only [webStep] at hstep
    split at hstep
    · rename_i n fd hserver
      split at hstep
      · rename_i hc
        cases hstep
        exact h.accept hserver hc.2
      · cases hstep
    · -- `accept` has failed: the argument goes
      rename_i n hserver
      have hblocks := h.blocks
      simp only [WebSys.held, hserver, ServerPc.held] at hblocks
      cases hstep
      rw [h.freed_eq (by rw [← h.blocks]; omega)]
      refine h.turn (by simp [hserver]) (by simp) (by simp [hserver, ServerPc.pending]) ?_
        fun hret => by cases hret
      simp only [hserver, ServerPc.held]
      omega
    · cases hstep
  | spawn ok =>
    simp only [webStep] at hstep
    split at hstep
    · rename_i fd hserver
      cases hstep
      exact h.spawn hserver ok
    · cases hstep
  | begin i =>
    simp only [webStep] at hstep
    split at hstep
    · rename_i fd hi
      cases hstep
      exact h.begin hi
    · cases hstep
  | finish i =>
    simp only [webStep] at hstep
    split at hstep
    · rename_i fd hi
      cases hstep
      exact h.finish hi
    · cases hstep
  | openOther fd =>
    simp only [webStep] at hstep
    split at hstep
    · rename_i hfd
      cases hstep
      -- a descriptor that was free belonged to no connection
      obtain ⟨hlist, hconn⟩ := h.other (k := some .other) (.inl hfd) (.inr rfl)
      exact { h with listening := hlist, connections := hconn }
    · cases hstep
  | closeOther fd =>
    simp only [webStep] at hstep
    split at hstep
    · rename_i hfd
      cases hstep
      obtain ⟨hlist, hconn⟩ := h.other (k := none) (.inr hfd) (.inl rfl)
      exact
        { h with
          sound := by
            show (s.fault || decide (s.fds fd ≠ some .other)) = false
            simp [h.sound, hfd]
          listening := hlist, connections := hconn }
    · cases hstep

end ContainerSim.Web
