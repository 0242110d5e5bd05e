import ContainerSim.Lib.Scan
import ContainerSim.Runtime.Ops

/-!
# Requests to the web server

`handle_connection`: the request line is read with `sscanf`, and so are the
routes with a container id in them. The count `sscanf` returns says nothing
about what follows the last conversion, and `%63[^/]` stops after 63 characters,
so more paths lead to `container_send_signal` than the stop route.
-/

namespace ContainerSim.Web

open Lib ContainerSim.Runtime

/-! ## Reading a request -/

/-- `sscanf(req, "%7s %255s", method, path)` with both read. -/
def scanRequest (req : Bytes) : Option (Bytes × Bytes) :=
  match scanWord 7 (cstr req) with
  | none => none
  | some (method, rest) =>
    match scanWord 255 rest with
    | none => none
    | some (path, _) => some (method, path)

def containersPath : Bytes := bytes "/api/containers/"

/-- `sscanf(path, "/api/containers/%63[^/]/stop", cid)` with one conversion, and
the same with `/logs` and `/inspect`. -/
def scanCid (path : Bytes) : Option Bytes :=
  if containersPath.isPrefixOf path then
    match ((path.drop containersPath.length).takeWhile (· ≠ 47)).take 63 with
    | [] => none
    | cid => some cid
  else none

/-- The characters the three routes allow in an id. -/
def idChar (ch : UInt8) : Bool :=
  (97 ≤ ch && ch ≤ 122) || (65 ≤ ch && ch ≤ 90) || (48 ≤ ch && ch ≤ 57) || ch = 45 || ch = 95

/-- The id of a route, if it passes the check of its characters. -/
def routeCid (path : Bytes) : Option Bytes := (scanCid path).filter fun cid => cid.all idChar

/-- `qs_int`. -/
def qsInt (qs : Option Bytes) (key : Bytes) (default : Int) : Int :=
  let search := snprintfStr 64 (key ++ bytes "=")
  match qs with
  | none => default
  | some qs =>
    match strstr qs search with
    | none => default
    | some p => toInt32 (strtol (p.drop search.length)).toInt

/-! ## The handler -/

/-- What a GET request is served from. -/
inductive Page where
  | file (name : Bytes)
  | containers
  | events (want : Int)
  | logs (cid : Bytes) (want : Int)
  | metrics
  | alerts
  | stats
  | scheduler
  | images
  | orchStatus
  | network
  | inspect (cid : Bytes)
  deriving DecidableEq, Repr

/-- `want` of the logs route. -/
def logsWant (qs : Option Bytes) : Int :=
  let want := qsInt qs (bytes "n") 40
  if want ≤ 0 then 40 else if want > 200 then 200 else want

/-- The routes of GET. -/
def getPage (path : Bytes) (qs : Option Bytes) : Option Page :=
  let inContainers (part : Bytes) : Bool :=
    containersPath.isPrefixOf path ∧ (strstr (path.drop containersPath.length) part).isSome
  if path = bytes "/" ∨ path = bytes "/index.html" then some (.file (bytes "web/index.html"))
  else if path = bytes "/style.css" then some (.file (bytes "web/style.css"))
  else if path = bytes "/theme.css" then some (.file (bytes "web/theme.css"))
  else if path = bytes "/app.js" then some (.file (bytes "web/app.js"))
  else if path = bytes "/api/containers" then some .containers
  else if path = bytes "/api/events" then some (.events (qsInt qs (bytes "n") 50))
  else if inContainers (bytes "/logs") then
    (routeCid path).map fun cid => .logs cid (logsWant qs)
  else if path = bytes "/api/metrics" then some .metrics
  else if path = bytes "/api/alerts" then some .alerts
  else if path = bytes "/api/stats" then some .stats
  else if path = bytes "/api/scheduler" then some .scheduler
  else if path = bytes "/api/images" then some .images
  else if path = bytes "/api/orch/status" then some .orchStatus
  else if path = bytes "/api/network" then some .network
  else if inContainers (bytes "/inspect") then (routeCid path).map .inspect
  else none

/-- `container_send_signal`: the manager after it, and whether it returns 0. -/
def containerSendSignal (kill : Bool) (id : Bytes) (sig : Signal) (m : Manager) : Manager × Bool :=
  if id = [] then (m, false)
  else
    match m.list.find? fun c => c.id = id with
    | none => (m, false)
    | some c =>
      if c.pid > 0 ∧ c.state = .running then
        if kill then ({ m with world := m.world.emit (.signal c.pid sig) }, true) else (m, false)
      else (m, false)

inductive Reply where
  /-- the connection is closed without an answer -/
  | closed
  | preflight
  | page (p : Page)
  | notFound
  | accepted
  deriving DecidableEq, Repr

/-- What a request leads to: the manager after it, the id
`container_send_signal` was called with, and the answer. -/
structure Handled where
  mgr : Manager
  signalled : Option Bytes
  reply : Reply

/-- `handle_connection`. -/
def handleConnection (o : PollOutcome) (kill : Bool) (req : Bytes) (m : Manager) : Handled :=
  match scanRequest req with
  | none => ⟨m, none, .closed⟩
  | some (method, target) =>
    let path := target.takeWhile (· ≠ 63)
    let qs := if 63 ∈ target then some ((target.dropWhile (· ≠ 63)).drop 1) else none
    let m := if (bytes "/api/").isPrefixOf path then pollStates o m else m
    if method = bytes "OPTIONS" then ⟨m, none, .preflight⟩
    else if method = bytes "GET" then
      match getPage path qs with
      | some p => ⟨m, none, .page p⟩
      | none => ⟨m, none, .notFound⟩
    else if method = bytes "POST" then
      match routeCid path with
      | none => ⟨m, none, .notFound⟩
      | some cid =>
        let (m, ok) := containerSendSignal kill cid .term m
        ⟨m, some cid, if ok then .accepted else .notFound⟩
    else ⟨m, none, .notFound⟩

/-! ## What the server reads -/

/-- The first two words of a request. -/
def RequestLine (req method target : Bytes) : Prop :=
  ∃ rest rest', FirstWord (cstr req) method rest ∧ FirstWord rest target rest'

theorem RequestLine.unique {req method target target' : Bytes} (h : RequestLine req method target)
    (h' : RequestLine req method target') : target = target' := by
  obtain ⟨rest, _, hmethod, htarget⟩ := h
  obtain ⟨rest', _, hmethod', htarget'⟩ := h'
  obtain ⟨-, rfl⟩ := hmethod.unique hmethod'
  exact (htarget.unique htarget').1

theorem scanRequest_of_line {req method target : Bytes} (h : RequestLine req method target)
    (hmethod : method.length ≤ 7) : scanRequest req = some (method, target.take 255) := by
  obtain ⟨rest, rest', hword, htarget⟩ := h
  rw [scanRequest, hword.scan (by omega), List.take_of_length_le hmethod,
    List.drop_eq_nil_of_le hmethod, List.nil_append]
  simp only [htarget.scan (show 0 < 255 by omega)]

/-- A method of less than seven characters was not cut. -/
theorem line_of_scanRequest {req method path : Bytes} (h : scanRequest req = some (method, path))
    (hmethod : method.length < 7) : ∃ target, RequestLine req method target ∧ path = target.take 255 := by
  unfold scanRequest at h
  cases hfirst : scanWord 7 (cstr req) with
  | none =>
    rw [hfirst] at h
    cases h
  | some p =>
    obtain ⟨word, rest⟩ := p
    rw [hfirst] at h
    simp only at h
    cases hsecond : scanWord 255 rest with
    | none =>
      rw [hsecond] at h
      cases h
    | some q =>
      obtain ⟨word', rest'⟩ := q
      rw [hsecond] at h
      obtain ⟨rfl, rfl⟩ := Prod.mk.inj (Option.some.inj h)
      obtain ⟨full, after, hfull, hcut, rfl⟩ := firstWord_of_scan hfirst
      obtain ⟨target, after', htarget, rfl, -⟩ := firstWord_of_scan hsecond
      have hshort : full.length ≤ 7 := by
        have hlen := congrArg List.length hcut
        rw [List.length_take] at hlen
        omega
      rw [List.take_of_length_le hshort] at hcut
      rw [List.drop_eq_nil_of_le hshort, List.nil_append] at htarget
      subst hcut
      exact ⟨target, ⟨after, after', hfull, htarget⟩, rfl⟩

theorem scanCid_eq_some {path cid : Bytes} :
    scanCid path = some cid ↔
      ∃ rest, path = containersPath ++ rest ∧ cid = (rest.takeWhile (· ≠ 47)).take 63 ∧ cid ≠ [] := by
  unfold scanCid
  constructor
  · intro h
    split at h
    · rename_i hprefix
      obtain ⟨rest, rfl⟩ := List.isPrefixOf_iff_prefix.mp hprefix
      rw [List.drop_left] at h
      cases hcid : (rest.takeWhile (· ≠ 47)).take 63 with
      | nil =>
        rw [hcid] at h
        cases h
      | cons c cs =>
        rw [hcid] at h
        obtain rfl := Option.some.inj h
        exact ⟨rest, rfl, hcid.symm, List.cons_ne_nil _ _⟩
    · cases h
  · rintro ⟨rest, rfl, hcid, hne⟩
    rw [if_pos (List.isPrefixOf_iff_prefix.mpr (List.prefix_append _ _)), List.drop_left, ← hcid]
    cases cid with
    | nil => exact absurd rfl hne
    | cons c cs => rfl

/-- The scan looks at the first 79 bytes only. -/
theorem scanCid_take {path : Bytes} {n : Nat} (hn : 79 ≤ n) : scanCid (path.take n) = scanCid path := by
  have hlen : containersPath.length = 16 := rfl
  have hprefix : containersPath.isPrefixOf (path.take n) = containersPath.isPrefixOf path := by
    rw [Bool.eq_iff_iff, List.isPrefixOf_iff_prefix, List.isPrefixOf_iff_prefix,
      List.prefix_take_iff]
    exact ⟨fun h => h.1, fun h => ⟨h, by omega⟩⟩
  have hcid : (((path.take n).drop containersPath.length).takeWhile (· ≠ 47)).take 63 =
      ((path.drop containersPath.length).takeWhile (· ≠ 47)).take 63 := by
    rw [List.drop_take, List.take_takeWhile, List.take_takeWhile, List.take_take,
      Nat.min_eq_left (by omega)]
  rw [scanCid, scanCid, hprefix, hcid]

theorem routeCid_eq_some {path cid : Bytes} :
    routeCid path = some cid ↔ scanCid path = some cid ∧ cid.all idChar = true := by
  rw [routeCid, Option.filter_eq_some_iff]

/-! ## The stop route -/

section
variable {o : PollOutcome} {kill : Bool} {req : Bytes} {m : Manager}

/-- What a POST request leads to. -/
theorem handle_post {target : Bytes} (h : RequestLine req (bytes "POST") target) :
    (handleConnection o kill req m).signalled = routeCid (target.takeWhile (· ≠ 63)) ∧
      (routeCid (target.takeWhile (· ≠ 63)) = none →
        (handleConnection o kill req m).reply = .notFound) := by
  have hscan := scanRequest_of_line h (by decide)
  -- the target is cut at 255 bytes, behind every route
  have hcut : (target.take 255).takeWhile (· ≠ 63) = (target.takeWhile (· ≠ 63)).take 255 :=
    List.take_takeWhile.symm
  have hcid : routeCid ((target.take 255).takeWhile (· ≠ 63)) =
      routeCid (target.takeWhile (· ≠ 63)) := by
    rw [hcut, routeCid, scanCid_take (by omega), routeCid]
  unfold handleConnection
  rw [hscan]
  simp only
  rw [if_neg (by decide), if_neg (by decide), if_pos True.intro, hcid]
  cases routeCid (target.takeWhile (· ≠ 63)) with
  | none => exact ⟨rfl, fun _ => rfl⟩
  | some cid => exact ⟨rfl, fun h => by cases h⟩

/-- Nothing but a POST request signals. -/
theorem post_of_signalled {id : Bytes} (h : (handleConnection o kill req m).signalled = some id) :
    ∃ target, RequestLine req (bytes "POST") target := by
  unfold handleConnection at h
  cases hscan : scanRequest req with
  | none =>
    rw [hscan] at h
    cases h
  | some p =>
    obtain ⟨method, target⟩ := p
    rw [hscan] at h
    simp only at h
    split at h
    · cases h
    · split at h
      · split at h
        · cases h
        · cases h
      · split at h
        · rename_i hpost
          subst hpost
          obtain ⟨full, hline, -⟩ := line_of_scanRequest hscan (by decide)
          exact ⟨full, hline⟩
        · cases h

theorem signalled_iff {id : Bytes} :
    (handleConnection o kill req m).signalled = some id ↔
      ∃ target, RequestLine req (bytes "POST") target ∧
        routeCid (target.takeWhile (· ≠ 63)) = some id := by
  constructor
  · intro h
    obtain ⟨target, hline⟩ := post_of_signalled h
    rw [(handle_post hline).1] at h
    exact ⟨target, hline, h⟩
  · rintro ⟨target, hline, hid⟩
    rw [(handle_post hline).1, hid]

end

/-- A request for the stop route of the id. -/
def StopRequest (req id : Bytes) : Prop :=
  ∃ target, RequestLine req (bytes "POST") target ∧
    target.takeWhile (· ≠ 63) = containersPath ++ (id ++ bytes "/stop") ∧
    id ≠ [] ∧ id.length ≤ 63 ∧ id.all idChar = true

/-- A POST request whose path goes on behind `/api/containers/` with what is
read as an id is for the stop route. -/
def StopsOnly (req : Bytes) : Prop :=
  ∀ target rest, RequestLine req (bytes "POST") target →
    target.takeWhile (· ≠ 63) = containersPath ++ rest →
    (rest.takeWhile (· ≠ 47)).take 63 ≠ [] → ((rest.takeWhile (· ≠ 47)).take 63).all idChar = true →
    (rest.takeWhile (· ≠ 47)).length ≤ 63 ∧ rest = rest.takeWhile (· ≠ 47) ++ bytes "/stop"

/-- The id ends at the slash. -/
theorem takeWhile_id {id : Bytes} (h : id.all idChar = true) (t : Bytes) :
    (id ++ 47 :: t).takeWhile (· ≠ 47) = id := by
  rw [List.takeWhile_append_of_pos]
  · rw [List.takeWhile_cons_of_neg (by decide), List.append_nil]
  · intro c hc
    refine decide_eq_true ?_
    rintro rfl
    exact absurd (List.all_eq_true.mp h 47 hc) (by decide)

/-- The stop route is read as its id. -/
theorem routeCid_stop {id : Bytes} (hne : id ≠ []) (hlen : id.length ≤ 63)
    (hid : id.all idChar = true) : routeCid (containersPath ++ (id ++ bytes "/stop")) = some id := by
  refine routeCid_eq_some.mpr ⟨scanCid_eq_some.mpr ⟨_, rfl, ?_, hne⟩, hid⟩
  rw [show bytes "/stop" = 47 :: bytes "stop" from rfl, takeWhile_id hid, List.take_of_length_le hlen]

section
variable {o : PollOutcome} {kill : Bool} {req : Bytes} {m : Manager}

theorem signalled_of_stop {id : Bytes} (h : StopRequest req id) :
    (handleConnection o kill req m).signalled = some id := by
  obtain ⟨target, hline, hpath, hne, hlen, hid⟩ := h
  refine signalled_iff.mpr ⟨target, hline, ?_⟩
  rw [hpath, routeCid_stop hne hlen hid]

theorem stop_of_signalled (h : StopsOnly req) {id : Bytes}
    (hid : (handleConnection o kill req m).signalled = some id) : StopRequest req id := by
  obtain ⟨target, hline, hcid⟩ := signalled_iff.mp hid
  obtain ⟨hscan, hchars⟩ := routeCid_eq_some.mp hcid
  obtain ⟨rest, hpath, hseg, hne⟩ := scanCid_eq_some.mp hscan
  rw [hseg] at hne hchars
  obtain ⟨hlen, hrest⟩ := h target rest hline hpath hne hchars
  rw [List.take_of_length_le hlen] at hseg hne hchars
  rw [← hseg] at hrest hne hlen hchars
  exact ⟨target, hline, by rw [hpath, hrest], hne, hlen, hchars⟩

theorem stopsOnly_of_signalled
    (h : ∀ id, (handleConnection o kill req m).signalled = some id → StopRequest req id) :
    StopsOnly req := by
  intro target rest hline hpath hne hchars
  have hcid : routeCid (target.takeWhile (· ≠ 63)) = some ((rest.takeWhile (· ≠ 47)).take 63) :=
    routeCid_eq_some.mpr ⟨scanCid_eq_some.mpr ⟨rest, hpath, rfl, hne⟩, hchars⟩
  obtain ⟨target', hline', hpath', -, hlen, -⟩ := h _ (signalled_iff.mpr ⟨target, hline, hcid⟩)
  obtain rfl := hline.unique hline'
  have hrest : rest = (rest.takeWhile (· ≠ 47)).take 63 ++ bytes "/stop" :=
    List.append_cancel_left (hpath.symm.trans hpath')
  have hseg : rest.takeWhile (· ≠ 47) = (rest.takeWhile (· ≠ 47)).take 63 := by
    conv_lhs => rw [hrest, show bytes "/stop" = 47 :: bytes "stop" from rfl]
    exact takeWhile_id hchars _
  rw [← hseg] at hrest hlen
  exact ⟨hlen, hrest⟩

/-- A request signals a container exactly if it is for its stop route, and every
other POST request is answered with 404, if and only if the path of the request
is the stop route or is not read as one. -/
theorem stop_route_iff :
    ((∀ id, (handleConnection o kill req m).signalled = some id ↔ StopRequest req id) ∧
      ∀ target, RequestLine req (bytes "POST") target → (∀ id, ¬ StopRequest req id) →
        (handleConnection o kill req m).signalled = none ∧
          (handleConnection o kill req m).reply = .notFound) ↔
      StopsOnly req := by
  constructor
  · rintro ⟨hsignal, -⟩
    exact stopsOnly_of_signalled fun id => (hsignal id).mp
  · intro h
    refine ⟨fun id => ⟨stop_of_signalled h, signalled_of_stop⟩, fun target hline hother => ?_⟩
    have hnone : (handleConnection o kill req m).signalled = none := by
      cases hid : (handleConnection o kill req m).signalled with
      | none => rfl
      | some id => exact absurd (stop_of_signalled h hid) (hother id)
    obtain ⟨hsignal, hreply⟩ := @handle_post o kill req m target hline
    exact ⟨hnone, hreply (hsignal.symm.trans hnone)⟩

end

/-- A POST request for a container, without `/stop`. -/
def inspectByPost : Bytes := bytes "POST /api/containers/container-0001 HTTP/1.0\r\n\r\n"

theorem not_stop_route :
    ¬ ∀ (o : PollOutcome) (kill : Bool) (req : Bytes) (m : Manager),
      (∀ id, (handleConnection o kill req m).signalled = some id ↔ StopRequest req id) ∧
      ∀ target, RequestLine req (bytes "POST") target → (∀ id, ¬ StopRequest req id) →
        (handleConnection o kill req m).signalled = none ∧
          (handleConnection o kill req m).reply = .notFound := by
  intro hclaim
  obtain ⟨hsignal, -⟩ := hclaim .quiet true inspectByPost .init
  have honly : StopsOnly inspectByPost := stopsOnly_of_signalled fun id => (hsignal id).mp
  have hmethod : FirstWord (cstr inspectByPost) (bytes "POST")
      (bytes " " ++ (bytes "/api/containers/container-0001" ++ bytes " HTTP/1.0\r\n\r\n")) :=
    @firstWord_of_all [] (bytes "POST") _ rfl (by decide) (by decide) (by decide)
  have hpath : FirstWord
      (bytes " " ++ (bytes "/api/containers/container-0001" ++ bytes " HTTP/1.0\r\n\r\n"))
      (bytes "/api/containers/container-0001") (bytes " HTTP/1.0\r\n\r\n") :=
    firstWord_of_all (by decide) (by decide) (by decide) (by decide)
  have hline : RequestLine inspectByPost (bytes "POST") (bytes "/api/containers/container-0001") :=
    ⟨_, _, hmethod, hpath⟩
  have hrest := honly _ (bytes "container-0001") hline (by decide) (by decide) (by decide)
  exact absurd hrest.2 (by decide)

end ContainerSim.Web
