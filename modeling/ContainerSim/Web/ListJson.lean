import ContainerSim.Image.FiniteMap
import ContainerSim.Lib.JsonExact
import ContainerSim.Orch.Spec
import ContainerSim.Web.Escape

/-!
# The images and the services in the API

`image_list_json` and `orch_status_json` print names as they are. The first
reads only 64 records of the registry, where the other image operations read
256. So a list is complete exactly if no string in it needs an escape, the
registry has no more than 64 records, and every entry is begun and fits.
-/

namespace ContainerSim.Web

open Lib ContainerSim.Image ContainerSim.Orch

/-- `BUF_IMAGES`. -/
def bufImages : Nat := 16384

/-- `BUF_ORCH`. -/
def bufOrch : Nat := 8192

/-! ## Images -/

/-- `ts` of `image_list_json`. -/
def createdText (clock : Clock 32) (r : ImageRecord) : Bytes :=
  if r.createdAt > 0 then clock.text r.createdAt.toInt else bytes "-"

def imageMembers (clock : Clock 32) (r : ImageRecord) : List (String × Bytes) :=
  [("name", Json.quoted r.name),
    ("tag", Json.quoted r.tag),
    ("rootfs", Json.quoted r.rootfs),
    ("created_at", Json.quoted (createdText clock r))]

def imageText (clock : Clock 32) (r : ImageRecord) : Bytes := Json.object (imageMembers clock r)

/-- `image_list_json`: the buffer and the result. -/
def imageListJson (clock : Clock 32) (file : Option Bytes) (buf : Bytes) : Bytes × Int :=
  let records := loadRegistry file 64
  if buf.length ≤ 2 then (buf, -1)
  else
    let o := OutBuf.writeList [91] [93] 256 (fun r => some (imageText clock r)) records buf
    (o.mem, o.written)

/-! ## Services -/

/-- `svc_state_str`. -/
def svcStateStr : ServiceState → Bytes
  | .pending => bytes "pending"
  | .starting => bytes "starting"
  | .running => bytes "running"
  | .healthy => bytes "healthy"
  | .unhealthy => bytes "unhealthy"
  | .stopped => bytes "stopped"
  | .failed => bytes "failed"
  | .restarting => bytes "restarting"

/-- `uptime_buf` of `orch_status_json`. -/
def serviceUptime (now : Int) (s : Service) : Bytes :=
  if s.startedAt > 0 then
    let secs := now - s.startedAt
    snprintfStr 32
      (if secs < 60 then fmtInt secs ++ bytes "s"
      else if secs < 3600 then fmtInt (secs / 60) ++ bytes "m " ++ fmtInt (secs % 60) ++ bytes "s"
      else fmtInt (secs / 3600) ++ bytes "h " ++ fmtInt (secs % 3600 / 60) ++ bytes "m")
  else bytes "-"

def serviceMembers (now : Int) (s : Service) : List (String × Bytes) :=
  [("name", Json.quoted s.name),
    ("state", Json.quoted (svcStateStr s.state)),
    ("container_id", Json.quoted s.containerId),
    ("restart_count", fmtInt s.restartCount),
    ("health_fail_count", fmtInt s.healthFailCount),
    ("uptime", Json.quoted (serviceUptime now s)),
    ("health_enabled", Json.boolText s.health.enabled)]

def serviceText (now : Int) (s : Service) : Bytes := Json.object (serviceMembers now s)

def statusOpening (spec : OrchestratorSpec) : Bytes :=
  bytes "\x7b\"running\":true,\"spec\":\"" ++ spec.name ++ bytes "\",\"services\":["

/-- `orch_status_json`: the buffer and the result. `now i` is the time in the
turn of service `i`. -/
def orchStatusJson (now : Nat → Int) (running : Bool) (spec : OrchestratorSpec) (buf : Bytes) :
    Bytes × Int :=
  if buf.length ≤ 2 then (buf, -1)
  else if !running then
    let o := OutBuf.snprintf { mem := buf, written := 0 }
      (bytes "\x7b\"running\":false,\"services\":[]\x7d")
    (o.mem, o.written)
  else
    let o := OutBuf.writeList (statusOpening spec) (bytes "]\x7d") 256
      (fun e => some (serviceText (now e.2) e.1)) spec.services.zipIdx buf
    (o.mem, o.written)

/-! ## What the texts stand for -/

def imageValue (clock : Clock 32) (r : ImageRecord) : Json.Value :=
  .obj [(bytes "name", .str r.name),
    (bytes "tag", .str r.tag),
    (bytes "rootfs", .str r.rootfs),
    (bytes "created_at", .str (createdText clock r))]

def serviceValue (now : Int) (s : Service) : Json.Value :=
  .obj [(bytes "name", .str s.name),
    (bytes "state", .str (svcStateStr s.state)),
    (bytes "container_id", .str s.containerId),
    (bytes "restart_count", .num (fmtInt s.restartCount)),
    (bytes "health_fail_count", .num (fmtInt s.healthFailCount)),
    (bytes "uptime", .str (serviceUptime now s)),
    (bytes "health_enabled", .bool s.health.enabled)]

/-- The state of the orchestrator with all its services. -/
def statusValue (now : Nat → Int) (running : Bool) (spec : OrchestratorSpec) : Json.Value :=
  if running then
    .obj [(bytes "running", .bool true),
      (bytes "spec", .str spec.name),
      (bytes "services", .arr (spec.services.zipIdx.map fun e => serviceValue (now e.2) e.1))]
  else .obj [(bytes "running", .bool false), (bytes "services", .arr [])]

theorem plain_createdText (clock : Clock 32) (r : ImageRecord) : Json.Plain (createdText clock r) := by
  unfold createdText
  split
  · exact clock.plain _
  · decide

theorem plain_append {s t : Bytes} (hs : Json.Plain s) (ht : Json.Plain t) : Json.Plain (s ++ t) :=
  List.forall_mem_append.mpr ⟨hs, ht⟩

theorem plain_svcStateStr (st : ServiceState) : Json.Plain (svcStateStr st) := by
  cases st <;> decide

theorem plain_serviceUptime (now : Int) (s : Service) : Json.Plain (serviceUptime now s) := by
  have hcut : ∀ {t : Bytes}, Json.Plain t → Json.Plain (snprintfStr 32 t) :=
    fun h c hc => h c (List.mem_of_mem_take hc)
  have hint := Json.plain_fmtInt
  unfold serviceUptime
  split
  · apply hcut
    split
    · exact plain_append (hint _) (by decide)
    · split
      · exact plain_append (plain_append (plain_append (hint _) (by decide)) (hint _)) (by decide)
      · exact plain_append (plain_append (plain_append (hint _) (by decide)) (hint _)) (by decide)
  · decide

theorem exactMembers_image (clock : Clock 32) (r : ImageRecord) :
    List.Forall₂ Json.ExactMember
      [(bytes "name", .str r.name),
        (bytes "tag", .str r.tag),
        (bytes "rootfs", .str r.rootfs),
        (bytes "created_at", .str (createdText clock r))]
      (imageMembers clock r) := by
  refine .cons ⟨rfl, Json.exact_str _⟩ ?_
  refine .cons ⟨rfl, Json.exact_str _⟩ ?_
  refine .cons ⟨rfl, Json.exact_str _⟩ ?_
  exact .cons ⟨rfl, Json.exact_str _⟩ .nil

theorem exact_image (clock : Clock 32) (r : ImageRecord) :
    Json.Exact (imageValue clock r) (imageText clock r) :=
  Json.exact_object (exactMembers_image clock r)

theorem denotes_image_iff {clock : Clock 32} {r : ImageRecord} :
    Json.Denotes (imageValue clock r) (imageText clock r) ↔
      Json.Plain r.name ∧ Json.Plain r.tag ∧ Json.Plain r.rootfs := by
  constructor
  · intro h
    have hmembers := (Json.denotes_object_iff (exactMembers_image clock r)).mp h
    obtain ⟨hname, hmembers⟩ := List.forall₂_cons.mp hmembers
    obtain ⟨htag, hmembers⟩ := List.forall₂_cons.mp hmembers
    obtain ⟨hrootfs, -⟩ := List.forall₂_cons.mp hmembers
    exact ⟨Json.denotes_quoted_iff.mp hname.value, Json.denotes_quoted_iff.mp htag.value,
      Json.denotes_quoted_iff.mp hrootfs.value⟩
  · rintro ⟨hname, htag, hrootfs⟩
    refine Json.denotes_object ?_
    refine .cons (Json.memberOf (by decide) (.str hname.chars)) ?_
    refine .cons (Json.memberOf (by decide) (.str htag.chars)) ?_
    refine .cons (Json.memberOf (by decide) (.str hrootfs.chars)) ?_
    exact .cons (Json.memberOf (by decide) (.str (plain_createdText clock r).chars)) .nil

theorem exactMembers_service (now : Int) (s : Service) :
    List.Forall₂ Json.ExactMember
      [(bytes "name", .str s.name),
        (bytes "state", .str (svcStateStr s.state)),
        (bytes "container_id", .str s.containerId),
        (bytes "restart_count", .num (fmtInt s.restartCount)),
        (bytes "health_fail_count", .num (fmtInt s.healthFailCount)),
        (bytes "uptime", .str (serviceUptime now s)),
        (bytes "health_enabled", .bool s.health.enabled)]
      (serviceMembers now s) := by
  refine .cons ⟨rfl, Json.exact_str _⟩ ?_
  refine .cons ⟨rfl, Json.exact_str _⟩ ?_
  refine .cons ⟨rfl, Json.exact_str _⟩ ?_
  refine .cons ⟨rfl, Json.exact_num (numberText_fmtInt _)⟩ ?_
  refine .cons ⟨rfl, Json.exact_num (numberText_fmtInt _)⟩ ?_
  refine .cons ⟨rfl, Json.exact_str _⟩ ?_
  exact .cons ⟨rfl, Json.exact_bool _⟩ .nil

theorem denotes_service_iff {now : Int} {s : Service} :
    Json.Denotes (serviceValue now s) (serviceText now s) ↔
      Json.Plain s.name ∧ Json.Plain s.containerId := by
  constructor
  · intro h
    have hmembers := (Json.denotes_object_iff (exactMembers_service now s)).mp h
    obtain ⟨hname, hmembers⟩ := List.forall₂_cons.mp hmembers
    obtain ⟨-, hmembers⟩ := List.forall₂_cons.mp hmembers
    obtain ⟨hid, -⟩ := List.forall₂_cons.mp hmembers
    exact ⟨Json.denotes_quoted_iff.mp hname.value, Json.denotes_quoted_iff.mp hid.value⟩
  · rintro ⟨hname, hid⟩
    refine Json.denotes_object ?_
    refine .cons (Json.memberOf (by decide) (.str hname.chars)) ?_
    refine .cons (Json.memberOf (by decide) (.str (plain_svcStateStr _).chars)) ?_
    refine .cons (Json.memberOf (by decide) (.str hid.chars)) ?_
    refine .cons (Json.memberOf (by decide) (.num (numberText_fmtInt _))) ?_
    refine .cons (Json.memberOf (by decide) (.num (numberText_fmtInt _))) ?_
    refine .cons (Json.memberOf (by decide) (.str (plain_serviceUptime _ _).chars)) ?_
    exact .cons (Json.memberOf (by decide) (Json.denotes_boolText _)) .nil

/-! ## When a list is complete -/

/-- A value of which every cut of the list is read back exactly is in the
buffer exactly if the whole list fits and its text denotes the value. -/
theorem writeList_document_iff {α : Type} {opening tail : Bytes} {reserve : Nat}
    {entry : α → Option Bytes} {as : List α} {v : Json.Value} {P : Prop} {buf : Bytes}
    (hne : tail ≠ [])
    (hexact : ∀ k, Json.Exact v (OutBuf.body opening ((as.filterMap entry).take k) ++ tail))
    (hdenotes : ∀ k, Json.Denotes v (OutBuf.body opening ((as.filterMap entry).take k) ++ tail) ↔
      (as.filterMap entry).take k = as.filterMap entry ∧ P) :
    ((OutBuf.writeList opening tail reserve entry as buf).written < buf.length ∧
        Json.Document v ((OutBuf.writeList opening tail reserve entry as buf).mem.take
          (OutBuf.writeList opening tail reserve entry as buf).written)) ↔
      OutBuf.Whole opening tail reserve buf.length (as.filterMap entry) ∧ P := by
  refine OutBuf.writeList_whole_iff rfl (fun k => ?_) fun k => (hexact k).not_document hne
  rw [← hdenotes k]
  exact ⟨(hexact k).document, Json.Denotes.document⟩

/-- Whether the images are all in the list: there are at most 64, no string
needs an escape, and every entry is begun and fits. -/
structure ImagesFit (clock : Clock 32) (len : Nat) (records : List ImageRecord) : Prop where
  count : records.length ≤ 64
  plain : ∀ r ∈ records, Json.Plain r.name ∧ Json.Plain r.tag ∧ Json.Plain r.rootfs
  whole : OutBuf.Whole [91] [93] 256 len (records.map (imageText clock))

theorem writeImages_iff {clock : Clock 32} {l : List ImageRecord} {buf : Bytes} :
    let o := OutBuf.writeList [91] [93] 256 (fun r => some (imageText clock r)) (l.take 64) buf
    (o.written < buf.length ∧
        Json.Document (.arr (l.map (imageValue clock))) (o.mem.take o.written)) ↔
      ImagesFit clock buf.length l := by
  intro o
  have htexts : (l.take 64).filterMap (fun r => some (imageText clock r)) =
      (l.take 64).map (imageText clock) := congrFun List.filterMap_eq_map _
  have hbody : ∀ k, OutBuf.body [91] (((l.take 64).map (imageText clock)).take k) ++ [93] =
      Json.array ((l.take (min k 64)).map (imageText clock)) := by
    intro k
    rw [body_array, ← List.map_take, List.take_take]
  -- the whole registry is written if the loop ends with the 64 records it has
  have hcount : ∀ k, l.take (min k 64) = l ↔
      ((l.take 64).map (imageText clock)).take k = (l.take 64).map (imageText clock) ∧
        l.length ≤ 64 := by
    intro k
    rw [List.take_eq_self_iff, List.take_eq_self_iff, List.length_map, List.length_take]
    omega
  have hiff := @writeList_document_iff _ [91] [93] 256 (fun r => some (imageText clock r))
    (l.take 64) (.arr (l.map (imageValue clock)))
    (l.length ≤ 64 ∧ ∀ r ∈ l, Json.Denotes (imageValue clock r) (imageText clock r)) buf (by simp)
  rw [htexts] at hiff
  rw [hiff]
  · constructor
    · rintro ⟨hwhole, hle, hplain⟩
      rw [List.take_of_length_le hle] at hwhole
      exact ⟨hle, fun r hr => denotes_image_iff.mp (hplain r hr), hwhole⟩
    · rintro ⟨hle, hplain, hwhole⟩
      rw [List.take_of_length_le hle]
      exact ⟨hwhole, hle, fun r hr => denotes_image_iff.mpr (hplain r hr)⟩
  · intro k
    rw [hbody]
    exact Json.exact_array (fun r _ => exact_image clock r) _
  · intro k
    rw [hbody, Json.denotes_array_iff fun r _ => exact_image clock r, hcount, and_assoc]

/-- The text with the given entries. -/
def statusText (spec : OrchestratorSpec) (ts : List Bytes) : Bytes :=
  Json.object [("running", Json.boolText true), ("spec", Json.quoted spec.name),
    ("services", Json.array ts)]

theorem body_status (spec : OrchestratorSpec) (ts : List Bytes) :
    OutBuf.body (statusOpening spec) ts ++ bytes "]\x7d" = statusText spec ts := by
  have hbody := body_object [("running", Json.boolText true), ("spec", Json.quoted spec.name)]
    "services" ts
  have hrunning : bytes "\x7b\"running\":true,\"spec\":\"" =
      123 :: (Json.member ("running", Json.boolText true) ++
        44 :: (Json.quoted (bytes "spec") ++ [58, 34])) := by decide
  have hservices : bytes "\",\"services\":[" =
      34 :: 44 :: (Json.quoted (bytes "services") ++ [58, 91]) := by decide
  have hopening : statusOpening spec =
      123 :: (([("running", Json.boolText true), ("spec", Json.quoted spec.name)].map
          Json.member).flatMap (· ++ [44]) ++ (Json.quoted (bytes "services") ++ [58, 91])) := by
    rw [statusOpening, hrunning, hservices]
    simp [Json.member, Json.quoted]
  rw [hopening]
  exact hbody

section
variable (now : Nat → Int) (spec : OrchestratorSpec)

/-- The entries of the services, each with its time. -/
def serviceTexts : List Bytes := spec.services.zipIdx.map fun e => serviceText (now e.2) e.1

theorem exact_service : ∀ e ∈ spec.services.zipIdx,
    Json.Exact (serviceValue (now e.2) e.1) (serviceText (now e.2) e.1) :=
  fun e _ => Json.exact_object (exactMembers_service (now e.2) e.1)

theorem exactMembers_status (k : Nat) :
    List.Forall₂ Json.ExactMember
      [(bytes "running", .bool true), (bytes "spec", .str spec.name),
        (bytes "services", .arr (spec.services.zipIdx.map fun e => serviceValue (now e.2) e.1))]
      [("running", Json.boolText true), ("spec", Json.quoted spec.name),
        ("services", Json.array ((serviceTexts now spec).take k))] := by
  refine .cons ⟨rfl, Json.exact_bool true⟩ ?_
  refine .cons ⟨rfl, Json.exact_str _⟩ ?_
  refine .cons ⟨rfl, ?_⟩ .nil
  rw [serviceTexts, ← List.map_take]
  exact Json.exact_array (exact_service now spec) k

theorem denotes_status_iff (k : Nat) :
    Json.Denotes (statusValue now true spec) (statusText spec ((serviceTexts now spec).take k)) ↔
      (serviceTexts now spec).take k = serviceTexts now spec ∧ Json.Plain spec.name ∧
        ∀ s ∈ spec.services, Json.Plain s.name ∧ Json.Plain s.containerId := by
  have htake : (serviceTexts now spec).take k = serviceTexts now spec ↔
      spec.services.zipIdx.take k = spec.services.zipIdx := by
    rw [serviceTexts, List.take_eq_self_iff, List.take_eq_self_iff, List.length_map]
  -- the times of the turns play no part in what needs an escape
  have hplain : (∀ s ∈ spec.services, Json.Plain s.name ∧ Json.Plain s.containerId) ↔
      ∀ e ∈ spec.services.zipIdx,
        Json.Denotes (serviceValue (now e.2) e.1) (serviceText (now e.2) e.1) := by
    have hfst : spec.services.zipIdx.map Prod.fst = spec.services := List.zipIdx_map_fst 0 _
    conv_lhs => rw [← hfst, List.forall_mem_map]
    exact forall₂_congr fun e _ => denotes_service_iff.symm
  have harray := @Json.denotes_array_iff _ _ _ _ (exact_service now spec) k
  rw [List.map_take] at harray
  rw [htake, hplain]
  constructor
  · intro h
    have hall := (Json.denotes_object_iff (exactMembers_status now spec k)).mp h
    obtain ⟨-, hall⟩ := List.forall₂_cons.mp hall
    obtain ⟨hname, hall⟩ := List.forall₂_cons.mp hall
    obtain ⟨hservices, -⟩ := List.forall₂_cons.mp hall
    obtain ⟨hk, hentries⟩ := harray.mp hservices.value
    exact ⟨hk, Json.denotes_quoted_iff.mp hname.value, hentries⟩
  · rintro ⟨hk, hname, hentries⟩
    refine Json.denotes_object ?_
    refine .cons (Json.memberOf (by decide) .true) ?_
    refine .cons (Json.memberOf (by decide) (.str hname.chars)) ?_
    exact .cons (Json.memberOf (by decide) (harray.mpr ⟨hk, hentries⟩)) .nil

/-- Whether the services are all in the list: no string needs an escape, and
every entry is begun and fits. -/
structure ServicesFit (len : Nat) : Prop where
  specName : Json.Plain spec.name
  plain : ∀ s ∈ spec.services, Json.Plain s.name ∧ Json.Plain s.containerId
  whole : OutBuf.Whole (statusOpening spec) (bytes "]\x7d") 256 len (serviceTexts now spec)

theorem writeServices_iff (buf : Bytes) :
    let o := OutBuf.writeList (statusOpening spec) (bytes "]\x7d") 256
      (fun e => some (serviceText (now e.2) e.1)) spec.services.zipIdx buf
    (o.written < buf.length ∧
        Json.Document (statusValue now true spec) (o.mem.take o.written)) ↔
      ServicesFit now spec buf.length := by
  intro o
  have htexts : spec.services.zipIdx.filterMap (fun e => some (serviceText (now e.2) e.1)) =
      serviceTexts now spec := congrFun List.filterMap_eq_map _
  have hiff := @writeList_document_iff _ (statusOpening spec) (bytes "]\x7d") 256
    (fun e => some (serviceText (now e.2) e.1)) spec.services.zipIdx (statusValue now true spec)
    (Json.Plain spec.name ∧ ∀ s ∈ spec.services, Json.Plain s.name ∧ Json.Plain s.containerId)
    buf (by decide)
  rw [htexts] at hiff
  rw [hiff]
  · constructor
    · rintro ⟨hwhole, hname, hplain⟩
      exact ⟨hname, hplain, hwhole⟩
    · rintro ⟨hname, hplain, hwhole⟩
      exact ⟨hwhole, hname, hplain⟩
  · intro k
    rw [body_status]
    exact Json.exact_object (exactMembers_status now spec k)
  · intro k
    rw [body_status]
    exact denotes_status_iff now spec k

end

theorem loadRegistry_64 (file : Option Bytes) :
    loadRegistry file 64 = (loadRegistry file maxRecords).take 64 := by
  cases file with
  | none => rfl
  | some file =>
    rw [loadRegistry, loadRegistry, List.take_take]
    rfl

/-- The list of images is inside the buffer of the web server and holds every
image of the registry exactly if it has no more than 64 with plain strings that
fit, and so does the list of services. -/
theorem api_lists_iff {clock : Clock 32} {file : Option Bytes} {now : Nat → Int} {running : Bool}
    {spec : OrchestratorSpec} {images orch : Bytes} (himages : images.length = bufImages)
    (horch : orch.length = bufOrch) :
    ((0 ≤ (imageListJson clock file images).2 ∧ (imageListJson clock file images).2 < bufImages ∧
        Json.Document (.arr ((loadRegistry file maxRecords).map (imageValue clock)))
          ((imageListJson clock file images).1.take (imageListJson clock file images).2.toNat)) ↔
      ImagesFit clock bufImages (loadRegistry file maxRecords)) ∧
    ((0 ≤ (orchStatusJson now running spec orch).2 ∧
        (orchStatusJson now running spec orch).2 < bufOrch ∧
        Json.Document (statusValue now running spec)
          ((orchStatusJson now running spec orch).1.take
            (orchStatusJson now running spec orch).2.toNat)) ↔
      (running = true → ServicesFit now spec bufOrch)) := by
  have himagesLen : ¬ images.length ≤ 2 := by rw [himages]; decide
  have horchLen : ¬ orch.length ≤ 2 := by rw [horch]; decide
  constructor
  · have hiff := @writeImages_iff clock (loadRegistry file maxRecords) images
    rw [himages] at hiff
    rw [imageListJson, loadRegistry_64, if_neg himagesLen]
    simp only [Int.natCast_nonneg, true_and, Int.ofNat_lt, Int.toNat_natCast]
    exact hiff
  · cases running with
    | true =>
      have hiff := writeServices_iff now spec orch
      rw [horch] at hiff
      rw [orchStatusJson, if_neg horchLen, if_neg (by decide)]
      simp only [Int.natCast_nonneg, true_and, Int.ofNat_lt, Int.toNat_natCast, forall_const]
      exact hiff
    | false =>
      -- without a spec the answer is a constant
      have hholds : OutBuf.Holds (OutBuf.snprintf { mem := orch, written := 0 }
          (bytes "\x7b\"running\":false,\"services\":[]\x7d")) bufOrch
          (bytes "\x7b\"running\":false,\"services\":[]\x7d") :=
        OutBuf.snprintf_fits (t := []) (m := orch) horch (by decide)
      have hdenotes : Json.Denotes (statusValue now false spec)
          (Json.object [("running", Json.boolText false), ("services", Json.array [])]) :=
        Json.denotes_object (.cons (Json.memberOf (by decide) .false)
          (.cons (Json.memberOf (by decide) (.arrNil Json.ws_nil)) .nil))
      have htext : Json.object [("running", Json.boolText false), ("services", Json.array [])] =
          bytes "\x7b\"running\":false,\"services\":[]\x7d" := by decide
      rw [htext] at hdenotes
      rw [orchStatusJson, if_neg horchLen, if_pos (by decide)]
      simp only [Int.natCast_nonneg, true_and, Int.ofNat_lt, Int.toNat_natCast]
      refine iff_of_true ⟨hholds.lt, ?_⟩ (fun h => absurd h (by decide))
      rw [hholds.take]
      exact hdenotes.document

def alpine : ImageRecord :=
  { name := bytes "alpine", tag := bytes "latest", rootfs := bytes "/srv/alpine", createdAt := 1 }

def webService : Service :=
  { Service.zero with name := bytes "web", containerId := bytes "container-0001", startedAt := 10 }

/-- One image and one service. -/
theorem api_lists_one :
    let file := some (registryText [alpine])
    let spec : OrchestratorSpec := ⟨bytes "shop", [], [webService]⟩
    ∃ images orch : Bytes, images.length = bufImages ∧ orch.length = bufOrch ∧
      (0 ≤ (imageListJson epochClock file images).2 ∧
        (imageListJson epochClock file images).2 < bufImages ∧
        Json.Document (.arr ((loadRegistry file maxRecords).map (imageValue epochClock)))
          ((imageListJson epochClock file images).1.take
            (imageListJson epochClock file images).2.toNat)) ∧
      0 ≤ (orchStatusJson (fun _ => 75) true spec orch).2 ∧
        (orchStatusJson (fun _ => 75) true spec orch).2 < bufOrch ∧
        Json.Document (statusValue (fun _ => 75) true spec)
          ((orchStatusJson (fun _ => 75) true spec orch).1.take
            (orchStatusJson (fun _ => 75) true spec orch).2.toNat) := by
  intro file spec
  obtain ⟨images, himages⟩ : ∃ images : Bytes, images.length = bufImages :=
    ⟨List.replicate bufImages 0, List.length_replicate⟩
  obtain ⟨orch, horch⟩ : ∃ orch : Bytes, orch.length = bufOrch :=
    ⟨List.replicate bufOrch 0, List.length_replicate⟩
  have hload : loadRegistry file maxRecords = [alpine] := by decide +kernel
  obtain ⟨himageIff, horchIff⟩ := @api_lists_iff epochClock file (fun _ => 75) true spec images orch
    himages horch
  refine ⟨images, orch, himages, horch, himageIff.mpr ?_, horchIff.mpr fun _ => ?_⟩
  · rw [hload]
    refine ⟨by decide, List.forall_mem_singleton.mpr (by decide), ?_⟩
    exact OutBuf.whole_singleton (by decide) (by decide +kernel)
  · refine ⟨by decide, List.forall_mem_singleton.mpr (by decide), ?_⟩
    exact OutBuf.whole_singleton (by decide) (by decide +kernel)

/-- Images with the numbers below 65 for names. -/
def numbered : List ImageRecord :=
  (List.range 65).map fun i =>
    { name := fmtNat i, tag := bytes "latest", rootfs := bytes "/r", createdAt := 1 }

/-- Of a registry of 65 images the last one is not in the list. -/
theorem not_api_lists :
    ¬ ∀ (clock : Clock 32) (records : List ImageRecord) (now : Nat → Int) (running : Bool)
      (spec : OrchestratorSpec) (images orch : Bytes),
      (∀ r ∈ records, r.Sound) → (records.map ImageRecord.key).Nodup →
      records.length ≤ maxRecords → spec.Fits →
      images.length = bufImages → orch.length = bufOrch →
      let file := some (registryText records)
      (0 ≤ (imageListJson clock file images).2 ∧ (imageListJson clock file images).2 < bufImages ∧
        Json.Document (.arr ((loadRegistry file maxRecords).map (imageValue clock)))
          ((imageListJson clock file images).1.take (imageListJson clock file images).2.toNat)) ∧
      0 ≤ (orchStatusJson now running spec orch).2 ∧
        (orchStatusJson now running spec orch).2 < bufOrch ∧
        Json.Document (statusValue now running spec)
          ((orchStatusJson now running spec orch).1.take
            (orchStatusJson now running spec orch).2.toNat) := by
  intro hclaim
  obtain ⟨images, himages⟩ : ∃ images : Bytes, images.length = bufImages :=
    ⟨List.replicate bufImages 0, List.length_replicate⟩
  obtain ⟨orch, horch⟩ : ∃ orch : Bytes, orch.length = bufOrch :=
    ⟨List.replicate bufOrch 0, List.length_replicate⟩
  have hsound : ∀ r ∈ numbered, r.Sound := by
    intro r hr
    obtain ⟨i, hi, rfl⟩ := List.mem_map.mp hr
    have hname : ∀ i ∈ List.range 65, Sound (fmtNat i) ∧ (fmtNat i).length ≤ 63 := by
      decide +kernel
    obtain ⟨hfmt, hlen⟩ := hname i hi
    have hlatest : Sound (bytes "latest") := by decide
    have hroot : Sound (bytes "/r") := by decide
    have htagLen : (bytes "latest").length ≤ 31 := by decide
    have hrootLen : (bytes "/r").length ≤ 511 := by decide
    exact ⟨hfmt, hlatest, hroot, hlen, htagLen, hrootLen⟩
  have hlen : numbered.length ≤ maxRecords := by decide
  -- the page says that it holds all, but stops at 64
  have hresult := (hclaim epochClock numbered (fun _ => 0) false ⟨[], [], []⟩ images orch hsound
    (by decide +kernel) hlen (by decide) himages horch).1
  rw [loadRegistry_registryText hsound hlen, imageListJson, loadRegistry_64,
    loadRegistry_registryText hsound hlen, if_neg (by rw [himages]; decide)] at hresult
  simp only [Int.natCast_nonneg, true_and, Int.ofNat_lt, Int.toNat_natCast] at hresult
  have hiff := @writeImages_iff epochClock numbered images
  rw [himages] at hiff
  exact absurd (hiff.mp hresult).count (by decide)

end ContainerSim.Web
