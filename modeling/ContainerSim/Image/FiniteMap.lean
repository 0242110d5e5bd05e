import ContainerSim.Image.Registry
import ContainerSim.Lib.Run

/-!
# The registry is a finite map

As long as every name, tag and path that is registered is sound, the file holds
one line for each key, and resolving a reference gives what the last successful
command on its key has put there (`registry_is_finite_map`). `image tag` does
not check the name it registers, and an empty one is lost (`empty_name_lost`).
-/

namespace ContainerSim.Image

open Lib

/-- A field that comes back from its line. -/
def Sound (s : Bytes) : Prop := s ≠ [] ∧ ∀ c ∈ s, c ≠ 9 ∧ c ≠ 10 ∧ c ≠ 13

instance (s : Bytes) : Decidable (Sound s) :=
  have : Decidable (∀ c ∈ s, c ≠ 9 ∧ c ≠ 10 ∧ c ≠ 13) := List.decidableBAll _ s
  inferInstanceAs (Decidable (s ≠ [] ∧ ∀ c ∈ s, c ≠ 9 ∧ c ≠ 10 ∧ c ≠ 13))

structure ImageRecord.Sound (r : ImageRecord) : Prop where
  name : Image.Sound r.name
  tag : Image.Sound r.tag
  rootfs : Image.Sound r.rootfs
  nameLen : r.name.length ≤ 63
  tagLen : r.tag.length ≤ 31
  rootfsLen : r.rootfs.length ≤ 511

/-! ## A file is read back -/

theorem sound_fmtInt (i : Int64) : Sound (fmtInt i.toInt) := by
  have hne : fmtInt i.toInt ≠ [] := by
    cases i.toInt with
    | ofNat n => exact fmtBase_ne_nil 10 n
    | negSucc n => exact List.cons_ne_nil _ _
  refine ⟨hne, fun c hc => ?_⟩
  have hspace := isSpace_of_mem_fmtInt hc
  refine ⟨?_, ?_, ?_⟩
  · rintro rfl
    simp [isSpace] at hspace
  · rintro rfl
    simp [isSpace] at hspace
  · rintro rfl
    simp [isSpace] at hspace

theorem sound_recordFields {r : ImageRecord} (h : r.Sound) : ∀ f ∈ recordFields r, Sound f := by
  intro f hf
  simp only [recordFields, List.mem_cons, List.not_mem_nil, or_false] at hf
  rcases hf with rfl | rfl | rfl | rfl
  · exact h.name
  · exact h.tag
  · exact h.rootfs
  · exact sound_fmtInt r.createdAt

theorem strtokFields_recordLine {r : ImageRecord} (h : r.Sound) :
    strtokFields (recordLine r) = recordFields r := by
  have hsound := sound_recordFields h
  have htab : ∀ f ∈ recordFields r, (9 : UInt8) ∉ f :=
    fun f hf hmem => ((hsound f hf).2 9 hmem).1 rfl
  rw [strtokFields, recordLine, List.splitOn_intercalate _ htab (by simp [recordFields]),
    List.filter_eq_self]
  intro f hf
  simpa using (hsound f hf).1

theorem parseRecord_recordLine {r : ImageRecord} (h : r.Sound) :
    parseRecord (recordLine r) = some r := by
  rw [parseRecord, strtokFields_recordLine h]
  show some (ImageRecord.mk (snprintfStr imageNameLen r.name) (snprintfStr imageTagLen r.tag)
    (snprintfStr imagePathLen r.rootfs) (strtol (fmtInt r.createdAt.toInt))) = some r
  rw [snprintfStr_eq_self h.nameLen, snprintfStr_eq_self h.tagLen,
    snprintfStr_eq_self h.rootfsLen, strtol_fmtInt]

/-- A line fits the buffer and is one line. -/
theorem recordLine_spec {r : ImageRecord} (h : r.Sound) :
    (recordLine r).length + 2 ≤ 1024 ∧ (10 : UInt8) ∉ recordLine r ∧
      (13 : UInt8) ∉ recordLine r := by
  have hsound := sound_recordFields h
  refine ⟨?_, fun hmem => ?_, fun hmem => ?_⟩
  · have hlen := length_intercalate 9 (recordFields r) (by simp [recordFields])
    have hname := h.nameLen
    have htag := h.tagLen
    have hrootfs := h.rootfsLen
    have hcreated := fmtInt_length_le r.createdAt
    simp only [recordFields, List.map_cons, List.map_nil, List.sum_cons, List.sum_nil] at hlen
    rw [recordLine, recordFields]
    omega
  · obtain heq | ⟨f, hf, hmem⟩ := mem_intercalate hmem
    · cases heq
    · exact ((hsound f hf).2 10 hmem).2.1 rfl
  · obtain heq | ⟨f, hf, hmem⟩ := mem_intercalate hmem
    · cases heq
    · exact ((hsound f hf).2 13 hmem).2.2 rfl

theorem loadRegistry_registryText {records : List ImageRecord} (h : ∀ r ∈ records, r.Sound)
    (hlen : records.length ≤ maxRecords) :
    loadRegistry (some (registryText records)) maxRecords = records := by
  have hchunks : chunks 1024 (registryText records) =
      records.map fun r => recordLine r ++ [10] := by
    have hrows : ∀ row ∈ records.map recordLine, row.length + 2 ≤ 1024 ∧ (10 : UInt8) ∉ row := by
      intro row hrow
      obtain ⟨r, hr, rfl⟩ := List.mem_map.mp hrow
      exact ⟨(recordLine_spec (h r hr)).1, (recordLine_spec (h r hr)).2.1⟩
    have hlines := chunks_lines hrows
    rw [List.flatMap_map, List.map_map] at hlines
    exact hlines
  have hparse : ∀ r ∈ records,
      ((fun line => parseRecord (trimNewline line)) ∘ fun r => recordLine r ++ [10]) r = some r := by
    intro r hr
    show parseRecord (trimNewline (recordLine r ++ [10])) = some r
    obtain ⟨-, hnl, hcr⟩ := recordLine_spec (h r hr)
    rw [trimNewline_line hcr hnl _ (.inr rfl)]
    exact parseRecord_recordLine (h r hr)
  rw [loadRegistry, hchunks, List.filterMap_map, List.filterMap_congr hparse, List.filterMap_some]
  exact List.take_of_length_le hlen

/-! ## The registry between commands -/

/-- The file is that of these records, which stand for the map the changes so
far lead to. -/
structure Holds (s : Registry) (records : List ImageRecord) : Prop where
  file : s.file = none ∧ records = [] ∨ s.file = some (registryText records)
  sound : ∀ r ∈ records, r.Sound
  length : records.length ≤ maxRecords
  nodup : (records.map ImageRecord.key).Nodup
  map : ∀ k, lookup ImageRecord.key ImageRecord.rootfs records k = Change.replay s.done k

theorem Holds.load {s : Registry} {records : List ImageRecord} (h : Holds s records) :
    loadRegistry s.file maxRecords = records := by
  obtain ⟨hnone, hnil⟩ | hsome := h.file
  · rw [hnone, hnil]
    rfl
  · rw [hsome]
    exact loadRegistry_registryText h.sound h.length

theorem Holds.resolve {s : Registry} {records : List ImageRecord} (h : Holds s records)
    (ref : Bytes) : imageResolve imagePathLen s.file ref = Change.replay s.done (keyOf ref) := by
  rw [imageResolve, h.load, parseRef_eq, ← h.map]
  cases hfind : records.find? fun r => r.key = keyOf ref with
  | none => simp [lookup, hfind]
  | some r =>
    have hsound := h.sound r (List.mem_of_find?_eq_some hfind)
    simp [lookup, hfind, snprintfStr_eq_self (show r.rootfs.length ≤ imagePathLen - 1 from
      hsound.rootfsLen)]

/-- A save that fails leaves the registry as it was. -/
theorem Holds.unsaved {s : Registry} {records : List ImageRecord} (h : Holds s records)
    (c : Change Key Bytes) : Holds (s.after (s.file, false) c) records := h

theorem Holds.saved {s : Registry} {records : List ImageRecord} {c : Change Key Bytes}
    (hsound : ∀ r ∈ records, r.Sound) (hlen : records.length ≤ maxRecords)
    (hnodup : (records.map ImageRecord.key).Nodup)
    (hmap : ∀ k, lookup ImageRecord.key ImageRecord.rootfs records k =
      c.apply (Change.replay s.done) k) :
    Holds (s.after (some (registryText records), true) c) records where
  file := .inr rfl
  sound := hsound
  length := hlen
  nodup := hnodup
  map := by
    intro k
    show _ = Change.replay (s.done ++ [c]) k
    rw [Change.replay_snoc]
    exact hmap k

theorem keyOf_length (ref : Bytes) : (keyOf ref).1.length ≤ 63 ∧ (keyOf ref).2.length ≤ 31 := by
  constructor
  · exact List.length_take_le _ _
  · simp only [keyOf]
    split
    · decide
    · exact List.length_take_le _ _

/-- Registering a sound record puts it under its key. -/
theorem Holds.register {s : Registry} {records : List ImageRecord} (h : Holds s records)
    (save : Bool) (now : Int64) {key : Key} {absPath : Bytes} (hname : Sound key.1)
    (htag : Sound key.2) (hlen : key.1.length ≤ 63 ∧ key.2.length ≤ 31) (hpath : Sound absPath)
    (hpathLen : absPath.length ≤ 511) :
    ∃ records', Holds (s.after (imageRegisterInternal save now key absPath s.file)
      (.put key absPath)) records' := by
  have hcut : snprintfStr imagePathLen absPath = absPath := snprintfStr_eq_self hpathLen
  unfold imageRegisterInternal
  rw [h.load, hcut]
  dsimp only
  cases hfind : findRecord records key with
  | some idx =>
    dsimp only
    cases save with
    | false => exact ⟨records, h.unsaved _⟩
    | true =>
      -- found: the record is overwritten where it stands
      have hkey : ∀ r : ImageRecord,
          ImageRecord.key { r with rootfs := absPath, createdAt := now } =
            r.key := fun _ => rfl
      refine ⟨_, .saved ?_ ?_ ?_ ?_⟩
      · refine forall_mem_modify h.sound (fun r hr => ?_) idx
        exact { h.sound r hr with rootfs := hpath, rootfsLen := hpathLen }
      · rw [List.length_modify]
        exact h.length
      · rw [map_key_modify _ _ _ hkey]
        exact h.nodup
      · intro k
        rw [lookup_modify _ _ hfind hkey fun _ => rfl, h.map]
        rfl
  | none =>
    dsimp only
    by_cases hfull : records.length ≥ maxRecords
    · rw [if_pos hfull]
      exact ⟨records, h.unsaved _⟩
    · rw [if_neg hfull]
      cases save with
      | false => exact ⟨records, h.unsaved _⟩
      | true =>
        -- not found: it goes to the end, with name and tag as they are since they fit
        have hrec : (ImageRecord.mk (snprintfStr imageNameLen key.1) (snprintfStr imageTagLen key.2)
            absPath now) = ⟨key.1, key.2, absPath, now⟩ := by
          rw [snprintfStr_eq_self hlen.1, snprintfStr_eq_self hlen.2]
        rw [hrec]
        have hnew : key ∉ records.map ImageRecord.key := by
          intro hmem
          obtain ⟨r, hr, hkey⟩ := List.mem_map.mp hmem
          have hnone := List.findIdx?_eq_none_iff.mp hfind r hr
          simp [hkey] at hnone
        refine ⟨records ++ [⟨key.1, key.2, absPath, now⟩], .saved ?_ ?_ ?_ ?_⟩
        · intro r hr
          rcases List.mem_append.mp hr with hr | hr
          · exact h.sound r hr
          · rw [List.mem_singleton.mp hr]
            exact ⟨hname, htag, hpath, hlen.1, hlen.2, hpathLen⟩
        · rw [List.length_append, List.length_singleton]
          omega
        · rw [List.map_append]
          exact h.nodup.append (List.nodup_singleton _)
            (List.disjoint_singleton.mpr hnew)
        · intro k
          rw [lookup_append _ _ _ _ hnew, h.map]
          rfl

/-- Removing a key drops its record. -/
theorem Holds.remove {s : Registry} {records : List ImageRecord} (h : Holds s records)
    (save : Bool) (name tag : Bytes) :
    ∃ records', Holds (s.after (imageRemove save name tag s.file)
      (.del (name, effectiveTag tag))) records' := by
  unfold imageRemove
  by_cases hname : name = []
  · rw [if_pos hname]
    exact ⟨records, h.unsaved _⟩
  · rw [if_neg hname, h.load]
    dsimp only
    split
    · exact ⟨records, h.unsaved _⟩
    · cases save with
      | false => exact ⟨records, h.unsaved _⟩
      | true =>
        refine ⟨_, .saved ?_ ?_ ?_ ?_⟩
        · exact fun r hr => h.sound r (List.mem_of_mem_filter hr)
        · exact Nat.le_trans (List.length_filter_le _ _) h.length
        · exact h.nodup.sublist (List.filter_sublist.map _)
        · intro k
          rw [lookup_filter, h.map]
          rfl

/-! ## Every run -/

/-- What a command registers is sound, and its path fits the buffer. -/
def ImageOk (s : Registry) : ImageOp → Prop
  | .build ref path realpath _ _ =>
    (keyOf ref).1 ≠ [] → path ≠ [] → ∀ absPath ∈ realpath,
      Sound (keyOf ref).1 ∧ Sound (keyOf ref).2 ∧ Sound absPath ∧ absPath.length ≤ 511
  | .tag src dst _ _ =>
    imageResolve imagePathLen s.file src ≠ none → Sound (keyOf dst).1 ∧ Sound (keyOf dst).2
  | .rm _ _ => True

instance (s : Registry) (op : ImageOp) : Decidable (ImageOk s op) := by
  cases op with
  | build ref path realpath save now => unfold ImageOk; infer_instance
  | tag src dst save now => unfold ImageOk; infer_instance
  | rm ref save => unfold ImageOk; infer_instance

theorem holds_init : Holds Registry.init [] where
  file := .inl ⟨rfl, rfl⟩
  sound := by simp
  length := Nat.zero_le _
  nodup := List.nodup_nil
  map := fun _ => rfl

theorem holds_step {s s' : Registry} {op : ImageOp} (h : ∃ records, Holds s records)
    (hok : ImageOk s op) (hs : imageStep s op = some s') : ∃ records, Holds s' records := by
  obtain ⟨records, h⟩ := h
  cases op with
  | build ref path realpath save now =>
    cases hs
    have hkey : ((parseImageRef ref).1, effectiveTag (parseImageRef ref).2) = keyOf ref :=
      parseImageRef_eq ref
    have hname : (parseImageRef ref).1 = (keyOf ref).1 := by rw [← hkey]
    unfold imageBuild
    dsimp only
    split
    · exact ⟨records, h⟩
    · rename_i hgiven
      obtain ⟨hne, hpath⟩ := not_or.mp hgiven
      cases hreal : realpath with
      | none => exact ⟨records, h⟩
      | some absPath =>
        obtain ⟨h1, h2, h3, h4⟩ := hok (hname ▸ hne) hpath absPath hreal
        rw [hkey]
        exact h.register save now h1 h2 (keyOf_length ref) h3 h4
  | tag src dst save now =>
    cases hs
    unfold imageTag
    split
    · exact ⟨records, h⟩
    · cases hsrc : imageResolve imagePathLen s.file src with
      | none => exact ⟨records, h⟩
      | some srcPath =>
        obtain ⟨h1, h2⟩ := hok (by rw [hsrc]; simp)
        -- the path comes out of a record
        have hpath : Sound srcPath ∧ srcPath.length ≤ 511 := by
          rw [imageResolve, h.load] at hsrc
          obtain ⟨path, hfind, hcut⟩ := Option.map_eq_some_iff.mp hsrc
          obtain ⟨r, hr, rfl⟩ := Option.map_eq_some_iff.mp hfind
          have hsound := h.sound r (List.mem_of_find?_eq_some hr)
          rw [snprintfStr_eq_self (show r.rootfs.length ≤ imagePathLen - 1 from
            hsound.rootfsLen)] at hcut
          exact hcut ▸ ⟨hsound.rootfs, hsound.rootfsLen⟩
        simp only [parseRef_eq]
        exact h.register save now h1 h2 (keyOf_length dst) hpath.1 hpath.2
  | rm ref save =>
    cases hs
    exact h.remove save _ _

/-- **The image registry is a finite map**: a reference resolves to a path
exactly when the last successful command on its key has put that path there,
and no key stands in the file twice. -/
theorem registry_is_finite_map {as : List ImageOp} {s : Registry}
    (hrun : RunOk imageStep ImageOk .init as s) :
    (∀ ref path, imageResolve imagePathLen s.file ref = some path ↔
      ∃ before after, s.done = before ++ .put (keyOf ref) path :: after ∧
        ∀ c ∈ after, c.key ≠ keyOf ref) ∧
    ∃ records, s.file.getD [] = registryText records ∧
      (records.map ImageRecord.key).Nodup := by
  obtain ⟨records, h⟩ : ∃ records, Holds s records :=
    hrun.invariant (fun _ _ _ hi hok hs => holds_step hi hok hs) ⟨[], holds_init⟩
  refine ⟨fun ref path => ?_, records, ?_, h.nodup⟩
  · rw [h.resolve]
    exact Change.replay_eq_some_iff
  · obtain ⟨hnone, hnil⟩ | hsome := h.file
    · rw [hnone, hnil]
      rfl
    · rw [hsome]
      rfl

/-! ## An alias without a name -/

/-- An image is built, aliased, built anew from another path and removed. -/
def imageDay : List ImageOp :=
  [.build (bytes "myapp:v1") (bytes "r") (some (bytes "/r")) true 7,
    .tag (bytes "myapp:v1") (bytes "myapp:") true 8,
    .build (bytes "myapp:v1") (bytes "s") (some (bytes "/s")) true 9,
    .rm (bytes "myapp:v1") true]

theorem registry_after_imageDay :
    ∃ s, RunOk imageStep ImageOk .init imageDay s ∧
      imageResolve imagePathLen s.file (bytes "myapp") = some (bytes "/r") := by
  obtain ⟨s, hrun, hdone⟩ := exists_runOk_of_exec imageStep ImageOk Registry.init imageDay
    (fun s => s.done =
      [.put (bytes "myapp", bytes "v1") (bytes "/r"), .put (bytes "myapp", defaultTag) (bytes "/r"),
        .put (bytes "myapp", bytes "v1") (bytes "/s"), .del (bytes "myapp", bytes "v1")])
    (by decide +kernel)
  refine ⟨s, hrun, ((registry_is_finite_map hrun).1 _ _).mpr ?_⟩
  rw [hdone]
  exact ⟨[_], [_, _], rfl, by decide⟩

/-- `image tag` registers an empty name and returns 0, and the line that is
written has only three fields. -/
theorem empty_name_lost :
    ∃ s, Runs imageStep .init
        [.build (bytes "a") (bytes "r") (some (bytes "/r")) true 7,
          .tag (bytes "a") (bytes ":x") true 8] s ∧
      (∃ before, s.done = before ++ [.put (keyOf (bytes ":x")) (bytes "/r")]) ∧
      imageResolve imagePathLen s.file (bytes ":x") = none := by
  obtain ⟨s, hrun, hdone, hlost⟩ := exists_runOk_of_exec imageStep (fun _ _ => True) Registry.init
    [.build (bytes "a") (bytes "r") (some (bytes "/r")) true 7,
      .tag (bytes "a") (bytes ":x") true 8]
    (fun s => s.done = [.put (bytes "a", defaultTag) (bytes "/r"),
        .put (keyOf (bytes ":x")) (bytes "/r")] ∧
      imageResolve imagePathLen s.file (bytes ":x") = none) (by decide +kernel)
  exact ⟨s, hrun, ⟨[_], hdone⟩, hlost⟩

end ContainerSim.Image
