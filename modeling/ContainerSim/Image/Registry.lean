import ContainerSim.Lib.Decimal
import ContainerSim.Lib.Keyed
import ContainerSim.Lib.Lines

/-!
# The image registry

`images.meta` has one line for each image: name, tag, path and time between
tabs. Every operation reads the whole file into an array, changes the array and
writes the file anew. `strtok` skips empty fields and the line escapes nothing,
so a record comes back only if none of its fields is empty or has a tab, a CR
or a newline (`Sound`).
-/

namespace ContainerSim.Image

open Lib

/-- `IMAGE_NAME_LEN`, `IMAGE_TAG_LEN`, `IMAGE_PATH_LEN`. -/
def imageNameLen : Nat := 64
def imageTagLen : Nat := 32
def imagePathLen : Nat := 512

/-- The size of the `records` arrays. -/
def maxRecords : Nat := 256

structure ImageRecord where
  name : Bytes
  tag : Bytes
  rootfs : Bytes
  createdAt : Int64
  deriving DecidableEq

abbrev Key : Type := Bytes × Bytes

def ImageRecord.key (r : ImageRecord) : Key := (r.name, r.tag)

/-! ## References -/

/-- `DEFAULT_TAG`. -/
def defaultTag : Bytes := bytes "latest"

/-- `parse_ref` of image.c, with the sizes its callers pass. -/
def parseRef (ref : Bytes) : Bytes × Bytes :=
  match ref.dropWhile (· ≠ 58) with
  | _ :: tag =>
    ((ref.takeWhile (· ≠ 58)).take (imageNameLen - 1),
      snprintfStr imageTagLen (if tag ≠ [] then tag else defaultTag))
  | [] => (snprintfStr imageNameLen ref, snprintfStr imageTagLen defaultTag)

/-- `parse_image_ref` of main.c: an absent or empty tag stays empty. -/
def parseImageRef (ref : Bytes) : Bytes × Bytes :=
  match ref.dropWhile (· ≠ 58) with
  | _ :: tag => ((ref.takeWhile (· ≠ 58)).take (imageNameLen - 1), snprintfStr imageTagLen tag)
  | [] => (snprintfStr imageNameLen ref, [])

/-- `effective_tag` of `image_build` and `image_remove`. -/
def effectiveTag (tag : Bytes) : Bytes :=
  snprintfStr imageTagLen (if tag ≠ [] then tag else defaultTag)

/-! ## The file -/

/-- The fields `strtok(line, "\t")` returns: empty ones are skipped. -/
def strtokFields (line : Bytes) : List Bytes := (line.splitOn 9).filter (· ≠ [])

/-- One line of the file, already cut at its end; `none` for fewer than four
fields. -/
def parseRecord (line : Bytes) : Option ImageRecord :=
  match strtokFields line with
  | name :: tag :: rootfs :: createdAt :: _ =>
    some
      { name := snprintfStr imageNameLen name
        tag := snprintfStr imageTagLen tag
        rootfs := snprintfStr imagePathLen rootfs
        createdAt := strtol createdAt }
  | _ => none

/-- `load_registry`: `none` when the file cannot be opened. -/
def loadRegistry (file : Option Bytes) (maxRecords : Nat) : List ImageRecord :=
  match file with
  | none => []
  | some file =>
    ((chunks 1024 file).filterMap fun line => parseRecord (trimNewline line)).take maxRecords

def recordFields (r : ImageRecord) : List Bytes := [r.name, r.tag, r.rootfs, fmtInt r.createdAt.toInt]

/-- The line of a record, without the newline. -/
def recordLine (r : ImageRecord) : Bytes := [9].intercalate (recordFields r)

def registryText (records : List ImageRecord) : Bytes :=
  records.flatMap fun r => recordLine r ++ [10]

/-- `save_registry`: the file after it, and whether it returns 0. A save that
fails has written the temporary file only. -/
def saveRegistry (ok : Bool) (records : List ImageRecord) (file : Option Bytes) :
    Option Bytes × Bool :=
  if ok then (some (registryText records), true) else (file, false)

/-! ## The operations -/

/-- `find_record`. -/
def findRecord (records : List ImageRecord) (key : Key) : Option Nat :=
  records.findIdx? fun r => r.key = key

/-- `image_register_internal`: the file after it, and whether it returns 0. -/
def imageRegisterInternal (save : Bool) (now : Int64) (key : Key) (absPath : Bytes)
    (file : Option Bytes) : Option Bytes × Bool :=
  let records := loadRegistry file maxRecords
  match findRecord records key with
  | some idx =>
    let records := records.modify idx fun r =>
      { r with rootfs := snprintfStr imagePathLen absPath, createdAt := now }
    saveRegistry save records file
  | none =>
    if records.length ≥ maxRecords then (file, false)
    else
      saveRegistry save (records ++
        [{ name := snprintfStr imageNameLen key.1
           tag := snprintfStr imageTagLen key.2
           rootfs := snprintfStr imagePathLen absPath
           createdAt := now }]) file

/-- `image_resolve` into a buffer of `outSize` bytes. -/
def imageResolve (outSize : Nat) (file : Option Bytes) (ref : Bytes) : Option Bytes :=
  (lookup ImageRecord.key ImageRecord.rootfs (loadRegistry file maxRecords) (parseRef ref)).map
    (snprintfStr outSize)

/-- `image_remove`: the file after it, and whether it returns 0. -/
def imageRemove (save : Bool) (name tag : Bytes) (file : Option Bytes) : Option Bytes × Bool :=
  if name = [] then (file, false)
  else
    let records := loadRegistry file maxRecords
    let key := (name, effectiveTag tag)
    let found := records.any fun r => r.key = key
    let out := records.filter fun r => r.key ≠ key
    if !found then (file, false) else saveRegistry save out file

/-- One `image` command with what the system answers it: `realpath` of the path
and whether the save succeeds. -/
inductive ImageOp where
  | build (ref path : Bytes) (realpath : Option Bytes) (save : Bool) (now : Int64)
  | tag (src dst : Bytes) (save : Bool) (now : Int64)
  | rm (ref : Bytes) (save : Bool)

/-- The registry file and the changes the successful commands have made, in
order. -/
structure Registry where
  file : Option Bytes
  done : List (Change Key Bytes)

/-- No file yet. -/
def Registry.init : Registry := { file := none, done := [] }

/-- A command that returned 0 counts as a change. -/
def Registry.after (s : Registry) (r : Option Bytes × Bool) (c : Change Key Bytes) : Registry :=
  { file := r.1, done := if r.2 then s.done ++ [c] else s.done }

/-- `image build` of main.c with `image_build`. -/
def imageBuild (ref path : Bytes) (realpath : Option Bytes) (save : Bool) (now : Int64)
    (s : Registry) : Registry :=
  let (name, tag) := parseImageRef ref
  if name = [] ∨ path = [] then s
  else
    match realpath with
    | none => s
    | some absPath =>
      let key := (name, effectiveTag tag)
      s.after (imageRegisterInternal save now key absPath s.file) (.put key absPath)

/-- `image_tag`. -/
def imageTag (src dst : Bytes) (save : Bool) (now : Int64) (s : Registry) : Registry :=
  if src = [] ∨ dst = [] then s
  else
    match imageResolve imagePathLen s.file src with
    | none => s
    | some srcPath =>
      let key := parseRef dst
      s.after (imageRegisterInternal save now key srcPath s.file) (.put key srcPath)

/-- `image rm` of main.c with `image_remove`. -/
def imageRm (ref : Bytes) (save : Bool) (s : Registry) : Registry :=
  let (name, tag) := parseImageRef ref
  s.after (imageRemove save name tag s.file) (.del (name, effectiveTag tag))

def imageStep (s : Registry) : ImageOp → Option Registry
  | .build ref path realpath save now => some (imageBuild ref path realpath save now s)
  | .tag src dst save now => some (imageTag src dst save now s)
  | .rm ref save => some (imageRm ref save s)

/-! ## The two parsers agree -/

/-- The key of a reference: the part before the first colon cut to 63 bytes, the
part after it cut to 31, `latest` when there is none. -/
def keyOf (ref : Bytes) : Key :=
  let tag := (ref.dropWhile (· ≠ 58)).drop 1
  ((ref.takeWhile (· ≠ 58)).take 63, if tag = [] then defaultTag else tag.take 31)

theorem takeWhile_eq_self {ref : Bytes} (h : ref.dropWhile (· ≠ 58) = []) :
    ref.takeWhile (· ≠ 58) = ref := by
  have hsplit := List.takeWhile_append_dropWhile (p := fun c : UInt8 => decide (c ≠ 58)) (l := ref)
  rw [h, List.append_nil] at hsplit
  exact hsplit

theorem parseRef_eq (ref : Bytes) : parseRef ref = keyOf ref := by
  cases hdrop : ref.dropWhile (· ≠ 58) with
  | nil =>
    simp only [parseRef, keyOf, hdrop, takeWhile_eq_self hdrop, List.drop_nil, if_true]
    rfl
  | cons c tag =>
    simp only [parseRef, keyOf, hdrop, List.drop_succ_cons, List.drop_zero]
    by_cases htag : tag = []
    · subst htag
      rfl
    · rw [if_pos htag, if_neg htag]
      rfl

theorem parseImageRef_eq (ref : Bytes) :
    ((parseImageRef ref).1, effectiveTag (parseImageRef ref).2) = keyOf ref := by
  cases hdrop : ref.dropWhile (· ≠ 58) with
  | nil =>
    simp only [parseImageRef, keyOf, hdrop, takeWhile_eq_self hdrop, List.drop_nil, if_true]
    rfl
  | cons c tag =>
    simp only [parseImageRef, keyOf, hdrop, List.drop_succ_cons, List.drop_zero]
    by_cases htag : tag = []
    · subst htag
      rfl
    · have hcut : snprintfStr imageTagLen tag ≠ [] := by
        simpa [snprintfStr, imageTagLen] using htag
      rw [effectiveTag, if_pos hcut, if_neg htag]
      simp [snprintfStr, imageTagLen, imageNameLen]

end ContainerSim.Image
