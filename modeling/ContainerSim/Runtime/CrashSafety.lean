import ContainerSim.Lib.AtomicFile
import ContainerSim.Runtime.Metadata

/-!
# The metadata file through crashes

`save_metadata` prints the records to `containers.meta.tmp` and renames it over
`containers.meta`. Cut off after any of its calls, it leaves the file of an
earlier save or its own, as long as no print fails: the results of `fprintf` are
not looked at, and a line that does not get through is missing from a save that
reports success (`unnoticed_print_loses_record`). A rename that fails is retried
with the old file removed, which is the one way to lose it.
-/

namespace ContainerSim.Runtime

open Lib

/-- `save_metadata` ignores `fprintf` and retries its rename. -/
def metadataPolicy : SavePolicy := { checked := false, retry := true }

/-- What `save_metadata` prints, call by call. -/
def metadataLines (list : List Container) : List Bytes := list.map fun c => metadataLine c ++ [10]

/-- `save_metadata`, call by call. -/
def saveMetadataCalls (list : List Container) (o : ReplaceOutcome) (d : Disk) :
    List Disk × Bool :=
  replaceFile metadataPolicy (metadataLines list) o d

theorem metadataLines_flatten (list : List Container) :
    (metadataLines list).flatten = saveMetadata list := List.flatMap_def.symm

/-- The condition on the prints is needed: for any record of any list there is a
save that reports success and leaves the record out. -/
theorem unnoticed_print_loses_record (pre post : List Container) (c : Container) (d : Disk) :
    ∃ o, (saveMetadataCalls (pre ++ c :: post) o d).2 = true ∧
      ((saveMetadataCalls (pre ++ c :: post) o d).1.getLastD d).target =
        some (saveMetadata (pre ++ post)) := by
  obtain ⟨o, hok, htarget⟩ := replaceFile_unnoticed (p := metadataPolicy) rfl (metadataLines pre)
    (metadataLines post) (metadataLine c ++ [10]) d
  have hlines : metadataLines (pre ++ c :: post) =
      metadataLines pre ++ (metadataLine c ++ [10]) :: metadataLines post := List.map_append
  refine ⟨o, ?_, ?_⟩
  · rw [saveMetadataCalls, hlines]
    exact hok
  · rw [saveMetadataCalls, hlines, htarget, ← metadataLines_flatten]
    exact congrArg (fun l : List Bytes => some l.flatten) List.map_append.symm

end ContainerSim.Runtime
