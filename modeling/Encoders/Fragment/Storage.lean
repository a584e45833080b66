import Mathlib.Data.Finset.Card
import Mathlib.Order.Lattice
import Mathlib.Logic.Function.Basic
import Encoders.Fragment.Utility

/-!
# The decoder's storage

`fragmentation/storage/FragmentationDecoderStorage.cpp`. For every parent data
object there is a decoder record, with the file being reconstructed and the number
of fragments still missing, and, in a map of its own, the sequence numbers seen.
Two more maps hold when a record was last used and which fragment objects came in.

An entry that `operator[]` made on the way and that holds nothing is as good as no
entry, so the maps are functions with a default: no record, no sequence number, no
fragment. Only the times are walked through by an iterator, and are kept in key
order. Time and the time stamp in the name of a new file are arguments.

Records are shared by reference, so a fragment counted off is counted off at once,
whatever happens to the rest of the call. Opening a file for writing succeeds.
-/

namespace Encoders.Fragment

open Encoders.Lib

variable {ι : Type} [LinearOrder ι]

/-- `struct FragmentDecoderStruct` -/
structure FragmentDecoderStruct where
  filePath : String
  fileSize : Nat
  segmentsRemaining : Nat
deriving DecidableEq

/-- The members of the storage, and the files it writes. -/
structure FragmentationDecoderStorage (ι : Type) where
  fragmentDecoderStorage : ι → Option FragmentDecoderStruct
  dataobjectsequencenumbertracking : ι → Finset Nat
  fragmentsTracker : ι → List String
  fragmentationDecoderLastUsedTime : List (ι × Nat)
  files : String → Option Bytes

/-- A storage that has seen nothing, on a disk that may hold anything. -/
def FragmentationDecoderStorage.empty (files : String → Option Bytes) :
    FragmentationDecoderStorage ι :=
  ⟨fun _ => none, fun _ => ∅, fun _ => [], [], files⟩

/-- `map[id] = time` in a map of times. -/
def setTime (id : ι) (time : Nat) : List (ι × Nat) → List (ι × Nat)
  | [] => [(id, time)]
  | x :: xs =>
      if x.1 < id then x :: setTime id time xs
      else if x.1 = id then (id, time) :: xs
      else (id, time) :: x :: xs

namespace FragmentationDecoderStorage

/-- `trackDecoderLastUsedTime` -/
def trackDecoderLastUsedTime (st : FragmentationDecoderStorage ι) (id : ι) (now : Nat) :
    FragmentationDecoderStorage ι :=
  { st with
    fragmentationDecoderLastUsedTime := setTime id now st.fragmentationDecoderLastUsedTime }

/-- `getFragmentDecoderStruct`: a record that is found was used just now. -/
def getFragmentDecoderStruct (st : FragmentationDecoderStorage ι) (id : ι) (now : Nat) :
    FragmentationDecoderStorage ι × Option FragmentDecoderStruct :=
  match st.fragmentDecoderStorage id with
  | none => (st, none)
  | some found => (st.trackDecoderLastUsedTime id now, some found)

/-- `isCompleted` -/
def isCompleted (st : FragmentationDecoderStorage ι) (id : ι) (now : Nat) :
    FragmentationDecoderStorage ι × Bool :=
  match st.getFragmentDecoderStruct id now with
  | (st, none) => (st, false)
  | (st, some found) => (st, found.segmentsRemaining = 0)

/-- One piece written: the number is tracked and counted off. -/
def countOff (st : FragmentationDecoderStorage ι) (id : ι) (path : String)
    (sequenceNumber : Nat) (bytes : Bytes) : FragmentationDecoderStorage ι :=
  { st with
    files := Function.update st.files path (some bytes)
    dataobjectsequencenumbertracking :=
      Function.update st.dataobjectsequencenumbertracking id
        (insert sequenceNumber (st.dataobjectsequencenumbertracking id))
    fragmentDecoderStorage :=
      Function.update st.fragmentDecoderStorage id
        ((st.fragmentDecoderStorage id).map (fun r =>
          { r with segmentsRemaining := sizeSub r.segmentsRemaining 1 })) }

/-- The loop of `addFragment` over the sequence numbers of one fragment object. -/
def storeLoop (id : ι) (path : String) (fragmentSize fileSize : Nat) (fragment : Bytes) :
    List (List Char) → Nat → FragmentationDecoderStorage ι →
      Option (FragmentationDecoderStorage ι × Bool)
  | [], _, st => some (st, true)
  | token :: tokens, fragmentationStartPosition, st =>
      let sequenceNumber := (strtol token % 18446744073709551616).toNat
      let info := calculateFragmentationPositionInfo sequenceNumber fragmentSize fileSize
      let next := (fragmentationStartPosition + info.actualFragmentSize) % 18446744073709551616
      if sequenceNumber ∈ st.dataobjectsequencenumbertracking id then
        storeLoop id path fragmentSize fileSize fragment tokens next st
      else
        match storeFragmentToDataObject (st.files path) fragment info.startPosition
            info.actualFragmentSize fragmentationStartPosition with
        | none => none
        | some none => some (st, false)
        | some (some bytes) =>
            storeLoop id path fragmentSize fileSize fragment tokens next
              (st.countOff id path sequenceNumber bytes)

/-- The name of a new file. -/
def reconstructedFile (fileName timestamp : String) : String :=
  "/" ++ fileName ++ "." ++ timestamp ++ ".recon"

/-- The record `addFragment` works on: the one there is, or a new one with its file allocated. -/
def openRecord (st : FragmentationDecoderStorage ι) (info : FragmentParentDataObjectInfo ι)
    (fragmentSize : Nat) (timestamp : String) (now : Nat) :
    Option (FragmentationDecoderStorage ι × String) :=
  match st.getFragmentDecoderStruct info.dataObjectId now with
  | (st, some found) => some (st, found.filePath)
  | (st, none) => do
      let path := reconstructedFile info.fileName timestamp
      let bytes ← allocateFile info.fileSize
      let st := { st with
        fragmentDecoderStorage := Function.update st.fragmentDecoderStorage info.dataObjectId
          (some ⟨path, info.fileSize,
            calculateTotalNumberOfFragments info.fileSize fragmentSize⟩)
        files := Function.update st.files path (some bytes) }
      some (st.trackDecoderLastUsedTime info.dataObjectId now, path)

/-- `trackFragment` -/
def trackFragment (st : FragmentationDecoderStorage ι) (id : ι) (fragmentId : String) :
    FragmentationDecoderStorage ι :=
  { st with
    fragmentsTracker :=
      Function.update st.fragmentsTracker id (fragmentId :: st.fragmentsTracker id) }

/-- `addFragment` -/
def addFragment (st : FragmentationDecoderStorage ι) (fragment : FragmentDataObject ι)
    (fragmentSize : Nat) (timestamp : String) (now : Nat) :
    Option (FragmentationDecoderStorage ι × Bool) := do
  let info := getFragmentParentDataObjectInfo fragment
  let (st, path) ← st.openRecord info fragmentSize timestamp now
  let (st, stored) ← storeLoop info.dataObjectId path fragmentSize info.fileSize
    fragment.contents info.sequenceNumberList 0 st
  if stored then
    let st := st.trackDecoderLastUsedTime info.dataObjectId now
    some (st.trackFragment info.dataObjectId fragment.idStr, true)
  else some (st, false)

/-- `disposeAssociatedFragments` -/
def disposeAssociatedFragments (st : FragmentationDecoderStorage ι) (id : ι) :
    FragmentationDecoderStorage ι :=
  { st with fragmentsTracker := Function.update st.fragmentsTracker id [] }

/-- `deleteFromStorage` -/
def deleteFromStorage (st : FragmentationDecoderStorage ι) (id : ι) :
    FragmentationDecoderStorage ι :=
  let st := st.disposeAssociatedFragments id
  { st with
    fragmentDecoderStorage := Function.update st.fragmentDecoderStorage id none
    dataobjectsequencenumbertracking :=
      Function.update st.dataobjectsequencenumbertracking id ∅ }

/-- `cleanUpPartialReconstructedObject`: remove the file of an unfinished reconstruction. -/
def cleanUpPartialReconstructedObject (st : FragmentationDecoderStorage ι) (id : ι) (now : Nat) :
    FragmentationDecoderStorage ι :=
  match st.isCompleted id now with
  | (st, true) => st
  | (st, false) =>
      match st.getFragmentDecoderStruct id now with
      | (st, none) => st
      | (st, some found) => { st with files := Function.update st.files found.filePath none }

/-- `deleteDecoderFromStorageByDataObjectId`: the sequence numbers stay. -/
def deleteDecoderFromStorageByDataObjectId (st : FragmentationDecoderStorage ι) (id : ι)
    (now : Nat) : FragmentationDecoderStorage ι :=
  let st := st.cleanUpPartialReconstructedObject id now
  { st with
    fragmentDecoderStorage := Function.update st.fragmentDecoderStorage id none
    fragmentationDecoderLastUsedTime :=
      st.fragmentationDecoderLastUsedTime.filter (fun x => x.1 ≠ id) }

/--
The loop of `ageOffDecoder`. The iterator is a position in an array that closes up
when the entry under it is erased, so the entry after an erased one is not visited.
-/
def ageOffLoop (maxAgeDecoder now : Nat) :
    Nat → Nat → FragmentationDecoderStorage ι → FragmentationDecoderStorage ι
  | 0, _, st => st
  | rounds + 1, i, st =>
      match st.fragmentationDecoderLastUsedTime[i]? with
      | none => st
      | some (id, time) =>
          let st :=
            if time + maxAgeDecoder < now then
              (st.deleteDecoderFromStorageByDataObjectId id now).disposeAssociatedFragments id
            else st
          ageOffLoop maxAgeDecoder now rounds (i + 1) st

/-- `ageOffDecoder` -/
def ageOffDecoder (st : FragmentationDecoderStorage ι) (maxAgeDecoder now : Nat) :
    FragmentationDecoderStorage ι :=
  ageOffLoop maxAgeDecoder now st.fragmentationDecoderLastUsedTime.length 0 st

end FragmentationDecoderStorage

/-! ## Decoder service -/

open FragmentationDecoderStorage

/--
`FragmentationDecoderService::decode`: the contents of the reconstructed file when
this fragment completed it.
-/
def decode (st : FragmentationDecoderStorage ι) (fragment : FragmentDataObject ι)
    (fragmentSize : Nat) (timestamp : String) (now : Nat) :
    Option (FragmentationDecoderStorage ι × Option Bytes) :=
  let id := (getFragmentParentDataObjectInfo fragment).dataObjectId
  match st.isCompleted id now with
  | (st, true) => some (st, none)
  | (st, false) => do
      let (st, isAddFragment) ← st.addFragment fragment fragmentSize timestamp now
      if isAddFragment then
        match st.isCompleted id now with
        | (st, false) => some (st, none)
        | (st, true) =>
            match st.getFragmentDecoderStruct id now with
            | (st, none) => some (st, none)
            | (st, some found) => some (st, st.files found.filePath)
      else some (st, none)

end Encoders.Fragment
