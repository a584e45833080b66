import Encoders.Lib.Slice
import Encoders.Lib.Text

/-!
# Fragments of a file

`fragmentation/utility/FragmentationDataObjectUtility.cpp` and
`fragmentation/service/FragmentationEncoderService.cpp`. A file is sent as pieces
of one size, numbered from one, several of them in one data object. Sender and
receiver each compute from the number where a piece starts and how long it is.

Positions and sizes are `size_t`, so sums, products and differences are taken
modulo `2 ^ 64`. The number of pieces is the ceiling of a quotient of two
`double`s, which is exact for every length below `2 ^ 53`. An array cannot be
longer than `PTRDIFF_MAX`: asking for one ends the program, and so do the two
places where an `int` counter would overflow. These are the `none`s below; a
function that reports an error instead returns what its caller sees.

The attributes of a data object are a record: what the sender sets is what the
receiver looks up. The length travels as the text of an `int`.
-/

namespace Encoders.Fragment

open Encoders.Lib

variable {L q s : Nat}

/-- The contents of a file. -/
abbrev Bytes := List UInt8

/-- `a - b` for `size_t`. -/
def sizeSub (a b : Nat) : Nat := (a + 18446744073709551616 - b) % 18446744073709551616

/-- `calculateTotalNumberOfFragments` -/
def calculateTotalNumberOfFragments (dataLen fragmentSize : Nat) : Nat :=
  let finalNumberOfFragments := (dataLen + fragmentSize - 1) / fragmentSize
  if finalNumberOfFragments = 0 then 1 else finalNumberOfFragments

/-- `struct FragmentationPositionInfo` -/
structure FragmentationPositionInfo where
  startPosition : Nat
  actualFragmentSize : Nat
deriving DecidableEq

/-- `calculateFragmentationPositionInfo` -/
def calculateFragmentationPositionInfo (sequenceNumber fragmentSize fileSize : Nat) :
    FragmentationPositionInfo :=
  let startPosition := sizeSub sequenceNumber 1 * fragmentSize % 18446744073709551616
  let endPosition := sizeSub (startPosition + fragmentSize) 1
  let actualFragmentSize :=
    if fileSize < endPosition then sizeSub fileSize startPosition else fragmentSize
  -- the last fragment ends one position behind the file when it is one byte short
  let actualFragmentSize :=
    if sequenceNumber = calculateTotalNumberOfFragments fileSize fragmentSize ∧
        endPosition = fileSize then sizeSub fileSize startPosition
    else actualFragmentSize
  ⟨startPosition, actualFragmentSize⟩

/-- `allocateFile`: a file of zeros. -/
def allocateFile (fileSize : Nat) : Option Bytes :=
  if 9223372036854775808 ≤ fileSize then none else some (List.replicate fileSize 0)

/--
`storeFragmentToDataObject`: the file being reconstructed with one piece of the
fragment's file in it. The inner `none` is the return value `false`: nothing could
be read, or the file is not there.
-/
def storeFragmentToDataObject (original : Option Bytes) (fragment : Bytes)
    (parentDataObjectStartPosition fragmentSize fragmentStartPosition : Nat) :
    Option (Option Bytes) :=
  if 9223372036854775808 ≤ fragmentSize + 1 then none
  else
    let bytesRead := slice fragment fragmentStartPosition fragmentSize
    if bytesRead.length = 0 then some none
    else
      let buffer := bytesRead ++ List.replicate (fragmentSize - bytesRead.length) 0
      some (original.map (fun bytes => overwrite 0 bytes parentDataObjectStartPosition buffer))

/-! ## Fragment data objects -/

/-- A fragment data object: its file, and the attributes the decoder looks at. -/
structure FragmentDataObject (ι : Type) where
  idStr : String
  parentDataObjectId : ι
  parentOrigLen : List Char
  sequenceNumber : List Char
  parentOrigName : String
  contents : Bytes

/-- `struct FragmentParentDataObjectInfo` -/
structure FragmentParentDataObjectInfo (ι : Type) where
  dataObjectId : ι
  fileSize : Nat
  sequenceNumberList : List (List Char)
  fileName : String

/-- `getFragmentParentDataObjectInfo`: `atol` gives a `long`, the field is a `size_t`. -/
def getFragmentParentDataObjectInfo {ι : Type} (fragment : FragmentDataObject ι) :
    FragmentParentDataObjectInfo ι :=
  let fileSize := (strtol fragment.parentOrigLen % 18446744073709551616).toNat
  if fileSize = 0 then ⟨fragment.parentDataObjectId, 0, [], ""⟩
  else
    ⟨fragment.parentDataObjectId, fileSize, strtok ',' fragment.sequenceNumber,
      fragment.parentOrigName⟩

/-! ## Encoder -/

/-- `getIndexesOfFragmentsToCreate`: the counter is an `int`. -/
def getIndexesOfFragmentsToCreate (totalNumberOfFragments : Nat) : Option (List Nat) :=
  if 2147483648 ≤ totalNumberOfFragments then none
  else some ((List.range totalNumberOfFragments).map (· + 1))

/-- The loop of `encodeDataObject`: the sequence numbers as text, and the fragment's file. -/
def encodeLoop (file : Bytes) (fragmentSize total : Nat) (indexes : List Nat) :
    Nat → Nat → List Char → Bytes → Option (List Char × Bytes)
  | 0, _, csv, out => some (csv, out)
  | count + 1, startIndex, csv, out =>
      if startIndex < total then do
        let sequenceNumberToWrite ← indexes[startIndex]?
        let info :=
          calculateFragmentationPositionInfo sequenceNumberToWrite fragmentSize file.length
        if 9223372036854775808 ≤ info.actualFragmentSize + 1 then none
        else
          let bytesRead := slice file info.startPosition info.actualFragmentSize
          let buffer :=
            bytesRead ++ List.replicate (info.actualFragmentSize - bytesRead.length) 0
          encodeLoop file fragmentSize total indexes count (startIndex + 1)
            (csv ++ (sprintfD sequenceNumberToWrite ++ [','])) (out ++ buffer)
      else some (csv, out)

/--
`encodeDataObject` with `addAttributes`: the fragment data object that starts with
piece `startIndex + 1`. The length of the file is put into an `int`, and an
object whose `int` is zero is refused.
-/
def encodeDataObject {ι : Type} (file : Bytes) (dataObjectId : ι) (fileName fragmentId : String)
    (numberFragmentsPerDataObject startIndex fragmentSize : Nat) :
    Option (FragmentDataObject ι) := do
  let total := calculateTotalNumberOfFragments file.length fragmentSize
  let indexes ← getIndexesOfFragmentsToCreate total
  let (csv, contents) ← encodeLoop file fragmentSize total indexes
    (min numberFragmentsPerDataObject total) startIndex [] []
  let len := (file.length : Int).bmod (4294967296)
  if len = 0 then none
  else some ⟨fragmentId, dataObjectId, sprintfD len, csv.dropLast, fileName, contents⟩

/-! ## What the numbers mean -/

/-- Piece `q` of a file. -/
def piece (file : Bytes) (s q : Nat) : Bytes := slice file ((q - 1) * s) s

theorem total_bounds (hL : 0 < L) (hs : 0 < s) :
    0 < calculateTotalNumberOfFragments L s ∧
      (calculateTotalNumberOfFragments L s - 1) * s < L ∧
      L ≤ calculateTotalNumberOfFragments L s * s := by
  have hbounds := ceil_div_bounds hL hs
  have htotal : calculateTotalNumberOfFragments L s = (L + s - 1) / s := by
    unfold calculateTotalNumberOfFragments
    exact if_neg (by omega)
  rw [htotal]
  exact hbounds

theorem sizeSub_of_le {a b : Nat} (hb : b ≤ a) (ha : a < 18446744073709551616) :
    sizeSub a b = a - b := by
  unfold sizeSub
  omega

/-- The start of a piece is computed without wrapping around where it is a `size_t`. -/
theorem sizeSub_one_mul (hs : 0 < s) (hq1 : 1 ≤ q) (hstart : (q - 1) * s < 18446744073709551616) :
    sizeSub q 1 * s % 18446744073709551616 = (q - 1) * s := by
  have hpred : sizeSub q 1 = q - 1 := by
    have := Nat.le_mul_of_pos_right (q - 1) hs
    unfold sizeSub
    omega
  rw [hpred]
  exact Nat.mod_eq_of_lt hstart

/-- Where a piece starts: no product or sum here leaves `size_t`. -/
theorem start_lt (hL : 0 < L) (hs : 0 < s) (hq : q ≤ calculateTotalNumberOfFragments L s) :
    (q - 1) * s < L := by
  obtain ⟨_, hlast, _⟩ := total_bounds hL hs
  exact Nat.lt_of_le_of_lt (Nat.mul_le_mul_right s (by omega)) hlast

/-- The position the code computes is the piece's where its end does not leave `size_t`. -/
theorem positionInfo_of_fits (hL : 0 < L) (hL64 : L < 18446744073709551616) (hs : 0 < s)
    (hq1 : 1 ≤ q) (hq : q ≤ calculateTotalNumberOfFragments L s)
    (hfit : q * s ≤ 18446744073709551616) :
    calculateFragmentationPositionInfo q s L = ⟨(q - 1) * s, min s (L - (q - 1) * s)⟩ := by
  have hstart := start_lt hL hs hq
  obtain ⟨_, _, hall⟩ := total_bounds hL hs
  have hmul := mul_eq_pred_mul_add hq1 s
  have hpred : sizeSub q 1 * s % 18446744073709551616 = (q - 1) * s :=
    sizeSub_one_mul hs hq1 (by omega)
  have hend : sizeSub ((q - 1) * s + s) 1 = (q - 1) * s + s - 1 := by
    unfold sizeSub
    omega
  have hsub : sizeSub L ((q - 1) * s) = L - (q - 1) * s := sizeSub_of_le (by omega) (by omega)
  unfold calculateFragmentationPositionInfo
  simp only [hpred, hend, hsub, FragmentationPositionInfo.mk.injEq, true_and]
  by_cases hlast : q = calculateTotalNumberOfFragments L s
  · -- the last piece reaches the end of the file
    have hend' : L ≤ (q - 1) * s + s := by
      rw [← hlast, hmul] at hall
      exact hall
    by_cases heq : (q - 1) * s + s - 1 = L
    · rw [if_pos ⟨hlast, heq⟩]; omega
    · rw [if_neg (fun h => heq h.2)]
      by_cases hgt : L < (q - 1) * s + s - 1
      · rw [if_pos hgt]; omega
      · rw [if_neg hgt]; omega
  · -- any other piece is followed by one that starts inside the file
    have hnext : (q - 1) * s + s < L := by
      have hnext := start_lt hL hs (show q + 1 ≤ calculateTotalNumberOfFragments L s by omega)
      rw [Nat.add_sub_cancel, hmul] at hnext
      exact hnext
    rw [if_neg (fun h => hlast h.1), if_neg (by omega)]
    omega

/-- The position the code computes is the piece's, whatever the sizes. -/
theorem positionInfo_eq (hL : 0 < L) (hL63 : L < 9223372036854775808) (hs : 0 < s)
    (hs64 : s < 18446744073709551616) (hq1 : 1 ≤ q) (hq : q ≤ calculateTotalNumberOfFragments L s) :
    calculateFragmentationPositionInfo q s L = ⟨(q - 1) * s, min s (L - (q - 1) * s)⟩ := by
  have hstart := start_lt hL hs hq
  have hmul := mul_eq_pred_mul_add hq1 s
  refine positionInfo_of_fits hL (by omega) hs hq1 hq ?_
  -- a second piece exists only when the first is shorter than the file
  rcases Nat.eq_zero_or_pos (q - 1) with h0 | hpos
  · rw [hmul, h0, Nat.zero_mul]
    omega
  · have := Nat.le_mul_of_pos_left s hpos
    omega

theorem slice_min (file : Bytes) (pos len : Nat) :
    slice file pos (min len (file.length - pos)) = slice file pos len := by
  unfold slice
  rw [List.take_eq_take_iff, List.length_drop]
  omega

theorem length_piece {file : Bytes} :
    (piece file s q).length = min s (file.length - (q - 1) * s) := by
  unfold piece
  exact length_slice file _ _

end Encoders.Fragment
