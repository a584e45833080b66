import Encoders.Fragment.Retention

/-!
# From the encoder to the decoder

The encoder's fragment objects are valid fragments of the file it reads, so the
decoder's invariant applies to them: whatever arrives, in whatever order and
however often, the record is complete at the moment the last missing number comes
in, and the file written is the file sent.

The one thing that can go wrong is the length. It is a `size_t` everywhere but in
`addAttributes`, where it passes through an `int`. From `2 ^ 31` on the decoder is
told another length, negative ones included, or no fragment is made at all.
-/

namespace Encoders.Fragment

open Encoders.Lib FragmentationDecoderStorage

/-! ## What the encoder makes -/

/-- The sequence numbers of the fragment object that starts at `startIndex`. -/
def sequenceNumbersToWrite (total numberFragmentsPerDataObject startIndex : Nat) : List Nat :=
  List.range' (startIndex + 1) (min (min numberFragmentsPerDataObject total) (total - startIndex))

theorem sequenceNumbersToWrite_range {total k start q : Nat}
    (hq : q ∈ sequenceNumbersToWrite total k start) : 1 ≤ q ∧ q ≤ total := by
  unfold sequenceNumbersToWrite at hq
  rw [List.mem_range'_1] at hq
  omega

theorem mem_sequenceNumbersToWrite {total k start : Nat} (hk : 0 < k) (hstart : start < total) :
    start + 1 ∈ sequenceNumbersToWrite total k start := by
  unfold sequenceNumbersToWrite
  rw [List.mem_range'_1]
  omega

/-- The loop writes the numbers from `start + 1` on, and their pieces. -/
theorem encodeLoop_spec {file : Bytes} {s : Nat} (hsz : Sizes file.length s) :
    ∀ (count start : Nat) (csv : List Char) (out : Bytes),
      let total := calculateTotalNumberOfFragments file.length s
      let numbers := List.range' (start + 1) (min count (total - start))
      encodeLoop file s total ((List.range total).map (· + 1)) count start csv out =
        some (csv ++ numbers.flatMap (fun q : Nat => sprintfD q ++ [',']),
          out ++ numbers.flatMap (piece file s)) := by
  intro count
  induction count with
  | zero =>
      intro start csv out
      simp [encodeLoop]
  | succ count ih =>
      intro start csv out
      simp only
      generalize htotal : calculateTotalNumberOfFragments file.length s = total at ih
      unfold encodeLoop
      by_cases hstart : start < total
      · -- the list of numbers has `start + 1` at `start`
        have hget : ((List.range total).map (· + 1))[start]? = some (start + 1) := by
          rw [List.getElem?_map, List.getElem?_range hstart]
          rfl
        have hinfo := positionInfo_eq hsz.file_pos (Nat.lt_of_succ_lt hsz.file_lt) hsz.frag_pos
          hsz.frag_lt (Nat.le_add_left 1 start) (by rw [htotal]; exact hstart)
        rw [Nat.add_sub_cancel] at hinfo
        have hlen : (slice file (start * s) (min s (file.length - start * s))).length =
            min s (file.length - start * s) := by
          rw [length_slice]
          omega
        have hlt := hsz.file_lt
        rw [if_pos hstart, hget, Option.bind_eq_bind, Option.bind_some]
        simp only [hinfo, hlen, Nat.sub_self, List.replicate_zero, List.append_nil]
        rw [if_neg (by omega), ih (start + 1), slice_min]
        have hnumbers : List.range' (start + 1) (min (count + 1) (total - start)) =
            (start + 1) :: List.range' (start + 1 + 1) (min count (total - (start + 1))) := by
          rw [← List.range'_succ]
          congr 1
          omega
        have hpiece : piece file s (start + 1) = slice file (start * s) s := by
          unfold piece
          rw [Nat.add_sub_cancel]
        rw [hnumbers, ← hpiece]
        simp only [List.flatMap_cons, List.append_assoc]
      · -- beyond the last number the loop writes nothing
        have hzero : min (count + 1) (total - start) = 0 := by omega
        rw [if_neg hstart, hzero]
        simp

variable {ι : Type}

/-- The fragment object, when there is one. -/
theorem encodeDataObject_eq {file : Bytes} {s : Nat} (hsz : Sizes file.length s) (id : ι)
    (fileName fragmentId : String) (k start : Nat)
    (htotal : calculateTotalNumberOfFragments file.length s < 2147483648)
    (hlen : (file.length : Int).bmod (4294967296) ≠ 0) :
    ∃ fragment, encodeDataObject file id fileName fragmentId k start s = some fragment ∧
      fragment.parentDataObjectId = id ∧
      fragment.parentOrigLen = sprintfD ((file.length : Int).bmod (4294967296)) ∧
      fragment.sequenceNumber = [','].intercalate ((sequenceNumbersToWrite
        (calculateTotalNumberOfFragments file.length s) k start).map (fun q : Nat => sprintfD q)) ∧
      fragment.contents = (sequenceNumbersToWrite
        (calculateTotalNumberOfFragments file.length s) k start).flatMap (piece file s) := by
  have hcsv : ∀ numbers : List Nat, (numbers.flatMap (fun q : Nat => sprintfD q ++ [','])).dropLast =
      [','].intercalate (numbers.map (fun q : Nat => sprintfD q)) := by
    intro numbers
    rw [← dropLast_joined, List.flatMap_map]
  unfold encodeDataObject getIndexesOfFragmentsToCreate sequenceNumbersToWrite
  simp only
  rw [if_neg (by omega), Option.bind_eq_bind, Option.bind_some, encodeLoop_spec hsz,
    Option.bind_eq_bind, Option.bind_some]
  simp only [List.nil_append]
  rw [if_neg hlen, hcsv]
  refine ⟨_, rfl, ?_⟩
  simp only [and_self]

/-- The decoder reads the encoder's list back. -/
theorem numbers_read_back {numbers : List Nat} (h : ∀ q ∈ numbers, q < 9223372036854775808) :
    (strtok ',' ([','].intercalate (numbers.map (fun q : Nat => sprintfD q)))).map
      (fun token => (strtol token % 18446744073709551616).toNat) = numbers := by
  have hdigits : ∀ q : Nat, sprintfD q = Nat.toDigits 10 q := by
    intro q
    unfold sprintfD
    rw [if_neg (by omega), Int.natAbs_natCast]
  rw [strtok_intercalate, List.map_map]
  · calc numbers.map ((fun token => (strtol token % 18446744073709551616).toNat) ∘ fun q : Nat => sprintfD q)
        = numbers.map id := List.map_congr_left (fun q hq => by
          have hlt := h q hq
          simp only [Function.comp_apply, id_eq]
          rw [strtol_sprintfD (by omega) (by omega)]
          omega)
      _ = numbers := List.map_id numbers
  · intro t ht
    obtain ⟨q, _, rfl⟩ := List.mem_map.mp ht
    rw [hdigits]
    intro hc
    exact (isDigit_plain (isDigit_toDigits hc)).2.2.2 rfl
  · intro t ht
    obtain ⟨q, _, rfl⟩ := List.mem_map.mp ht
    rw [hdigits]
    exact Nat.toDigits_ne_nil

/-- Pieces next to each other are a slice of the file. -/
theorem flatMap_pieces (file : Bytes) (s : Nat) : ∀ n start : Nat,
    (List.range' (start + 1) n).flatMap (piece file s) = slice file (start * s) (n * s) := by
  intro n
  induction n with
  | zero =>
      intro start
      simp [slice]
  | succ n ih =>
      intro start
      have hpiece : piece file s (start + 1) = slice file (start * s) s := by
        unfold piece
        rw [Nat.add_sub_cancel]
      rw [List.range'_succ, List.flatMap_cons, ih, hpiece, Nat.succ_mul start s, slice_append_slice,
        Nat.succ_mul n s, Nat.add_comm s]

theorem bmod_small {L : Nat} (h : L < 2147483648) : (L : Int).bmod (4294967296) = L := by
  refine Int.bmod_eq_of_le ?_ ?_
  · omega
  · omega

theorem total_le {L s : Nat} (hL : 0 < L) (hs : 0 < s) :
    calculateTotalNumberOfFragments L s ≤ L := by
  obtain ⟨_, hlast, _⟩ := total_bounds hL hs
  have := Nat.le_mul_of_pos_right (calculateTotalNumberOfFragments L s - 1) hs
  omega

/-- What the decoder reads when the length is not zero. -/
theorem info_of_length {fragment : FragmentDataObject ι} {L : Nat} (hL : 0 < L)
    (hlen : (strtol fragment.parentOrigLen % 18446744073709551616).toNat = L) :
    (getFragmentParentDataObjectInfo fragment).fileSize = L ∧
      (getFragmentParentDataObjectInfo fragment).sequenceNumberList =
        strtok ',' fragment.sequenceNumber := by
  unfold getFragmentParentDataObjectInfo
  simp only [hlen]
  rw [if_neg (Nat.pos_iff_ne_zero.mp hL)]
  exact ⟨rfl, rfl⟩

/-- **The encoder makes valid fragments** of every file whose length an `int` can hold. -/
theorem encode_valid {file : Bytes} {s : Nat} (hsz : Sizes file.length s)
    (hint : file.length < 2147483648) (id : ι) (fileName fragmentId : String) (k start : Nat) :
    ∃ fragment, encodeDataObject file id fileName fragmentId k start s = some fragment ∧
      fragment.parentDataObjectId = id ∧ Valid file s fragment ∧
      sequenceNumbers fragment =
        sequenceNumbersToWrite (calculateTotalNumberOfFragments file.length s) k start := by
  have htotal := total_le hsz.file_pos hsz.frag_pos
  have hpos := hsz.file_pos
  have hbmod := bmod_small hint
  obtain ⟨fragment, hencode, hid, hlen, hcsv, hcontents⟩ := encodeDataObject_eq hsz id fileName
    fragmentId k start (by omega) (by rw [hbmod]; omega)
  have hrange : ∀ q ∈ sequenceNumbersToWrite (calculateTotalNumberOfFragments file.length s) k start,
      1 ≤ q ∧ q ≤ calculateTotalNumberOfFragments file.length s :=
    fun q hq => sequenceNumbersToWrite_range hq
  have hsize : (strtol fragment.parentOrigLen % 18446744073709551616).toNat = file.length := by
    rw [hlen, hbmod, strtol_sprintfD (by omega) (by omega)]
    omega
  obtain ⟨hfileSize, htokens⟩ := info_of_length hpos hsize
  have hseq : sequenceNumbers fragment =
      sequenceNumbersToWrite (calculateTotalNumberOfFragments file.length s) k start := by
    unfold sequenceNumbers
    rw [htokens, hcsv]
    exact numbers_read_back (fun q hq => by have := (hrange q hq).2; omega)
  refine ⟨fragment, hencode, hid, ⟨hfileSize, ?_, ?_, ?_⟩, hseq⟩
  · rw [hseq]
    exact hrange
  · rw [hseq]
    exact hcontents
  · rw [hcontents]
    unfold sequenceNumbersToWrite
    rw [flatMap_pieces, length_slice]
    omega

/-! ## What the decoder makes of it -/

theorem FreshFile.same {st st' : FragmentationDecoderStorage ι} {fragment : FragmentDataObject ι}
    {timestamp : String} (h : FreshFile st fragment timestamp) (hsame : SameRecords st st') :
    FreshFile st' fragment timestamp := by
  unfold FreshFile at *
  rw [hsame.records]
  exact h

variable [LinearOrder ι]

/-- A fragment after the parent was completed changes nothing. -/
theorem decode_completed {st : FragmentationDecoderStorage ι} {fragment : FragmentDataObject ι}
    (hdone : completed st fragment.parentDataObjectId = true) (s : Nat) (timestamp : String)
    (now : Nat) :
    ∃ st', decode st fragment s timestamp now = some (st', none) ∧ SameRecords st st' := by
  obtain ⟨hsame, hcomp⟩ := sameRecords_isCompleted st fragment.parentDataObjectId now
  rw [hdone] at hcomp
  refine ⟨(st.isCompleted fragment.parentDataObjectId now).1, ?_, hsame⟩
  unfold decode
  simp only [info_dataObjectId]
  generalize st.isCompleted fragment.parentDataObjectId now = result at hcomp
  obtain ⟨st1, done⟩ := result
  simp only at hcomp
  subst hcomp
  rfl

/-- A fragment before that: it is stored, and the file comes out if it was the last one. -/
theorem decode_missing {world : ι → Bytes} {s : Nat} {st : FragmentationDecoderStorage ι}
    (h : StorageInv world s st) {fragment : FragmentDataObject ι} {timestamp : String}
    (hsz : Sizes (world fragment.parentDataObjectId).length s)
    (hvalid : Valid (world fragment.parentDataObjectId) s fragment)
    (hfresh : FreshFile st fragment timestamp) (now : Nat)
    (hopen : completed st fragment.parentDataObjectId = false) :
    ∃ st' out, decode st fragment s timestamp now = some (st', out) ∧ StorageInv world s st' ∧
      (∃ r, st'.fragmentDecoderStorage fragment.parentDataObjectId = some r) ∧
      st'.dataobjectsequencenumbertracking fragment.parentDataObjectId =
        st.dataobjectsequencenumbertracking fragment.parentDataObjectId ∪
          (sequenceNumbers fragment).toFinset ∧
      (∀ i ≠ fragment.parentDataObjectId,
        st'.fragmentDecoderStorage i = st.fragmentDecoderStorage i) ∧
      out = if completed st' fragment.parentDataObjectId then
        fileOf st' fragment.parentDataObjectId else none := by
  -- `isCompleted` is asked twice, and stamps the record each time: st1 and st3
  obtain ⟨hsame1, hcomp1⟩ := sameRecords_isCompleted st fragment.parentDataObjectId now
  rw [hopen] at hcomp1
  generalize hresult : st.isCompleted fragment.parentDataObjectId now = result at hsame1 hcomp1
  obtain ⟨st1, done⟩ := result
  simp only at hsame1 hcomp1
  subst hcomp1
  obtain ⟨st2, hadd, hinv2, ⟨r, hr⟩, htrack2, hother2⟩ := addFragment_spec (h.same hsame1) hsz hvalid
    (hfresh.same hsame1) now
  rw [hsame1.tracking] at htrack2
  rw [hsame1.records] at hother2
  obtain ⟨hsame3, hcomp3⟩ := sameRecords_isCompleted st2 fragment.parentDataObjectId now
  generalize hresult3 : st2.isCompleted fragment.parentDataObjectId now = result3 at hsame3 hcomp3
  obtain ⟨st3, done3⟩ := result3
  simp only at hsame3 hcomp3
  obtain ⟨hsame4, hfound⟩ := sameRecords_get st3 fragment.parentDataObjectId now
  -- the file is read off the record that `addFragment` left, whatever is stamped after
  have hdecode : decode st fragment s timestamp now =
      if done3 then
        some ((st3.getFragmentDecoderStruct fragment.parentDataObjectId now).1,
          fileOf st2 fragment.parentDataObjectId)
      else some (st3, none) := by
    unfold decode
    simp only [info_dataObjectId, hresult, hadd, Option.bind_eq_bind, Option.bind_some, if_true,
      hresult3]
    cases done3 with
    | false => rfl
    | true =>
        have hr3 : st3.fragmentDecoderStorage fragment.parentDataObjectId = some r := by
          rw [hsame3.records]
          exact hr
        unfold getFragmentDecoderStruct fileOf
        simp only [hr3, hr, Option.bind_some, if_true, trackDecoderLastUsedTime, hsame3.files]
  cases hdone : done3 with
  | false =>
      rw [hdone] at hdecode hcomp3
      refine ⟨st3, none, hdecode, hinv2.same hsame3, ⟨r, by rw [hsame3.records]; exact hr⟩, ?_, ?_, ?_⟩
      · rw [hsame3.tracking]
        exact htrack2
      · intro i hi
        rw [hsame3.records]
        exact hother2 i hi
      · unfold completed at hcomp3 ⊢
        rw [hsame3.records, ← hcomp3]
        rfl
  | true =>
      rw [hdone] at hdecode hcomp3
      refine ⟨_, _, hdecode, (hinv2.same hsame3).same hsame4,
        ⟨r, by rw [hsame4.records, hsame3.records]; exact hr⟩, ?_, ?_, ?_⟩
      · rw [hsame4.tracking, hsame3.tracking]
        exact htrack2
      · intro i hi
        rw [hsame4.records, hsame3.records]
        exact hother2 i hi
      · unfold completed at hcomp3 ⊢
        unfold fileOf
        rw [hsame4.records, hsame3.records, ← hcomp3, hsame4.files, hsame3.files]
        rfl

/-! ## End to end -/

/-- A fragment object on its way: where it starts, its own id, and when it arrives. -/
structure Arrival where
  startIndex : Nat
  fragmentId : String
  timestamp : String
  now : Nat

/-- The encoder makes the fragment and the decoder takes it. -/
def receive (file : Bytes) (id : ι) (fileName : String) (k s : Nat)
    (st : FragmentationDecoderStorage ι) (a : Arrival) :
    Option (FragmentationDecoderStorage ι × Option Bytes) :=
  (encodeDataObject file id fileName a.fragmentId k a.startIndex s).bind
    (fun fragment => decode st fragment s a.timestamp a.now)

/-- Arrivals one after the other. -/
def receiveAll (file : Bytes) (id : ι) (fileName : String) (k s : Nat)
    (disk : String → Option Bytes) (arrivals : List Arrival) :
    Option (FragmentationDecoderStorage ι) :=
  run (fun st a => (receive file id fileName k s st a).map Prod.fst)
    (FragmentationDecoderStorage.empty disk) arrivals

/-- The distinct sequence numbers that have arrived. -/
def received (total k : Nat) (arrivals : List Arrival) : Finset Nat :=
  (arrivals.flatMap (fun a => sequenceNumbersToWrite total k a.startIndex)).toFinset

/--
Every fragment can be made, and after any arrivals, one more included: the parent
is completed if and only if all numbers have arrived, it is then that the decoder
returned a file, once, and that file is the one sent.
-/
def FragmentationWorks (id : ι) (fileName : String) (L k s : Nat) : Prop :=
  let total := calculateTotalNumberOfFragments L s
  ∀ file : Bytes, file.length = L →
    (∀ startIndex < total, ∀ fragmentId,
      (encodeDataObject file id fileName fragmentId k startIndex s).isSome) ∧
    ∀ (disk : String → Option Bytes) (arrivals : List Arrival) (last : Arrival),
      (∀ a ∈ arrivals ++ [last], a.startIndex < total) →
      ∃ st st' out, receiveAll file id fileName k s disk arrivals = some st ∧
        receive file id fileName k s st last = some (st', out) ∧
        (completed st' id = true ↔ received total k (arrivals ++ [last]) = Finset.Icc 1 total) ∧
        (completed st' id = true → fileOf st' id = some file) ∧
        out = if received total k arrivals ≠ Finset.Icc 1 total ∧
            received total k (arrivals ++ [last]) = Finset.Icc 1 total then some file else none

/-- What holds between arrivals: the decoder has tracked what has arrived. -/
structure ReceiverInv (file : Bytes) (id : ι) (k s : Nat) (arrivals : List Arrival)
    (st : FragmentationDecoderStorage ι) : Prop where
  storage : StorageInv (fun _ => file) s st
  alone : ∀ i ≠ id, st.fragmentDecoderStorage i = none
  opened : st.fragmentDecoderStorage id = none → arrivals = []
  tracked : st.dataobjectsequencenumbertracking id =
    received (calculateTotalNumberOfFragments file.length s) k arrivals

theorem received_append (total k : Nat) (arrivals : List Arrival) (last : Arrival) :
    received total k (arrivals ++ [last]) = received total k arrivals ∪
      (sequenceNumbersToWrite total k last.startIndex).toFinset := by
  unfold received
  rw [List.flatMap_append, List.toFinset_append, List.flatMap_singleton]

theorem received_subset (total k : Nat) (arrivals : List Arrival) :
    received total k arrivals ⊆ Finset.Icc 1 total := by
  intro q hq
  unfold received at hq
  obtain ⟨a, _, ha⟩ := List.mem_flatMap.mp (List.mem_toFinset.mp hq)
  exact Finset.mem_Icc.mpr (sequenceNumbersToWrite_range ha)

omit [LinearOrder ι] in
theorem ReceiverInv.completed_iff {file : Bytes} {id : ι} {k s : Nat} {arrivals : List Arrival}
    {st : FragmentationDecoderStorage ι} (hsz : Sizes file.length s)
    (h : ReceiverInv file id k s arrivals st) :
    completed st id = true ↔ received (calculateTotalNumberOfFragments file.length s) k arrivals =
      Finset.Icc 1 (calculateTotalNumberOfFragments file.length s) := by
  rw [← h.tracked]
  cases hr : st.fragmentDecoderStorage id with
  | some r => exact h.storage.completed_iff hr
  | none =>
      -- nothing has arrived, and there is at least one fragment
      have hempty := h.storage.absent id hr
      have hpos := (total_bounds hsz.file_pos hsz.frag_pos).1
      unfold completed
      rw [hr, hempty]
      constructor
      · intro hfalse
        cases hfalse
      · intro heq
        have hone : 1 ∈ Finset.Icc 1 (calculateTotalNumberOfFragments file.length s) :=
          Finset.mem_Icc.mpr ⟨le_refl 1, hpos⟩
        rw [← heq] at hone
        exact absurd hone (Finset.notMem_empty 1)

/-- One arrival. -/
theorem receive_spec {file : Bytes} {id : ι} {k s : Nat} (hsz : Sizes file.length s)
    (hint : file.length < 2147483648) (fileName : String) {arrivals : List Arrival}
    {st : FragmentationDecoderStorage ι} (h : ReceiverInv file id k s arrivals st) (last : Arrival) :
    ∃ st' out, receive file id fileName k s st last = some (st', out) ∧
      ReceiverInv file id k s (arrivals ++ [last]) st' ∧
      out = if completed st id = false ∧ completed st' id = true then fileOf st' id else none := by
  obtain ⟨fragment, hencode, hid, hvalid, hnumbers⟩ :=
    encode_valid hsz hint id fileName last.fragmentId k last.startIndex
  subst hid
  have hreceive : receive file fragment.parentDataObjectId fileName k s st last =
      decode st fragment s last.timestamp last.now := by
    unfold receive
    rw [hencode]
    rfl
  rw [hreceive]
  -- no other object has a record, so a new file clashes with none
  have hfresh : FreshFile st fragment last.timestamp := by
    intro hnone i r hr
    rw [info_dataObjectId] at hnone
    by_cases hi : i = fragment.parentDataObjectId
    · rw [hi, hnone] at hr
      cases hr
    · rw [h.alone i hi] at hr
      cases hr
  cases hdone : completed st fragment.parentDataObjectId with
  | true =>
      obtain ⟨st', hdecode, hsame⟩ := decode_completed hdone s last.timestamp last.now
      refine ⟨st', none, hdecode, ⟨h.storage.same hsame, ?_, ?_, ?_⟩, ?_⟩
      · intro i hi
        rw [hsame.records]
        exact h.alone i hi
      · intro hnone
        unfold completed at hdone
        rw [hsame.records] at hnone
        rw [hnone] at hdone
        cases hdone
      -- all numbers were there, and another fragment adds none
      · have hall := (h.completed_iff hsz).mp hdone
        rw [hsame.tracking, h.tracked, received_append, hall]
        refine (Finset.union_eq_left.mpr ?_).symm
        intro q hq
        exact Finset.mem_Icc.mpr (sequenceNumbersToWrite_range (List.mem_toFinset.mp hq))
      · rw [if_neg (by simp)]
  | false =>
      obtain ⟨st', out, hdecode, hinv, ⟨r, hr⟩, htrack, hother, hout⟩ :=
        decode_missing h.storage hsz hvalid hfresh last.now hdone
      refine ⟨st', out, hdecode, ⟨hinv, ?_, ?_, ?_⟩, ?_⟩
      · intro i hi
        rw [hother i hi]
        exact h.alone i hi
      · intro hnone
        rw [hr] at hnone
        cases hnone
      · rw [htrack, h.tracked, hnumbers, received_append]
      · rw [hout]
        simp only [true_and]

theorem receiveAll_spec {file : Bytes} {s : Nat} (hsz : Sizes file.length s)
    (hint : file.length < 2147483648) (id : ι) (fileName : String) (k : Nat)
    (disk : String → Option Bytes) :
    ∀ arrivals : List Arrival, ∃ st, receiveAll file id fileName k s disk arrivals = some st ∧
      ReceiverInv file id k s arrivals st := by
  intro arrivals
  induction arrivals using List.reverseRecOn with
  | nil =>
      exact ⟨_, rfl, storageInv_empty _ s disk, fun _ _ => rfl, fun _ => rfl, rfl⟩
  | append_singleton arrivals last ih =>
      obtain ⟨st, hrun, hinv⟩ := ih
      obtain ⟨st', out, hreceive, hinv', _⟩ := receive_spec hsz hint fileName hinv last
      refine ⟨st', ?_, hinv'⟩
      unfold receiveAll at hrun ⊢
      rw [run_append, hrun, Option.bind_some, run, hreceive]
      rfl

/-- Below the limit of an `int` fragmentation works. -/
theorem works_below_limit {L k s : Nat} (hsz : Sizes L s) (hint : L < 2147483648) (id : ι)
    (fileName : String) : FragmentationWorks id fileName L k s := by
  rintro file rfl
  refine ⟨?_, ?_⟩
  · intro startIndex _ fragmentId
    obtain ⟨fragment, hencode, _⟩ := encode_valid hsz hint id fileName fragmentId k startIndex
    rw [hencode]
    rfl
  · intro disk arrivals last _
    obtain ⟨st, hrun, hinv⟩ := receiveAll_spec hsz hint id fileName k disk arrivals
    obtain ⟨st', out, hreceive, hinv', hout⟩ := receive_spec hsz hint fileName hinv last
    have hfile : completed st' id = true → fileOf st' id = some file := by
      intro hdone
      have hall := (hinv'.completed_iff hsz).mp hdone
      cases hr : st'.fragmentDecoderStorage id with
      | none =>
          unfold completed at hdone
          rw [hr] at hdone
          cases hdone
      | some r => exact hinv'.storage.fileOf_eq hsz hr (by rw [hinv'.tracked]; exact hall)
    refine ⟨st, st', out, hrun, hreceive, hinv'.completed_iff hsz, hfile, ?_⟩
    have hiff : received (calculateTotalNumberOfFragments file.length s) k arrivals ≠
          Finset.Icc 1 (calculateTotalNumberOfFragments file.length s) ∧
        received (calculateTotalNumberOfFragments file.length s) k (arrivals ++ [last]) =
          Finset.Icc 1 (calculateTotalNumberOfFragments file.length s) ↔
        completed st id = false ∧ completed st' id = true := by
      rw [← hinv'.completed_iff hsz, ne_eq, ← hinv.completed_iff hsz, Bool.not_eq_true]
    rw [hout]
    by_cases hnow : completed st id = false ∧ completed st' id = true
    · rw [if_pos hnow, if_pos (hiff.mpr hnow)]
      exact hfile hnow.2
    · rw [if_neg hnow, if_neg (fun h => hnow (hiff.mp h))]

/-! ## Past the limit -/

/-- The record's file is no longer than it may be for a length of `L`. -/
def ShortFile (st : FragmentationDecoderStorage ι) (id : ι) (L : Nat) : Prop :=
  ∀ r, st.fragmentDecoderStorage id = some r →
    ∃ bytes, st.files r.filePath = some bytes ∧ bytes.length ≤ L + 1

/-- A write that succeeds ends where the decoder takes the file to end, or one byte behind. -/
theorem write_ends {q s L : Nat} (hs : 0 < s) (hq1 : 1 ≤ q)
    (hstart : (q - 1) * s < 9223372036854775808) (hs64 : s < 18446744073709551616)
    (hL : L < 2147483648)
    (halloc : (calculateFragmentationPositionInfo q s L).actualFragmentSize + 1 <
      9223372036854775808) :
    (calculateFragmentationPositionInfo q s L).startPosition +
      (calculateFragmentationPositionInfo q s L).actualFragmentSize ≤ L + 1 := by
  have hpred : sizeSub q 1 * s % 18446744073709551616 = (q - 1) * s :=
    sizeSub_one_mul hs hq1 (by omega)
  have hend : sizeSub ((q - 1) * s + s) 1 = (q - 1) * s + s - 1 := by
    have hfit : (q - 1) * s + s ≤ 18446744073709551616 := by
      rcases Nat.eq_zero_or_pos (q - 1) with h0 | hpos
      · rw [h0, Nat.zero_mul]; omega
      · have := Nat.le_mul_of_pos_left s hpos
        omega
    unfold sizeSub
    omega
  unfold calculateFragmentationPositionInfo at halloc ⊢
  simp only [hpred, hend] at halloc ⊢
  have hsub : sizeSub L ((q - 1) * s) = (L + 18446744073709551616 - (q - 1) * s) %
      18446744073709551616 := rfl
  split at halloc
  · next hlast =>
      rw [if_pos hlast, hsub] at *
      omega
  · next hlast =>
      rw [if_neg hlast]
      split at halloc
      · next hgt =>
          rw [if_pos hgt, hsub] at *
          omega
      · next hle =>
          rw [if_neg hle]
          omega

theorem storeLoop_short {id : ι} {path : String} {s L : Nat} (hs : 0 < s)
    (hs64 : s < 18446744073709551616) (hL : L < 2147483648) {fragment : Bytes} :
    ∀ (tokens : List (List Char)) (pos : Nat) (st st' : FragmentationDecoderStorage ι) (ok : Bool)
      (r : FragmentDecoderStruct),
      (∀ q ∈ tokens.map (fun token => (strtol token % 18446744073709551616).toNat),
        1 ≤ q ∧ (q - 1) * s < 9223372036854775808) →
      st.fragmentDecoderStorage id = some r → r.filePath = path → ShortFile st id L →
      storeLoop id path s L fragment tokens pos st = some (st', ok) → ShortFile st' id L
  | [], pos, st, st', ok, r, _, _, _, hshort, h => by
      unfold storeLoop at h
      injection h with h
      injection h with h _
      exact h ▸ hshort
  | token :: tokens, pos, st, st', ok, r, hrange, hr, hpath, hshort, h => by
      obtain ⟨hq1, hq⟩ := hrange (strtol token % 18446744073709551616).toNat (by simp)
      have hrest : ∀ q ∈ tokens.map (fun token => (strtol token % 18446744073709551616).toNat),
          1 ≤ q ∧ (q - 1) * s < 9223372036854775808 :=
        fun q hmem => hrange q (by rw [List.map_cons]; exact List.mem_cons_of_mem _ hmem)
      unfold storeLoop at h
      simp only at h
      generalize (strtol token % 18446744073709551616).toNat = q at hq1 hq h
      split at h
      · exact storeLoop_short hs hs64 hL tokens _ st st' ok r hrest hr hpath hshort h
      · split at h
        · cases h
        · injection h with h
          injection h with h _
          exact h ▸ hshort
        · next bytes hstore =>
            have hr1 : (st.countOff id path q bytes).fragmentDecoderStorage id =
                some { r with segmentsRemaining := sizeSub r.segmentsRemaining 1 } := by
              simp only [countOff, Function.update_self, hr, Option.map_some]
            refine storeLoop_short hs hs64 hL tokens _ (st.countOff id path q bytes) st' ok _ hrest
              hr1 hpath ?_ h
            intro r' hr'
            rw [hr1] at hr'
            injection hr' with hr'
            subst hr'
            refine ⟨bytes, by simp only [countOff, hpath, Function.update_self], ?_⟩
            -- the file before was short, and the write is
            obtain ⟨before, hbefore, hlen⟩ := hshort r hr
            rw [hpath] at hbefore
            unfold storeFragmentToDataObject at hstore
            split at hstore
            · cases hstore
            · next halloc =>
                simp only [hbefore, Option.map_some] at hstore
                split at hstore
                · cases hstore
                · injection hstore with hstore
                  injection hstore with hstore
                  have hends := write_ends hs hq1 hq hs64 hL (by omega)
                  rw [← hstore, length_overwrite, List.length_append, List.length_replicate,
                    length_slice]
                  omega

/-- What the decoder takes the length to be. -/
def announced (L : Nat) : Nat :=
  (strtol (sprintfD ((L : Int).bmod 4294967296)) % 18446744073709551616).toNat

/-- From `2 ^ 31` on, the length is refused, not allocatable, or too short by more than a byte. -/
theorem announced_past_limit {L : Nat} (h : 2147483648 ≤ L) :
    (L : Int).bmod 4294967296 = 0 ∨ 9223372036854775808 ≤ announced L ∨
      (0 < announced L ∧ announced L < 2147483648 ∧ announced L + 1 < L) := by
  have hlo : -2147483648 ≤ (L : Int).bmod 4294967296 := Int.le_bmod (by omega)
  have hhi : (L : Int).bmod 4294967296 < 2147483648 := Int.bmod_lt (by omega)
  have hmod : (L : Int).bmod 4294967296 % 4294967296 = (L : Int) % 4294967296 :=
    Int.bmod_emod
  unfold announced
  rw [strtol_sprintfD (by omega) (by omega)]
  generalize (L : Int).bmod 4294967296 = len at hlo hhi hmod
  omega

omit [LinearOrder ι] in
theorem ShortFile.same {st st' : FragmentationDecoderStorage ι} {id : ι} {L : Nat}
    (h : ShortFile st id L) (hsame : SameRecords st st') : ShortFile st' id L := by
  intro r hr
  rw [hsame.records] at hr
  rw [hsame.files]
  exact h r hr

theorem openRecord_short {st st' : FragmentationDecoderStorage ι}
    {info : FragmentParentDataObjectInfo ι} {s L : Nat} {timestamp path : String} {now : Nat}
    (hlen : info.fileSize = L) (h : ShortFile st info.dataObjectId L)
    (hopen : st.openRecord info s timestamp now = some (st', path)) :
    ∃ r, st'.fragmentDecoderStorage info.dataObjectId = some r ∧ r.filePath = path ∧
      ShortFile st' info.dataObjectId L := by
  unfold openRecord getFragmentDecoderStruct at hopen
  cases hrec : st.fragmentDecoderStorage info.dataObjectId with
  | some found =>
      simp only [hrec, Option.some.injEq, Prod.mk.injEq] at hopen
      obtain ⟨rfl, rfl⟩ := hopen
      exact ⟨found, hrec, rfl, h⟩
  | none =>
      simp only [hrec] at hopen
      rw [Option.bind_eq_bind, Option.bind_eq_some_iff] at hopen
      obtain ⟨bytes, halloc, hopen⟩ := hopen
      simp only [Option.some.injEq, Prod.mk.injEq] at hopen
      obtain ⟨rfl, rfl⟩ := hopen
      refine ⟨_, Function.update_self _ _ _, rfl, ?_⟩
      intro r hr
      simp only [trackDecoderLastUsedTime, Function.update_self, Option.some.injEq] at hr
      subst hr
      refine ⟨bytes, Function.update_self _ _ _, ?_⟩
      unfold allocateFile at halloc
      split at halloc
      · cases halloc
      · injection halloc with halloc
        rw [← halloc, List.length_replicate, hlen]
        exact Nat.le_succ L

/-- Decoding keeps the file short. -/
theorem decode_short {st st' : FragmentationDecoderStorage ι} {fragment : FragmentDataObject ι}
    {s L : Nat} {timestamp : String} {now : Nat} {out : Option Bytes} (hs : 0 < s)
    (hs64 : s < 18446744073709551616) (hL : L < 2147483648)
    (hlen : (getFragmentParentDataObjectInfo fragment).fileSize = L)
    (hrange : ∀ q ∈ sequenceNumbers fragment, 1 ≤ q ∧ (q - 1) * s < 9223372036854775808)
    (h : ShortFile st fragment.parentDataObjectId L)
    (hdecode : decode st fragment s timestamp now = some (st', out)) :
    ShortFile st' fragment.parentDataObjectId L := by
  have hid := info_dataObjectId fragment
  have hsame1 := (sameRecords_isCompleted st fragment.parentDataObjectId now).1
  unfold decode at hdecode
  simp only [hid] at hdecode
  generalize st.isCompleted fragment.parentDataObjectId now = result at hsame1 hdecode
  obtain ⟨st1, done⟩ := result
  have h1 := h.same hsame1
  cases done with
  | true =>
      simp only [Option.some.injEq, Prod.mk.injEq] at hdecode
      exact hdecode.1 ▸ h1
  | false =>
      simp only [Option.bind_eq_bind, Option.bind_eq_some_iff] at hdecode
      obtain ⟨⟨st2, added⟩, hadd, hdecode⟩ := hdecode
      -- the fragment goes through the loop
      have h2 : ShortFile st2 fragment.parentDataObjectId L := by
        unfold addFragment at hadd
        simp only [Option.bind_eq_bind, Option.bind_eq_some_iff] at hadd
        obtain ⟨⟨sto, path⟩, hopen, ⟨stl, stored⟩, hloop, hadd⟩ := hadd
        obtain ⟨r, hr, hpath, ho⟩ := openRecord_short hlen (by rw [hid]; exact h1) hopen
        have hl := storeLoop_short hs hs64 hL _ _ sto stl stored r hrange hr hpath ho
          (by rw [hlen] at hloop; exact hloop)
        rw [hid] at hl
        split at hadd
        · simp only [Option.some.injEq, Prod.mk.injEq] at hadd
          rw [← hadd.1]
          exact hl.same ⟨rfl, rfl, rfl⟩
        · simp only [Option.some.injEq, Prod.mk.injEq] at hadd
          exact hadd.1 ▸ hl
      have hsame3 := (sameRecords_isCompleted st2 fragment.parentDataObjectId now).1
      generalize st2.isCompleted fragment.parentDataObjectId now = result3 at hsame3 hdecode
      obtain ⟨st3, done3⟩ := result3
      have h3 := h2.same hsame3
      cases added with
      | false =>
          simp only [Bool.false_eq_true, if_false, Option.some.injEq, Prod.mk.injEq] at hdecode
          exact hdecode.1 ▸ h2
      | true =>
          cases done3 with
          | false =>
              simp only [if_true, Option.some.injEq, Prod.mk.injEq] at hdecode
              exact hdecode.1 ▸ h3
          | true =>
              simp only [if_true] at hdecode
              have hsame4 := (sameRecords_get st3 fragment.parentDataObjectId now).1
              generalize st3.getFragmentDecoderStruct fragment.parentDataObjectId now = result4
                at hsame4 hdecode
              obtain ⟨st4, found⟩ := result4
              have h4 := h3.same hsame4
              cases found with
              | none =>
                  simp only [Option.some.injEq, Prod.mk.injEq] at hdecode
                  exact hdecode.1 ▸ h4
              | some r =>
                  simp only [Option.some.injEq, Prod.mk.injEq] at hdecode
                  exact hdecode.1 ▸ h4

omit [LinearOrder ι] in
/-- The encoder gives up when there are too many fragments or the `int` is zero. -/
theorem encode_isSome {file : Bytes} {id : ι} {fileName fragmentId : String} {k start s : Nat}
    (h : (encodeDataObject file id fileName fragmentId k start s).isSome) :
    calculateTotalNumberOfFragments file.length s < 2147483648 ∧
      (file.length : Int).bmod 4294967296 ≠ 0 := by
  unfold encodeDataObject getIndexesOfFragmentsToCreate at h
  simp only [Option.bind_eq_bind] at h
  split at h
  · cases h
  · refine ⟨by omega, ?_⟩
    intro hzero
    rw [Option.bind_some] at h
    simp only [hzero, if_true] at h
    generalize encodeLoop _ _ _ _ _ _ _ _ = result at h
    cases result with
    | none => cases h
    | some pair => cases h

omit [LinearOrder ι] in
/-- The fragments the encoder makes of a long file, as the decoder reads them. -/
theorem encode_announced {file : Bytes} {s : Nat} (hsz : Sizes file.length s) (id : ι)
    (fileName fragmentId : String) (k start : Nat)
    (htotal : calculateTotalNumberOfFragments file.length s < 2147483648)
    (hlen : (file.length : Int).bmod 4294967296 ≠ 0) (hpos : 0 < announced file.length) :
    ∃ fragment, encodeDataObject file id fileName fragmentId k start s = some fragment ∧
      fragment.parentDataObjectId = id ∧
      (getFragmentParentDataObjectInfo fragment).fileSize = announced file.length ∧
      sequenceNumbers fragment =
        sequenceNumbersToWrite (calculateTotalNumberOfFragments file.length s) k start := by
  obtain ⟨fragment, hencode, hid, horig, hcsv, _⟩ :=
    encodeDataObject_eq hsz id fileName fragmentId k start htotal hlen
  have hsize : (strtol fragment.parentOrigLen % 18446744073709551616).toNat =
      announced file.length := by
    rw [horig]
    unfold announced
    rfl
  obtain ⟨hfileSize, htokens⟩ := info_of_length hpos hsize
  refine ⟨fragment, hencode, hid, hfileSize, ?_⟩
  unfold sequenceNumbers
  rw [htokens, hcsv]
  refine numbers_read_back ?_
  intro q hq
  have := (sequenceNumbersToWrite_range hq).2
  omega

/-- A length that cannot be allocated ends the decoder at the first fragment. -/
theorem decode_unallocatable {fragment : FragmentDataObject ι} {s : Nat} {timestamp : String}
    {now : Nat} (disk : String → Option Bytes)
    (hlen : 9223372036854775808 ≤ (getFragmentParentDataObjectInfo fragment).fileSize) :
    decode (FragmentationDecoderStorage.empty disk) fragment s timestamp now = none := by
  have hopen : (FragmentationDecoderStorage.empty disk).openRecord
      (getFragmentParentDataObjectInfo fragment) s timestamp now = none := by
    unfold openRecord getFragmentDecoderStruct allocateFile FragmentationDecoderStorage.empty
    simp only [hlen, if_true]
    rfl
  have hstart : (FragmentationDecoderStorage.empty disk).isCompleted
      (getFragmentParentDataObjectInfo fragment).dataObjectId now =
      (FragmentationDecoderStorage.empty disk, false) := rfl
  unfold decode addFragment
  simp only [hstart, hopen, Option.bind_eq_bind, Option.bind_none]

/-- One fragment object from every index. -/
def everyArrival (total : Nat) : List Arrival :=
  (List.range total).map (fun i => ⟨i, "", "", 0⟩)

theorem received_everyArrival {total k : Nat} (hk : 0 < k) (last : Arrival) :
    received total k (everyArrival total ++ [last]) = Finset.Icc 1 total := by
  refine Finset.Subset.antisymm (received_subset _ _ _) ?_
  intro q hq
  obtain ⟨hq1, hq⟩ := Finset.mem_Icc.mp hq
  rw [received_append]
  refine Finset.mem_union_left _ (List.mem_toFinset.mpr (List.mem_flatMap.mpr ?_))
  refine ⟨⟨q - 1, "", "", 0⟩, List.mem_map.mpr ⟨q - 1, List.mem_range.mpr (by omega), rfl⟩, ?_⟩
  have hmem := @mem_sequenceNumbersToWrite total k (q - 1) hk (by omega)
  rw [Nat.sub_add_cancel hq1] at hmem
  exact hmem

/-- From the limit on it does not. -/
theorem fails_past_limit {L k s : Nat} (hsz : Sizes L s) (hk : 0 < k) (hlimit : 2147483648 ≤ L)
    (id : ι) (fileName : String) : ¬ FragmentationWorks id fileName L k s := by
  intro hworks
  obtain ⟨file, rfl⟩ : ∃ file : Bytes, file.length = L := ⟨List.replicate L 0, List.length_replicate⟩
  obtain ⟨hmade, hall⟩ := hworks file rfl
  obtain ⟨htotalpos, _, _⟩ := total_bounds hsz.file_pos hsz.frag_pos
  obtain ⟨htotal, hlen⟩ := encode_isSome (hmade 0 htotalpos "")
  have hstart : ∀ a ∈ everyArrival (calculateTotalNumberOfFragments file.length s) ++
      [⟨0, "", "", 0⟩], a.startIndex < calculateTotalNumberOfFragments file.length s := by
    intro a ha
    rcases List.mem_append.mp ha with hmem | hmem
    · obtain ⟨i, hi, rfl⟩ := List.mem_map.mp hmem
      exact List.mem_range.mp hi
    · rw [List.mem_singleton.mp hmem]
      exact htotalpos
  rcases announced_past_limit hlimit with hzero | hhuge | ⟨hpos, hint, hshort⟩
  · exact hlen hzero
  · -- the length read is negative: no array is that long
    obtain ⟨st, st', out, hrun, hreceive, _⟩ := hall (fun _ => none) [] ⟨0, "", "", 0⟩
      (fun a ha => hstart a (List.mem_append_right _ ha))
    injection hrun with hrun
    obtain ⟨fragment, hencode, _, hsize, _⟩ :=
      encode_announced hsz id fileName "" k 0 htotal hlen (by omega)
    unfold receive at hreceive
    rw [hencode, ← hrun, Option.bind_some, decode_unallocatable _ (by rw [hsize]; exact hhuge)]
      at hreceive
    cases hreceive
  · -- the length read is too short: so is the file written
    have hstep : ∀ (st st' : FragmentationDecoderStorage ι) (out : Option Bytes) (a : Arrival),
        ShortFile st id (announced file.length) →
        receive file id fileName k s st a = some (st', out) →
        ShortFile st' id (announced file.length) := by
      intro st st' out a hst hreceive
      obtain ⟨fragment, hencode, hid, hsize, hnumbers⟩ :=
        encode_announced hsz id fileName a.fragmentId k a.startIndex htotal hlen hpos
      unfold receive at hreceive
      rw [hencode, Option.bind_some] at hreceive
      subst hid
      refine decode_short hsz.frag_pos hsz.frag_lt hint hsize ?_ hst hreceive
      intro q hq
      rw [hnumbers] at hq
      obtain ⟨hq1, hq2⟩ := sequenceNumbersToWrite_range hq
      have hin := start_lt hsz.file_pos hsz.frag_pos hq2
      have hlt := hsz.file_lt
      exact ⟨hq1, by omega⟩
    obtain ⟨st, st', out, hrun, hreceive, hiff, hfile, _⟩ := hall (fun _ => none) _ _ hstart
    have hempty : ShortFile (FragmentationDecoderStorage.empty (fun _ => none)) id
        (announced file.length) := by
      intro r hr
      cases hr
    have hst : ShortFile st id (announced file.length) := by
      refine @run_keeps _ _ _ (fun st => ShortFile st id (announced file.length)) _ _ _ ?_
        hempty hrun
      intro st a _ st' hst hreceive
      obtain ⟨⟨st1, out⟩, hfirst, rfl⟩ := Option.map_eq_some_iff.mp hreceive
      exact hstep st st1 out a hst hfirst
    have hst' := hstep st st' out _ hst hreceive
    have hwritten := hfile (hiff.mpr (received_everyArrival hk _))
    unfold fileOf at hwritten
    obtain ⟨r, hr, hbytes⟩ := Option.bind_eq_some_iff.mp hwritten
    obtain ⟨bytes, hbytes', hle⟩ := hst' r hr
    rw [hbytes] at hbytes'
    injection hbytes' with hbytes'
    rw [← hbytes'] at hle
    omega

/--
**Fragmentation works exactly for files whose length an `int` can hold**, whatever the
fragment size and however many fragments an object carries.
-/
theorem fragmentation_works_iff (id : ι) (fileName : String) {L k s : Nat} (hsz : Sizes L s)
    (hk : 0 < k) : FragmentationWorks id fileName L k s ↔ L < 2147483648 := by
  constructor
  · intro hworks
    by_contra hlimit
    exact fails_past_limit hsz hk (by omega) id fileName hworks
  · intro hint
    exact works_below_limit hsz hint id fileName

/-- Five bytes in pieces of two, two pieces in an object. -/
theorem fragmentation_works_five : Sizes 5 2 ∧ FragmentationWorks (0 : Nat) "f" 5 2 2 :=
  ⟨⟨by omega, by omega, by omega, by omega⟩,
    (fragmentation_works_iff 0 "f" ⟨by omega, by omega, by omega, by omega⟩ (by omega)).mpr
      (by omega)⟩

/--
Of a file of `2 ^ 32 + 1` bytes the decoder is told that it has one, and is done after
one byte.
-/
theorem four_gigabytes_cut_short :
    ¬ FragmentationWorks (0 : Nat) "f" 4294967297 1 4294967297 :=
  fails_past_limit ⟨by omega, by omega, by omega, by omega⟩ (by omega) (by omega) 0 "f"

end Encoders.Fragment
