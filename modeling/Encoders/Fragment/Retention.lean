import Encoders.Fragment.StorageProof

/-!
# Deleting, ageing and receiving again

Runs of a storage over arrivals and deletions of every kind. The invariant of
`StorageProof` is kept by every arrival of a valid fragment and by
`deleteFromStorage`; by the two deletions that leave the sequence numbers behind
it is kept exactly as long as there are none to leave.

What the invariant is good for is the last part: a parent without a record, be it
new, deleted or aged off, is completed by receiving all its fragments, in any
order and with any repetition.
-/

namespace Encoders.Fragment

open Encoders.Lib FragmentationDecoderStorage

variable {ι : Type}
variable {s : Nat} {st : FragmentationDecoderStorage ι} {world : ι → Bytes}

/-! ## A record with nothing missing -/

/-- What the record's file holds. -/
def fileOf (st : FragmentationDecoderStorage ι) (id : ι) : Option Bytes :=
  (st.fragmentDecoderStorage id).bind (fun r => st.files r.filePath)

/-- Nothing is missing when all numbers are tracked, and then the file is the parent's. -/
theorem RecordInv.completed_iff {file : Bytes} {id : ι} {r : FragmentDecoderStruct}
    (h : RecordInv file s st id r) :
    r.segmentsRemaining = 0 ↔ st.dataobjectsequencenumbertracking id =
      Finset.Icc 1 (calculateTotalNumberOfFragments file.length s) := by
  have hsub : st.dataobjectsequencenumbertracking id ⊆
      Finset.Icc 1 (calculateTotalNumberOfFragments file.length s) := by
    intro q hq
    exact Finset.mem_Icc.mpr (h.range q hq)
  have hcard : (Finset.Icc 1 (calculateTotalNumberOfFragments file.length s)).card =
      calculateTotalNumberOfFragments file.length s := by
    rw [Nat.card_Icc]
    omega
  have hremaining := h.remaining
  constructor
  · intro hzero
    exact Finset.eq_of_subset_of_card_le hsub (by omega)
  · intro heq
    rw [heq, hcard] at hremaining
    omega

theorem StorageInv.fileOf_eq (h : StorageInv world s st) {id : ι} (hsz : Sizes (world id).length s)
    {r : FragmentDecoderStruct} (hr : st.fragmentDecoderStorage id = some r)
    (hall : st.dataobjectsequencenumbertracking id =
      Finset.Icc 1 (calculateTotalNumberOfFragments (world id).length s)) :
    fileOf st id = some (world id) := by
  obtain ⟨bytes, hbytes, hlen, hpieces⟩ := (h.records id r hr).stored
  have hfile : bytes = world id := by
    refine eq_of_pieces hlen hsz.file_pos hsz.frag_pos ?_
    intro q hq1 hq
    exact hpieces q (by rw [hall]; exact Finset.mem_Icc.mpr ⟨hq1, hq⟩)
  unfold fileOf
  rw [hr, Option.bind_some, hbytes, hfile]

theorem StorageInv.completed_iff (h : StorageInv world s st) {id : ι} {r : FragmentDecoderStruct}
    (hr : st.fragmentDecoderStorage id = some r) :
    completed st id = true ↔ st.dataobjectsequencenumbertracking id =
      Finset.Icc 1 (calculateTotalNumberOfFragments (world id).length s) := by
  unfold completed
  rw [hr, Option.any_some, decide_eq_true_iff]
  exact (h.records id r hr).completed_iff

/-! ## Deletions -/

theorem storageInv_empty (world : ι → Bytes) (s : Nat) (files : String → Option Bytes) :
    StorageInv world s (FragmentationDecoderStorage.empty files) := by
  refine ⟨?_, fun _ _ => rfl, ?_⟩
  · intro id r hr
    cases hr
  · intro id id' r r' hr
    cases hr

variable [LinearOrder ι]

/-- A parent with neither record nor numbers, and a file that is no one else's. -/
theorem StorageInv.forget {st' : FragmentationDecoderStorage ι} (h : StorageInv world s st) {id : ι}
    (hrecords : st'.fragmentDecoderStorage = Function.update st.fragmentDecoderStorage id none)
    (htracking : ∀ i ≠ id,
      st'.dataobjectsequencenumbertracking i = st.dataobjectsequencenumbertracking i)
    (hnone : st'.dataobjectsequencenumbertracking id = ∅)
    (hfiles : ∀ i ≠ id, ∀ r, st.fragmentDecoderStorage i = some r →
      st'.files r.filePath = st.files r.filePath) : StorageInv world s st' := by
  have hother : ∀ i r, st'.fragmentDecoderStorage i = some r →
      i ≠ id ∧ st.fragmentDecoderStorage i = some r := by
    intro i r hr
    rw [hrecords] at hr
    by_cases hi : i = id
    · subst hi
      rw [Function.update_self] at hr
      cases hr
    · rw [Function.update_of_ne hi] at hr
      exact ⟨hi, hr⟩
  refine ⟨?_, ?_, ?_⟩
  · intro i r hr
    obtain ⟨hi, hr⟩ := hother i r hr
    exact (h.records i r hr).congr (htracking i hi) (hfiles i hi r hr)
  · intro i hr
    by_cases hi : i = id
    · rw [hi]; exact hnone
    · rw [hrecords, Function.update_of_ne hi] at hr
      rw [htracking i hi]
      exact h.absent i hr
  · intro i j r1 r2 h1 h2
    exact h.paths i j r1 r2 (hother i r1 h1).2 (hother j r2 h2).2

theorem storageInv_deleteFromStorage (h : StorageInv world s st) (id : ι) :
    StorageInv world s (st.deleteFromStorage id) := by
  refine h.forget rfl ?_ ?_ ?_
  · intro i hi
    exact Function.update_of_ne hi _ _
  · exact Function.update_self _ _ _
  · intro i _ r _
    rfl

/-- Removing the file of a record leaves the files of all others. -/
theorem cleanUp_frame (h : StorageInv world s st) (id : ι) (now : Nat) :
    (st.cleanUpPartialReconstructedObject id now).fragmentDecoderStorage =
        st.fragmentDecoderStorage ∧
      (st.cleanUpPartialReconstructedObject id now).dataobjectsequencenumbertracking =
        st.dataobjectsequencenumbertracking ∧
      ∀ i ≠ id, ∀ r, st.fragmentDecoderStorage i = some r →
        (st.cleanUpPartialReconstructedObject id now).files r.filePath = st.files r.filePath := by
  unfold cleanUpPartialReconstructedObject isCompleted getFragmentDecoderStruct
  cases hrec : st.fragmentDecoderStorage id with
  | none =>
      simp only [hrec]
      exact ⟨trivial, trivial, fun _ _ _ _ => trivial⟩
  | some found =>
      simp only
      cases hzero : decide (found.segmentsRemaining = 0) with
      | true => exact ⟨rfl, rfl, fun _ _ _ _ => rfl⟩
      | false =>
          simp only [trackDecoderLastUsedTime, hrec]
          refine ⟨trivial, trivial, ?_⟩
          intro i hi r hr
          have hne : r.filePath ≠ found.filePath := fun heq => hi (h.paths i id r found hr hrec heq)
          exact Function.update_of_ne hne _ _

/-- With nothing tracked, deleting the record alone is deleting everything. -/
theorem storageInv_deleteDecoder (h : StorageInv world s st) (id : ι) (now : Nat)
    (hnone : st.dataobjectsequencenumbertracking id = ∅) :
    StorageInv world s (st.deleteDecoderFromStorageByDataObjectId id now) := by
  obtain ⟨hrecords, htracking, hfiles⟩ := cleanUp_frame h id now
  have hkeep : (st.deleteDecoderFromStorageByDataObjectId id now).dataobjectsequencenumbertracking =
      st.dataobjectsequencenumbertracking := htracking
  refine h.forget ?_ ?_ ?_ hfiles
  · unfold deleteDecoderFromStorageByDataObjectId
    simp only [hrecords]
  · intro i _
    rw [hkeep]
  · rw [hkeep]
    exact hnone

/-! ## Ageing -/

theorem mem_setTime {id : ι} {time : Nat} {x : ι × Nat} : ∀ {l : List (ι × Nat)},
    x ∈ setTime id time l → x = (id, time) ∨ x ∈ l
  | [], hx => Or.inl (List.mem_singleton.mp hx)
  | y :: ys, hx => by
      unfold setTime at hx
      split at hx
      · rcases List.mem_cons.mp hx with rfl | hx
        · exact Or.inr List.mem_cons_self
        · rcases mem_setTime hx with h | h
          · exact Or.inl h
          · exact Or.inr (List.mem_cons_of_mem _ h)
      · split at hx
        · rcases List.mem_cons.mp hx with rfl | hx
          · exact Or.inl rfl
          · exact Or.inr (List.mem_cons_of_mem _ hx)
        · rcases List.mem_cons.mp hx with rfl | hx
          · exact Or.inl rfl
          · exact Or.inr hx

/-- No time is left behind that was not there before the deletion. -/
theorem lastUsed_deleteDecoder (st : FragmentationDecoderStorage ι) (id : ι) (now : Nat)
    {x : ι × Nat}
    (hx : x ∈ (st.deleteDecoderFromStorageByDataObjectId id now).fragmentationDecoderLastUsedTime) :
    x ∈ st.fragmentationDecoderLastUsedTime := by
  obtain ⟨hx, hne⟩ := List.mem_filter.mp hx
  have hne : x.1 ≠ id := of_decide_eq_true hne
  have hset : ∀ {l : List (ι × Nat)}, x ∈ setTime id now l → x ∈ l := by
    intro l hl
    rcases mem_setTime hl with h | h
    · exact absurd (congrArg Prod.fst h) hne
    · exact h
  unfold cleanUpPartialReconstructedObject isCompleted getFragmentDecoderStruct at hx
  cases hrec : st.fragmentDecoderStorage id with
  | none =>
      simp only [hrec] at hx
      exact hx
  | some found =>
      simp only [hrec] at hx
      cases hzero : decide (found.segmentsRemaining = 0) with
      | true =>
          rw [hzero] at hx
          exact hset hx
      | false =>
          simp only [hzero, trackDecoderLastUsedTime, hrec] at hx
          exact hset (hset hx)

/-- Every decoder that is too old belongs to a parent nothing is tracked for. -/
def NothingLost (st : FragmentationDecoderStorage ι) (maxAgeDecoder now : Nat) : Prop :=
  ∀ x ∈ st.fragmentationDecoderLastUsedTime, x.2 + maxAgeDecoder < now →
    st.dataobjectsequencenumbertracking x.1 = ∅

theorem storageInv_ageOffLoop (maxAgeDecoder now : Nat) :
    ∀ (rounds i : Nat) (st : FragmentationDecoderStorage ι), StorageInv world s st →
      NothingLost st maxAgeDecoder now →
      StorageInv world s (ageOffLoop maxAgeDecoder now rounds i st) := by
  intro rounds
  induction rounds with
  | zero =>
      intro i st h _
      exact h
  | succ rounds ih =>
      intro i st h hlost
      unfold ageOffLoop
      cases hget : st.fragmentationDecoderLastUsedTime[i]? with
      | none => exact h
      | some x =>
          obtain ⟨id, time⟩ := x
          have hmem := List.mem_of_getElem? hget
          simp only
          by_cases hold : time + maxAgeDecoder < now
          · rw [if_pos hold]
            have hinv := storageInv_deleteDecoder h id now (hlost _ hmem hold)
            refine ih (i + 1) _ (hinv.same ⟨rfl, rfl, rfl⟩) ?_
            intro y hy hyold
            have htracking := (cleanUp_frame h id now).2.1
            show (st.cleanUpPartialReconstructedObject id now).dataobjectsequencenumbertracking _ = ∅
            rw [htracking]
            exact hlost y (lastUsed_deleteDecoder st id now hy) hyold
          · rw [if_neg hold]
            exact ih (i + 1) st h hlost

/-! ## Runs -/

/-- A call on the storage. -/
inductive StorageOp (ι : Type) where
  | addFragment (fragment : FragmentDataObject ι) (timestamp : String) (now : Nat)
  | deleteFromStorage (id : ι)
  | deleteDecoder (id : ι) (now : Nat)
  | ageOffDecoder (maxAgeDecoder now : Nat)

/-- One call, with the fragment size of the configuration. -/
def StorageOp.apply (s : Nat) (st : FragmentationDecoderStorage ι) :
    StorageOp ι → Option (FragmentationDecoderStorage ι)
  | .addFragment fragment timestamp now => (st.addFragment fragment s timestamp now).map Prod.fst
  | .deleteFromStorage id => some (st.deleteFromStorage id)
  | .deleteDecoder id now => some (st.deleteDecoderFromStorageByDataObjectId id now)
  | .ageOffDecoder maxAgeDecoder now => some (st.ageOffDecoder maxAgeDecoder now)

/--
Arrivals are fragments of the parents' files, each new record with a file of its
own; and a deletion that leaves the sequence numbers behind finds none.
-/
def StorageOp.Allowed (world : ι → Bytes) (s : Nat) (st : FragmentationDecoderStorage ι) :
    StorageOp ι → Prop
  | .addFragment fragment timestamp _ =>
      Valid (world fragment.parentDataObjectId) s fragment ∧ FreshFile st fragment timestamp
  | .deleteFromStorage _ => True
  | .deleteDecoder id _ => st.dataobjectsequencenumbertracking id = ∅
  | .ageOffDecoder maxAgeDecoder now => NothingLost st maxAgeDecoder now

theorem apply_addFragment (s : Nat) (st : FragmentationDecoderStorage ι)
    (fragment : FragmentDataObject ι) (timestamp : String) (now : Nat) :
    StorageOp.apply s st (.addFragment fragment timestamp now) =
      (st.addFragment fragment s timestamp now).map Prod.fst := rfl

theorem storageInv_step (hsz : ∀ id, Sizes (world id).length s) (st : FragmentationDecoderStorage ι)
    (op : StorageOp ι) (h : StorageInv world s st) (hok : op.Allowed world s st) :
    ∃ st', op.apply s st = some st' ∧ StorageInv world s st' := by
  cases op with
  | addFragment fragment timestamp now =>
      obtain ⟨hvalid, hfresh⟩ := hok
      obtain ⟨st', hadd, hinv, _⟩ := addFragment_spec h (hsz _) hvalid hfresh now
      exact ⟨st', by rw [apply_addFragment, hadd]; rfl, hinv⟩
  | deleteFromStorage id => exact ⟨_, rfl, storageInv_deleteFromStorage h id⟩
  | deleteDecoder id now => exact ⟨_, rfl, storageInv_deleteDecoder h id now hok⟩
  | ageOffDecoder maxAgeDecoder now =>
      exact ⟨_, rfl, storageInv_ageOffLoop maxAgeDecoder now _ 0 st h hok⟩

/-! ## Receiving everything -/

/-- Valid fragments of one parent, one after the other. -/
theorem addAll_spec {id : ι} (hsz : Sizes (world id).length s) :
    ∀ (again : List (FragmentDataObject ι × String × Nat)) (st : FragmentationDecoderStorage ι),
      StorageInv world s st →
      (∀ x ∈ again, x.1.parentDataObjectId = id ∧ Valid (world id) s x.1 ∧
        FreshFile st x.1 x.2.1) →
      ∃ st', run (StorageOp.apply s) st
          (again.map (fun x => .addFragment x.1 x.2.1 x.2.2)) = some st' ∧
        StorageInv world s st' ∧
        st'.dataobjectsequencenumbertracking id =
          st.dataobjectsequencenumbertracking id ∪ (again.flatMap (sequenceNumbers ·.1)).toFinset ∧
        (again ≠ [] → ∃ r, st'.fragmentDecoderStorage id = some r)
  | [], st, h, _ => ⟨st, rfl, h, by simp, fun hne => absurd rfl hne⟩
  | (fragment, timestamp, now) :: again, st, h, hx => by
      obtain ⟨hid, hvalid, hfresh⟩ := hx (fragment, timestamp, now) (by simp)
      simp only at hid hvalid hfresh
      subst hid
      obtain ⟨st1, hadd, hinv1, ⟨r1, hr1⟩, htrack1, _⟩ := addFragment_spec h hsz hvalid hfresh now
      -- from now on there is a record, so no further file is made
      obtain ⟨st2, hrun, hinv2, htrack2, hrec2⟩ := addAll_spec hsz again st1 hinv1 (by
        intro x hmem
        obtain ⟨hid, hvalid, _⟩ := hx x (by simp [hmem])
        refine ⟨hid, hvalid, ?_⟩
        intro hnone
        rw [info_dataObjectId, hid, hr1] at hnone
        cases hnone)
      refine ⟨st2, ?_, hinv2, ?_, ?_⟩
      · rw [List.map_cons, run, apply_addFragment, hadd]
        exact hrun
      · rw [htrack2, htrack1, List.flatMap_cons, List.toFinset_append, Finset.union_assoc]
      · intro _
        cases again with
        | nil =>
            rw [List.map_nil, run] at hrun
            injection hrun with hrun
            exact ⟨r1, hrun ▸ hr1⟩
        | cons x xs => exact hrec2 (by simp)

/-- Records and tracked numbers add up, and what is tracked is in the record's file. -/
def InStep (world : ι → Bytes) (s : Nat) (st : FragmentationDecoderStorage ι) : Prop :=
  ∀ id r, st.fragmentDecoderStorage id = some r →
    r.segmentsRemaining + (st.dataobjectsequencenumbertracking id).card =
        calculateTotalNumberOfFragments (world id).length s ∧
      ∃ bytes, st.files r.filePath = some bytes ∧
        ∀ q ∈ st.dataobjectsequencenumbertracking id, piece bytes s q = piece (world id) s q

/-- A parent without a record is completed by receiving all its fragments. -/
def Completable (world : ι → Bytes) (s : Nat) (st : FragmentationDecoderStorage ι) : Prop :=
  ∀ id, st.fragmentDecoderStorage id = none →
    ∀ again : List (FragmentDataObject ι × String × Nat),
      (∀ x ∈ again, x.1.parentDataObjectId = id ∧ Valid (world id) s x.1 ∧
        FreshFile st x.1 x.2.1) →
      (∀ q, 1 ≤ q → q ≤ calculateTotalNumberOfFragments (world id).length s →
        ∃ x ∈ again, q ∈ sequenceNumbers x.1) →
      ∃ st', run (StorageOp.apply s) st
          (again.map (fun x => .addFragment x.1 x.2.1 x.2.2)) = some st' ∧
        completed st' id = true ∧ fileOf st' id = some (world id)

theorem StorageInv.completable (hsz : ∀ id, Sizes (world id).length s) (h : StorageInv world s st) :
    Completable world s st := by
  intro id hnone again hx hcover
  obtain ⟨st', hrun, hinv, htrack, hrec⟩ := addAll_spec (hsz id) again st h hx
  have hne : again ≠ [] := by
    obtain ⟨x, hmem, _⟩ := hcover 1 (le_refl 1) (total_bounds (hsz id).file_pos (hsz id).frag_pos).1
    exact List.ne_nil_of_mem hmem
  obtain ⟨r, hr⟩ := hrec hne
  have hall : st'.dataobjectsequencenumbertracking id =
      Finset.Icc 1 (calculateTotalNumberOfFragments (world id).length s) := by
    apply Finset.Subset.antisymm
    · intro q hq
      exact Finset.mem_Icc.mpr ((hinv.records id r hr).range q hq)
    · intro q hq
      obtain ⟨hq1, hq⟩ := Finset.mem_Icc.mp hq
      obtain ⟨x, hmem, hxq⟩ := hcover q hq1 hq
      rw [htrack]
      exact Finset.mem_union_right _ (List.mem_toFinset.mpr (List.mem_flatMap.mpr ⟨x, hmem, hxq⟩))
  exact ⟨st', hrun, (hinv.completed_iff hr).mpr hall, hinv.fileOf_eq (hsz id) hr hall⟩

/--
**Records and sequence numbers stay in step** in every run whose deletions of a
record alone find nothing tracked, and every parent without a record can be
completed.
-/
theorem storage_in_step (world : ι → Bytes) (s : Nat) (hsz : ∀ id, Sizes (world id).length s)
    (files : String → Option Bytes) (ops : List (StorageOp ι))
    (hok : Guarded (StorageOp.apply s) (fun st op => op.Allowed world s st)
      (FragmentationDecoderStorage.empty files) ops) :
    ∃ st, run (StorageOp.apply s) (FragmentationDecoderStorage.empty files) ops = some st ∧
      InStep world s st ∧ Completable world s st := by
  obtain ⟨st, hrun, hinv⟩ := run_invariant (storageInv_step hsz) ops _
    (storageInv_empty world s files) hok
  refine ⟨st, hrun, ?_, hinv.completable hsz⟩
  intro id r hr
  have hrec := hinv.records id r hr
  obtain ⟨bytes, hbytes, _, hpieces⟩ := hrec.stored
  exact ⟨hrec.remaining, bytes, hbytes, hpieces⟩

/-! ## The limit is real -/

/-- The fragment objects of a file of two bytes, one byte each. -/
def oneByteFragment (q : Nat) (byte : UInt8) : FragmentDataObject Nat :=
  ⟨"fragment", 0, ['2'], sprintfD q, "file", [byte]⟩

theorem valid_first : Valid [7, 8] 1 (oneByteFragment 1 7) :=
  ⟨by decide +kernel, by decide +kernel, by decide +kernel, by decide +kernel⟩

theorem valid_second : Valid [7, 8] 1 (oneByteFragment 2 8) :=
  ⟨by decide +kernel, by decide +kernel, by decide +kernel, by decide +kernel⟩

/-- A fragment comes in and its parent is deleted altogether. -/
theorem storage_in_step_deleted :
    ∃ st, run (StorageOp.apply 1) (FragmentationDecoderStorage.empty (fun _ => none))
        [.addFragment (oneByteFragment 1 7) "a" 0, .deleteFromStorage 0] = some st ∧
      InStep (fun _ => [7, 8]) 1 st ∧ Completable (fun _ => [7, 8]) 1 st := by
  refine storage_in_step (fun _ => [7, 8]) 1 (fun _ => ⟨by decide, by decide, by decide, by decide⟩)
    (fun _ => none) _ ⟨⟨valid_first, ?_⟩, fun _ _ => ⟨trivial, fun _ _ => trivial⟩⟩
  intro _ id r hr
  cases hr

/--
The first of two fragments comes in, the decoder is deleted, and both fragments
come in again: one is still missing although both are tracked.
-/
theorem deleted_decoder_never_completes :
    Valid [7, 8] 1 (oneByteFragment 1 7) ∧ Valid [7, 8] 1 (oneByteFragment 2 8) ∧
      ∃ st, run (StorageOp.apply 1) (FragmentationDecoderStorage.empty (fun _ => none))
          [.addFragment (oneByteFragment 1 7) "a" 0, .deleteDecoder 0 1,
            .addFragment (oneByteFragment 1 7) "b" 2, .addFragment (oneByteFragment 2 8) "c" 3] =
          some st ∧
        ¬ InStep (fun _ => [7, 8]) 1 st ∧ completed st 0 = false := by
  refine ⟨valid_first, valid_second, _, rfl, ?_, by decide +kernel⟩
  intro h
  have hsum := (h 0 ⟨"/file.b.recon", 2, 1⟩ (by decide +kernel)).1
  exact absurd hsum (by decide +kernel)

end Encoders.Fragment
