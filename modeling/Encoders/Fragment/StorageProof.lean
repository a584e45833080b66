import Mathlib.Order.Interval.Finset.Nat
import Encoders.Lib.Run
import Encoders.Fragment.Storage

/-!
# Records and sequence numbers stay in step

A record says how many fragments are missing, the tracking map which ones have
come in. The two are kept apart, and the invariant is that they agree: together
they make up all fragments, every tracked one is in the record's file, and a
parent without a record has nothing tracked.

`deleteFromStorage` clears both maps. `deleteDecoderFromStorageByDataObjectId`,
and with it the ageing of decoders, clears the records only: a parent some of
whose fragments had come in keeps their numbers, the next record starts from the
full count, and fragments that come in again are taken for seen. So the invariant
is kept while such a deletion meets a parent nothing is tracked for. A new record
also needs a file of its own, which the time stamp in its name is there for.
-/

namespace Encoders.Fragment

open Encoders.Lib FragmentationDecoderStorage

/-- Sizes the arithmetic of the code is right for: any file, any fragment size but zero. -/
structure Sizes (L s : Nat) : Prop where
  file_pos : 0 < L
  file_lt : L + 1 < 9223372036854775808
  frag_pos : 0 < s
  frag_lt : s < 18446744073709551616

variable {ι : Type}

/-- The sequence numbers `addFragment` reads from a fragment. -/
def sequenceNumbers (fragment : FragmentDataObject ι) : List Nat :=
  (getFragmentParentDataObjectInfo fragment).sequenceNumberList.map
    (fun token => (strtol token % 18446744073709551616).toNat)

/-- A fragment of `file`: its numbers exist and its contents are the pieces they name. -/
structure Valid (file : Bytes) (s : Nat) (fragment : FragmentDataObject ι) : Prop where
  size : (getFragmentParentDataObjectInfo fragment).fileSize = file.length
  numbers : ∀ q ∈ sequenceNumbers fragment,
    1 ≤ q ∧ q ≤ calculateTotalNumberOfFragments file.length s
  contents : fragment.contents = (sequenceNumbers fragment).flatMap (piece file s)
  short : fragment.contents.length < 9223372036854775808

/-- A decoder record and what is tracked for its parent agree. -/
structure RecordInv (file : Bytes) (s : Nat) (st : FragmentationDecoderStorage ι) (id : ι)
    (r : FragmentDecoderStruct) : Prop where
  remaining : r.segmentsRemaining + (st.dataobjectsequencenumbertracking id).card =
    calculateTotalNumberOfFragments file.length s
  range : ∀ q ∈ st.dataobjectsequencenumbertracking id,
    1 ≤ q ∧ q ≤ calculateTotalNumberOfFragments file.length s
  stored : ∃ bytes, st.files r.filePath = some bytes ∧ bytes.length = file.length ∧
    ∀ q ∈ st.dataobjectsequencenumbertracking id, piece bytes s q = piece file s q

/-! ## Pieces of a file being written -/

/-- A piece written at its place is read back there. -/
theorem piece_overwrite_self {bytes file : Bytes} {s q : Nat} (hlen : bytes.length = file.length)
    (hstart : (q - 1) * s < file.length) :
    piece (overwrite 0 bytes ((q - 1) * s) (piece file s q)) s q = piece file s q := by
  have hp : (piece file s q).length = min s (file.length - (q - 1) * s) := length_piece
  have hfit : (q - 1) * s + (piece file s q).length ≤ bytes.length := by omega
  have hlen' : (overwrite 0 bytes ((q - 1) * s) (piece file s q)).length = file.length := by
    rw [length_overwrite]
    omega
  have hself := slice_overwrite_self 0 hfit
  rw [hp, ← hlen', slice_min] at hself
  exact hself

/-- Other pieces are not touched. -/
theorem piece_overwrite_other {bytes file : Bytes} {s q p : Nat}
    (hlen : bytes.length = file.length) (hstart : (q - 1) * s < file.length) (hq : 1 ≤ q)
    (hp : 1 ≤ p) (hne : p ≠ q) :
    piece (overwrite 0 bytes ((q - 1) * s) (piece file s q)) s p = piece bytes s p := by
  have hsize : (piece file s q).length = min s (file.length - (q - 1) * s) := length_piece
  have hapart : ∀ a b : Nat, a < b → a * s + s ≤ b * s := by
    intro a b hab
    rw [← Nat.succ_mul]
    exact Nat.mul_le_mul_right s hab
  unfold piece
  refine slice_overwrite_disjoint 0 (by unfold piece at hsize; omega) ?_
  unfold piece at hsize
  rcases Nat.lt_or_gt_of_ne hne with hlt | hgt
  · exact Or.inl (hapart (p - 1) (q - 1) (by omega))
  · have := hapart (q - 1) (p - 1) (by omega)
    exact Or.inr (by omega)

/-- Every piece in place is the whole file. -/
theorem eq_of_pieces {bytes file : Bytes} {s : Nat} (hlen : bytes.length = file.length)
    (hL : 0 < file.length) (hs : 0 < s)
    (h : ∀ q, 1 ≤ q → q ≤ calculateTotalNumberOfFragments file.length s →
      piece bytes s q = piece file s q) : bytes = file := by
  obtain ⟨_, _, hall⟩ := total_bounds hL hs
  refine eq_of_slices hlen ?_
  intro i hi
  have hdiv := Nat.div_add_mod i s
  have hmod := Nat.mod_lt i hs
  rw [Nat.mul_comm] at hdiv
  have hq : i / s < calculateTotalNumberOfFragments file.length s := by
    rw [Nat.div_lt_iff_lt_mul hs]
    omega
  have hpiece := h (i / s + 1) (Nat.le_add_left 1 _) hq
  exact ⟨i / s * s, s, by omega, by omega, hpiece⟩

/-! ## The invariant -/

/-- The invariant of the storage, for parents with the files of `world`. -/
structure StorageInv (world : ι → Bytes) (s : Nat) (st : FragmentationDecoderStorage ι) :
    Prop where
  records : ∀ id r, st.fragmentDecoderStorage id = some r → RecordInv (world id) s st id r
  absent : ∀ id, st.fragmentDecoderStorage id = none → st.dataobjectsequencenumbertracking id = ∅
  paths : ∀ id id' r r', st.fragmentDecoderStorage id = some r →
    st.fragmentDecoderStorage id' = some r' → r.filePath = r'.filePath → id = id'

/-- What a call leaves as it was: records, numbers and files of other parents. -/
structure Elsewhere (id : ι) (path : String) (st st' : FragmentationDecoderStorage ι) : Prop where
  records : ∀ i ≠ id, st'.fragmentDecoderStorage i = st.fragmentDecoderStorage i
  tracking : ∀ i ≠ id,
    st'.dataobjectsequencenumbertracking i = st.dataobjectsequencenumbertracking i
  files : ∀ p ≠ path, st'.files p = st.files p

theorem Elsewhere.refl (id : ι) (path : String) (st : FragmentationDecoderStorage ι) :
    Elsewhere id path st st := ⟨fun _ _ => rfl, fun _ _ => rfl, fun _ _ => rfl⟩

theorem Elsewhere.trans {id : ι} {path : String} {st st1 st2 : FragmentationDecoderStorage ι}
    (h1 : Elsewhere id path st st1) (h2 : Elsewhere id path st1 st2) : Elsewhere id path st st2 :=
  ⟨fun i hi => (h2.records i hi).trans (h1.records i hi),
    fun i hi => (h2.tracking i hi).trans (h1.tracking i hi),
    fun p hp => (h2.files p hp).trans (h1.files p hp)⟩

/-- Everything but the times and the list of fragment objects is the same. -/
structure SameRecords (st st' : FragmentationDecoderStorage ι) : Prop where
  records : st'.fragmentDecoderStorage = st.fragmentDecoderStorage
  tracking : st'.dataobjectsequencenumbertracking = st.dataobjectsequencenumbertracking
  files : st'.files = st.files

theorem RecordInv.congr {file : Bytes} {s : Nat} {st st' : FragmentationDecoderStorage ι} {id : ι}
    {r : FragmentDecoderStruct} (h : RecordInv file s st id r)
    (htrack : st'.dataobjectsequencenumbertracking id = st.dataobjectsequencenumbertracking id)
    (hfiles : st'.files r.filePath = st.files r.filePath) : RecordInv file s st' id r := by
  refine ⟨?_, ?_, ?_⟩
  · rw [htrack]; exact h.remaining
  · rw [htrack]; exact h.range
  · rw [htrack, hfiles]; exact h.stored

theorem StorageInv.same {world : ι → Bytes} {s : Nat} {st st' : FragmentationDecoderStorage ι}
    (h : StorageInv world s st) (hsame : SameRecords st st') : StorageInv world s st' := by
  refine ⟨?_, ?_, ?_⟩
  · intro id r hr
    rw [hsame.records] at hr
    exact (h.records id r hr).congr (by rw [hsame.tracking]) (by rw [hsame.files])
  · intro id hr
    rw [hsame.records] at hr
    rw [hsame.tracking]
    exact h.absent id hr
  · intro id id' r r' hr hr'
    rw [hsame.records] at hr hr'
    exact h.paths id id' r r' hr hr'

theorem info_dataObjectId (fragment : FragmentDataObject ι) :
    (getFragmentParentDataObjectInfo fragment).dataObjectId = fragment.parentDataObjectId := by
  unfold getFragmentParentDataObjectInfo
  simp only
  split <;> rfl

/-! ## The loop of `addFragment` -/

variable [LinearOrder ι]

/-- What one piece does to its record. -/
theorem recordInv_countOff {file : Bytes} {s : Nat} (hsz : Sizes file.length s)
    {st : FragmentationDecoderStorage ι} {id : ι} {r : FragmentDecoderStruct}
    (h : RecordInv file s st id r) {q : Nat} (hq1 : 1 ≤ q)
    (hq : q ≤ calculateTotalNumberOfFragments file.length s)
    (hnew : q ∉ st.dataobjectsequencenumbertracking id) {path : String} (hpath : r.filePath = path)
    {bytes : Bytes} (hbytes : st.files path = some bytes) :
    RecordInv file s (st.countOff id path q (overwrite 0 bytes ((q - 1) * s) (piece file s q))) id
      { r with segmentsRemaining := sizeSub r.segmentsRemaining 1 } := by
  subst hpath
  obtain ⟨bytes', hbytes', hlen, hpieces⟩ := h.stored
  rw [hbytes] at hbytes'
  injection hbytes' with hbytes'
  subst hbytes'
  have hstart := start_lt hsz.file_pos hsz.frag_pos hq
  -- the new number is one of the missing ones
  have hroom : (insert q (st.dataobjectsequencenumbertracking id)).card ≤
      calculateTotalNumberOfFragments file.length s := by
    have hsub : insert q (st.dataobjectsequencenumbertracking id) ⊆
        Finset.Icc 1 (calculateTotalNumberOfFragments file.length s) := by
      intro p hp
      rw [Finset.mem_Icc]
      rcases Finset.mem_insert.mp hp with rfl | hp
      · exact ⟨hq1, hq⟩
      · exact h.range p hp
    have hcard := Finset.card_le_card hsub
    rw [Nat.card_Icc] at hcard
    omega
  rw [Finset.card_insert_of_notMem hnew] at hroom
  have hremaining := h.remaining
  have hsmall : r.segmentsRemaining < 18446744073709551616 := by
    have hlast := start_lt hsz.file_pos hsz.frag_pos
      (le_refl (calculateTotalNumberOfFragments file.length s))
    have hmul := Nat.le_mul_of_pos_right (calculateTotalNumberOfFragments file.length s - 1)
      hsz.frag_pos
    have := hsz.file_lt
    omega
  refine ⟨?_, ?_, ?_⟩
  · simp only [countOff, Function.update_self]
    rw [Finset.card_insert_of_notMem hnew, sizeSub_of_le (by omega) hsmall]
    omega
  · intro p hp
    simp only [countOff, Function.update_self] at hp
    rcases Finset.mem_insert.mp hp with rfl | hp
    · exact ⟨hq1, hq⟩
    · exact h.range p hp
  · refine ⟨overwrite 0 bytes ((q - 1) * s) (piece file s q), ?_, ?_, ?_⟩
    · simp only [countOff, Function.update_self]
    · have hp : (piece file s q).length = min s (file.length - (q - 1) * s) := length_piece
      rw [length_overwrite]
      omega
    · intro p hp
      simp only [countOff, Function.update_self] at hp
      rcases Finset.mem_insert.mp hp with rfl | hp
      · exact piece_overwrite_self hlen hstart
      · have hne : p ≠ q := fun heq => hnew (heq ▸ hp)
        rw [piece_overwrite_other hlen hstart hq1 (h.range p hp).1 hne]
        exact hpieces p hp

theorem elsewhere_countOff (st : FragmentationDecoderStorage ι) (id : ι) (path : String) (q : Nat)
    (bytes : Bytes) : Elsewhere id path st (st.countOff id path q bytes) :=
  ⟨fun i hi => by simp only [countOff]; exact Function.update_of_ne hi _ _,
    fun i hi => by simp only [countOff]; exact Function.update_of_ne hi _ _,
    fun p hp => by simp only [countOff]; exact Function.update_of_ne hp _ _⟩

/--
The loop goes through every number of a valid fragment, stores the new ones and
skips over the others.
-/
theorem storeLoop_spec {file : Bytes} {s : Nat} (hsz : Sizes file.length s) {id : ι}
    {path : String} {fragment : Bytes} (hshort : fragment.length < 9223372036854775808) :
    ∀ (tokens : List (List Char)) (done : Bytes) (st : FragmentationDecoderStorage ι)
      (r : FragmentDecoderStruct),
      (∀ q ∈ tokens.map (fun token => (strtol token % 18446744073709551616).toNat),
        1 ≤ q ∧ q ≤ calculateTotalNumberOfFragments file.length s) →
      fragment = done ++
        (tokens.map (fun token => (strtol token % 18446744073709551616).toNat)).flatMap (piece file s) →
      st.fragmentDecoderStorage id = some r → r.filePath = path → RecordInv file s st id r →
      ∃ st' r', storeLoop id path s file.length fragment tokens done.length st = some (st', true) ∧
        st'.fragmentDecoderStorage id = some r' ∧ r'.filePath = path ∧
        RecordInv file s st' id r' ∧ Elsewhere id path st st' ∧
        st'.dataobjectsequencenumbertracking id = st.dataobjectsequencenumbertracking id ∪
          (tokens.map (fun token => (strtol token % 18446744073709551616).toNat)).toFinset
  | [], done, st, r, _, _, hr, hpath, h =>
      ⟨st, r, rfl, hr, hpath, h, Elsewhere.refl id path st, by simp⟩
  | token :: tokens, done, st, r, hrange, hfrag, hr, hpath, h => by
      obtain ⟨hq1, hq⟩ := hrange (strtol token % 18446744073709551616).toNat (by simp)
      generalize hseq : (strtol token % 18446744073709551616).toNat = q at hq1 hq
      have hrest : ∀ p ∈ tokens.map (fun token => (strtol token % 18446744073709551616).toNat),
          1 ≤ p ∧ p ≤ calculateTotalNumberOfFragments file.length s :=
        fun p hp => hrange p (by rw [List.map_cons]; exact List.mem_cons_of_mem _ hp)
      have hfrag' : fragment = (done ++ piece file s q) ++
          (tokens.map (fun token => (strtol token % 18446744073709551616).toNat)).flatMap (piece file s) := by
        rw [hfrag, List.map_cons, List.flatMap_cons, hseq, List.append_assoc]
      have hinfo := positionInfo_eq hsz.file_pos (Nat.lt_of_succ_lt hsz.file_lt) hsz.frag_pos
        hsz.frag_lt hq1 hq
      have hsize : (piece file s q).length = min s (file.length - (q - 1) * s) := length_piece
      have hstart := start_lt hsz.file_pos hsz.frag_pos hq
      have hnext : (done.length + min s (file.length - (q - 1) * s)) % 18446744073709551616 =
          (done ++ piece file s q).length := by
        have hle := congrArg List.length hfrag'
        rw [List.length_append, List.length_append] at hle
        rw [List.length_append, ← hsize]
        exact Nat.mod_eq_of_lt (by omega)
      unfold storeLoop
      simp only [hseq, hinfo, hnext]
      by_cases hold : q ∈ st.dataobjectsequencenumbertracking id
      · obtain ⟨st', r', hrun, hr', hpath', hinv', helse, htrack⟩ := storeLoop_spec hsz hshort tokens
          (done ++ piece file s q) st r hrest hfrag' hr hpath h
        refine ⟨st', r', by rw [if_pos hold]; exact hrun, hr', hpath', hinv', helse, ?_⟩
        rw [htrack, List.map_cons, hseq, List.toFinset_cons, Finset.union_insert,
          Finset.insert_eq_self.mpr (Finset.mem_union_left _ hold)]
      · obtain ⟨bytes, hbytes, hlen, _⟩ := h.stored
        rw [hpath] at hbytes
        -- the fragment's file holds the piece at this offset
        have hread : slice fragment done.length (min s (file.length - (q - 1) * s)) =
            piece file s q := by
          rw [hfrag', List.append_assoc, slice_append_right, ← hsize, List.take_left]
        have hstore : storeFragmentToDataObject (st.files path) fragment ((q - 1) * s)
            (min s (file.length - (q - 1) * s)) done.length =
            some (some (overwrite 0 bytes ((q - 1) * s) (piece file s q))) := by
          have hlt := hsz.file_lt
          have hpos := hsz.frag_pos
          unfold storeFragmentToDataObject
          rw [if_neg (by omega), hread, if_neg (by omega), hbytes, ← hsize, Nat.sub_self]
          simp only [List.replicate_zero, List.append_nil, Option.map_some]
        rw [if_neg hold, hstore]
        have hinv1 := recordInv_countOff hsz h hq1 hq hold hpath hbytes
        have hr1 : (st.countOff id path q (overwrite 0 bytes ((q - 1) * s)
            (piece file s q))).fragmentDecoderStorage id =
            some { r with segmentsRemaining := sizeSub r.segmentsRemaining 1 } := by
          simp only [countOff, Function.update_self, hr, Option.map_some]
        obtain ⟨st', r', hrun, hr', hpath', hinv', helse, htrack⟩ := storeLoop_spec hsz hshort tokens
          (done ++ piece file s q) _ _ hrest hfrag' hr1 hpath hinv1
        refine ⟨st', r', hrun, hr', hpath', hinv',
          (elsewhere_countOff st id path q _).trans helse, ?_⟩
        rw [htrack, List.map_cons, hseq, List.toFinset_cons]
        simp only [countOff, Function.update_self]
        rw [Finset.insert_union, Finset.union_insert]

/-! ## `addFragment` -/

theorem sameRecords_get (st : FragmentationDecoderStorage ι) (id : ι) (now : Nat) :
    SameRecords st (st.getFragmentDecoderStruct id now).1 ∧
      (st.getFragmentDecoderStruct id now).2 = st.fragmentDecoderStorage id := by
  unfold getFragmentDecoderStruct
  cases st.fragmentDecoderStorage id with
  | none => exact ⟨⟨rfl, rfl, rfl⟩, rfl⟩
  | some found => exact ⟨⟨rfl, rfl, rfl⟩, rfl⟩

/-- Whether the record of a parent has nothing missing. -/
def completed (st : FragmentationDecoderStorage ι) (id : ι) : Bool :=
  (st.fragmentDecoderStorage id).any (fun r => r.segmentsRemaining = 0)

theorem sameRecords_isCompleted (st : FragmentationDecoderStorage ι) (id : ι) (now : Nat) :
    SameRecords st (st.isCompleted id now).1 ∧ (st.isCompleted id now).2 = completed st id := by
  unfold isCompleted getFragmentDecoderStruct completed
  cases st.fragmentDecoderStorage id with
  | none => exact ⟨⟨rfl, rfl, rfl⟩, rfl⟩
  | some found => exact ⟨⟨rfl, rfl, rfl⟩, rfl⟩

/-- A new record's file is not the file of another one. -/
def FreshFile (st : FragmentationDecoderStorage ι) (fragment : FragmentDataObject ι)
    (timestamp : String) : Prop :=
  let info := getFragmentParentDataObjectInfo fragment
  st.fragmentDecoderStorage info.dataObjectId = none →
    ∀ id r, st.fragmentDecoderStorage id = some r →
      r.filePath ≠ reconstructedFile info.fileName timestamp

/-- Changing one parent's record, numbers and file keeps the invariant of the others. -/
theorem StorageInv.replace {world : ι → Bytes} {s : Nat} {st st' : FragmentationDecoderStorage ι}
    (h : StorageInv world s st) {id : ι} {path : String} (helse : Elsewhere id path st st')
    (hpath : ∀ i ≠ id, ∀ r, st.fragmentDecoderStorage i = some r → r.filePath ≠ path)
    {r' : FragmentDecoderStruct} (hr' : st'.fragmentDecoderStorage id = some r')
    (hr'path : r'.filePath = path) (hinv : RecordInv (world id) s st' id r') :
    StorageInv world s st' := by
  refine ⟨?_, ?_, ?_⟩
  · intro i r hr
    by_cases hi : i = id
    · subst hi
      rw [hr'] at hr
      injection hr with hr
      exact hr ▸ hinv
    · rw [helse.records i hi] at hr
      exact (h.records i r hr).congr (helse.tracking i hi) (helse.files _ (hpath i hi r hr))
  · intro i hr
    by_cases hi : i = id
    · subst hi
      rw [hr'] at hr
      cases hr
    · rw [helse.tracking i hi]
      rw [helse.records i hi] at hr
      exact h.absent i hr
  · intro i j r1 r2 h1 h2 heq
    -- of two records with one path, one being the new one, the other would be elsewhere
    by_cases hi : i = id
    · by_cases hj : j = id
      · rw [hi, hj]
      · subst hi
        rw [hr'] at h1
        injection h1 with h1
        subst h1
        rw [helse.records j hj] at h2
        exact absurd (heq.symm.trans hr'path) (hpath j hj r2 h2)
    · rw [helse.records i hi] at h1
      by_cases hj : j = id
      · subst hj
        rw [hr'] at h2
        injection h2 with h2
        subst h2
        exact absurd (heq.trans hr'path) (hpath i hi r1 h1)
      · rw [helse.records j hj] at h2
        exact h.paths i j r1 r2 h1 h2 heq

/-- The record `addFragment` opens is there afterwards, and right. -/
theorem openRecord_spec {world : ι → Bytes} {s : Nat} {st : FragmentationDecoderStorage ι}
    (h : StorageInv world s st) {fragment : FragmentDataObject ι} {timestamp : String}
    (hsz : Sizes (world fragment.parentDataObjectId).length s)
    (hvalid : Valid (world fragment.parentDataObjectId) s fragment)
    (hid : (getFragmentParentDataObjectInfo fragment).dataObjectId = fragment.parentDataObjectId)
    (hfresh : FreshFile st fragment timestamp) (now : Nat) :
    ∃ st' path r, st.openRecord (getFragmentParentDataObjectInfo fragment) s timestamp now =
        some (st', path) ∧
      st'.fragmentDecoderStorage fragment.parentDataObjectId = some r ∧ r.filePath = path ∧
      RecordInv (world fragment.parentDataObjectId) s st' fragment.parentDataObjectId r ∧
      Elsewhere fragment.parentDataObjectId path st st' ∧
      st'.dataobjectsequencenumbertracking = st.dataobjectsequencenumbertracking ∧
      ∀ i ≠ fragment.parentDataObjectId, ∀ r, st.fragmentDecoderStorage i = some r →
        r.filePath ≠ path := by
  generalize hinfo : getFragmentParentDataObjectInfo fragment = info at hid
  have hsize := hvalid.size
  rw [hinfo] at hsize
  unfold FreshFile at hfresh
  rw [hinfo] at hfresh
  rw [← hid] at hsize hsz ⊢
  unfold openRecord getFragmentDecoderStruct
  cases hrec : st.fragmentDecoderStorage info.dataObjectId with
  | some found =>
      refine ⟨_, _, found, rfl, hrec, rfl, (h.records _ _ hrec).congr rfl rfl,
        ⟨fun _ _ => rfl, fun _ _ => rfl, fun _ _ => rfl⟩, rfl, ?_⟩
      intro i hi r hr heq
      exact hi (h.paths i _ r found hr hrec heq)
  | none =>
      -- a new record: nothing tracked, and a file of zeros as long as is announced
      have halloc : allocateFile info.fileSize = some (List.replicate info.fileSize 0) := by
        have := hsz.file_lt
        unfold allocateFile
        exact if_neg (by omega)
      simp only [halloc, Option.bind_eq_bind, Option.bind_some]
      refine ⟨_, _, _, rfl, Function.update_self _ _ _, rfl, ⟨?_, ?_, ?_⟩,
        ⟨fun i hi => Function.update_of_ne hi _ _, fun _ _ => rfl,
          fun p hp => Function.update_of_ne hp _ _⟩, rfl, ?_⟩
      · simp only [trackDecoderLastUsedTime]
        rw [h.absent _ hrec, Finset.card_empty, hsize, Nat.add_zero]
      · intro q hq
        simp only [trackDecoderLastUsedTime] at hq
        rw [h.absent _ hrec] at hq
        exact absurd hq (Finset.notMem_empty q)
      · refine ⟨List.replicate info.fileSize 0, Function.update_self _ _ _, ?_, ?_⟩
        · rw [List.length_replicate, hsize]
        · intro q hq
          simp only [trackDecoderLastUsedTime] at hq
          rw [h.absent _ hrec] at hq
          exact absurd hq (Finset.notMem_empty q)
      · intro i _ r hr
        exact hfresh hrec i r hr

/--
**One valid fragment.** It is taken, the invariant holds afterwards, and what is
tracked for its parent grows by its sequence numbers.
-/
theorem addFragment_spec {world : ι → Bytes} {s : Nat} {st : FragmentationDecoderStorage ι}
    (h : StorageInv world s st) {fragment : FragmentDataObject ι} {timestamp : String}
    (hsz : Sizes (world fragment.parentDataObjectId).length s)
    (hvalid : Valid (world fragment.parentDataObjectId) s fragment)
    (hfresh : FreshFile st fragment timestamp) (now : Nat) :
    ∃ st', st.addFragment fragment s timestamp now = some (st', true) ∧
      StorageInv world s st' ∧
      (∃ r, st'.fragmentDecoderStorage fragment.parentDataObjectId = some r) ∧
      st'.dataobjectsequencenumbertracking fragment.parentDataObjectId =
        st.dataobjectsequencenumbertracking fragment.parentDataObjectId ∪
          (sequenceNumbers fragment).toFinset ∧
      ∀ i ≠ fragment.parentDataObjectId,
        st'.fragmentDecoderStorage i = st.fragmentDecoderStorage i := by
  have hid := info_dataObjectId fragment
  obtain ⟨st1, path, r1, hopen, hr1, hpath1, hinv1, helse1, htrack1, hother⟩ :=
    openRecord_spec h hsz hvalid hid hfresh now
  obtain ⟨st2, r2, hloop, hr2, hpath2, hinv2, helse2, htrack2⟩ := storeLoop_spec hsz hvalid.short
    (getFragmentParentDataObjectInfo fragment).sequenceNumberList [] st1 r1 hvalid.numbers
    hvalid.contents hr1 hpath1 hinv1
  have helse := helse1.trans helse2
  have hsame : SameRecords st2 ((st2.trackDecoderLastUsedTime fragment.parentDataObjectId
      now).trackFragment fragment.parentDataObjectId fragment.idStr) := ⟨rfl, rfl, rfl⟩
  refine ⟨_, ?_, (h.replace helse hother hr2 hpath2 hinv2).same hsame, ⟨r2, hr2⟩, ?_, ?_⟩
  · unfold addFragment
    simp only [hopen, Option.bind_eq_bind, Option.bind_some, hid, hvalid.size]
    rw [show (0 : Nat) = ([] : Bytes).length from rfl, hloop]
    rfl
  · rw [← htrack1]
    exact htrack2
  · exact fun i hi => helse.records i hi

end Encoders.Fragment
