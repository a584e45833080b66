import Encoders.Lib.EraseWalk
import Encoders.Data.TimeArithmetic
import Encoders.Coding.DecoderService
import Encoders.Fragment.Storage

/-!
# What is aged off

Three storages keep, for every parent, the time at which its decoder or encoder was last used,
and at intervals throw away what is too old. The decoder storages erase from the map of times
while an iterator goes through it, which is a position in an array. The encoder storage collects
the ids of what it throws away and erases the times behind the loop.

So the encoder storage does just what it should, and a decoder storage does exactly when no two
neighbours in the map are too old at once (`age_off_exact_iff`). In the order of the ids, every
other decoder of a run of old ones stays until the next interval, with its file and its blocks.
-/

namespace Encoders.Coding

open Encoders.Lib Encoders.Data

/-! ## The test -/

/-- `timevalTimeSendEvent + maxAge < timeNow`, where the text is a time and the sum one, too. -/
def expires (maxAge now : Timeval) (timeSendEvent : CString) : Option Bool := do
  let timevalTimeSendEvent ← Timeval.ofString timeSendEvent
  let sum ← timevalTimeSendEvent.plus maxAge
  some (sum.lt now)

def timeExpired (maxAge now : Timeval) (timeSendEvent : CString) : Bool :=
  expires maxAge now timeSendEvent == some true

/-- Of the text of a time, the test asks what it should. -/
theorem timeExpired_iff {t maxAge now : Timeval} (hkept : t.Kept)
    (hlo : -9223372036854775808 < t.sec + maxAge.sec)
    (hhi : t.sec + maxAge.sec < 9223372036854775807) :
    timeExpired maxAge now t.getAsString = true ↔ t.micros + maxAge.micros < now.micros := by
  obtain ⟨sum, hsum, hmicros⟩ := Timeval.plus_some hlo hhi
  unfold timeExpired expires
  rw [(ofString_getAsString_iff t).mpr hkept, Option.bind_eq_bind, Option.bind_some, hsum,
    Option.bind_some, beq_iff_eq, Option.some.injEq, Timeval.lt_iff_micros, hmicros]

/-! ## What should happen -/

/-- The object has a time, and it is too old. -/
def Old {κ τ : Type} (expired : τ → Bool) (times : List (κ × τ)) (id : κ) : Prop :=
  ∃ time, (id, time) ∈ times ∧ expired time = true

/-- The times that are too old are gone, what belongs to their objects is gone, and what belongs
to all other objects is as it was. -/
structure AgedOff {κ τ : Type} (expired : τ → Bool) (before after : List (κ × τ))
    (gone same : κ → Prop) : Prop where
  times : after = before.filter (fun x => !expired x.2)
  gone : ∀ id, Old expired before id → gone id
  same : ∀ id, ¬ Old expired before id → same id

/-- Erasing takes away what belongs to an object, and nothing that belongs to another. -/
structure Erases {σ κ : Type} (erase : κ → σ → σ) (gone : σ → κ → Prop)
    (same : σ → σ → κ → Prop) : Prop where
  self : ∀ id s, gone (erase id s) id
  other : ∀ id s other, other ≠ id → same s (erase id s) other
  refl : ∀ s id, same s s id
  trans : ∀ {s s' s'' id}, same s s' id → same s' s'' id → same s s'' id
  stays : ∀ {s s' id}, gone s id → same s s' id → gone s' id

section Erases

variable {σ κ τ : Type} {erase : κ → σ → σ} {gone : σ → κ → Prop} {same : σ → σ → κ → Prop}

theorem Erases.same_foldl (h : Erases erase gone same) {id : κ} : ∀ (erased : List (κ × τ)) (s : σ),
    id ∉ erased.map Prod.fst → same s (erased.foldl (fun s x => erase x.1 s) s) id := by
  intro erased
  induction erased with
  | nil => exact fun s _ => h.refl s id
  | cons x erased ih =>
      intro s hnot
      rw [List.map_cons, List.mem_cons, not_or] at hnot
      exact h.trans (h.other x.1 s id hnot.1) (ih _ hnot.2)

theorem Erases.gone_foldl (h : Erases erase gone same) {id : κ} : ∀ (erased : List (κ × τ)) (s : σ),
    id ∈ erased.map Prod.fst → gone (erased.foldl (fun s x => erase x.1 s) s) id := by
  intro erased
  induction erased with
  | nil => exact fun s hmem => absurd hmem List.not_mem_nil
  | cons x erased ih =>
      intro s hmem
      rw [List.foldl_cons]
      by_cases hlater : id ∈ erased.map Prod.fst
      · exact ih _ hlater
      · -- erased now, and not touched again
        rw [List.map_cons, List.mem_cons] at hmem
        have hid := hmem.resolve_right hlater
        rw [hid] at hlater ⊢
        exact h.stays (h.self x.1 s) (h.same_foldl erased _ hlater)

/-- A loop that erases as it goes ages off what it should exactly when no two neighbours are too
old. -/
theorem Erases.agedOff_iff [DecidableEq κ] (h : Erases erase gone same)
    {bindings : σ → List (κ × τ)} {expired : τ → Bool}
    (hbindings : ∀ k s, bindings (erase k s) = (bindings s).filter (fun y => y.1 ≠ k))
    {s s' : σ} (hkeys : ((bindings s).map Prod.fst).Nodup)
    (hwalk : s' = eraseWalk bindings erase expired (bindings s).length 0 s) :
    AgedOff expired (bindings s) (bindings s') (gone s') (same s s') ↔
      Isolated expired (bindings s) := by
  have hleft := @eraseWalk_bindings_iff σ κ τ bindings erase expired _ hbindings s hkeys
  rw [← hwalk] at hleft
  constructor
  · exact fun haged => hleft.mp haged.times
  · intro hisolated
    have herased : ∀ id, id ∈ (walkErased expired (bindings s)).map Prod.fst ↔
        Old expired (bindings s) id :=
      fun id => hisolated.mem_erased (List.Nodup.of_map _ hkeys)
    rw [eraseWalk_start hbindings hkeys] at hwalk
    refine ⟨hleft.mpr hisolated, fun id hold => ?_, fun id hyoung => ?_⟩
    · rw [hwalk]
      exact h.gone_foldl _ s ((herased id).mpr hold)
    · rw [hwalk]
      exact h.same_foldl _ s (fun hmem => hyoung ((herased id).mp hmem))

end Erases

/-! ## Decoders of blocks -/

namespace NetworkCodingDecoderStorage

/-- What `ageOffDecoder` does with a decoder that is too old. -/
def eraseDecoder (dataObjectId : CString) (s : NetworkCodingDecoderStorage) :
    NetworkCodingDecoderStorage :=
  (s.deleteDecoderFromStorageByDataObjectId dataObjectId).disposeNetworkCodedBlocks dataObjectId

theorem ageOffLoop_eq (expired : CString → Bool) : ∀ (rounds i : Nat)
    (s : NetworkCodingDecoderStorage),
    ageOffLoop expired rounds i s =
      eraseWalk networkCodedDecoderLastUsedTime eraseDecoder expired rounds i s := by
  intro rounds
  induction rounds with
  | zero => exact fun i s => rfl
  | succ rounds ih =>
      intro i s
      rw [ageOffLoop, eraseWalk]
      cases s.networkCodedDecoderLastUsedTime[i]? with
      | none => rfl
      | some x => exact ih (i + 1) _

/-- Neither a decoder nor blocks. -/
def Gone (s' : NetworkCodingDecoderStorage) (id : CString) : Prop :=
  s'.decoderStorage id = none ∧ s'.networkCodedBlocks id = []

/-- Decoder, blocks and whether it is completed are what they were. -/
def Untouched (s s' : NetworkCodingDecoderStorage) (id : CString) : Prop :=
  s'.decoderStorage id = s.decoderStorage id ∧
    s'.networkCodedBlocks id = s.networkCodedBlocks id ∧
    s'.decodingCompleted id = s.decodingCompleted id

theorem eraseDecoder_erases : Erases eraseDecoder Gone Untouched where
  self id s := by
    unfold eraseDecoder disposeNetworkCodedBlocks deleteDecoderFromStorageByDataObjectId Gone
    exact ⟨Function.update_self .., Function.update_self ..⟩
  other id s other hne := by
    unfold eraseDecoder disposeNetworkCodedBlocks deleteDecoderFromStorageByDataObjectId Untouched
    exact ⟨Function.update_of_ne hne .., Function.update_of_ne hne .., rfl⟩
  refl s id := ⟨rfl, rfl, rfl⟩
  trans h h' := ⟨h'.1.trans h.1, h'.2.1.trans h.2.1, h'.2.2.trans h.2.2⟩
  stays h h' := ⟨h'.1.trans h.1, h'.2.1.trans h.2⟩

/-- What one call of `ageOffDecoder` should do. -/
def AgesOff (expired : CString → Bool) (s s' : NetworkCodingDecoderStorage) : Prop :=
  AgedOff expired s.networkCodedDecoderLastUsedTime s'.networkCodedDecoderLastUsedTime
    s'.Gone (s.Untouched s')

theorem ageOffDecoder_exact_iff (expired : CString → Bool) {s : NetworkCodingDecoderStorage}
    (hkeys : (s.networkCodedDecoderLastUsedTime.map Prod.fst).Nodup) :
    s.AgesOff expired (s.ageOffDecoder expired) ↔
      Isolated expired s.networkCodedDecoderLastUsedTime :=
  eraseDecoder_erases.agedOff_iff (fun _ _ => rfl) hkeys (ageOffLoop_eq expired _ 0 s)

end NetworkCodingDecoderStorage

/-! ## Decoders of fragments -/

section Fragment

open Fragment FragmentationDecoderStorage

variable {ι : Type} [LinearOrder ι]

/-- What `ageOffDecoder` of the fragmentation does with a decoder that is too old. -/
def eraseFragmentDecoder (now : Nat) (parentDataObjectId : ι)
    (st : FragmentationDecoderStorage ι) : FragmentationDecoderStorage ι :=
  (st.deleteDecoderFromStorageByDataObjectId parentDataObjectId now).disposeAssociatedFragments
    parentDataObjectId

/-- `ageOffDecoder`, whatever is asked of the times. -/
def ageOffFragmentDecoders (expired : Nat → Bool) (now : Nat)
    (st : FragmentationDecoderStorage ι) : FragmentationDecoderStorage ι :=
  eraseWalk fragmentationDecoderLastUsedTime (eraseFragmentDecoder now) expired
    st.fragmentationDecoderLastUsedTime.length 0 st

theorem ageOffFragmentLoop_eq (maxAgeDecoder now : Nat) : ∀ (rounds i : Nat)
    (st : FragmentationDecoderStorage ι),
    FragmentationDecoderStorage.ageOffLoop maxAgeDecoder now rounds i st =
      eraseWalk fragmentationDecoderLastUsedTime (eraseFragmentDecoder now)
        (fun time => decide (time + maxAgeDecoder < now)) rounds i st := by
  intro rounds
  induction rounds with
  | zero => exact fun i st => rfl
  | succ rounds ih =>
      intro i st
      rw [FragmentationDecoderStorage.ageOffLoop, eraseWalk]
      cases st.fragmentationDecoderLastUsedTime[i]? with
      | none => rfl
      | some x =>
          dsimp only
          rw [ih]
          simp only [decide_eq_true_eq]
          rfl

/-- With a maximal age it is `ageOffDecoder`. -/
theorem ageOffDecoder_eq (st : FragmentationDecoderStorage ι) (maxAgeDecoder now : Nat) :
    st.ageOffDecoder maxAgeDecoder now =
      ageOffFragmentDecoders (fun time => decide (time + maxAgeDecoder < now)) now st :=
  ageOffFragmentLoop_eq maxAgeDecoder now _ 0 st

/-- Setting the time of an object and then taking it out is taking it out. -/
theorem filter_setTime (id : ι) (time : Nat) : ∀ times : List (ι × Nat),
    (setTime id time times).filter (fun x => x.1 ≠ id) = times.filter (fun x => x.1 ≠ id) := by
  intro times
  induction times with
  | nil => simp [setTime]
  | cons x times ih =>
      rw [setTime]
      split
      · rw [List.filter_cons, List.filter_cons, ih]
      · split
        · next heq => rw [List.filter_cons_of_neg (by simp), List.filter_cons_of_neg (by simp [heq])]
        · rw [List.filter_cons_of_neg (by simp)]

/-- Cleaning up touches the file, and the time at which the object was last used. -/
theorem cleanUp_cases (st : FragmentationDecoderStorage ι) (id : ι) (now : Nat) :
    (st.cleanUpPartialReconstructedObject id now).fragmentDecoderStorage =
        st.fragmentDecoderStorage ∧
      (st.cleanUpPartialReconstructedObject id now).fragmentsTracker = st.fragmentsTracker ∧
      (st.cleanUpPartialReconstructedObject id now).dataobjectsequencenumbertracking =
        st.dataobjectsequencenumbertracking ∧
      (st.cleanUpPartialReconstructedObject id now).fragmentationDecoderLastUsedTime.filter
          (fun x => x.1 ≠ id) =
        st.fragmentationDecoderLastUsedTime.filter (fun x => x.1 ≠ id) := by
  unfold cleanUpPartialReconstructedObject isCompleted getFragmentDecoderStruct
  cases hrec : st.fragmentDecoderStorage id with
  | none =>
      simp only [hrec]
      exact ⟨trivial, trivial, trivial, trivial⟩
  | some found =>
      cases hzero : decide (found.segmentsRemaining = 0) with
      | true =>
          simp only [hzero, trackDecoderLastUsedTime]
          exact ⟨trivial, trivial, trivial, filter_setTime id now _⟩
      | false =>
          simp only [hrec, hzero, trackDecoderLastUsedTime]
          exact ⟨trivial, trivial, trivial, by rw [filter_setTime, filter_setTime]⟩

/-- Neither a decoder nor fragments. -/
def FragmentsGone (st' : FragmentationDecoderStorage ι) (id : ι) : Prop :=
  st'.fragmentDecoderStorage id = none ∧ st'.fragmentsTracker id = []

/-- Decoder, fragments and the numbers that were seen are what they were. -/
def FragmentsUntouched (st st' : FragmentationDecoderStorage ι) (id : ι) : Prop :=
  st'.fragmentDecoderStorage id = st.fragmentDecoderStorage id ∧
    st'.fragmentsTracker id = st.fragmentsTracker id ∧
    st'.dataobjectsequencenumbertracking id = st.dataobjectsequencenumbertracking id

theorem eraseFragmentDecoder_erases (now : Nat) :
    Erases (eraseFragmentDecoder (ι := ι) now) FragmentsGone FragmentsUntouched where
  self id st := by
    unfold eraseFragmentDecoder disposeAssociatedFragments deleteDecoderFromStorageByDataObjectId
      FragmentsGone
    exact ⟨Function.update_self .., Function.update_self ..⟩
  other id st other hne := by
    obtain ⟨hrecords, htracker, hnumbers, -⟩ := cleanUp_cases st id now
    unfold eraseFragmentDecoder disposeAssociatedFragments deleteDecoderFromStorageByDataObjectId
      FragmentsUntouched
    dsimp only
    rw [Function.update_of_ne hne, Function.update_of_ne hne, hrecords, htracker, hnumbers]
    exact ⟨rfl, rfl, rfl⟩
  refl st id := ⟨rfl, rfl, rfl⟩
  trans h h' := ⟨h'.1.trans h.1, h'.2.1.trans h.2.1, h'.2.2.trans h.2.2⟩
  stays h h' := ⟨h'.1.trans h.1, h'.2.1.trans h.2⟩

/-- What one call should do. -/
def FragmentsAgeOff (expired : Nat → Bool) (st st' : FragmentationDecoderStorage ι) : Prop :=
  AgedOff expired st.fragmentationDecoderLastUsedTime st'.fragmentationDecoderLastUsedTime
    (FragmentsGone st') (FragmentsUntouched st st')

theorem ageOffFragmentDecoders_exact_iff (expired : Nat → Bool) (now : Nat)
    {st : FragmentationDecoderStorage ι}
    (hkeys : (st.fragmentationDecoderLastUsedTime.map Prod.fst).Nodup) :
    FragmentsAgeOff expired st (ageOffFragmentDecoders expired now st) ↔
      Isolated expired st.fragmentationDecoderLastUsedTime :=
  (eraseFragmentDecoder_erases now).agedOff_iff
    (fun id st => (cleanUp_cases st id now).2.2.2) hkeys rfl

end Fragment

/-! ## Encoders -/

/-- The members of the storage, for encoders and objects of any kind. -/
structure NetworkCodingEncoderStorage (ε ο : Type) where
  encoderStorage : CString → Option ε
  dataobjectstorage : CString → Option ο
  networkCodedBlockSendEventTime : List (CString × CString)

namespace NetworkCodingEncoderStorage

variable {ε ο : Type}

/-- `deleteFromStorageByDataObjectId` -/
def deleteFromStorageByDataObjectId (parentDataObjectId : CString)
    (s : NetworkCodingEncoderStorage ε ο) : NetworkCodingEncoderStorage ε ο :=
  { s with
    encoderStorage := Function.update s.encoderStorage parentDataObjectId none
    dataobjectstorage := Function.update s.dataobjectstorage parentDataObjectId none }

/-- `deleteTrackingInfoByDataObjectId` -/
def deleteTrackingInfoByDataObjectId (parentDataObjectId : CString)
    (s : NetworkCodingEncoderStorage ε ο) : NetworkCodingEncoderStorage ε ο :=
  { s with
    networkCodedBlockSendEventTime :=
      s.networkCodedBlockSendEventTime.filter (fun x => x.1 ≠ parentDataObjectId) }

/-- One round of the first loop of `ageOffBlocks`. -/
def ageOffBlock (expired : CString → Bool)
    (w : NetworkCodingEncoderStorage ε ο × List CString) (x : CString × CString) :
    NetworkCodingEncoderStorage ε ο × List CString :=
  if expired x.2 then (w.1.deleteFromStorageByDataObjectId x.1, x.1 :: w.2) else w

/-- `ageOffBlocks`: the times are erased behind the loop, so that it goes through all of them. -/
def ageOffBlocks (expired : CString → Bool) (s : NetworkCodingEncoderStorage ε ο) :
    NetworkCodingEncoderStorage ε ο :=
  let (s, deleteAfterIterating) := s.networkCodedBlockSendEventTime.foldl (ageOffBlock expired)
    (s, [])
  deleteAfterIterating.foldl (fun s id => s.deleteTrackingInfoByDataObjectId id) s

/-- Neither an encoder nor the object it encodes. -/
def Gone (s' : NetworkCodingEncoderStorage ε ο) (id : CString) : Prop :=
  s'.encoderStorage id = none ∧ s'.dataobjectstorage id = none

/-- Encoder and object are what they were. -/
def Untouched (s s' : NetworkCodingEncoderStorage ε ο) (id : CString) : Prop :=
  s'.encoderStorage id = s.encoderStorage id ∧ s'.dataobjectstorage id = s.dataobjectstorage id

theorem delete_erases : Erases (deleteFromStorageByDataObjectId (ε := ε) (ο := ο)) Gone
    Untouched where
  self id s := by
    unfold deleteFromStorageByDataObjectId Gone
    exact ⟨Function.update_self .., Function.update_self ..⟩
  other id s other hne := by
    unfold deleteFromStorageByDataObjectId Untouched
    exact ⟨Function.update_of_ne hne .., Function.update_of_ne hne ..⟩
  refl s id := ⟨rfl, rfl⟩
  trans h h' := ⟨h'.1.trans h.1, h'.2.trans h.2⟩
  stays h h' := ⟨h'.1.trans h.1, h'.2.trans h.2⟩

/-- The first loop deletes what is too old, collects its ids, and leaves the times alone. -/
theorem ageOffLoop_eq (expired : CString → Bool) : ∀ (times : List (CString × CString))
    (s : NetworkCodingEncoderStorage ε ο) (ids : List CString),
    times.foldl (ageOffBlock expired) (s, ids) =
      ((times.filter (fun x => expired x.2)).foldl
        (fun s x => s.deleteFromStorageByDataObjectId x.1) s,
        ((times.filter (fun x => expired x.2)).map Prod.fst).reverse ++ ids) := by
  intro times
  induction times with
  | nil => intro s ids; rfl
  | cons x times ih =>
      intro s ids
      rw [List.foldl_cons, ageOffBlock]
      split
      · next hx =>
          have hfilter : (x :: times).filter (fun x => expired x.2) =
              x :: times.filter (fun x => expired x.2) := List.filter_cons_of_pos hx
          rw [ih, hfilter, List.foldl_cons, List.map_cons, List.reverse_cons, List.append_assoc]
          rfl
      · next hx =>
          have hfilter : (x :: times).filter (fun x => expired x.2) =
              times.filter (fun x => expired x.2) := List.filter_cons_of_neg hx
          rw [ih, hfilter]

theorem times_foldl_delete (l : List (CString × CString)) : ∀ s : NetworkCodingEncoderStorage ε ο,
    (l.foldl (fun s x => s.deleteFromStorageByDataObjectId x.1) s).networkCodedBlockSendEventTime =
      s.networkCodedBlockSendEventTime := by
  induction l with
  | nil => exact fun s => rfl
  | cons x l ih => exact fun s => ih _

/-- The second loop erases times and touches nothing else. -/
theorem foldl_tracking : ∀ (ids : List CString) (s : NetworkCodingEncoderStorage ε ο),
    ids.foldl (fun s id => s.deleteTrackingInfoByDataObjectId id) s =
      { s with
        networkCodedBlockSendEventTime :=
          s.networkCodedBlockSendEventTime.filter (fun x => x.1 ∉ ids) } := by
  intro ids
  induction ids with
  | nil => intro s; simp
  | cons id ids ih =>
      intro s
      rw [List.foldl_cons, ih, deleteTrackingInfoByDataObjectId]
      dsimp only
      rw [List.filter_filter]
      congr 1
      refine List.filter_congr (fun y _ => ?_)
      rw [← Bool.decide_and, decide_eq_decide, List.mem_cons, not_or, and_comm]

/-- What one call of `ageOffBlocks` should do. -/
def AgesOff (expired : CString → Bool) (s s' : NetworkCodingEncoderStorage ε ο) : Prop :=
  AgedOff expired s.networkCodedBlockSendEventTime s'.networkCodedBlockSendEventTime
    s'.Gone (s.Untouched s')

theorem ageOffBlocks_exact (expired : CString → Bool) {s : NetworkCodingEncoderStorage ε ο}
    (hkeys : (s.networkCodedBlockSendEventTime.map Prod.fst).Nodup) :
    s.AgesOff expired (s.ageOffBlocks expired) := by
  have hold : ∀ id, id ∈ ((s.networkCodedBlockSendEventTime.filter
      (fun x => expired x.2)).map Prod.fst) ↔ Old expired s.networkCodedBlockSendEventTime id := by
    intro id
    constructor
    · intro hmem
      obtain ⟨⟨_, time⟩, hx, rfl⟩ := List.mem_map.mp hmem
      exact ⟨time, (List.mem_filter.mp hx).1, (List.mem_filter.mp hx).2⟩
    · rintro ⟨time, hmem, hexpired⟩
      exact List.mem_map.mpr ⟨(id, time), List.mem_filter.mpr ⟨hmem, hexpired⟩, rfl⟩
  unfold AgesOff ageOffBlocks
  rw [ageOffLoop_eq, List.append_nil]
  dsimp only
  rw [foldl_tracking]
  refine ⟨?_, fun id hmem => ?_, fun id hnot => ?_⟩
  · rw [times_foldl_delete]
    refine List.filter_congr (fun y hy => ?_)
    cases hexpired : expired y.2 with
    | true =>
        refine decide_eq_false (fun hnot => hnot ?_)
        exact List.mem_reverse.mpr ((hold y.1).mpr ⟨y.2, hy, hexpired⟩)
    | false =>
        refine decide_eq_true (fun hmem => ?_)
        obtain ⟨time, hmem, htime⟩ := (hold y.1).mp (List.mem_reverse.mp hmem)
        have hsame := List.inj_on_of_nodup_map hkeys hmem hy rfl
        rw [← hsame, htime] at hexpired
        cases hexpired
  · exact delete_erases.gone_foldl _ s ((hold id).mpr hmem)
  · exact delete_erases.same_foldl _ s (fun hmem => hnot ((hold id).mp hmem))

end NetworkCodingEncoderStorage

/-! ## The result -/

/-- **Age-off is exact** for encoders, and for decoders of blocks and of fragments exactly when no
two neighbours in the map of times are too old. -/
theorem age_off_exact_iff {ι ε ο : Type} [LinearOrder ι] :
    (∀ (expired : CString → Bool) (s : NetworkCodingDecoderStorage),
      (s.networkCodedDecoderLastUsedTime.map Prod.fst).Nodup →
      (s.AgesOff expired (s.ageOffDecoder expired) ↔
        Isolated expired s.networkCodedDecoderLastUsedTime)) ∧
    (∀ (expired : Nat → Bool) (now : Nat) (st : Fragment.FragmentationDecoderStorage ι),
      (st.fragmentationDecoderLastUsedTime.map Prod.fst).Nodup →
      (FragmentsAgeOff expired st (ageOffFragmentDecoders expired now st) ↔
        Isolated expired st.fragmentationDecoderLastUsedTime)) ∧
    ∀ (expired : CString → Bool) (s : NetworkCodingEncoderStorage ε ο),
      (s.networkCodedBlockSendEventTime.map Prod.fst).Nodup →
      s.AgesOff expired (s.ageOffBlocks expired) :=
  ⟨fun expired _ hkeys => NetworkCodingDecoderStorage.ageOffDecoder_exact_iff expired hkeys,
    fun expired now _ hkeys => ageOffFragmentDecoders_exact_iff expired now hkeys,
    fun expired _ hkeys => NetworkCodingEncoderStorage.ageOffBlocks_exact expired hkeys⟩

/-- A storage that made a decoder for each of some objects, all in the same second. -/
def madeDecoders (ids : List CString) : NetworkCodingDecoderStorage :=
  ids.foldl (fun s id => (s.getDecoder 1 id 1 (lit "p") firstSecond).1) .empty

def oneSecond : Timeval := (Timeval.ofLongs 1 0).getD Timeval.invalid

def hundredSeconds : Timeval := (Timeval.ofLongs 100 0).getD Timeval.invalid

/-- Neighbours of an entry that is not too old may be. -/
theorem isolated_around {κ τ : Type} {expired : τ → Bool} {x y z : κ × τ}
    (hy : expired y.2 = false) : Isolated expired [x, y, z] := by
  intro i a b ha hb hold
  match i with
  | 0 =>
      obtain rfl : y = b := Option.some.inj hb
      exact Bool.false_ne_true (hy.symm.trans hold.2)
  | 1 =>
      obtain rfl : y = a := Option.some.inj ha
      exact Bool.false_ne_true (hy.symm.trans hold.1)
  | n + 2 => cases hb

/-- A storage with decoders of "a" and "c" from the first second and of "b" from the hundredth. -/
def threeDecoders : NetworkCodingDecoderStorage :=
  ((madeDecoders [lit "a", lit "c"]).getDecoder 1 (lit "b") 1 (lit "p") hundredSeconds).1

theorem threeDecoders_times : threeDecoders.networkCodedDecoderLastUsedTime =
    [(lit "a", firstSecond.getAsString), (lit "b", hundredSeconds.getAsString),
      (lit "c", firstSecond.getAsString)] := by
  decide +kernel

theorem hundred_recent :
    timeExpired oneSecond hundredSeconds hundredSeconds.getAsString = false := by
  decide +kernel

/-- Decoders of fragments with the same ages. -/
def threeFragmentDecoders : Fragment.FragmentationDecoderStorage Nat :=
  ⟨fun _ => some ⟨"f", 1, 1⟩, fun _ => ∅, fun _ => [], [(0, 1), (1, 100), (2, 1)], fun _ => none⟩

/-- Encoders, all of them too old. -/
def threeEncoders : NetworkCodingEncoderStorage Unit Unit :=
  ⟨fun _ => some (), fun _ => some (), [(lit "a", firstSecond.getAsString),
    (lit "b", firstSecond.getAsString), (lit "c", firstSecond.getAsString)]⟩

/-- The first and the third decoder are thrown away and the second stays; no encoder does. -/
theorem age_off_exact_three :
    threeDecoders.AgesOff (timeExpired oneSecond hundredSeconds)
        (threeDecoders.ageOffDecoder (timeExpired oneSecond hundredSeconds)) ∧
      FragmentsAgeOff (fun time => decide (time + 1 < 100)) threeFragmentDecoders
        (ageOffFragmentDecoders (fun time => decide (time + 1 < 100)) 100 threeFragmentDecoders) ∧
      threeEncoders.AgesOff (timeExpired oneSecond hundredSeconds)
        (threeEncoders.ageOffBlocks (timeExpired oneSecond hundredSeconds)) := by
  obtain ⟨hblocks, hfragments, hencoders⟩ := age_off_exact_iff (ι := Nat) (ε := Unit) (ο := Unit)
  refine ⟨(hblocks _ _ ?_).mpr ?_, (hfragments _ _ _ ?_).mpr ?_, hencoders _ _ ?_⟩
  · rw [threeDecoders_times]
    decide
  · rw [threeDecoders_times]
    exact isolated_around hundred_recent
  · decide
  · exact isolated_around (by decide)
  · decide

/-- Of two decoders that are too old, the second one stays. -/
theorem age_off_skips : ¬ (madeDecoders [lit "a", lit "b"]).AgesOff
    (timeExpired oneSecond hundredSeconds)
    ((madeDecoders [lit "a", lit "b"]).ageOffDecoder (timeExpired oneSecond hundredSeconds)) := by
  have htimes : (madeDecoders [lit "a", lit "b"]).networkCodedDecoderLastUsedTime =
      [(lit "a", firstSecond.getAsString), (lit "b", firstSecond.getAsString)] := by decide +kernel
  have hexpired : timeExpired oneSecond hundredSeconds firstSecond.getAsString = true := by
    decide +kernel
  rw [NetworkCodingDecoderStorage.ageOffDecoder_exact_iff _ (by rw [htimes]; decide), htimes]
  intro hisolated
  exact hisolated 0 _ _ rfl rfl ⟨hexpired, hexpired⟩

end Encoders.Coding
