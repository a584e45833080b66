import Encoders.Coding.Arrival

/-!
# Completed once, and again

A parent should be completed exactly while the object that was put together from its blocks is
there, and when the object has been deleted its blocks should bring it back. How often an object
was returned since it was deleted is written down beside the storage.

While no block that completes a decoder is one that the object cannot be made from, and nothing
is deleted that is completed, all of this holds (`decoding_repeats_iff`). Each other event breaks
it at once: the mark is set before the object is made, and nothing takes it away, so what could
not be made and what was deleted stays completed, and later blocks of it are ignored
(`deleted_stays_completed`).
-/

namespace Encoders.Coding

open Encoders.Lib Encoders.Data

/-! ## Enough blocks -/

section Enough

variable {cfg : DecoderConfiguration} {sha1 : Digest} {world : CString → List Symbol}

/-- A block of the parent that the service can use, and from which the object can be made. -/
structure Usable (cfg : DecoderConfiguration) (world : CString → List Symbol) (p : CString)
    (a : DecoderSurroundings × DataObject) : Prop where
  honest : Honest cfg world a.1 a.2
  new : a.1.isDuplicate = false
  parent : ∃ info, blockInfo a.2 = some info ∧ info.originalDataObjectId = p
  readable : (readBlockFile a.1 a.2).isSome = true
  restorable : a.1.decodedFileOpens = true ∧ Restorable a.2

/-- What a list of arrivals brings to the decoder. -/
def arrivedBlocks (cfg : DecoderConfiguration) (file : List Symbol)
    (arrivals : List (DecoderSurroundings × DataObject)) : List (List Nat × CodedBlock) :=
  arrivals.flatMap (fun a => cfg.blocksOf file a.1 ((readBlockFile a.1 a.2).getD []))

/-- The events of a list of arrivals. -/
def arrivalEvents (arrivals : List (DecoderSurroundings × DataObject)) : List DecoderEvent :=
  arrivals.map (fun a => .arrived a.1 a.2)

/-- The objects that are returned along a run. -/
def returnedBy (cfg : DecoderConfiguration) (sha1 : Digest) :
    NetworkCodingDecoderStorage → List DecoderEvent → Option (List DataObject)
  | _, [] => some []
  | s, e :: es =>
      (handle cfg sha1 s e).bind (fun r =>
        (returnedBy cfg sha1 r.1 es).map (fun objects => r.2.toList ++ objects))

/-- The object was made from the bytes of the file. -/
def MadeFrom (sha1 : Digest) (file : List Symbol) (o : DataObject) : Prop :=
  ∃ env info path dObj, reconstruct sha1 env info path file dObj = some (some o)

/-- Once completed, blocks of the parent bring nothing back. -/
theorem returnedBy_completed (hb : 0 < cfg.blockSize) {p : CString} :
    ∀ (arrivals : List (DecoderSurroundings × DataObject)) {s : NetworkCodingDecoderStorage},
      StorageInv cfg world s → s.isDecodingCompleted p = true →
      (∀ a ∈ arrivals, Usable cfg world p a) →
      returnedBy cfg sha1 s (arrivalEvents arrivals) = some [] := by
  intro arrivals
  induction arrivals with
  | nil => exact fun {s} _ _ _ => rfl
  | cons a arrivals ih =>
      intro s hs hdone husable
      have ha := husable a List.mem_cons_self
      obtain ⟨info, hinfo, hparent⟩ := ha.parent
      rcases @decodeDataObject_spec cfg sha1 world s hb hs a.1 a.2 ha.honest with
        ⟨t, -, hr, ht, hflags, -⟩ | ⟨info', bytes, d, answers, t, returned, hinfo', -, hopen, -⟩
      · have hdone' : t.isDecodingCompleted p = true := (congrFun hflags p).trans hdone
        have hrest := ih ht hdone' (fun x hx => husable x (List.mem_cons_of_mem _ hx))
        unfold arrivalEvents at hrest ⊢
        rw [List.map_cons, returnedBy, handle]
        simp only [if_neg (Nat.pos_iff_ne_zero.mp hb), hr, Option.bind_some, hrest,
          Option.map_some, Option.toList_none, List.nil_append]
      · rw [hinfo] at hinfo'
        injection hinfo' with hinfo'
        rw [← hinfo', hparent, hdone] at hopen
        cases hopen

/--
**Enough innovative blocks bring the object back**, once, whatever the decoder has already. The
induction is on the arrivals; what is missing is what the rest of them must bring.
-/
theorem returnedBy_enough (hb : 0 < cfg.blockSize) {p : CString} (hL : 0 < (world p).length) :
    ∀ (arrivals : List (DecoderSurroundings × DataObject)) {s : NetworkCodingDecoderStorage}
      {ct : CodeTorrent} {answers : List Bool},
      StorageInv cfg world s → s.isDecodingCompleted p = false →
      (∀ a ∈ arrivals, Usable cfg world p a) →
      storeAll (clientOf cfg (world p) s p) (arrivedBlocks cfg (world p) arrivals) =
        some (ct, answers) →
      numBlocks (world p).length cfg.blockSize ≤
        (clientOf cfg (world p) s p).buf.length + answers.count true →
      ∃ o, returnedBy cfg sha1 s (arrivalEvents arrivals) = some [o] ∧
        MadeFrom sha1 (world p) o := by
  intro arrivals
  induction arrivals with
  | nil =>
      intro s ct answers hs hopen _ hall hrank
      obtain ⟨-, rfl⟩ := Prod.mk.inj (Option.some.inj hall)
      have hless := hs.unfinished p hopen hL
      rw [List.count_nil] at hrank
      omega
  | cons a arrivals ih =>
      intro s ct answers hs hopen husable hall hrank
      have ha := husable a List.mem_cons_self
      have hrest := fun x hx => husable x (List.mem_cons_of_mem a hx)
      obtain ⟨info, hinfo, hparent⟩ := ha.parent
      subst hparent
      obtain ⟨bytes, hbytes⟩ := Option.isSome_iff_exists.mp ha.readable
      rcases @decodeDataObject_spec cfg sha1 world s hb hs a.1 a.2 ha.honest with
        ⟨t, -, hr, ht, hflags, hwhy⟩ |
        ⟨info', bytes', d, answers₁, t, returned, hinfo', hbytes', -, -, hall₁, ht, hstorage, hr,
          hcase⟩
      · -- none of the reasons to ignore it is there
        exfalso
        rcases hwhy with hdup | hnone | ⟨info', hinfo', hdone⟩ | hnone
        · rw [ha.new] at hdup
          cases hdup
        · rw [hinfo] at hnone
          cases hnone
        · rw [hinfo] at hinfo'
          injection hinfo' with hinfo'
          rw [← hinfo', hopen] at hdone
          cases hdone
        · rw [hbytes] at hnone
          cases hnone
      · rw [hinfo] at hinfo'
        injection hinfo' with hinfo'
        subst hinfo'
        have hstep : handle cfg sha1 s (.arrived a.1 a.2) = some (t, returned) := by
          rw [handle]
          simp only [if_neg (Nat.pos_iff_ne_zero.mp hb), hr]
        unfold arrivalEvents
        rw [List.map_cons, returnedBy, hstep, Option.bind_some]
        by_cases hfull : d.codetorrent.buf.length =
            numBlocks (world info.originalDataObjectId).length cfg.blockSize
        · -- this block completes the decoder
          rw [if_pos hfull] at hcase
          obtain ⟨-, hflags, hiff, path, hmade⟩ := hcase
          obtain ⟨o, ho⟩ := Option.isSome_iff_exists.mp (hiff.mpr ha.restorable)
          rw [ho] at hmade
          have hdone : t.isDecodingCompleted info.originalDataObjectId = true := by
            show t.decodingCompleted _ = true
            rw [hflags, Function.update_self]
          have hnothing := @returnedBy_completed cfg sha1 world hb _ arrivals t ht hdone hrest
          refine ⟨o, ?_, a.1, info, path, a.2, hmade⟩
          unfold arrivalEvents at hnothing
          rw [hnothing, ho]
          rfl
        · -- the rest brings what is still missing
          rw [if_neg hfull] at hcase
          obtain ⟨-, hflags, rfl⟩ := hcase
          have hclient : clientOf cfg (world info.originalDataObjectId) t
              info.originalDataObjectId = d.codetorrent := by
            unfold clientOf
            rw [hstorage, Function.update_self]
          have hopen' : t.isDecodingCompleted info.originalDataObjectId = false :=
            (congrFun hflags _).trans hopen
          rw [hbytes] at hbytes'
          injection hbytes' with hbytes'
          subst hbytes'
          have hsplit : arrivedBlocks cfg (world info.originalDataObjectId) (a :: arrivals) =
              cfg.blocksOf (world info.originalDataObjectId) a.1 bytes ++
                arrivedBlocks cfg (world info.originalDataObjectId) arrivals := by
            unfold arrivedBlocks
            rw [List.flatMap_cons, hbytes]
            rfl
          rw [hsplit, storeAll_append, hall₁, Option.bind_some, Option.map_eq_some_iff] at hall
          obtain ⟨⟨ct₂, answers₂⟩, hall₂, heq⟩ := hall
          obtain ⟨rfl, rfl⟩ := Prod.mk.inj heq
          -- what was stored is what the answers say
          obtain ⟨ct', answers', hall', -, hlen⟩ := clientInv_storeAll
            (numBlocks_bounds hL hb).1 _ _ (clientInv_clientOf hb hs hL)
            (ha.honest.blocks info bytes hinfo hbytes)
          rw [hall₁] at hall'
          obtain ⟨rfl, rfl⟩ := Prod.mk.inj (Option.some.inj hall')
          dsimp only at hall₂ hrank
          rw [List.count_append] at hrank
          obtain ⟨o, ho, hmade⟩ := @ih t ct₂ answers₂ ht hopen' hrest (by rw [hclient]; exact hall₂)
            (by rw [hclient, hlen]; omega)
          refine ⟨o, ?_, hmade⟩
          unfold arrivalEvents at ho
          rw [ho]
          rfl

end Enough

variable {w : CompletionRun}

/-! ## Runs -/

/-- A storage, and how many objects of each parent were returned since it was deleted. -/
abbrev CompletionRun := NetworkCodingDecoderStorage × (CString → Nat)

/-- A returned object is counted for the parent of the block; a deletion starts anew. -/
def countReturned (e : DecoderEvent) (returned : Option DataObject) (since : CString → Nat) :
    CString → Nat :=
  match e with
  | .arrived _ dObj =>
      match returned, blockInfo dObj with
      | some _, some info => Function.update since info.originalDataObjectId
          (since info.originalDataObjectId + 1)
      | _, _ => since
  | .deleted ids => fun p => if p ∈ ids then 0 else since p
  | _ => since

/-- One event, with what it returns written down. -/
def completing (cfg : DecoderConfiguration) (sha1 : Digest) (w : CompletionRun)
    (e : DecoderEvent) : Option CompletionRun :=
  (handle cfg sha1 w.1 e).map (fun r => (r.1, countReturned e r.2 w.2))

/-- Before anything has happened. -/
def CompletionRun.start : CompletionRun := (.empty, fun _ => 0)

/--
A parent is completed exactly while its object has been returned and not been deleted since, it
was returned once, and where it is not there enough innovative blocks return it.
-/
structure Repeats (cfg : DecoderConfiguration) (sha1 : Digest) (world : CString → List Symbol)
    (w : CompletionRun) : Prop where
  completed : ∀ p, w.1.isDecodingCompleted p = true ↔ w.2 p ≠ 0
  once : ∀ p, w.2 p ≤ 1
  again : ∀ p, w.2 p = 0 → 0 < cfg.blockSize → 0 < (world p).length →
    ∀ arrivals, (∀ a ∈ arrivals, Usable cfg world p a) → ∀ ct answers,
      storeAll (clientOf cfg (world p) w.1 p) (arrivedBlocks cfg (world p) arrivals) =
        some (ct, answers) →
      numBlocks (world p).length cfg.blockSize ≤
        (clientOf cfg (world p) w.1 p).rankVec.getD 0 0 + answers.count true →
      ∃ o, returnedBy cfg sha1 w.1 (arrivalEvents arrivals) = some [o] ∧ MadeFrom sha1 (world p) o

/-- A block that completes the decoder is one that the object can be made from, and what is
deleted is not completed. -/
def Undisturbed (cfg : DecoderConfiguration) (sha1 : Digest) (s : NetworkCodingDecoderStorage) :
    DecoderEvent → Prop
  | .arrived env dObj => 0 < cfg.blockSize →
      (∃ r, receiveBlock cfg sha1 s env dObj = some r ∧ r.isDecoded = true) →
      env.decodedFileOpens = true ∧ Restorable dObj
  | .deleted ids => ∀ p ∈ ids, s.isDecodingCompleted p = false
  | _ => True

/-- What a run keeps. -/
structure CompletionInv (cfg : DecoderConfiguration) (world : CString → List Symbol)
    (w : CompletionRun) : Prop where
  storage : 0 < cfg.blockSize → StorageInv cfg world w.1
  completed : ∀ p, w.1.isDecodingCompleted p = true ↔ w.2 p ≠ 0
  once : ∀ p, w.2 p ≤ 1

variable {cfg : DecoderConfiguration} {sha1 : Digest} {world : CString → List Symbol}

theorem completionInv_start : CompletionInv cfg world .start where
  storage hb := storageInv_empty hb
  completed p := by simp [CompletionRun.start, NetworkCodingDecoderStorage.empty,
    NetworkCodingDecoderStorage.isDecodingCompleted]
  once p := Nat.zero_le 1

theorem CompletionInv.repeats (h : CompletionInv cfg world w) : Repeats cfg sha1 world w where
  completed := h.completed
  once := h.once
  again p hnone hb hL arrivals husable ct answers hall hrank := by
    have hs := h.storage hb
    have hopen : w.1.isDecodingCompleted p = false := by
      rw [Bool.eq_false_iff]
      intro hdone
      exact (h.completed p).mp hdone hnone
    rw [(clientInv_clientOf hb hs hL).ranks.1] at hrank
    exact returnedBy_enough hb hL arrivals hs hopen husable hall hrank

/-- Only arrivals return something, and only deletions start anew. -/
theorem countReturned_other {e : DecoderEvent} {since : CString → Nat} (p : CString)
    (hids : ∀ ids, e = .deleted ids → p ∉ ids) : countReturned e none since p = since p := by
  cases e with
  | deleted ids =>
      show (if p ∈ ids then 0 else since p) = since p
      rw [if_neg (hids ids rfl)]
  | arrived env dObj => rfl
  | agingDecoder expired => rfl
  | reconstructed id => rfl
  | deleteAssociated id => rfl

/-- What an arrival that is not disturbed keeps. -/
theorem CompletionInv.arrived (h : CompletionInv cfg world w) {env : DecoderSurroundings}
    {dObj : DataObject} (hhonest : Honest cfg world env dObj)
    (hok : Undisturbed cfg sha1 w.1 (.arrived env dObj)) :
    ∃ w', completing cfg sha1 w (.arrived env dObj) = some w' ∧ CompletionInv cfg world w' := by
  by_cases hb : cfg.blockSize = 0
  · refine ⟨w, ?_, h⟩
    simp only [completing, handle, if_pos hb, Option.map_some]
    rfl
  have hpos : 0 < cfg.blockSize := Nat.pos_of_ne_zero hb
  rcases @decodeDataObject_spec cfg sha1 world w.1 hpos (h.storage hpos) env dObj hhonest with
    ⟨t, -, hr, ht, hflags, -⟩ |
    ⟨info, bytes, d, answers, t, returned, hinfo, -, hopen, -, -, ht, -, hr, hcase⟩
  · -- ignored
    refine ⟨(t, w.2), ?_, fun _ => ht, fun p => ?_, h.once⟩
    · simp only [completing, handle, if_neg hb, hr, Option.map_some]
      rfl
    · rw [← h.completed p]
      exact iff_of_eq (congrArg (· = true) (congrFun hflags p))
  · have hstep : completing cfg sha1 w (.arrived env dObj) =
        some (t, countReturned (.arrived env dObj) returned w.2) := by
      simp only [completing, handle, if_neg hb, hr, Option.map_some]
    by_cases hfull : d.codetorrent.buf.length =
        numBlocks (world info.originalDataObjectId).length cfg.blockSize
    · -- completed, and the object is made
      rw [if_pos hfull] at hcase
      obtain ⟨hdecoded, hflags, hiff, -⟩ := hcase
      obtain ⟨o, ho⟩ := Option.isSome_iff_exists.mp (hiff.mpr (hok hpos hdecoded))
      have hzero : w.2 info.originalDataObjectId = 0 := by
        by_contra hne
        rw [(h.completed _).mpr hne] at hopen
        cases hopen
      have hcount : countReturned (.arrived env dObj) returned w.2 =
          Function.update w.2 info.originalDataObjectId 1 := by
        show (match returned, blockInfo dObj with
          | some _, some info => _
          | _, _ => w.2) = _
        rw [ho, hinfo]
        dsimp only
        rw [hzero]
      rw [hcount] at hstep
      refine ⟨_, hstep, fun _ => ht, fun p => ?_, fun p => ?_⟩
      · show t.decodingCompleted p = true ↔ Function.update w.2 _ 1 p ≠ 0
        rw [hflags]
        by_cases hp : p = info.originalDataObjectId
        · subst hp
          rw [Function.update_self, Function.update_self]
          exact iff_of_true rfl Nat.one_ne_zero
        · rw [Function.update_of_ne hp, Function.update_of_ne hp]
          exact h.completed p
      · show Function.update w.2 _ 1 p ≤ 1
        by_cases hp : p = info.originalDataObjectId
        · subst hp
          rw [Function.update_self]
        · rw [Function.update_of_ne hp]
          exact h.once p
    · -- stored, and more is needed
      rw [if_neg hfull] at hcase
      obtain ⟨-, hflags, rfl⟩ := hcase
      refine ⟨_, hstep, fun _ => ht, fun p => ?_, h.once⟩
      show t.decodingCompleted p = true ↔ _
      rw [hflags]
      exact h.completed p

/-- What is not an arrival returns, and keeps the flags. -/
theorem handle_total {s : NetworkCodingDecoderStorage} {e : DecoderEvent}
    (he : ∀ env dObj, e ≠ .arrived env dObj) :
    ∃ t, handle cfg sha1 s e = some (t, none) ∧ Shrunk s t := by
  cases e with
  | arrived env dObj => exact absurd rfl (he env dObj)
  | agingDecoder expired => exact ⟨_, rfl, shrunk_ageOffLoop expired _ 0 s⟩
  | deleted ids => exact ⟨_, rfl, shrunk_forgetAll ids s⟩
  | reconstructed id => exact ⟨_, rfl, shrunk_delete s id⟩
  | deleteAssociated id => exact ⟨_, rfl, shrunk_forget s id⟩

/-- **An undisturbed event keeps the account.** -/
theorem CompletionInv.step {w : CompletionRun} (h : CompletionInv cfg world w) {e : DecoderEvent}
    (hhonest : e.Honest cfg world) (hok : Undisturbed cfg sha1 w.1 e) :
    ∃ w', completing cfg sha1 w e = some w' ∧ CompletionInv cfg world w' := by
  by_cases harrived : ∃ env dObj, e = .arrived env dObj
  · obtain ⟨env, dObj, rfl⟩ := harrived
    exact h.arrived hhonest hok
  · obtain ⟨t, ht, hshrunk⟩ := @handle_total cfg sha1 w.1 e
      (fun env dObj heq => harrived ⟨env, dObj, heq⟩)
    -- what is deleted was not there
    have hsame : ∀ p, countReturned e none w.2 p = w.2 p := by
      intro p
      by_cases hdeleted : ∃ ids, e = .deleted ids ∧ p ∈ ids
      · obtain ⟨ids, rfl, hp⟩ := hdeleted
        show (if p ∈ ids then 0 else w.2 p) = w.2 p
        rw [if_pos hp]
        by_contra hne
        have hdone := (h.completed p).mpr (Ne.symm hne)
        rw [hok p hp] at hdone
        cases hdone
      · exact countReturned_other p (fun ids heq hp => hdeleted ⟨ids, heq, hp⟩)
    refine ⟨(t, countReturned e none w.2), by rw [completing, ht]; rfl, fun hb => ?_, fun p => ?_,
      fun p => ?_⟩
    · exact (h.storage hb).shrunk hb hshrunk
    · show t.decodingCompleted p = true ↔ countReturned e none w.2 p ≠ 0
      rw [hshrunk.completed, hsame p]
      exact h.completed p
    · show countReturned e none w.2 p ≤ 1
      rw [hsame p]
      exact h.once p

/-- **An event that leaves the account right was undisturbed.** -/
theorem CompletionInv.undisturbed {w' : CompletionRun} (h : CompletionInv cfg world w)
    {e : DecoderEvent} (hhonest : e.Honest cfg world) (hstep : completing cfg sha1 w e = some w')
    (hgood : Repeats cfg sha1 world w') : Undisturbed cfg sha1 w.1 e := by
  obtain ⟨⟨t, returned⟩, hhandle, rfl⟩ := Option.map_eq_some_iff.mp hstep
  cases e with
  | arrived env dObj =>
      rintro hb ⟨r, hr, hdecoded⟩
      rcases @decodeDataObject_spec cfg sha1 world w.1 hb (h.storage hb) env dObj hhonest with
        ⟨t', hignored, -⟩ |
        ⟨info, bytes, d, answers, t', returned', hinfo, -, hopen, -, -, -, -, hr', hcase⟩
      · -- an ignored block is not decoded
        rw [hr] at hignored
        injection hignored with hignored
        rw [hignored] at hdecoded
        cases hdecoded
      · by_cases hfull : d.codetorrent.buf.length =
            numBlocks (world info.originalDataObjectId).length cfg.blockSize
        · rw [if_pos hfull] at hcase
          obtain ⟨-, hflags, hiff, -⟩ := hcase
          rw [handle, if_neg (Nat.pos_iff_ne_zero.mp hb), hr'] at hhandle
          obtain ⟨rfl, rfl⟩ := Prod.mk.inj (Option.some.inj hhandle)
          refine hiff.mp ?_
          -- completed without an object: the account is wrong
          by_contra hnone
          rw [Bool.not_eq_true, Option.isSome_eq_false_iff, Option.isNone_iff_eq_none] at hnone
          subst hnone
          have hdone : t'.isDecodingCompleted info.originalDataObjectId = true := by
            show t'.decodingCompleted _ = true
            rw [hflags, Function.update_self]
          rw [(h.completed _).mpr ((hgood.completed _).mp hdone)] at hopen
          cases hopen
        · rw [if_neg hfull] at hcase
          obtain ⟨⟨r', hr'', hstored⟩, -⟩ := hcase
          rw [hr] at hr''
          injection hr'' with hr''
          rw [← hr'', hdecoded] at hstored
          cases hstored
  | deleted ids =>
      intro p hp
      rw [Bool.eq_false_iff]
      intro hdone
      obtain ⟨rfl, -⟩ := Prod.mk.inj (Option.some.inj hhandle)
      have hdone' : (ids.foldl forget w.1).isDecodingCompleted p = true := by
        unfold NetworkCodingDecoderStorage.isDecodingCompleted
        rw [(shrunk_forgetAll ids w.1).completed]
        exact hdone
      refine (hgood.completed p).mp hdone' ?_
      show (if p ∈ ids then 0 else w.2 p) = 0
      rw [if_pos hp]
  | agingDecoder expired => trivial
  | reconstructed id => trivial
  | deleteAssociated id => trivial

/--
**Decoding completes once and again, exactly in undisturbed runs.** Whatever honest blocks
arrive, whenever decoders are aged off and objects deleted: a parent is completed in every state
exactly while its object is there, and enough innovative blocks return one that is not there, if
and only if every block that completed a decoder was one that the object could be made from, and
no object was deleted that was completed.
-/
theorem decoding_repeats_iff (cfg : DecoderConfiguration) (sha1 : Digest)
    (world : CString → List Symbol) (es : List DecoderEvent)
    (hhonest : ∀ e ∈ es, e.Honest cfg world) :
    (∀ pre post, es = pre ++ post →
        ∃ w, run (completing cfg sha1) .start pre = some w ∧ Repeats cfg sha1 world w) ↔
      Guarded (completing cfg sha1) (fun w e => Undisturbed cfg sha1 w.1 e) .start es :=
  @run_wanted_iff CompletionRun DecoderEvent (completing cfg sha1)
    (fun w e => Undisturbed cfg sha1 w.1 e) (CompletionInv cfg world) (Repeats cfg sha1 world)
    (fun e => e.Honest cfg world) (fun _ h => h.repeats)
    (fun _ _ h hmeant hok => h.step hmeant hok)
    (fun _ _ _ h hmeant hstep hgood => h.undisturbed hmeant hstep hgood)
    es .start completionInv_start hhonest

/-- The file of one byte, whichever parent is asked for. -/
def byteWorld : CString → List Symbol := fun _ => [Symbol.ofNat 7]

theorem byteBlock_honest : Honest byteConfiguration byteWorld byteSurroundings byteBlock where
  blockSize := by decide
  size := by
    intro info hinfo
    have hsizes : ((blockInfo byteBlock).map BlockInfo.originalDataFileSize) = some 1 := by
      decide +kernel
    rw [hinfo] at hsizes
    exact Option.some.inj hsizes
  blocks := by
    intro info bytes _ hbytes
    have hread : readBlockFile byteSurroundings byteBlock =
        some [Symbol.ofNat 1, Symbol.ofNat 7] := by decide +kernel
    rw [hread] at hbytes
    injection hbytes with hbytes
    subst hbytes
    intro x hx
    have hn : numBlocks (byteWorld info.originalDataObjectId).length byteConfiguration.blockSize =
        1 := by
      show numBlocks 1 1 = 1
      decide
    unfold DecoderConfiguration.blocksOf at hx
    rw [hn] at hx ⊢
    rw [List.mem_singleton.mp hx]
    refine ⟨rfl, ⟨rfl, rfl⟩, ⟨rfl, rfl⟩, ?_⟩
    intro j hj
    have hone : byteConfiguration.blockSize = 1 := rfl
    have hzero : j = 0 := by omega
    subst hzero
    show Symbol.ofNat 7 = ∑ i ∈ Finset.range 1, [Symbol.ofNat 1].getD i 0 *
      source [Symbol.ofNat 7] 1 i 0
    rw [Finset.sum_range_one]
    exact (one_mul (Symbol.ofNat 7)).symm
  times := by
    intro a ha hname
    have hall : ∀ a ∈ byteBlock.attrs, a.name = attrNetworkcodingParentCreationTime →
        (timeOf a).isSome = true := by decide +kernel
    exact hall a ha hname

/-- The byte is returned, and its decoder aged off. -/
def byteEvents : List DecoderEvent :=
  [.arrived byteSurroundings byteBlock, .agingDecoder (fun _ => true)]

theorem decoding_repeats_byte :
    (∀ pre post, byteEvents = pre ++ post →
        ∃ w, run (completing byteConfiguration flatHash) .start pre = some w ∧
          Repeats byteConfiguration flatHash byteWorld w) ↔
      Guarded (completing byteConfiguration flatHash)
        (fun w e => Undisturbed byteConfiguration flatHash w.1 e) .start byteEvents := by
  refine decoding_repeats_iff byteConfiguration flatHash byteWorld byteEvents ?_
  intro e he
  simp only [byteEvents, List.mem_cons, List.not_mem_nil, or_false] at he
  rcases he with rfl | rfl
  · exact byteBlock_honest
  · trivial

/-- The byte comes back, is deleted, and comes again. -/
def deletedByte : List DecoderEvent :=
  [.arrived byteSurroundings byteBlock, .deleted [getIdStr flatHash byteObject],
    .arrived byteSurroundings byteBlock]

/-- **The flag outlives the object.** After the deletion no block brings the object back. -/
theorem deleted_stays_completed :
    ∃ w, run (completing byteConfiguration flatHash) .start deletedByte = some w ∧
      w.1.isDecodingCompleted (getIdStr flatHash byteObject) = true ∧
      w.2 (getIdStr flatHash byteObject) = 0 ∧
      ¬ Repeats byteConfiguration flatHash byteWorld w := by
  have hran : (run (completing byteConfiguration flatHash) .start deletedByte).map
      (fun w => (w.1.isDecodingCompleted (getIdStr flatHash byteObject),
        w.2 (getIdStr flatHash byteObject))) = some (true, 0) := by decide +kernel
  obtain ⟨w, hw, hflags⟩ := Option.map_eq_some_iff.mp hran
  obtain ⟨hdone, hnone⟩ := Prod.mk.inj hflags
  refine ⟨w, hw, hdone, hnone, ?_⟩
  intro hgood
  exact (hgood.completed _).mp hdone hnone

end Encoders.Coding
