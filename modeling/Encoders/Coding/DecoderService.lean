import Encoders.Lib.Run
import Encoders.Coding.BlockObject
import Encoders.Coding.CodeTorrent

/-!
# Decoding coded blocks

`NetworkCodingDecoderStorage` and `decodeDataObject` of `NetworkCodingDecoderService`. The
storage keeps, by the id of the parent object, a decoder, whether decoding is completed, the
blocks that came in and when the decoder was last used. Each block that arrives is fed to the
decoder of its parent, and when that can decode, the parent is made from the file it writes
and the attributes of the block that arrived last.

A decoder that has not been used for long is aged off. `NetworkCodingManager` throws decoder
and blocks away when the parent is received as a whole, and when it is deleted.

The map of last uses is an array in order of the keys, and an iterator is a position in it. The
other maps are finite maps. Which times are over when decoders age is taken from the
surroundings, where doubles are added to them.
-/

namespace Encoders.Coding

open Encoders.Lib Encoders.Data

/-! ## Decoders -/

/-- `atoi` -/
def atoi (text : CString) : Int := (strtol (chars text)).bmod 4294967296

/-- `class codetorrentdecoder` -/
structure CodetorrentDecoder where
  filepath : CString
  codetorrent : CodeTorrent

/-- The constructor: at least one block in the only generation. -/
def CodetorrentDecoder.new (fileSize : Nat) (outputFile : CString) (blockSize : Nat) :
    CodetorrentDecoder :=
  let numBlocksPerGen := numBlocks fileSize blockSize
  let numBlocksPerGen := if numBlocksPerGen = 0 then 1 else numBlocksPerGen
  ⟨outputFile, initClient fileSize blockSize numBlocksPerGen⟩

/-- `getNumberOfBlocksPerGen` -/
def CodetorrentDecoder.getNumberOfBlocksPerGen (d : CodetorrentDecoder) : Nat :=
  d.codetorrent.numBlocksGen.getD 0 0

/-- The block that `store_block` makes of the bytes at a place of the file that was read. -/
def CodetorrentDecoder.blockAt (d : CodetorrentDecoder) (coeffsLen : Nat) (bytes : List Symbol) :
    CodedBlock where
  gen := 0
  numBlocksGen := d.getNumberOfBlocksPerGen
  blockSize := d.codetorrent.blockSize
  coeffs := bytes.take coeffsLen
  sums := (bytes.drop coeffsLen).take d.codetorrent.blockSize

/-- The loop over the blocks in one file. Beyond the end of the file there is nothing to read. -/
def CodetorrentDecoder.storeBlocks (coeffsLen blockSize : Nat) (draws : Nat → List Nat) :
    Nat → List Symbol → CodetorrentDecoder → Option CodetorrentDecoder
  | 0, _, d => some d
  | n + 1, bytes, d =>
      if bytes.length < coeffsLen + blockSize then none
      else do
        let (ct, _) ← d.codetorrent.storeBlock (draws n) (d.blockAt coeffsLen bytes)
        storeBlocks coeffsLen blockSize draws n (bytes.drop (coeffsLen + blockSize))
          { d with codetorrent := ct }

/-! ## Storage -/

/-- The members of the storage, and the objects the data store has been asked to delete. -/
structure NetworkCodingDecoderStorage where
  decoderStorage : CString → Option CodetorrentDecoder
  decodingCompleted : CString → Bool
  networkCodedBlocks : CString → List CString
  networkCodedDecoderLastUsedTime : List (CString × CString)
  disposed : List CString

/-- `map[id] = time` in the map of last uses. -/
def setLastUsedTime (id time : CString) : List (CString × CString) → List (CString × CString)
  | [] => [(id, time)]
  | x :: xs =>
      if x.1 < id then x :: setLastUsedTime id time xs
      else if x.1 = id then (id, time) :: xs
      else (id, time) :: x :: xs

namespace NetworkCodingDecoderStorage

/-- A storage that has seen nothing. -/
def empty : NetworkCodingDecoderStorage where
  decoderStorage := fun _ => none
  decodingCompleted := fun _ => false
  networkCodedBlocks := fun _ => []
  networkCodedDecoderLastUsedTime := []
  disposed := []

/-- `isDecodingCompleted` -/
def isDecodingCompleted (s : NetworkCodingDecoderStorage) (originalDataObjectId : CString) : Bool :=
  s.decodingCompleted originalDataObjectId

/-- `setDecodingCompleted` -/
def setDecodingCompleted (s : NetworkCodingDecoderStorage) (originalDataObjectId : CString) :
    NetworkCodingDecoderStorage :=
  { s with decodingCompleted := Function.update s.decodingCompleted originalDataObjectId true }

/-- `trackNetworkCodedBlock`: the newest block is in front. -/
def trackNetworkCodedBlock (s : NetworkCodingDecoderStorage)
    (originalDataObjectId networkCodedDataObjectId : CString) : NetworkCodingDecoderStorage :=
  { s with
    networkCodedBlocks := Function.update s.networkCodedBlocks originalDataObjectId
      (networkCodedDataObjectId :: s.networkCodedBlocks originalDataObjectId) }

/-- `trackDecoderLastUsedTime` -/
def trackDecoderLastUsedTime (s : NetworkCodingDecoderStorage) (dataObjectId : CString)
    (now : Timeval) : NetworkCodingDecoderStorage :=
  { s with
    networkCodedDecoderLastUsedTime :=
      setLastUsedTime dataObjectId now.getAsString s.networkCodedDecoderLastUsedTime }

/-- A decoder that has read more blocks. -/
def putDecoder (s : NetworkCodingDecoderStorage) (dataObjectId : CString)
    (d : CodetorrentDecoder) : NetworkCodingDecoderStorage :=
  { s with decoderStorage := Function.update s.decoderStorage dataObjectId (some d) }

/-- The decoder `getDecoder` finds or makes. -/
def foundDecoder (s : NetworkCodingDecoderStorage) (blockSize : Nat)
    (originalDataObjectId : CString) (originalDataFileSize : Nat) (decodedFilePath : CString) :
    CodetorrentDecoder :=
  (s.decoderStorage originalDataObjectId).getD
    (CodetorrentDecoder.new originalDataFileSize decodedFilePath blockSize)

/-- `getDecoder` -/
def getDecoder (s : NetworkCodingDecoderStorage) (blockSize : Nat)
    (originalDataObjectId : CString) (originalDataFileSize : Nat) (decodedFilePath : CString)
    (now : Timeval) : NetworkCodingDecoderStorage × CodetorrentDecoder :=
  let d := s.foundDecoder blockSize originalDataObjectId originalDataFileSize decodedFilePath
  ((s.putDecoder originalDataObjectId d).trackDecoderLastUsedTime originalDataObjectId now, d)

/-- `disposeNetworkCodedBlocks` -/
def disposeNetworkCodedBlocks (s : NetworkCodingDecoderStorage) (originalDataObjectId : CString) :
    NetworkCodingDecoderStorage :=
  { s with
    disposed := s.disposed ++ s.networkCodedBlocks originalDataObjectId
    networkCodedBlocks := Function.update s.networkCodedBlocks originalDataObjectId [] }

/-- `deleteDecoderFromStorageByDataObjectId` -/
def deleteDecoderFromStorageByDataObjectId (s : NetworkCodingDecoderStorage)
    (parentDataObjectId : CString) : NetworkCodingDecoderStorage :=
  { s with
    decoderStorage := Function.update s.decoderStorage parentDataObjectId none
    networkCodedDecoderLastUsedTime :=
      s.networkCodedDecoderLastUsedTime.filter (fun x => x.1 ≠ parentDataObjectId) }

/-- The loop of `ageOffDecoder`. After an erasure the next position is one behind the next entry. -/
def ageOffLoop (expired : CString → Bool) :
    Nat → Nat → NetworkCodingDecoderStorage → NetworkCodingDecoderStorage
  | 0, _, s => s
  | rounds + 1, i, s =>
      match s.networkCodedDecoderLastUsedTime[i]? with
      | none => s
      | some (dataObjectId, timeSendEvent) =>
          let s :=
            if expired timeSendEvent then
              (s.deleteDecoderFromStorageByDataObjectId dataObjectId).disposeNetworkCodedBlocks
                dataObjectId
            else s
          ageOffLoop expired rounds (i + 1) s

/-- `ageOffDecoder` -/
def ageOffDecoder (expired : CString → Bool) (s : NetworkCodingDecoderStorage) :
    NetworkCodingDecoderStorage :=
  ageOffLoop expired s.networkCodedDecoderLastUsedTime.length 0 s

end NetworkCodingDecoderStorage

variable {cfg : DecoderConfiguration} {s s' : NetworkCodingDecoderStorage}
variable {sha1 : Digest} {env : DecoderSurroundings} {r : Received}

/-! ## Service -/

/-- The part of `NetworkCodingConfiguration` that the service reads. The block size is a `size_t`
there, and the decoder has what is left of it in an `int`. -/
structure DecoderConfiguration where
  blockSize : Nat
  numberOfBlocksPerDataObject : Int

/-- What a call finds around it: the clock, the block's file, random numbers, and whether the
file that the decoder writes can be read again. -/
structure DecoderSurroundings where
  isDuplicate : Bool
  now : Timeval
  timeStamp : CString
  storagePath : CString
  blockFile : Option (List Symbol)
  draws : Nat → List Nat
  decodedFileOpens : Bool

/-- What a block says about its parent. -/
structure BlockInfo where
  originalDataObjectId : CString
  originalDataFileSize : Nat
  originalFileName : CString

/-- The checks at the start of `decodeDataObject`. -/
def blockInfo (dObj : DataObject) : Option BlockInfo := do
  if dObj.hasAttribute ⟨attrNetworkcodingName, lit "TRUE", 1⟩ then
    let originalDataObjectId ← getAttributeValue dObj attrParentDataobjectId
    let originalLen ← getAttributeValue dObj attrNetworkcodingParentOrigLen
    let originalFileName ← getAttributeValue dObj attrNetworkcodingParentOrigName
    let originalDataFileSize := (atoi originalLen % 18446744073709551616).toNat
    if originalDataFileSize = 0 then none
    else some ⟨originalDataObjectId, originalDataFileSize, originalFileName⟩
  else none

/-- `createDecodedBlockFileName` and `createDecodedBlockFilePath` -/
def decodedFilePath (env : DecoderSurroundings) (originalFileName : CString) : CString :=
  env.storagePath ++ lit "/" ++ originalFileName ++ lit "." ++ env.timeStamp ++ lit ".dc"

/-- The file of the block, read in one piece. -/
def readBlockFile (env : DecoderSurroundings) (dObj : DataObject) : Option (List Symbol) :=
  env.blockFile.bind (fun bytes =>
    if dObj.dataLen = 0 ∨ bytes.length < dObj.dataLen.toNat then none
    else some (bytes.take dObj.dataLen.toNat))

/-- What became of a block. -/
inductive Received where
  /-- The decoder does not get it: no block, a block that is not needed, or no file. -/
  | ignored (s : NetworkCodingDecoderStorage)
  /-- The decoder has it. -/
  | stored (s : NetworkCodingDecoderStorage)
  /-- It has it, and has decoded: the file it has written, and where. -/
  | decoded (s : NetworkCodingDecoderStorage) (info : BlockInfo) (filepath : CString)
      (file : List Symbol)

/-- The block is tracked, and the decoder of its parent found or made. -/
def enterBlock (cfg : DecoderConfiguration) (sha1 : Digest) (s : NetworkCodingDecoderStorage)
    (env : DecoderSurroundings) (dObj : DataObject) (info : BlockInfo) :
    NetworkCodingDecoderStorage × CodetorrentDecoder :=
  (s.trackNetworkCodedBlock info.originalDataObjectId (getIdStr sha1 dObj)).getDecoder
    cfg.blockSize info.originalDataObjectId info.originalDataFileSize
    (decodedFilePath env info.originalFileName) env.now

/-- The file of a block is given to the decoder, which decodes if it can. -/
def storeFile (cfg : DecoderConfiguration) (env : DecoderSurroundings) (info : BlockInfo)
    (bytes : List Symbol) (w : NetworkCodingDecoderStorage × CodetorrentDecoder) :
    Option Received := do
  let id := info.originalDataObjectId
  let d ← CodetorrentDecoder.storeBlocks w.2.getNumberOfBlocksPerGen cfg.blockSize
    env.draws cfg.numberOfBlocksPerDataObject.toNat bytes w.2
  let s := w.1.putDecoder id d
  match d.codetorrent.decode with
  | none => some (.stored s)
  | some file => some (.decoded (s.setDecodingCompleted id) info d.filepath file)

/-- `decodeDataObject` up to `decode`, and `setDecodingCompleted`. -/
def receiveBlock (cfg : DecoderConfiguration) (sha1 : Digest) (s : NetworkCodingDecoderStorage)
    (env : DecoderSurroundings) (dObj : DataObject) : Option Received :=
  if env.isDuplicate then some (.ignored s)
  else
    match blockInfo dObj with
    | none => some (.ignored s)
    | some info =>
        let w := enterBlock cfg sha1 s env dObj info
        if w.1.isDecodingCompleted info.originalDataObjectId then some (.ignored w.1)
        else
          match readBlockFile env dObj with
          | none => some (.ignored w.1)
          | some bytes => storeFile cfg env info bytes w

/-- Bytes of a file. -/
def fileBytes (file : List Symbol) : List UInt8 := file

/-- The end of `decodeDataObject`: the object made from the file, with the attributes of the
block. The inner `none` is the return value `NULL`. -/
def reconstruct (sha1 : Digest) (env : DecoderSurroundings) (info : BlockInfo)
    (filepath : CString) (file : List Symbol) (dObj : DataObject) : Option (Option DataObject) :=
  match create sha1 filepath info.originalFileName
      (if env.decodedFileOpens then some (fileBytes file) else none) env.now with
  | none => some none
  | some dataObjectReceived =>
      (NetworkCodingDataObjectUtility.copyAttributesToDataObject
        { dataObjectReceived with persistent := true } dObj).map
        (fun copied => copied.map restoreEncryptedDataObject)

/-- `decodeDataObject`: the storage afterwards, and the object that is returned, if any. -/
def decodeDataObject (cfg : DecoderConfiguration) (sha1 : Digest)
    (s : NetworkCodingDecoderStorage) (env : DecoderSurroundings) (dObj : DataObject) :
    Option (NetworkCodingDecoderStorage × Option DataObject) :=
  match receiveBlock cfg sha1 s env dObj with
  | none => none
  | some (.ignored s) => some (s, none)
  | some (.stored s) => some (s, none)
  | some (.decoded s info filepath file) =>
      (reconstruct sha1 env info filepath file dObj).map (fun returned => (s, returned))

/-! ## Manager -/

/-- What happens to a storage. -/
inductive DecoderEvent where
  /-- A block that is new, decoded in its task. -/
  | arrived (env : DecoderSurroundings) (dObj : DataObject)
  /-- `onAgingDecoderNetworkCoding` -/
  | agingDecoder (expired : CString → Bool)
  /-- `onDeletedDataObject`, with the ids of what is neither node description nor control message. -/
  | deleted (ids : List CString)
  /-- `EVENT_TYPE_DATAOBJECT_RECEIVED` with the flag `RECONSTRUCTED`. -/
  | reconstructed (id : CString)
  /-- `onDeleteAssociatedNetworkCodedBlocks` -/
  | deleteAssociated (id : CString)

/-- `disposeNetworkCodedBlocks` and `deleteDecoderFromStorageByDataObjectId`, as both handlers
call them. -/
def forget (s : NetworkCodingDecoderStorage) (id : CString) : NetworkCodingDecoderStorage :=
  (s.disposeNetworkCodedBlocks id).deleteDecoderFromStorageByDataObjectId id

/-- One event: the storage afterwards, and the object that was put together, if any. -/
def handle (cfg : DecoderConfiguration) (sha1 : Digest) (s : NetworkCodingDecoderStorage) :
    DecoderEvent → Option (NetworkCodingDecoderStorage × Option DataObject)
  | .arrived env dObj =>
      -- without a block size blocks are ignored
      if cfg.blockSize = 0 then some (s, none) else decodeDataObject cfg sha1 s env dObj
  | .agingDecoder expired => some (s.ageOffDecoder expired, none)
  | .deleted ids => some (ids.foldl forget s, none)
  | .reconstructed id => some (s.deleteDecoderFromStorageByDataObjectId id, none)
  | .deleteAssociated id => some (forget s id, none)

/-! ## What the handlers change -/

/-- Decoders were thrown away at most, and what is completed stays so. -/
structure Shrunk (s s' : NetworkCodingDecoderStorage) : Prop where
  completed : s'.decodingCompleted = s.decodingCompleted
  decoders : ∀ id, s'.decoderStorage id = none ∨ s'.decoderStorage id = s.decoderStorage id

theorem Shrunk.refl (s : NetworkCodingDecoderStorage) : Shrunk s s := ⟨rfl, fun _ => Or.inr rfl⟩

theorem Shrunk.trans {s s' s'' : NetworkCodingDecoderStorage} (h : Shrunk s s')
    (h' : Shrunk s' s'') : Shrunk s s'' := by
  refine ⟨h'.completed.trans h.completed, fun id => ?_⟩
  rcases h'.decoders id with hnone | heq
  · exact Or.inl hnone
  · rw [heq]
    exact h.decoders id

theorem shrunk_dispose (s : NetworkCodingDecoderStorage) (id : CString) :
    Shrunk s (s.disposeNetworkCodedBlocks id) := ⟨rfl, fun _ => Or.inr rfl⟩

theorem shrunk_delete (s : NetworkCodingDecoderStorage) (id : CString) :
    Shrunk s (s.deleteDecoderFromStorageByDataObjectId id) := by
  refine ⟨rfl, fun i => ?_⟩
  unfold NetworkCodingDecoderStorage.deleteDecoderFromStorageByDataObjectId
  dsimp only
  rw [Function.update_apply]
  split
  · exact Or.inl rfl
  · exact Or.inr rfl

theorem shrunk_forget (s : NetworkCodingDecoderStorage) (id : CString) : Shrunk s (forget s id) :=
  (shrunk_dispose s id).trans (shrunk_delete _ id)

theorem shrunk_forgetAll (ids : List CString) : ∀ s, Shrunk s (ids.foldl forget s) := by
  induction ids with
  | nil => exact Shrunk.refl
  | cons id ids ih => exact fun s => (shrunk_forget s id).trans (ih (forget s id))

theorem shrunk_ageOffLoop (expired : CString → Bool) : ∀ (rounds i : Nat) (s),
    Shrunk s (NetworkCodingDecoderStorage.ageOffLoop expired rounds i s) := by
  intro rounds
  induction rounds with
  | zero => exact fun i s => Shrunk.refl s
  | succ rounds ih =>
      intro i s
      unfold NetworkCodingDecoderStorage.ageOffLoop
      split
      · exact Shrunk.refl s
      · next id time _ =>
          have hone : Shrunk s (if expired time = true then
              (s.deleteDecoderFromStorageByDataObjectId id).disposeNetworkCodedBlocks id
              else s) := by
            split
            · exact (shrunk_delete s id).trans (shrunk_dispose _ id)
            · exact Shrunk.refl s
          exact hone.trans (ih (i + 1) _)

/-- What becomes of a block: it is left alone; it is tracked, and no more; or the decoder of its
parent reads it. -/
theorem receiveBlock_cases {dObj : DataObject} (h : receiveBlock cfg sha1 s env dObj = some r) :
    r = .ignored s ∨ ∃ info, blockInfo dObj = some info ∧
      (r = .ignored (enterBlock cfg sha1 s env dObj info).1 ∨
        s.isDecodingCompleted info.originalDataObjectId = false ∧
          ∃ bytes, readBlockFile env dObj = some bytes ∧
            storeFile cfg env info bytes (enterBlock cfg sha1 s env dObj info) = some r) := by
  unfold receiveBlock at h
  split at h
  · exact Or.inl (Option.some.inj h).symm
  · split at h
    · exact Or.inl (Option.some.inj h).symm
    · next info hinfo =>
        refine Or.inr ⟨info, hinfo, ?_⟩
        dsimp only at h
        split at h
        · exact Or.inl (Option.some.inj h).symm
        · next hopen =>
            split at h
            · exact Or.inl (Option.some.inj h).symm
            · next bytes hbytes =>
                exact Or.inr ⟨Bool.eq_false_iff.mpr hopen, bytes, hbytes, h⟩

/-- The decoder that has read a file, and what it makes of it. -/
theorem storeFile_cases {info : BlockInfo} {bytes : List Symbol}
    {w : NetworkCodingDecoderStorage × CodetorrentDecoder}
    (h : storeFile cfg env info bytes w = some r) :
    ∃ d, CodetorrentDecoder.storeBlocks w.2.getNumberOfBlocksPerGen cfg.blockSize env.draws
        cfg.numberOfBlocksPerDataObject.toNat bytes w.2 = some d ∧
      (d.codetorrent.decode = none ∧
          r = .stored (w.1.putDecoder info.originalDataObjectId d) ∨
        ∃ file, d.codetorrent.decode = some file ∧
          r = .decoded ((w.1.putDecoder info.originalDataObjectId d).setDecodingCompleted
            info.originalDataObjectId) info d.filepath file) := by
  unfold storeFile at h
  obtain ⟨d, hd, h⟩ := Option.bind_eq_some_iff.mp h
  refine ⟨d, hd, ?_⟩
  dsimp only at h
  split at h
  · next hnone => exact Or.inl ⟨hnone, (Option.some.inj h).symm⟩
  · next file hfile => exact Or.inr ⟨file, hfile, (Option.some.inj h).symm⟩

/-- Reading blocks does not change where a decoder writes. -/
theorem storeBlocks_filepath {coeffsLen blockSize : Nat} {draws : Nat → List Nat} :
    ∀ {n : Nat} {bytes : List Symbol} {d d' : CodetorrentDecoder},
      CodetorrentDecoder.storeBlocks coeffsLen blockSize draws n bytes d = some d' →
      d'.filepath = d.filepath := by
  intro n
  induction n with
  | zero =>
      intro bytes d d' h
      rw [← Option.some.inj h]
  | succ n ih =>
      intro bytes d d' h
      unfold CodetorrentDecoder.storeBlocks at h
      split at h
      · cases h
      · obtain ⟨⟨ct, _⟩, _, h⟩ := Option.bind_eq_some_iff.mp h
        dsimp only at h
        exact (ih h).trans rfl

/-- Every decoder has a file to write to. -/
def PathsSet (s : NetworkCodingDecoderStorage) : Prop :=
  ∀ id d, s.decoderStorage id = some d → d.filepath ≠ []

theorem decodedFilePath_ne (env : DecoderSurroundings) (name : CString) :
    decodedFilePath env name ≠ [] := by
  intro hnil
  have hlen := congrArg List.length hnil
  unfold decodedFilePath at hlen
  simp only [List.length_append, List.length_nil] at hlen
  have hslash : (lit "/").length = 1 := rfl
  omega

theorem PathsSet.shrunk (h : PathsSet s) (hs : Shrunk s s') : PathsSet s' := by
  intro id d hd
  rcases hs.decoders id with hnone | heq
  · rw [hnone] at hd
    cases hd
  · rw [heq] at hd
    exact h id d hd

theorem PathsSet.putDecoder (h : PathsSet s) {id : CString} {d : CodetorrentDecoder}
    (hd : d.filepath ≠ []) : PathsSet (s.putDecoder id d) := by
  intro i x hx
  unfold NetworkCodingDecoderStorage.putDecoder at hx
  dsimp only at hx
  rw [Function.update_apply] at hx
  split at hx
  · rw [← Option.some.inj hx]
    exact hd
  · exact h i x hx

theorem PathsSet.enterBlock (h : PathsSet s) (cfg : DecoderConfiguration) (sha1 : Digest)
    (env : DecoderSurroundings) (dObj : DataObject) (info : BlockInfo) :
    PathsSet (enterBlock cfg sha1 s env dObj info).1 ∧
      (Encoders.Coding.enterBlock cfg sha1 s env dObj info).2.filepath ≠ [] := by
  have hfound : (Encoders.Coding.enterBlock cfg sha1 s env dObj info).2.filepath ≠ [] := by
    unfold Encoders.Coding.enterBlock NetworkCodingDecoderStorage.getDecoder
      NetworkCodingDecoderStorage.foundDecoder NetworkCodingDecoderStorage.trackNetworkCodedBlock
    dsimp only
    cases hd : s.decoderStorage info.originalDataObjectId with
    | none => exact decodedFilePath_ne env info.originalFileName
    | some d => exact h _ d hd
  exact ⟨PathsSet.putDecoder (s := s.trackNetworkCodedBlock info.originalDataObjectId
    (getIdStr sha1 dObj)) h hfound, hfound⟩

/-- What a received block leaves behind has its files too, and so has what was decoded. -/
theorem PathsSet.receiveBlock (h : PathsSet s) {dObj : DataObject}
    (hr : receiveBlock cfg sha1 s env dObj = some r) :
    match r with
    | .ignored s' => PathsSet s'
    | .stored s' => PathsSet s'
    | .decoded s' _ path _ => PathsSet s' ∧ path ≠ [] := by
  rcases receiveBlock_cases hr with rfl | ⟨info, -, rfl | ⟨-, bytes, -, hstore⟩⟩
  · exact h
  · exact (h.enterBlock cfg sha1 env dObj info).1
  · obtain ⟨hs, hd⟩ := h.enterBlock cfg sha1 env dObj info
    obtain ⟨d, hblocks, ⟨-, rfl⟩ | ⟨file, -, rfl⟩⟩ := storeFile_cases hstore
    · exact hs.putDecoder (by rw [storeBlocks_filepath hblocks]; exact hd)
    · have hpath : d.filepath ≠ [] := by
        rw [storeBlocks_filepath hblocks]
        exact hd
      exact ⟨hs.putDecoder hpath, hpath⟩

/-- The storages of a run. -/
def handled (cfg : DecoderConfiguration) (sha1 : Digest) (s : NetworkCodingDecoderStorage)
    (e : DecoderEvent) : Option NetworkCodingDecoderStorage :=
  (handle cfg sha1 s e).map Prod.fst

/-- All events but arrivals only take away. -/
theorem handle_shrunk {e : DecoderEvent} {returned : Option DataObject}
    (h : handle cfg sha1 s e = some (s', returned)) :
    (∃ env dObj, e = .arrived env dObj ∧ decodeDataObject cfg sha1 s env dObj = some (s', returned))
      ∨ returned = none ∧ Shrunk s s' := by
  cases e with
  | arrived env dObj =>
      unfold handle at h
      dsimp only at h
      by_cases hsize : cfg.blockSize = 0
      · rw [if_pos hsize] at h
        obtain ⟨rfl, rfl⟩ := Prod.mk.inj (Option.some.inj h)
        exact Or.inr ⟨rfl, Shrunk.refl s⟩
      · rw [if_neg hsize] at h
        exact Or.inl ⟨env, dObj, rfl, h⟩
  | agingDecoder expired =>
      obtain ⟨rfl, rfl⟩ := Prod.mk.inj (Option.some.inj h)
      exact Or.inr ⟨rfl, shrunk_ageOffLoop expired _ 0 s⟩
  | deleted ids =>
      obtain ⟨rfl, rfl⟩ := Prod.mk.inj (Option.some.inj h)
      exact Or.inr ⟨rfl, shrunk_forgetAll ids s⟩
  | reconstructed id =>
      obtain ⟨rfl, rfl⟩ := Prod.mk.inj (Option.some.inj h)
      exact Or.inr ⟨rfl, shrunk_delete s id⟩
  | deleteAssociated id =>
      obtain ⟨rfl, rfl⟩ := Prod.mk.inj (Option.some.inj h)
      exact Or.inr ⟨rfl, shrunk_forget s id⟩

theorem PathsSet.handled (h : PathsSet s) {e : DecoderEvent} (hs : handled cfg sha1 s e = some s') :
    PathsSet s' := by
  obtain ⟨⟨t, returned⟩, hhandle, rfl⟩ := Option.map_eq_some_iff.mp hs
  rcases handle_shrunk hhandle with ⟨env, dObj, -, hdecode⟩ | ⟨-, hshrunk⟩
  · unfold decodeDataObject at hdecode
    split at hdecode
    · cases hdecode
    · next hr =>
        rw [← (Prod.mk.inj (Option.some.inj hdecode)).1]
        exact h.receiveBlock hr
    · next hr =>
        rw [← (Prod.mk.inj (Option.some.inj hdecode)).1]
        exact h.receiveBlock hr
    · next hr =>
        obtain ⟨_, _, heq⟩ := Option.map_eq_some_iff.mp hdecode
        rw [← (Prod.mk.inj heq).1]
        exact (h.receiveBlock hr).1
  · exact h.shrunk hshrunk

end Encoders.Coding
