import Encoders.Coding.EndToEnd
import Encoders.Coding.Reconstruction

/-!
# What an honest block does

A block that was coded from the file of its parent is ignored, or it is stored in the decoder
of the parent, which is then full or not. When it is full `decodeDataObject` makes the object,
and that can fail: the file that was decoded may not be there, and the attributes of the block
may not be copied. Which of these happens is seen from the storage and the block
(`decodeDataObject_spec`), and what is kept is that a decoder has read honest blocks, and is
not full while its parent is not completed (`StorageInv`).

A block of no use, one that was seen before or one of a parent that is completed, is ignored
too, but not before a decoder was found or made for it.
-/

namespace Encoders.Coding

open Encoders.Lib Encoders.Data Encoders.Interest

variable {file : List Symbol}

/-! ## What may arrive -/

/-- The blocks in one file, with the random numbers for each. -/
def blocksIn (coeffsLen blockSize : Nat) (draws : Nat → List Nat) :
    Nat → List Symbol → List (List Nat × CodedBlock)
  | 0, _ => []
  | n + 1, bytes =>
      (draws n, ⟨0, coeffsLen, blockSize, bytes.take coeffsLen,
        (bytes.drop coeffsLen).take blockSize⟩) ::
      blocksIn coeffsLen blockSize draws n (bytes.drop (coeffsLen + blockSize))

/-- What a file of a block of the parent brings to the decoder. -/
def DecoderConfiguration.blocksOf (cfg : DecoderConfiguration) (file : List Symbol)
    (env : DecoderSurroundings) (bytes : List Symbol) : List (List Nat × CodedBlock) :=
  blocksIn (numBlocks file.length cfg.blockSize) cfg.blockSize env.draws
    cfg.numberOfBlocksPerDataObject.toNat bytes

/-- The block comes from the parent whose file has these bytes, and its times can be read. It was
encoded with the block size that is configured, which a `CodedBlock` has as an `int`. -/
structure Honest (cfg : DecoderConfiguration) (world : CString → List Symbol)
    (env : DecoderSurroundings) (dObj : DataObject) : Prop where
  blockSize : cfg.blockSize < 2147483648
  size : ∀ info, blockInfo dObj = some info →
    info.originalDataFileSize = (world info.originalDataObjectId).length
  blocks : ∀ info bytes, blockInfo dObj = some info → readBlockFile env dObj = some bytes →
    ∀ x ∈ cfg.blocksOf (world info.originalDataObjectId) env bytes,
      Consistent (source (world info.originalDataObjectId) cfg.blockSize)
        (numBlocks (world info.originalDataObjectId).length cfg.blockSize) cfg.blockSize x.2
  times : ∀ a ∈ dObj.attrs, a.name = attrNetworkcodingParentCreationTime →
    (timeOf a).isSome = true

/-- All blocks that arrive are honest. -/
def DecoderEvent.Honest (cfg : DecoderConfiguration) (world : CString → List Symbol) :
    DecoderEvent → Prop
  | .arrived env dObj => Coding.Honest cfg world env dObj
  | _ => True

/-! ## The decoder of a parent -/

/-- A decoder that has read honest blocks of a file. -/
structure DecoderInv (b : Nat) (file : List Symbol) (d : CodetorrentDecoder) : Prop where
  path : d.filepath ≠ []
  client : ClientInv (source file b) (numBlocks file.length b) b file.length d.codetorrent

theorem DecoderInv.blocksPerGen {b : Nat} {d : CodetorrentDecoder} (h : DecoderInv b file d) :
    d.getNumberOfBlocksPerGen = numBlocks file.length b := by
  rw [CodetorrentDecoder.getNumberOfBlocksPerGen, h.client.shape.2.2.1]
  rfl

theorem decoderInv_new {b : Nat} (hL : 0 < file.length) (hb : 0 < b) {path : CString}
    (hpath : path ≠ []) :
    DecoderInv b file (CodetorrentDecoder.new file.length path b) ∧
      (CodetorrentDecoder.new file.length path b).codetorrent =
        initClient file.length b (numBlocks file.length b) := by
  have hn := (numBlocks_bounds hL hb).1
  have hnew : (CodetorrentDecoder.new file.length path b).codetorrent =
      initClient file.length b (numBlocks file.length b) := by
    unfold CodetorrentDecoder.new
    dsimp only
    rw [if_neg (by omega)]
  refine ⟨⟨hpath, ?_⟩, hnew⟩
  rw [hnew]
  exact clientInv_init hL hb

/-- **Reading the blocks of a file** is storing them one after the other. -/
theorem DecoderInv.storeBlocks {b : Nat} (hL : 0 < file.length) (hb : 0 < b)
    {draws : Nat → List Nat} : ∀ (count : Nat) (bytes : List Symbol) (d : CodetorrentDecoder),
      DecoderInv b file d →
      (∀ x ∈ blocksIn (numBlocks file.length b) b draws count bytes,
        Consistent (source file b) (numBlocks file.length b) b x.2) →
      ∃ d' answers, CodetorrentDecoder.storeBlocks (numBlocks file.length b) b draws count bytes d =
          some d' ∧ DecoderInv b file d' ∧
        storeAll d.codetorrent (blocksIn (numBlocks file.length b) b draws count bytes) =
          some (d'.codetorrent, answers) := by
  intro count
  induction count with
  | zero =>
      intro bytes d h _
      exact ⟨d, [], rfl, h, rfl⟩
  | succ count ih =>
      intro bytes d h hblocks
      have hn := (numBlocks_bounds hL hb).1
      have hhead := hblocks _ (List.mem_cons_self)
      -- a block that is not short was read in full
      have hlong : ¬ bytes.length < numBlocks file.length b + b := by
        have hlength := hhead.lengths.2
        dsimp only at hlength
        rw [List.length_take, List.length_drop] at hlength
        omega
      have hblock : d.blockAt (numBlocks file.length b) bytes =
          ⟨0, numBlocks file.length b, b, bytes.take (numBlocks file.length b),
            (bytes.drop (numBlocks file.length b)).take b⟩ := by
        rw [CodetorrentDecoder.blockAt, h.blocksPerGen, h.client.shape.2.1]
      obtain ⟨ct, helpful, hstore, hinv, -⟩ := clientInv_step hn h.client (draws count) hhead
      obtain ⟨d', answers, hrest, hinv', hall⟩ :=
        ih (bytes.drop (numBlocks file.length b + b)) { d with codetorrent := ct } ⟨h.path, hinv⟩
          (fun x hx => hblocks x (List.mem_cons_of_mem _ hx))
      refine ⟨d', helpful :: answers, ?_, hinv', ?_⟩
      · rw [CodetorrentDecoder.storeBlocks, if_neg hlong, hblock, hstore]
        exact hrest
      · rw [blocksIn, storeAll, hstore]
        dsimp only [Option.bind_eq_bind, Option.bind_some] at hall ⊢
        rw [hall]
        rfl

/-! ## Making the object -/

open NetworkCodingDataObjectUtility

/-- What copying reads of what it has copied so far. -/
def texts (c : Copied) : List Attribute × CString × CString :=
  (c.object.attrs, c.parentSignature, c.parentSignee)

theorem copyAttribute_texts {c c' : Copied} (h : Unsigned c.object) (h' : Unsigned c'.object)
    (heq : (texts c) = (texts c')) (a : Attribute) :
    (copyAttribute c a).map (Option.map texts) =
      (copyAttribute c' a).map (Option.map texts) := by
  obtain ⟨hattrs, hrest⟩ := Prod.mk.inj heq
  obtain ⟨hsig, hsignee⟩ := Prod.mk.inj hrest
  unfold copyAttribute
  by_cases htime : a.name = attrNetworkcodingParentCreationTime
  · rw [if_pos htime, if_pos htime]
    cases Timeval.ofString a.value with
    | none => rfl
    | some t =>
        simp only [Option.map_some, texts, (setCreateTime_spec h t).2.1,
          (setCreateTime_spec h' t).2.1, hattrs, hsig, hsignee]
  · rw [if_neg htime, if_neg htime]
    split
    · simp only [Option.map_some, texts, hattrs, hsignee]
    · split
      · simp only [Option.map_some, texts, hattrs, hsig]
      · split
        · -- whether the attribute is there already is seen from the attributes
          have hsame : (tryAddAttribute c.object a).map DataObject.attrs =
              (tryAddAttribute c'.object a).map DataObject.attrs := by
            unfold tryAddAttribute DataObject.addAttribute DataObject.hasAttribute
            rw [← hattrs]
            by_cases hhas : (find c.object.attrs a).isSome = true
            · rw [if_pos hhas, if_pos hhas]
            · rw [if_neg hhas, if_neg hhas, if_neg hhas, if_neg hhas,
                removeSignature_missing (by exact h.missing),
                removeSignature_missing (by exact h'.missing), hattrs]
              rfl
          cases hone : tryAddAttribute c.object a with
          | none =>
              rw [hone, Option.map_none, eq_comm, Option.map_eq_none_iff] at hsame
              rw [hsame]
              rfl
          | some d =>
              rw [hone, Option.map_some, eq_comm, Option.map_eq_some_iff] at hsame
              obtain ⟨d', hd', hdd⟩ := hsame
              simp only [hd', Option.map_some, texts, hdd, hsig, hsignee]
        · simp only [Option.map_some, heq]

theorem copyLoop_texts : ∀ {attrs : List Attribute} {c c' : Copied}, Unsigned c.object →
    Unsigned c'.object → (texts c) = (texts c') →
    (copyLoop c attrs).map (Option.map texts) =
      (copyLoop c' attrs).map (Option.map texts) := by
  intro attrs
  induction attrs with
  | nil =>
      intro c c' _ _ heq
      simp only [copyLoop, Option.map_some, heq]
  | cons a attrs ih =>
      intro c c' h h' heq
      have hone := copyAttribute_texts h h' heq a
      unfold copyLoop
      cases hc : copyAttribute c a with
      | none =>
          rw [hc, Option.map_none, eq_comm, Option.map_eq_none_iff] at hone
          rw [hone]
      | some r =>
          rw [hc, Option.map_some, eq_comm, Option.map_eq_some_iff] at hone
          obtain ⟨r', hr', hrr⟩ := hone
          rw [hr']
          cases r with
          | none =>
              rw [Option.map_none, Option.map_eq_none_iff] at hrr
              rw [hrr]
          | some t =>
              rw [Option.map_some, Option.map_eq_some_iff] at hrr
              obtain ⟨t', rfl, htt⟩ := hrr
              exact ih (copiedFrom_copyAttribute h hc).unsigned
                (copiedFrom_copyAttribute h' hr').unsigned htt.symm

/-- The attributes of the block can be copied to an object that has none. -/
def Restorable (dObj : DataObject) : Prop :=
  ∃ d, copyAttributesToDataObject (DataObject.fresh (Metadata.leaf [])) dObj = some (some d)

theorem copyAttributes_congr {d d' : DataObject} (h : Unsigned d) (h' : Unsigned d')
    (heq : d.attrs = d'.attrs) (block : DataObject) :
    (copyAttributesToDataObject d block).map Option.isSome =
      (copyAttributesToDataObject d' block).map Option.isSome := by
  have hloop := @copyLoop_texts block.attrs ⟨d, [], []⟩ ⟨d', [], []⟩ h h'
    (by simp only [texts, heq])
  -- the signature is decoded from the same texts
  have hsig : ∀ c : Copied, (copySignature c).isSome =
      ((texts c).2.2.length = 0 ∨ (texts c).2.1.length = 0 ∨
        (Codec.decode (texts c).2.1).isSome = true : Bool) := by
    intro c
    unfold copySignature texts
    by_cases hmissing : c.parentSignee.length = 0 ∨ c.parentSignature.length = 0
    · rw [if_pos hmissing]
      refine (decide_eq_true ?_).symm
      dsimp only
      tauto
    · rw [if_neg hmissing, Option.isSome_map]
      rw [not_or] at hmissing
      simp only [hmissing.1, hmissing.2, false_or]
      cases (Codec.decode c.parentSignature).isSome <;> rfl
  have hanswer : ∀ o : Option Copied, (o.bind copySignature).isSome =
      (o.map texts).any (fun t => (t.2.2.length = 0 ∨ t.2.1.length = 0 ∨
        (Codec.decode t.2.1).isSome = true : Bool)) := by
    intro o
    cases o with
    | none => rfl
    | some c => exact hsig c
  unfold copyAttributesToDataObject
  rw [Option.map_map, Option.map_map]
  have hsplit : ∀ o : Option (Option Copied),
      o.map (Option.isSome ∘ fun copied => copied.bind copySignature) =
      (o.map (Option.map texts)).map (fun t => t.any (fun t =>
        (t.2.2.length = 0 ∨ t.2.1.length = 0 ∨ (Codec.decode t.2.1).isSome = true : Bool))) := by
    intro o
    rw [Option.map_map]
    refine congrArg (fun f => o.map f) (funext fun copied => ?_)
    exact hanswer copied
  rw [hsplit, hsplit, hloop]

/-- The loop stops without a meaning at a time that cannot be read only. -/
theorem copyLoop_ne_none : ∀ {attrs : List Attribute} {c : Copied},
    (∀ a ∈ attrs, a.name = attrNetworkcodingParentCreationTime → (timeOf a).isSome = true) →
    ∃ r, copyLoop c attrs = some r := by
  intro attrs
  induction attrs with
  | nil => exact fun {c} _ => ⟨some c, rfl⟩
  | cons a attrs ih =>
      intro c htimes
      unfold copyLoop
      cases hc : copyAttribute c a with
      | none =>
          exfalso
          unfold copyAttribute at hc
          by_cases htime : a.name = attrNetworkcodingParentCreationTime
          · rw [if_pos htime, Option.map_eq_none_iff] at hc
            have hread := htimes a List.mem_cons_self htime
            unfold timeOf at hread
            rw [hc] at hread
            cases hread
          · rw [if_neg htime] at hc
            split at hc
            · cases hc
            · split at hc
              · cases hc
              · split at hc <;> cases hc
      | some r =>
          cases r with
          | none => exact ⟨none, rfl⟩
          | some t => exact ih (fun b hb => htimes b (List.mem_cons_of_mem _ hb))

theorem unsigned_fresh (m : Metadata) : Unsigned (DataObject.fresh m) :=
  ⟨List.Pairwise.nil, rfl, rfl, rfl⟩

/-- **When the object can be made**: the file is there again, and the attributes can be copied. -/
theorem reconstruct_iff {sha1 : Digest} {env : DecoderSurroundings} {info : BlockInfo}
    {path : CString} {file : List Symbol} {block : DataObject} (hpath : path ≠ [])
    (htimes : ∀ a ∈ block.attrs, a.name = attrNetworkcodingParentCreationTime →
      (timeOf a).isSome = true) :
    ∃ returned, reconstruct sha1 env info path file block = some returned ∧
      (returned.isSome = true ↔ env.decodedFileOpens = true ∧ Restorable block) := by
  unfold reconstruct
  cases hcreate : create sha1 path info.originalFileName
      (if env.decodedFileOpens then some (fileBytes file) else none) env.now with
  | none =>
      have hshut : env.decodedFileOpens = false := by
        by_contra hopens
        rw [Bool.not_eq_false] at hopens
        rw [hopens, create, if_neg (fun hnil => hpath (List.length_eq_zero_iff.mp hnil))] at hcreate
        cases hcreate
      refine ⟨none, rfl, ?_⟩
      rw [hshut]
      simp
  | some d =>
      obtain ⟨hunsigned, hattrs, -, bytes, hbytes, -⟩ := create_spec hcreate
      have hopens : env.decodedFileOpens = true := by
        by_contra hshut
        rw [if_neg hshut] at hbytes
        cases hbytes
      have hstart : Unsigned { d with persistent := true } :=
        ⟨hunsigned.ordered, hunsigned.missing, hunsigned.signee, hunsigned.signature⟩
      -- copying reads no attribute of the object it copies to
      have hcongr := copyAttributes_congr hstart (unsigned_fresh (Metadata.leaf []))
        (show d.attrs = [] from hattrs) block
      obtain ⟨copied, hcopied⟩ : ∃ r,
          copyAttributesToDataObject { d with persistent := true } block = some r := by
        unfold copyAttributesToDataObject
        obtain ⟨r, hr⟩ :=
          @copyLoop_ne_none block.attrs ⟨{ d with persistent := true }, [], []⟩ htimes
        rw [hr]
        exact ⟨_, rfl⟩
      rw [hcopied, Option.map_some, eq_comm, Option.map_eq_some_iff] at hcongr
      obtain ⟨fresh, hfresh, hsame⟩ := hcongr
      refine ⟨copied.map restoreEncryptedDataObject, by dsimp only; rw [hcopied]; rfl, ?_⟩
      rw [Option.isSome_map, ← hsame, Restorable, hfresh]
      simp only [hopens, true_and, Option.some.injEq, Option.isSome_iff_exists]

/-! ## What arrives -/

section Arrival

variable {cfg : DecoderConfiguration} {sha1 : Digest} {world : CString → List Symbol}
variable {s : NetworkCodingDecoderStorage}

/-- What the decoder of a parent has stored, or a new one would start with. -/
def clientOf (cfg : DecoderConfiguration) (file : List Symbol) (s : NetworkCodingDecoderStorage)
    (p : CString) : CodeTorrent :=
  match s.decoderStorage p with
  | some d => d.codetorrent
  | none => initClient file.length cfg.blockSize (numBlocks file.length cfg.blockSize)

/-- Decoders have read honest blocks, and are not full while their parent is not completed. -/
structure StorageInv (cfg : DecoderConfiguration) (world : CString → List Symbol)
    (s : NetworkCodingDecoderStorage) : Prop where
  decoders : ∀ p d, s.decoderStorage p = some d →
    0 < (world p).length ∧ DecoderInv cfg.blockSize (world p) d
  unfinished : ∀ p, s.isDecodingCompleted p = false → 0 < (world p).length →
    (clientOf cfg (world p) s p).buf.length < numBlocks (world p).length cfg.blockSize

theorem clientInv_clientOf (hb : 0 < cfg.blockSize) (hs : StorageInv cfg world s) {p : CString}
    (hL : 0 < (world p).length) :
    ClientInv (source (world p) cfg.blockSize) (numBlocks (world p).length cfg.blockSize)
      cfg.blockSize (world p).length (clientOf cfg (world p) s p) := by
  unfold clientOf
  cases hd : s.decoderStorage p with
  | none => exact clientInv_init hL hb
  | some d => exact (hs.decoders p d hd).2.client

theorem storageInv_empty (hb : 0 < cfg.blockSize) :
    StorageInv cfg world NetworkCodingDecoderStorage.empty where
  decoders p d hd := by cases hd
  unfinished p _ hL := (numBlocks_bounds hL hb).1

theorem StorageInv.shrunk (hb : 0 < cfg.blockSize) {s' : NetworkCodingDecoderStorage}
    (hs : StorageInv cfg world s) (h : Shrunk s s') : StorageInv cfg world s' where
  decoders p d hd := by
    rcases h.decoders p with hnone | hsame
    · rw [hnone] at hd
      cases hd
    · rw [hsame] at hd
      exact hs.decoders p d hd
  unfinished p hopen hL := by
    rcases h.decoders p with hnone | hsame
    · unfold clientOf
      rw [hnone]
      exact (numBlocks_bounds hL hb).1
    · have hopen' : s.isDecodingCompleted p = false := by
        unfold NetworkCodingDecoderStorage.isDecodingCompleted at hopen ⊢
        rw [← h.completed]
        exact hopen
      unfold clientOf
      rw [hsame]
      exact hs.unfinished p hopen' hL

/-- A decoder that has read more is put back. -/
theorem StorageInv.put {s t : NetworkCodingDecoderStorage} (hs : StorageInv cfg world s)
    {p : CString} {d : CodetorrentDecoder} (hL : 0 < (world p).length)
    (hd : DecoderInv cfg.blockSize (world p) d)
    (hstorage : t.decoderStorage = Function.update s.decoderStorage p (some d))
    (hflags : ∀ q, q ≠ p → t.isDecodingCompleted q = s.isDecodingCompleted q)
    (hopen : t.isDecodingCompleted p = false →
      d.codetorrent.buf.length < numBlocks (world p).length cfg.blockSize) :
    StorageInv cfg world t where
  decoders q d' hq := by
    rw [hstorage] at hq
    by_cases hqp : q = p
    · subst hqp
      rw [Function.update_self] at hq
      injection hq with hq
      rw [← hq]
      exact ⟨hL, hd⟩
    · rw [Function.update_of_ne hqp] at hq
      exact hs.decoders q d' hq
  unfinished q hq hL' := by
    unfold clientOf
    rw [hstorage]
    by_cases hqp : q = p
    · subst hqp
      rw [Function.update_self]
      exact hopen hq
    · rw [Function.update_of_ne hqp]
      rw [hflags q hqp] at hq
      exact hs.unfinished q hq hL'

/-- The decoder that is found or made, for an honest block. -/
theorem enterBlock_spec {s : NetworkCodingDecoderStorage} (hb : 0 < cfg.blockSize)
    (hs : StorageInv cfg world s) (env : DecoderSurroundings) (dObj : DataObject)
    {info : BlockInfo} (hL : 0 < (world info.originalDataObjectId).length)
    (hsize : info.originalDataFileSize = (world info.originalDataObjectId).length) :
    ∃ w d, enterBlock cfg sha1 s env dObj info = (w, d) ∧
      w.decodingCompleted = s.decodingCompleted ∧
      w.decoderStorage =
        Function.update s.decoderStorage info.originalDataObjectId (some d) ∧
      DecoderInv cfg.blockSize (world info.originalDataObjectId) d ∧
      d.codetorrent =
        clientOf cfg (world info.originalDataObjectId) s info.originalDataObjectId := by
  refine ⟨_, _, rfl, rfl, rfl, ?_⟩
  show DecoderInv _ _ ((s.decoderStorage info.originalDataObjectId).getD _) ∧
    ((s.decoderStorage info.originalDataObjectId).getD _).codetorrent = _
  unfold clientOf
  cases hd : s.decoderStorage info.originalDataObjectId with
  | none =>
      rw [hsize]
      exact decoderInv_new hL hb (decodedFilePath_ne env info.originalFileName)
  | some d => exact ⟨(hs.decoders _ d hd).2, rfl⟩

/-- A block that says how long its parent is does not say that it is empty. -/
theorem blockInfo_size {dObj : DataObject} {info : BlockInfo} (h : blockInfo dObj = some info) :
    info.originalDataFileSize ≠ 0 := by
  unfold blockInfo at h
  simp only [Option.bind_eq_bind] at h
  split at h
  · obtain ⟨id, -, h⟩ := Option.bind_eq_some_iff.mp h
    obtain ⟨len, -, h⟩ := Option.bind_eq_some_iff.mp h
    obtain ⟨name, -, h⟩ := Option.bind_eq_some_iff.mp h
    split at h
    · cases h
    · next hzero =>
        injection h with h
        rw [← h]
        exact hzero
  · cases h

/-- Why a block is ignored. -/
def Unneeded (s : NetworkCodingDecoderStorage) (env : DecoderSurroundings) (dObj : DataObject) :
    Prop :=
  env.isDuplicate = true ∨ blockInfo dObj = none ∨
    (∃ info, blockInfo dObj = some info ∧
      s.isDecodingCompleted info.originalDataObjectId = true) ∨
    readBlockFile env dObj = none

/--
**What becomes of an honest block.** It is ignored, and the decoder is what it was; or the
decoder has stored the blocks in it, and decodes exactly if it is full.
-/
theorem receiveBlock_spec {s : NetworkCodingDecoderStorage} (hb : 0 < cfg.blockSize)
    (hs : StorageInv cfg world s) {env : DecoderSurroundings} {dObj : DataObject}
    (h : Honest cfg world env dObj) :
    (∃ t, receiveBlock cfg sha1 s env dObj = some (.ignored t) ∧ StorageInv cfg world t ∧
      t.decodingCompleted = s.decodingCompleted ∧ Unneeded s env dObj) ∨
    ∃ info bytes d answers t, blockInfo dObj = some info ∧
      readBlockFile env dObj = some bytes ∧
      s.isDecodingCompleted info.originalDataObjectId = false ∧
      0 < (world info.originalDataObjectId).length ∧
      DecoderInv cfg.blockSize (world info.originalDataObjectId) d ∧
      storeAll (clientOf cfg (world info.originalDataObjectId) s info.originalDataObjectId)
        (cfg.blocksOf (world info.originalDataObjectId) env bytes) =
          some (d.codetorrent, answers) ∧
      t.decodingCompleted = s.decodingCompleted ∧
      t.decoderStorage = Function.update s.decoderStorage info.originalDataObjectId (some d) ∧
      receiveBlock cfg sha1 s env dObj = some
        (if d.codetorrent.buf.length =
            numBlocks (world info.originalDataObjectId).length cfg.blockSize
          then .decoded (t.setDecodingCompleted info.originalDataObjectId) info d.filepath
            (world info.originalDataObjectId)
          else .stored t) := by
  unfold receiveBlock
  -- the four places where the block is dropped: known, no block, decoded already, no file
  by_cases hdup : env.isDuplicate = true
  · left
    exact ⟨s, by rw [if_pos hdup], hs, rfl, Or.inl hdup⟩
  rw [if_neg hdup]
  cases hinfo : blockInfo dObj with
  | none =>
      left
      exact ⟨s, rfl, hs, rfl, Or.inr (Or.inl hinfo)⟩
  | some info =>
      have hsize := h.size info hinfo
      have hL : 0 < (world info.originalDataObjectId).length := by
        rw [← hsize]
        exact Nat.pos_of_ne_zero (blockInfo_size hinfo)
      -- a decoder is there before the flag is looked at, so also for a file that is decoded
      obtain ⟨w, d, hw, hflags, hstorage, hd, hclient⟩ :=
        @enterBlock_spec cfg sha1 world s hb hs env dObj info hL hsize
      dsimp only
      rw [hw]
      dsimp only
      have hflag : w.isDecodingCompleted info.originalDataObjectId =
          s.isDecodingCompleted info.originalDataObjectId := congrFun hflags _
      have hinv : StorageInv cfg world w := by
        refine hs.put hL hd hstorage (fun q _ => congrFun hflags q) ?_
        intro hopen
        rw [hclient]
        exact hs.unfinished _ (hflag ▸ hopen) hL
      by_cases hdone : w.isDecodingCompleted info.originalDataObjectId = true
      · left
        refine ⟨w, by rw [if_pos hdone], hinv, hflags, Or.inr (Or.inr (Or.inl ⟨info, hinfo, ?_⟩))⟩
        rw [← hflag]
        exact hdone
      rw [if_neg hdone]
      cases hbytes : readBlockFile env dObj with
      | none =>
          left
          exact ⟨w, rfl, hinv, hflags, Or.inr (Or.inr (Or.inr hbytes))⟩
      | some bytes =>
          right
          obtain ⟨d', answers, hstore, hd', hall⟩ :=
            DecoderInv.storeBlocks hL hb _ bytes d hd (h.blocks info bytes hinfo hbytes)
          refine ⟨info, bytes, d', answers, w.putDecoder info.originalDataObjectId d', rfl, rfl, ?_,
            hL, hd', ?_, hflags, ?_, ?_⟩
          · rw [← hflag]
            exact Bool.eq_false_iff.mpr hdone
          · rw [← hclient]
            exact hall
          · show Function.update w.decoderStorage _ _ = _
            rw [hstorage, Function.update_idem]
          · unfold storeFile
            simp only [hd.blocksPerGen, hstore, Option.bind_eq_bind, Option.bind_some,
              hd'.client.decode_eq hL hb]
            by_cases hfull : d'.codetorrent.buf.length =
                numBlocks (world info.originalDataObjectId).length cfg.blockSize
            · simp only [if_pos hfull]
            · simp only [if_neg hfull]

/-- What `decodeDataObject` returns for an honest block. -/
theorem decodeDataObject_spec {s : NetworkCodingDecoderStorage} (hb : 0 < cfg.blockSize)
    (hs : StorageInv cfg world s) {env : DecoderSurroundings} {dObj : DataObject}
    (h : Honest cfg world env dObj) :
    (∃ t, receiveBlock cfg sha1 s env dObj = some (.ignored t) ∧
      decodeDataObject cfg sha1 s env dObj = some (t, none) ∧ StorageInv cfg world t ∧
      t.decodingCompleted = s.decodingCompleted ∧ Unneeded s env dObj) ∨
    ∃ info bytes d answers t returned, blockInfo dObj = some info ∧
      readBlockFile env dObj = some bytes ∧
      s.isDecodingCompleted info.originalDataObjectId = false ∧
      0 < (world info.originalDataObjectId).length ∧
      storeAll (clientOf cfg (world info.originalDataObjectId) s info.originalDataObjectId)
        (cfg.blocksOf (world info.originalDataObjectId) env bytes) =
          some (d.codetorrent, answers) ∧
      StorageInv cfg world t ∧
      t.decoderStorage = Function.update s.decoderStorage info.originalDataObjectId (some d) ∧
      decodeDataObject cfg sha1 s env dObj = some (t, returned) ∧
      (if d.codetorrent.buf.length =
            numBlocks (world info.originalDataObjectId).length cfg.blockSize
        then (∃ r, receiveBlock cfg sha1 s env dObj = some r ∧ r.isDecoded = true) ∧
          t.decodingCompleted =
            Function.update s.decodingCompleted info.originalDataObjectId true ∧
          (returned.isSome = true ↔ env.decodedFileOpens = true ∧ Restorable dObj) ∧
          ∃ path, reconstruct sha1 env info path (world info.originalDataObjectId) dObj =
            some returned
        else (∃ r, receiveBlock cfg sha1 s env dObj = some r ∧ r.isDecoded = false) ∧
          t.decodingCompleted = s.decodingCompleted ∧ returned = none) := by
  rcases @receiveBlock_spec cfg sha1 world s hb hs env dObj h with
    ⟨t, hr, ht, hflags, hwhy⟩ |
    ⟨info, bytes, d, answers, t, hinfo, hbytes, hopen, hL, hd, hall, hflags, hstorage, hr⟩
  · left
    exact ⟨t, hr, by rw [decodeDataObject, hr], ht, hflags, hwhy⟩
  · right
    by_cases hfull : d.codetorrent.buf.length =
        numBlocks (world info.originalDataObjectId).length cfg.blockSize
    · rw [if_pos hfull] at hr
      obtain ⟨returned, hreturned, hiff⟩ := @reconstruct_iff sha1 env info d.filepath
        (world info.originalDataObjectId) dObj hd.path h.times
      -- the flag is set whether or not the object can be restored
      refine ⟨info, bytes, d, answers, t.setDecodingCompleted info.originalDataObjectId, returned,
        hinfo, hbytes, hopen, hL, hall, ?_, hstorage, ?_, ?_⟩
      · refine hs.put hL hd hstorage ?_ ?_
        · intro q hq
          show Function.update t.decodingCompleted _ _ q = _
          rw [Function.update_of_ne hq, hflags]
          rfl
        · intro hfalse
          have htrue : Function.update t.decodingCompleted info.originalDataObjectId true
              info.originalDataObjectId = false := hfalse
          rw [Function.update_self] at htrue
          cases htrue
      · rw [decodeDataObject, hr]
        dsimp only
        rw [hreturned]
        rfl
      · rw [if_pos hfull]
        refine ⟨⟨_, hr, rfl⟩, ?_, hiff, d.filepath, hreturned⟩
        show Function.update t.decodingCompleted _ _ = _
        rw [hflags]
    · rw [if_neg hfull] at hr
      refine ⟨info, bytes, d, answers, t, none, hinfo, hbytes, hopen, hL, hall, ?_, hstorage, ?_,
        ?_⟩
      · refine hs.put hL hd hstorage (fun q _ => congrFun hflags q) ?_
        intro _
        exact lt_of_le_of_ne hd.client.buf_le hfull
      · rw [decodeDataObject, hr]
      · rw [if_neg hfull]
        exact ⟨⟨_, hr, rfl⟩, hflags, rfl⟩

end Arrival

end Encoders.Coding
