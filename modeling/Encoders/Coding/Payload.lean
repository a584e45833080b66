import Encoders.Coding.Arrival

/-!
# What a block's file has to hold

`decodeDataObject` reads the file of a block into memory and passes `store_block` a number of
blocks from it. How far it reads is computed from the configuration and from the decoder of the
parent, which was made from the attributes of the first block that came in for that parent. The
number of bytes that were read is not asked for.

So it stays inside what it has read exactly when the file is long enough for that decoder
(`Fits`), and files that were written by `writeCodedBlocks` are read back as they were written
exactly when the decoder has as many blocks as the parent and blocks of the same size. The
decoder may be one that a single block with another length in its attributes has left behind.
-/

namespace Encoders.Coding

open Encoders.Lib Encoders.Data

variable {b : Nat}

/-! ## From a file to its decoder -/

/-- The constructor as it is called. The block size becomes an `int`, and so does the number of
blocks, which is a `double` before: where it is not a positive `int` there is no decoder. -/
def CodetorrentDecoder.construct (fileSize : Nat) (outputFile : CString) (blockSize : Nat) :
    Option CodetorrentDecoder :=
  let width := (blockSize : Int).bmod 4294967296
  if width ≤ 0 then none
  else if 2147483648 ≤ numBlocks fileSize width.toNat then none
  else some (.new fileSize outputFile width.toNat)

/-- The decoder `getDecoder` finds or constructs. -/
def NetworkCodingDecoderStorage.decoderFor (s : NetworkCodingDecoderStorage)
    (cfg : DecoderConfiguration) (env : DecoderSurroundings) (info : BlockInfo) :
    Option CodetorrentDecoder :=
  match s.decoderStorage info.originalDataObjectId with
  | some d => some d
  | none =>
      CodetorrentDecoder.construct info.originalDataFileSize
        (decodedFilePath env info.originalFileName) cfg.blockSize

/-- Where the coefficients and the data of a block start that is passed to `store_block`. -/
structure Passed where
  coeffs : Nat
  sums : Nat

/-- The loop over the blocks of a file. The pointer moves on by the coefficients of the decoder
and the configured block size. -/
def passedBlocks (coeffsLen blockSize : Nat) : Nat → Nat → List Passed
  | 0, _ => []
  | n + 1, pointer =>
      ⟨pointer, pointer + coeffsLen⟩ ::
        passedBlocks coeffsLen blockSize n (pointer + coeffsLen + blockSize)

/-- What `store_block` finds at a place. -/
def CodetorrentDecoder.found (d : CodetorrentDecoder) (payload : List Symbol) (p : Passed) :
    List Symbol × List Symbol :=
  ((payload.drop p.coeffs).take d.getNumberOfBlocksPerGen,
    (payload.drop p.sums).take d.codetorrent.blockSize)

/-- What happens to an object before `decode`. -/
inductive Handed where
  | refused
  | passed (payload : List Symbol) (d : CodetorrentDecoder) (blocks : List Passed)

/-- `decodeDataObject` up to `decode`, and the check of the manager before it. `none`: the decoder
cannot be constructed. -/
def handOver (cfg : DecoderConfiguration) (s : NetworkCodingDecoderStorage)
    (env : DecoderSurroundings) (dObj : DataObject) : Option Handed :=
  if cfg.blockSize = 0 then some .refused
  else if env.isDuplicate then some .refused
  else
    match blockInfo dObj with
    | none => some .refused
    | some info => do
        let d ← s.decoderFor cfg env info
        if s.isDecodingCompleted info.originalDataObjectId then some .refused
        else
          match readBlockFile env dObj with
          | none => some .refused
          | some payload =>
              some (.passed payload d (passedBlocks d.getNumberOfBlocksPerGen cfg.blockSize
                cfg.numberOfBlocksPerDataObject.toNat 0))

/-- The object is refused, or all coefficients and all data that are passed lie in the payload. -/
def Handed.Within : Handed → Prop
  | .refused => True
  | .passed payload d blocks => ∀ p ∈ blocks,
      p.coeffs + d.getNumberOfBlocksPerGen ≤ payload.length ∧
        p.sums + d.codetorrent.blockSize ≤ payload.length

/-- Blocks are passed, inside the payload, and they are these. -/
def Handed.Exactly (written : List (List Symbol × List Symbol)) : Handed → Prop
  | .refused => False
  | .passed payload d blocks =>
      (Handed.passed payload d blocks).Within ∧ blocks.map (d.found payload) = written

/-! ## How far the loop reads -/

/-- The last block is passed from the farthest place. -/
theorem passedBlocks_inside (coeffsLen blockSize width len : Nat) : ∀ n pointer,
    (∀ p ∈ passedBlocks coeffsLen blockSize n pointer,
        p.coeffs + coeffsLen ≤ len ∧ p.sums + width ≤ len) ↔
      n = 0 ∨ pointer + (n - 1) * (coeffsLen + blockSize) + coeffsLen + width ≤ len := by
  intro n
  induction n with
  | zero => simp [passedBlocks]
  | succ n ih =>
      intro pointer
      rw [passedBlocks, List.forall_mem_cons, ih]
      cases n with
      | zero => simp; omega
      | succ m =>
          have hrest : (m + 1) * (coeffsLen + blockSize) =
              m * (coeffsLen + blockSize) + (coeffsLen + blockSize) := Nat.succ_mul _ _
          simp only [Nat.add_sub_cancel, Nat.add_eq_zero_iff, one_ne_zero, and_false, false_or,
            hrest]
          generalize m * (coeffsLen + blockSize) = far
          omega

/-- A decoder for a file has a coefficient for each block of it. -/
theorem new_blocksPerGen {L : Nat} (hL : 0 < L) (hb : 0 < b) (path : CString) :
    (CodetorrentDecoder.new L path b).getNumberOfBlocksPerGen = numBlocks L b := by
  have hn := (numBlocks_bounds hL hb).1
  have hinfo := (one_generation hL hb).2
  unfold CodetorrentDecoder.getNumberOfBlocksPerGen CodetorrentDecoder.new initClient
  dsimp only
  rw [if_neg (by omega), hinfo]
  rfl

theorem numBlocks_le {L : Nat} (hL : 0 < L) (hb : 0 < b) : numBlocks L b ≤ L := by
  have hlt := (numBlocks_bounds hL hb).2.1
  have hle : (numBlocks L b - 1) * 1 ≤ (numBlocks L b - 1) * b := Nat.mul_le_mul_left _ hb
  omega

/-- A length that is negative as an `int` has too many blocks. -/
theorem numBlocks_huge {L : Nat} (hL : 18446744071562067968 ≤ L) (hb : 0 < b) (hb' : b < 2147483648)
    : 2147483648 ≤ numBlocks L b := by
  have hall := (numBlocks_bounds (by omega : 0 < L) hb).2.2
  by_contra hlt
  have hle : numBlocks L b * b ≤ 2147483648 * 2147483648 :=
    Nat.mul_le_mul (by omega) (by omega)
  omega

/-- A claimed length is a positive `int`, or a negative one in a `size_t`. -/
theorem blockInfo_claimed {dObj : DataObject} {info : BlockInfo}
    (h : blockInfo dObj = some info) : 0 < info.originalDataFileSize ∧
      (info.originalDataFileSize < 2147483648 ∨
        18446744071562067968 ≤ info.originalDataFileSize) := by
  unfold blockInfo at h
  simp only [Option.bind_eq_bind] at h
  split at h
  · obtain ⟨id, -, h⟩ := Option.bind_eq_some_iff.mp h
    obtain ⟨len, -, h⟩ := Option.bind_eq_some_iff.mp h
    obtain ⟨name, -, h⟩ := Option.bind_eq_some_iff.mp h
    split at h
    · cases h
    · next hne =>
        rw [← Option.some.inj h]
        dsimp only
        have hlow := @Int.le_bmod (strtol (chars len)) 4294967296 (by omega)
        have hhigh := @Int.bmod_lt (strtol (chars len)) 4294967296 (by omega)
        unfold atoi at hne ⊢
        generalize (strtol (chars len)).bmod 4294967296 = v at hne hlow hhigh ⊢
        omega
  · cases h

/-! ## The exact condition -/

/-- The coefficients and the block size of the parent's decoder: of the one that is there, or of
the one that is made for the claimed length. -/
def DecoderSizes (cfg : DecoderConfiguration) (s : NetworkCodingDecoderStorage) (info : BlockInfo)
    (coeffsLen width : Nat) : Prop :=
  match s.decoderStorage info.originalDataObjectId with
  | some d => coeffsLen = d.getNumberOfBlocksPerGen ∧ width = d.codetorrent.blockSize
  | none =>
      info.originalDataFileSize < 2147483648 ∧ 0 < width ∧
        (cfg.blockSize : Int).bmod 4294967296 = width ∧
        coeffsLen = numBlocks info.originalDataFileSize width

/-- There is a decoder exactly when it has sizes, and they are its sizes. -/
theorem decoderSizes_iff {cfg : DecoderConfiguration} {s : NetworkCodingDecoderStorage}
    {env : DecoderSurroundings} {dObj : DataObject} {info : BlockInfo}
    (hinfo : blockInfo dObj = some info) {coeffsLen width : Nat} :
    DecoderSizes cfg s info coeffsLen width ↔ ∃ d, s.decoderFor cfg env info = some d ∧
      coeffsLen = d.getNumberOfBlocksPerGen ∧ width = d.codetorrent.blockSize := by
  unfold DecoderSizes NetworkCodingDecoderStorage.decoderFor
  cases s.decoderStorage info.originalDataObjectId with
  | some d => simp
  | none =>
      obtain ⟨hpos, hclaimed⟩ := blockInfo_claimed hinfo
      have hhigh := @Int.bmod_lt (cfg.blockSize : Int) 4294967296 (by omega)
      unfold CodetorrentDecoder.construct
      dsimp only
      generalize (cfg.blockSize : Int).bmod 4294967296 = v at hhigh ⊢
      constructor
      · rintro ⟨hsmall, hwidth, rfl, rfl⟩
        have hle := numBlocks_le hpos hwidth
        refine ⟨.new info.originalDataFileSize (decodedFilePath env info.originalFileName) width,
          ?_, (new_blocksPerGen hpos hwidth _).symm, rfl⟩
        rw [if_neg (by omega), Int.toNat_natCast, if_neg (by omega)]
      · rintro ⟨d, hd, rfl, rfl⟩
        split at hd
        · cases hd
        · next hv =>
            split at hd
            · cases hd
            · next hcount =>
                -- a size near 2^64 has more blocks than an int counts
                have hwidth : 0 < v.toNat := by omega
                have hsmall : info.originalDataFileSize < 2147483648 := by
                  rcases hclaimed with hsmall | hhuge
                  · exact hsmall
                  · exact absurd (numBlocks_huge hhuge hwidth (by omega)) hcount
                rw [← Option.some.inj hd]
                exact ⟨hsmall, hwidth, (Int.toNat_of_nonneg (by omega)).symm,
                  new_blocksPerGen hpos hwidth _⟩

/-- What was read is enough for a decoder of these sizes. -/
def Fits (cfg : DecoderConfiguration) (coeffsLen width : Nat) (payload : List Symbol) : Prop :=
  cfg.numberOfBlocksPerDataObject ≤ 0 ∨
    (cfg.numberOfBlocksPerDataObject.toNat - 1) * (coeffsLen + cfg.blockSize) + coeffsLen + width ≤
      payload.length

theorem within_iff_fits (cfg : DecoderConfiguration) (payload : List Symbol)
    (d : CodetorrentDecoder) :
    (Handed.passed payload d (passedBlocks d.getNumberOfBlocksPerGen cfg.blockSize
        cfg.numberOfBlocksPerDataObject.toNat 0)).Within ↔
      Fits cfg d.getNumberOfBlocksPerGen d.codetorrent.blockSize payload := by
  unfold Handed.Within Fits
  dsimp only
  rw [passedBlocks_inside, Nat.zero_add, Int.toNat_eq_zero]

/-- The object is refused before a decoder is asked for. -/
def Turned (cfg : DecoderConfiguration) (env : DecoderSurroundings) (dObj : DataObject) : Prop :=
  cfg.blockSize = 0 ∨ env.isDuplicate = true ∨ blockInfo dObj = none

/-- The parent has a decoder, or its claimed length gives one, and the decoder is not needed, or
the file cannot be read, or there is enough in it. -/
def Enough (cfg : DecoderConfiguration) (s : NetworkCodingDecoderStorage)
    (env : DecoderSurroundings) (dObj : DataObject) (info : BlockInfo) : Prop :=
  ∃ coeffsLen width, DecoderSizes cfg s info coeffsLen width ∧
    (s.isDecodingCompleted info.originalDataObjectId = true ∨
      ∀ payload, readBlockFile env dObj = some payload → Fits cfg coeffsLen width payload)

/-- What is handed over of an object that is not turned away. -/
theorem handOver_of_info {cfg : DecoderConfiguration} {s : NetworkCodingDecoderStorage}
    {env : DecoderSurroundings} {dObj : DataObject} {info : BlockInfo}
    (hsize : cfg.blockSize ≠ 0) (hnew : env.isDuplicate = false)
    (hinfo : blockInfo dObj = some info) :
    handOver cfg s env dObj = (s.decoderFor cfg env info).bind (fun d =>
      if s.isDecodingCompleted info.originalDataObjectId then some .refused
      else
        match readBlockFile env dObj with
        | none => some .refused
        | some payload =>
            some (.passed payload d (passedBlocks d.getNumberOfBlocksPerGen cfg.blockSize
              cfg.numberOfBlocksPerDataObject.toNat 0))) := by
  unfold handOver
  rw [if_neg hsize, hnew, hinfo]
  rfl

theorem handOver_within_iff (cfg : DecoderConfiguration) (s : NetworkCodingDecoderStorage)
    (env : DecoderSurroundings) (dObj : DataObject) :
    (∃ handed, handOver cfg s env dObj = some handed ∧ handed.Within) ↔
      Turned cfg env dObj ∨ ∃ info, blockInfo dObj = some info ∧ Enough cfg s env dObj info := by
  -- the guards in the order of `handOver`
  by_cases hsize : cfg.blockSize = 0
  · refine iff_of_true ⟨.refused, ?_, trivial⟩ (Or.inl (Or.inl hsize))
    rw [handOver, if_pos hsize]
  by_cases hnew : env.isDuplicate = true
  · refine iff_of_true ⟨.refused, ?_, trivial⟩ (Or.inl (Or.inr (Or.inl hnew)))
    rw [handOver, if_neg hsize, if_pos hnew]
  cases hinfo : blockInfo dObj with
  | none =>
      refine iff_of_true ⟨.refused, ?_, trivial⟩ (Or.inl (Or.inr (Or.inr hinfo)))
      rw [handOver, if_neg hsize, if_neg hnew, hinfo]
  | some info =>
      have hturned : ¬ Turned cfg env dObj := by
        rintro (h | h | h)
        · exact hsize h
        · exact hnew h
        · rw [hinfo] at h
          cases h
      rw [handOver_of_info hsize (Bool.eq_false_iff.mpr hnew) hinfo]
      simp only [hturned, false_or, Option.some.injEq, exists_eq_left']
      unfold Enough
      simp only [@decoderSizes_iff cfg s env dObj info hinfo]
      cases s.decoderFor cfg env info with
      | none => simp
      | some d =>
          cases hdone : s.isDecodingCompleted info.originalDataObjectId with
          | true => simp [Handed.Within]
          | false =>
              cases hread : readBlockFile env dObj with
              | none => simp [Handed.Within]
              | some payload =>
                  simp only [Option.bind_some, Bool.false_eq_true, if_false, Option.some.injEq,
                    exists_eq_left', false_or, forall_eq', within_iff_fits]
                  constructor
                  · exact fun hfits => ⟨_, _, ⟨rfl, rfl⟩, hfits⟩
                  · rintro ⟨_, _, ⟨rfl, rfl⟩, hfits⟩
                    exact hfits

/-! ## Files that were written -/

/-- The blocks that `writeCodedBlocks` encodes. Sizes that are no positive `int` have no meaning
there. -/
def writtenBlocks (file : List Symbol) (blockSize : Nat) (choices : List (Nat → Symbol)) :
    Option (List CodedBlock) :=
  if blockSize = 0 ∨ 2147483648 ≤ blockSize ∨ 2147483648 ≤ file.length then none
  else
    choices.mapM (encode file file.length
      (loadFileInfo file.length blockSize (numBlocks file.length blockSize)) blockSize 0)

/-- The bytes of blocks, one after the other. -/
def blockBytes (coeffsSize blockSize : Nat) (blocks : List CodedBlock) : List Symbol :=
  blocks.flatMap (fun x => x.coeffs.take coeffsSize ++ x.sums.take blockSize)

/-- `writeCodedBlocks` -/
def writeCodedBlocks (file : List Symbol) (blockSize : Nat) (choices : List (Nat → Symbol)) :
    Option (List Symbol) :=
  let info := loadFileInfo file.length blockSize (numBlocks file.length blockSize)
  (writtenBlocks file blockSize choices).map (blockBytes (info.getD 0 0).toNat blockSize)

/-- Coefficients and data of a block. -/
def CodedBlock.pair (x : CodedBlock) : List Symbol × List Symbol := (x.coeffs, x.sums)

theorem mapM_eq_some {α β : Type} {f : α → Option β} : ∀ {xs : List α} {ys : List β},
    xs.mapM f = some ys → ys.length = xs.length ∧ ∀ y ∈ ys, ∃ x ∈ xs, f x = some y
  | [], ys, h => by
      rw [← Option.some.inj h]
      exact ⟨rfl, fun y hy => absurd hy List.not_mem_nil⟩
  | x :: xs, ys, h => by
      rw [List.mapM_cons] at h
      obtain ⟨y, hy, h⟩ := Option.bind_eq_some_iff.mp h
      obtain ⟨rest, hrest, h⟩ := Option.bind_eq_some_iff.mp h
      obtain ⟨hlen, hall⟩ := mapM_eq_some hrest
      rw [← Option.some.inj h]
      refine ⟨congrArg (· + 1) hlen, ?_⟩
      rw [List.forall_mem_cons]
      refine ⟨⟨x, List.mem_cons_self, hy⟩, fun z hz => ?_⟩
      obtain ⟨w, hw, hfw⟩ := hall z hz
      exact ⟨w, List.mem_cons_of_mem x hw, hfw⟩

/-- What was written: as many blocks as were asked for, all of the parent's sizes. -/
theorem writtenBlocks_spec {file : List Symbol} {choices : List (Nat → Symbol)}
    {blocks : List CodedBlock} (hL : 0 < file.length)
    (h : writtenBlocks file b choices = some blocks) :
    (0 < b ∧ b < 2147483648 ∧ file.length < 2147483648) ∧ blocks.length = choices.length ∧
      ∀ x ∈ blocks, x.coeffs.length = numBlocks file.length b ∧ x.sums.length = b := by
  unfold writtenBlocks at h
  split at h
  · cases h
  · next hsizes =>
      have hb : 0 < b := by omega
      obtain ⟨hlen, hall⟩ := mapM_eq_some h
      refine ⟨by omega, hlen, fun x hx => ?_⟩
      obtain ⟨choice, -, hchoice⟩ := hall x hx
      exact (produced_consistent hL (by omega) hb (by omega) (encode_produced hL hb hchoice)).lengths

theorem length_blockBytes {n : Nat} : ∀ {blocks : List CodedBlock},
    (∀ x ∈ blocks, x.coeffs.length = n ∧ x.sums.length = b) →
    (blockBytes n b blocks).length = blocks.length * (n + b) := by
  intro blocks
  induction blocks with
  | nil => intro _; simp [blockBytes]
  | cons x blocks ih =>
      intro h
      obtain ⟨⟨hx, hx'⟩, h⟩ := List.forall_mem_cons.mp h
      have hrest := ih h
      unfold blockBytes at hrest ⊢
      rw [List.flatMap_cons, List.length_append, hrest, List.length_append, List.length_take,
        List.length_take, hx, hx', Nat.min_self, Nat.min_self, List.length_cons, Nat.succ_mul,
        Nat.add_comm]

/-- A decoder of the right sizes finds the blocks where they were written. -/
theorem found_written {n : Nat} {d : CodetorrentDecoder} (hc : d.getNumberOfBlocksPerGen = n)
    (hw : d.codetorrent.blockSize = b) : ∀ (blocks : List CodedBlock) (before : List Symbol),
    (∀ x ∈ blocks, x.coeffs.length = n ∧ x.sums.length = b) →
    (passedBlocks n b blocks.length before.length).map
      (d.found (before ++ blockBytes n b blocks)) = blocks.map CodedBlock.pair := by
  intro blocks
  induction blocks with
  | nil => intro before _; rfl
  | cons x blocks ih =>
      intro before h
      obtain ⟨⟨hx, hx'⟩, h⟩ := List.forall_mem_cons.mp h
      have hbytes : blockBytes n b (x :: blocks) = x.coeffs ++ (x.sums ++ blockBytes n b blocks) := by
        unfold blockBytes
        rw [List.flatMap_cons, List.take_of_length_le (by omega), List.take_of_length_le (by omega),
          List.append_assoc]
      have hrest := ih (before ++ x.coeffs ++ x.sums) h
      rw [List.length_append, List.length_append, hx, hx'] at hrest
      rw [List.length_cons, passedBlocks, List.map_cons, List.map_cons, hbytes]
      congr 1
      · unfold CodetorrentDecoder.found CodedBlock.pair
        dsimp only
        rw [hc, hw, List.drop_left, List.take_left' hx, ← List.append_assoc,
          List.drop_left' (by rw [List.length_append, hx]), List.take_left' hx']
      · rw [← List.append_assoc, ← List.append_assoc]
        exact hrest

/-- An object that holds what was written for a file of the length it claims. -/
structure HoldsWritten (cfg : DecoderConfiguration) (env : DecoderSurroundings) (dObj : DataObject)
    (info : BlockInfo) (file : List Symbol) (blocks : List CodedBlock) : Prop where
  claimed : blockInfo dObj = some info
  length : info.originalDataFileSize = file.length
  written : ∃ choices : List (Nat → Symbol),
    choices.length = cfg.numberOfBlocksPerDataObject.toNat ∧
      writtenBlocks file cfg.blockSize choices = some blocks ∧
      writeCodedBlocks file cfg.blockSize choices = readBlockFile env dObj

section Written

variable {cfg : DecoderConfiguration} {s : NetworkCodingDecoderStorage} {env : DecoderSurroundings}
variable {dObj : DataObject} {info : BlockInfo} {file : List Symbol} {blocks : List CodedBlock}

/-- The sizes of what was written, and that it is read. -/
theorem HoldsWritten.spec (h : HoldsWritten cfg env dObj info file blocks) :
    (0 < cfg.blockSize ∧ cfg.blockSize < 2147483648 ∧ 0 < file.length ∧
      file.length < 2147483648) ∧
      blocks.length = cfg.numberOfBlocksPerDataObject.toNat ∧
      (∀ x ∈ blocks, x.coeffs.length = numBlocks file.length cfg.blockSize ∧
        x.sums.length = cfg.blockSize) ∧
      readBlockFile env dObj =
        some (blockBytes (numBlocks file.length cfg.blockSize) cfg.blockSize blocks) := by
  obtain ⟨choices, hcount, hblocks, hread⟩ := h.written
  have hL : 0 < file.length := by
    rw [← h.length]
    exact (blockInfo_claimed h.claimed).1
  obtain ⟨⟨hb, hb', hL'⟩, hlen, hall⟩ := writtenBlocks_spec hL hblocks
  refine ⟨⟨hb, hb', hL, hL'⟩, hlen.trans hcount, hall, ?_⟩
  rw [← hread, writeCodedBlocks, hblocks, (one_generation hL hb).1]
  rfl

/-- A file that can be read is not empty: some block was written. -/
theorem HoldsWritten.ne_nil (h : HoldsWritten cfg env dObj info file blocks) : blocks ≠ [] := by
  rintro rfl
  obtain ⟨-, -, -, hread⟩ := h.spec
  unfold readBlockFile at hread
  obtain ⟨bytes, -, hread⟩ := Option.bind_eq_some_iff.mp hread
  split at hread
  · cases hread
  · next hlong =>
      obtain ⟨hne, hlen⟩ := not_or.mp hlong
      have hempty := congrArg List.length (Option.some.inj hread)
      rw [List.length_take, blockBytes, List.flatMap_nil, List.length_nil] at hempty
      have hpos : 0 < dObj.dataLen.toNat := by
        rw [Nat.pos_iff_ne_zero]
        exact fun hzero => hne (UInt64.toNat_inj.mp hzero)
      omega

/-- A decoder is given exactly what was written when it has the sizes with which it was written. -/
theorem HoldsWritten.exactly_iff (h : HoldsWritten cfg env dObj info file blocks)
    (d : CodetorrentDecoder) :
    (Handed.passed (blockBytes (numBlocks file.length cfg.blockSize) cfg.blockSize blocks) d
        (passedBlocks d.getNumberOfBlocksPerGen cfg.blockSize
          cfg.numberOfBlocksPerDataObject.toNat 0)).Exactly (blocks.map CodedBlock.pair) ↔
      d.getNumberOfBlocksPerGen = numBlocks file.length cfg.blockSize ∧
        d.codetorrent.blockSize = cfg.blockSize := by
  obtain ⟨-, hcount, hall, -⟩ := h.spec
  have hne := h.ne_nil
  unfold Handed.Exactly
  constructor
  · rintro ⟨hwithin, hfound⟩
    obtain ⟨x, rest, rfl⟩ := List.exists_cons_of_ne_nil hne
    rw [← hcount, List.length_cons, passedBlocks] at hwithin hfound
    obtain ⟨hcoeffs, hsums⟩ := hwithin _ List.mem_cons_self
    rw [List.map_cons, List.map_cons] at hfound
    obtain ⟨hc, hw⟩ := Prod.mk.inj (List.cons.inj hfound).1
    obtain ⟨hx, hx'⟩ := hall x List.mem_cons_self
    -- the lengths of the first block and its coefficients give both sizes
    have hclen := congrArg List.length hc
    have hwlen := congrArg List.length hw
    simp only [List.length_take, List.length_drop] at hclen hwlen hcoeffs hsums
    omega
  · rintro ⟨hc, hw⟩
    refine ⟨?_, ?_⟩
    · rw [within_iff_fits, hc, hw]
      refine Or.inr ?_
      rw [length_blockBytes hall, ← hcount]
      have hpos : 0 < blocks.length := List.length_pos_of_ne_nil hne
      have hlast : blocks.length * (numBlocks file.length cfg.blockSize + cfg.blockSize) =
          (blocks.length - 1) * (numBlocks file.length cfg.blockSize + cfg.blockSize) +
            (numBlocks file.length cfg.blockSize + cfg.blockSize) := by
        rw [← Nat.succ_mul, Nat.succ_eq_add_one, Nat.sub_add_cancel hpos]
      omega
    · rw [hc, ← hcount]
      exact found_written hc hw blocks [] hall

theorem HoldsWritten.handOver_iff (h : HoldsWritten cfg env dObj info file blocks)
    (hnew : env.isDuplicate = false)
    (hneeded : s.isDecodingCompleted info.originalDataObjectId = false) :
    (∃ handed, handOver cfg s env dObj = some handed ∧
        handed.Exactly (blocks.map CodedBlock.pair)) ↔
      ∀ d, s.decoderStorage info.originalDataObjectId = some d →
        d.getNumberOfBlocksPerGen = numBlocks file.length cfg.blockSize ∧
          d.codetorrent.blockSize = cfg.blockSize := by
  obtain ⟨⟨hb, hb', hL, hL'⟩, -, -, hread⟩ := h.spec
  rw [handOver_of_info (by omega) hnew h.claimed, hneeded, hread]
  unfold NetworkCodingDecoderStorage.decoderFor
  cases s.decoderStorage info.originalDataObjectId with
  | some d =>
      simp only [Option.bind_some, Bool.false_eq_true, if_false, Option.some.injEq,
        exists_eq_left', forall_eq']
      exact h.exactly_iff d
  | none =>
      refine iff_of_true ?_ (fun d hd => by cases hd)
      have hsizes : DecoderSizes cfg NetworkCodingDecoderStorage.empty info
          (numBlocks file.length cfg.blockSize) cfg.blockSize := by
        refine ⟨by rw [h.length]; exact hL', hb, ?_, by rw [h.length]⟩
        exact Int.bmod_eq_of_le (by omega) (by omega)
      obtain ⟨d, hd, hc, hw⟩ := (@decoderSizes_iff cfg _ env _ _ h.claimed _ _).mp hsizes
      have hconstruct : CodetorrentDecoder.construct info.originalDataFileSize
          (decodedFilePath env info.originalFileName) cfg.blockSize = some d := hd
      dsimp only
      rw [hconstruct]
      exact ⟨_, rfl, (h.exactly_iff d).mpr ⟨hc.symm, hw.symm⟩⟩

end Written

/-! ## Runs that come to an end -/

theorem storeBlocks_enough {coeffsLen blockSize : Nat} {draws : Nat → List Nat} :
    ∀ {n : Nat} {bytes : List Symbol} {d d' : CodetorrentDecoder},
      CodetorrentDecoder.storeBlocks coeffsLen blockSize draws n bytes d = some d' →
      n * (coeffsLen + blockSize) ≤ bytes.length := by
  intro n
  induction n with
  | zero => intro bytes d d' _; rw [Nat.zero_mul]; exact Nat.zero_le _
  | succ n ih =>
      intro bytes d d' h
      unfold CodetorrentDecoder.storeBlocks at h
      split at h
      · cases h
      · next hlong =>
          obtain ⟨⟨ct, _⟩, _, h⟩ := Option.bind_eq_some_iff.mp h
          have hrest := ih h
          rw [List.length_drop] at hrest
          rw [Nat.succ_mul]
          omega

/-- Sizes that are positive as an `int` are handed to the constructor as they are. -/
theorem decoderFor_found {cfg : DecoderConfiguration} {s : NetworkCodingDecoderStorage}
    {env : DecoderSurroundings} {info : BlockInfo} (hb : 0 < cfg.blockSize)
    (hb' : cfg.blockSize < 2147483648) (hpos : 0 < info.originalDataFileSize)
    (hsmall : info.originalDataFileSize < 2147483648) :
    s.decoderFor cfg env info = some (s.foundDecoder cfg.blockSize info.originalDataObjectId
      info.originalDataFileSize (decodedFilePath env info.originalFileName)) := by
  unfold NetworkCodingDecoderStorage.decoderFor NetworkCodingDecoderStorage.foundDecoder
  cases s.decoderStorage info.originalDataObjectId with
  | some d => rfl
  | none =>
      have hwidth : (cfg.blockSize : Int).bmod 4294967296 = cfg.blockSize :=
        Int.bmod_eq_of_le (by omega) (by omega)
      have hle := numBlocks_le hpos hb
      dsimp only [CodetorrentDecoder.construct, Option.getD_none]
      rw [hwidth, if_neg (by omega), Int.toNat_natCast, if_neg (by omega)]

/-- A call that is not `none` in `receiveBlock` has stayed in the payload. -/
theorem receiveBlock_within {cfg : DecoderConfiguration} {sha1 : Digest}
    {s : NetworkCodingDecoderStorage} {env : DecoderSurroundings} {dObj : DataObject}
    {r : Received} (hb : 0 < cfg.blockSize) (hb' : cfg.blockSize < 2147483648)
    (hmade : ∀ id d, s.decoderStorage id = some d → d.codetorrent.blockSize = cfg.blockSize)
    (hclaimed : ∀ info, blockInfo dObj = some info → info.originalDataFileSize < 2147483648)
    (h : receiveBlock cfg sha1 s env dObj = some r) :
    ∃ handed, handOver cfg s env dObj = some handed ∧ handed.Within := by
  rw [handOver_within_iff]
  -- the ways out before the payload is looked at
  unfold receiveBlock at h
  split at h
  · next hduplicate => exact Or.inl (Or.inr (Or.inl hduplicate))
  split at h
  · next hnone => exact Or.inl (Or.inr (Or.inr hnone))
  next info hinfo =>
  refine Or.inr ⟨info, hinfo, ?_⟩
  have hfor := @decoderFor_found cfg s env _ hb hb' (blockInfo_claimed hinfo).1
    (hclaimed info hinfo)
  have hentered : (enterBlock cfg sha1 s env dObj info).2 = s.foundDecoder cfg.blockSize
      info.originalDataObjectId info.originalDataFileSize
      (decodedFilePath env info.originalFileName) := rfl
  refine ⟨_, _, (decoderSizes_iff hinfo).mpr ⟨_, hfor, rfl, rfl⟩, ?_⟩
  dsimp only at h
  split at h
  · next hdone => exact Or.inl hdone
  · refine Or.inr (fun payload hread => ?_)
    rw [hread] at h
    obtain ⟨d, hstored, -⟩ := storeFile_cases h
    have hlen := storeBlocks_enough hstored
    rw [hentered] at hlen
    generalize hd : s.foundDecoder cfg.blockSize info.originalDataObjectId
      info.originalDataFileSize (decodedFilePath env info.originalFileName) = found at hlen ⊢
    have hwidth : found.codetorrent.blockSize = cfg.blockSize := by
      rw [← hd]
      unfold NetworkCodingDecoderStorage.foundDecoder
      cases hstored : s.decoderStorage info.originalDataObjectId with
      | some d => exact hmade _ d hstored
      | none => rfl
    unfold Fits
    rw [hwidth]
    by_cases hcount : cfg.numberOfBlocksPerDataObject ≤ 0
    · exact Or.inl hcount
    · refine Or.inr ?_
      -- the last block reaches farther than all before it
      have hlast : cfg.numberOfBlocksPerDataObject.toNat *
          (found.getNumberOfBlocksPerGen + cfg.blockSize) =
          (cfg.numberOfBlocksPerDataObject.toNat - 1) *
            (found.getNumberOfBlocksPerGen + cfg.blockSize) +
            (found.getNumberOfBlocksPerGen + cfg.blockSize) := by
        rw [← Nat.succ_mul, Nat.succ_eq_add_one, Nat.sub_add_cancel (by omega)]
      omega

/-! ## The result -/

/-- **When decoding stays in the payload.** All that is passed to `store_block` lies in what was
read, or the object is refused, exactly when the object is turned away or the parent's decoder
needs no more than there is. What `writeCodedBlocks` wrote is passed block by block exactly when a
decoder that the parent already has is of the sizes with which it was written. -/
theorem decoding_within_payload_iff (cfg : DecoderConfiguration) (s : NetworkCodingDecoderStorage)
    (env : DecoderSurroundings) (dObj : DataObject) :
    ((∃ handed, handOver cfg s env dObj = some handed ∧ handed.Within) ↔
      Turned cfg env dObj ∨ ∃ info, blockInfo dObj = some info ∧ Enough cfg s env dObj info) ∧
    ∀ info file blocks, HoldsWritten cfg env dObj info file blocks → env.isDuplicate = false →
      s.isDecodingCompleted info.originalDataObjectId = false →
      ((∃ handed, handOver cfg s env dObj = some handed ∧
          handed.Exactly (blocks.map CodedBlock.pair)) ↔
        ∀ d, s.decoderStorage info.originalDataObjectId = some d →
          d.getNumberOfBlocksPerGen = numBlocks file.length cfg.blockSize ∧
            d.codetorrent.blockSize = cfg.blockSize) :=
  ⟨handOver_within_iff cfg s env dObj,
    fun _ _ _ h hnew hneeded => h.handOver_iff hnew hneeded⟩

/-! ### Two blocks in one file -/

/-- Blocks of one byte, two in a file. -/
def pairConfiguration : DecoderConfiguration := ⟨1, 2⟩

/-- The first byte, and the sum of both. -/
def mixed (i k : Nat) : Symbol := if k ≤ i then Symbol.ofNat 1 else 0

/-- Two blocks of the bytes 7 and 9. -/
def mixedBlocks : List CodedBlock :=
  [⟨0, 2, 1, [Symbol.ofNat 1, 0], [Symbol.ofNat 7]⟩,
    ⟨0, 2, 1, [Symbol.ofNat 1, Symbol.ofNat 1], [Symbol.ofNat 14]⟩]

theorem mixedBlocks_written :
    writtenBlocks [Symbol.ofNat 7, Symbol.ofNat 9] 1 [mixed 0, mixed 1] = some mixedBlocks := by
  -- the tables are not asked for the products
  have hproduct : ∀ x : Symbol, x * Symbol.ofNat 1 = x := mul_one
  have hsum : Symbol.ofNat 9 + Symbol.ofNat 7 = Symbol.ofNat 14 := by decide
  have hfirst : encodeBlock [[Symbol.ofNat 7], [Symbol.ofNat 9]] 0 2 1 (mixed 0) =
      ⟨0, 2, 1, [Symbol.ofNat 1, 0], [Symbol.ofNat 7]⟩ := by
    simp [encodeBlock, accumulate, entry, List.range_succ, mixed, hproduct]
  have hboth : encodeBlock [[Symbol.ofNat 7], [Symbol.ofNat 9]] 0 2 1 (mixed 1) =
      ⟨0, 2, 1, [Symbol.ofNat 1, Symbol.ofNat 1], [Symbol.ofNat 14]⟩ := by
    simp [encodeBlock, accumulate, entry, List.range_succ, mixed, hproduct, hsum]
  have hblocks : ∀ choice, encode [Symbol.ofNat 7, Symbol.ofNat 9] 2 (loadFileInfo 2 1 2) 1 0
      choice = some (encodeBlock [[Symbol.ofNat 7], [Symbol.ofNat 9]] 0 2 1 choice) := by
    intro choice
    have hload : loadFile [Symbol.ofNat 7, Symbol.ofNat 9] 2 (loadFileInfo 2 1 2) 1 0 =
        some [[Symbol.ofNat 7], [Symbol.ofNat 9]] := by decide +kernel
    rw [encode, hload]
    rfl
  have hcount : numBlocks 2 1 = 2 := by decide
  rw [writtenBlocks, if_neg (by decide), List.mapM_cons, List.mapM_cons, List.mapM_nil,
    List.length_cons, List.length_singleton, hcount, hblocks, hblocks, hfirst, hboth]
  rfl

theorem mixedBlocks_file : writeCodedBlocks [Symbol.ofNat 7, Symbol.ofNat 9] 1 [mixed 0, mixed 1] =
    some (blockBytes 2 1 mixedBlocks) := by
  rw [writeCodedBlocks, mixedBlocks_written]
  rfl

/-- An object with the file of two bytes. -/
def pairObject : DataObject := { byteObject with dataLen := 2, origDataLen := 2 }

def pairWritten : Written := ⟨lit "b", [1, 0, 7, 1, 1, 14], firstSecond⟩

theorem pairBlock_isSome :
    (NetworkCodingEncoderService.encodeDataObject flatHash pairWritten pairObject).isSome = true := by
  decide +kernel

/-- The object with both blocks. -/
def pairBlock : DataObject :=
  (NetworkCodingEncoderService.encodeDataObject flatHash pairWritten pairObject).get
    pairBlock_isSome

def pairSurroundings : DecoderSurroundings :=
  { byteSurroundings with blockFile := some (mixedBlocks.flatMap (fun x => x.coeffs ++ x.sums)) }

/-- Both blocks are passed as they were written. -/
theorem decoding_within_payload_pair :
    ∃ handed, handOver pairConfiguration .empty pairSurroundings pairBlock = some handed ∧
      handed.Exactly (mixedBlocks.map CodedBlock.pair) := by
  obtain ⟨info, hinfo, hsize⟩ : ∃ info, blockInfo pairBlock = some info ∧
      info.originalDataFileSize = 2 := by
    have hsizes : ((blockInfo pairBlock).map BlockInfo.originalDataFileSize) = some 2 := by
      decide +kernel
    exact Option.map_eq_some_iff.mp hsizes
  have hread : readBlockFile pairSurroundings pairBlock = some (blockBytes 2 1 mixedBlocks) := by
    decide +kernel
  have hholds : HoldsWritten pairConfiguration pairSurroundings pairBlock info
      [Symbol.ofNat 7, Symbol.ofNat 9] mixedBlocks := by
    exact ⟨hinfo, hsize, [mixed 0, mixed 1], rfl, mixedBlocks_written,
      mixedBlocks_file.trans hread.symm⟩
  exact ((decoding_within_payload_iff pairConfiguration .empty pairSurroundings pairBlock).2 info
    [Symbol.ofNat 7, Symbol.ofNat 9] _ hholds rfl rfl).mpr (fun d hd => by cases hd)

/-- The block of the byte 7, cut off after its coefficient. -/
def shortBlock : DataObject := { byteBlock with dataLen := 1 }

def shortSurroundings : DecoderSurroundings :=
  { byteSurroundings with blockFile := some [Symbol.ofNat 1] }

/-- Its data are taken from behind the file. -/
theorem decoding_beyond_payload :
    ¬ ∃ handed, handOver byteConfiguration .empty shortSurroundings shortBlock = some handed ∧
      handed.Within := by
  rw [handOver_within_iff]
  rintro ((hsize | hduplicate | hnone) | ⟨info, hinfo, coeffsLen, width, hsizes, hdone | hfits⟩)
  · cases hsize
  · cases hduplicate
  · have hsome : (blockInfo shortBlock).isSome = true := by decide +kernel
    rw [hnone] at hsome
    cases hsome
  · cases hdone
  · have hread : readBlockFile shortSurroundings shortBlock = some [Symbol.ofNat 1] := by
      decide +kernel
    obtain ⟨-, hwidth, hint, rfl⟩ := hsizes
    have hone : (width : Int) = 1 := by
      rw [← hint]
      decide
    have hn := numBlocks_bounds (blockInfo_claimed hinfo).1 hwidth
    rcases hfits _ hread with hnone | hlong
    · exact absurd hnone (by decide)
    · rw [List.length_singleton] at hlong
      omega

end Encoders.Coding
