import Encoders.Coding.Payload
import Encoders.Fragment.EndToEnd

/-!
# A fragment becomes a block

When a node that decodes blocks holds plain fragments of the same parent, `encodeFragment` writes
a block file for each of them: a unit vector as coefficients, then the fragment. The only caller
passes the length of the fragment object as the fragment size, and everything is computed from
it: the number of blocks of the parent, how much of the fragment is read, and the buffer for the
data. The file gets a whole block of data from that buffer nevertheless, because the decoder goes
by the configured block size.

The two sizes are one for every fragment but a last one that is shorter, and that one is lost
(`fragment_conversion_iff`).
-/

namespace Encoders.Coding

open Encoders.Lib Encoders.Data

variable {ι : Type}

/-! ## Conversion -/

/-- Bytes that are read to be coded. -/
def fileSymbols (bytes : Fragment.Bytes) : List Symbol := bytes

/-- `EncodeSingleBlock` of `SingleBlockEncoder`: fake data with the fragment as their only block. -/
def singleBlock (fragBlockData : List Symbol) (blockIdInGen fragDataSize numBlocksGen : Nat) :
    CodedBlock :=
  let fakeData := (List.range numBlocksGen).map (fun i =>
    if i = blockIdInGen then fragBlockData.take fragDataSize else List.replicate fragDataSize 0)
  encodeSingleBlock fakeData 0 numBlocksGen fragDataSize blockIdInGen

/-- The file that `encodeFragment` writes. `none`: a size is no positive `int`, or more is read
into a buffer or from one than it has. -/
def encodeFragmentFile (blockSize : Nat) (fragDataObject : Fragment.FragmentDataObject ι)
    (fragmentSize : Nat) : Option (List Symbol) :=
  let sequenceNumber := (strtol fragDataObject.sequenceNumber % 18446744073709551616).toNat
  let parentDataObjectFileSize := (Fragment.getFragmentParentDataObjectInfo fragDataObject).fileSize
  let info := Fragment.calculateFragmentationPositionInfo sequenceNumber fragmentSize
    parentDataObjectFileSize
  let bytesRead := fileSymbols (fragDataObject.contents.take info.actualFragmentSize)
  let numBlock := numBlocks parentDataObjectFileSize fragmentSize
  if fragmentSize = 0 ∨ 2147483648 ≤ fragmentSize ∨ 2147483648 ≤ numBlock then none
  else if fragmentSize + 1 < bytesRead.length then none
  -- `sums` has been allocated with the size of the fragment
  else if fragmentSize < blockSize then none
  else
    let buffer := bytesRead ++ List.replicate (fragmentSize + 1 - bytesRead.length) 0
    let block := singleBlock buffer (Fragment.sizeSub sequenceNumber 1 % 4294967296) fragmentSize
      numBlock
    some (block.coeffs.take numBlock ++ block.sums.take blockSize)

/-- `onIncomingFragmentationToNetworkCodingConversion` -/
def onIncomingFragmentationToNetworkCodingConversion (cfg : DecoderConfiguration)
    (fragmentDataObject : Fragment.FragmentDataObject ι) : Option (List Symbol) :=
  encodeFragmentFile cfg.blockSize fragmentDataObject fragmentDataObject.contents.length

/-- A unit vector. -/
def unitVector (n i : Nat) : List Symbol := (List.range n).map (fun k => if k = i then 1 else 0)

/-- The `q`-th fragment of a file, followed by zeros. -/
def paddedFragment (file : List Symbol) (s q : Nat) : List Symbol :=
  let fragment := (file.drop ((q - 1) * s)).take s
  fragment ++ List.replicate (s - fragment.length) 0

/-- What a decoder is handed of a file. -/
def passFile (cfg : DecoderConfiguration) (d : CodetorrentDecoder) (payload : List Symbol) :
    Handed :=
  .passed payload d (passedBlocks d.getNumberOfBlocksPerGen cfg.blockSize
    cfg.numberOfBlocksPerDataObject.toNat 0)

/-- The fragment is written as a unit vector and the padded fragment, and a decoder for the file
is handed just that, a valid block of the parent. -/
def Converts (cfg : DecoderConfiguration) (file : List Symbol) (q : Nat)
    (fragment : Fragment.FragmentDataObject ι) : Prop :=
  let n := numBlocks file.length cfg.blockSize
  ∃ payload, onIncomingFragmentationToNetworkCodingConversion cfg fragment = some payload ∧
    payload = unitVector n (q - 1) ++ paddedFragment file cfg.blockSize q ∧
    ∀ d : CodetorrentDecoder, d.getNumberOfBlocksPerGen = n →
      d.codetorrent.blockSize = cfg.blockSize →
      (passFile cfg d payload).Exactly
        [(unitVector n (q - 1), paddedFragment file cfg.blockSize q)] ∧
      Consistent (source file cfg.blockSize) n cfg.blockSize (d.blockAt n payload)

/-! ## A block with one fragment in it -/

theorem length_unitVector (n i : Nat) : (unitVector n i).length = n := by
  rw [unitVector, List.length_map, List.length_range]

theorem length_paddedFragment (file : List Symbol) (s q : Nat) :
    (paddedFragment file s q).length = s := by
  unfold paddedFragment
  rw [List.length_append, List.length_replicate]
  have := List.length_take_le s (file.drop ((q - 1) * s))
  omega

theorem lengths_singleBlock (data : List Symbol) (i s n : Nat) :
    (singleBlock data i s n).coeffs.length = n ∧ (singleBlock data i s n).sums.length = s := by
  refine ⟨length_unitVector n i, ?_⟩
  exact length_accumulate _ _ _ _

/-- The unit vector picks the fragment out of the fake data. -/
theorem singleBlock_eq {data : List Symbol} {i s n : Nat} (hi : i < n) (hs : s ≤ data.length) :
    singleBlock data i s n = ⟨0, n, s, unitVector n i, data.take s⟩ := by
  have hcoeffs : (singleBlock data i s n).coeffs = unitVector n i := rfl
  have hunit : ∀ k < n, (unitVector n i).getD k 0 = if k = i then 1 else 0 := by
    intro k hk
    exact map_range_getD _ hk
  have hblock : Consistent (fun _ j => data.getD j 0) n s (singleBlock data i s n) := by
    refine encodeBlock_consistent _ ?_
    intro k hk j hj hne
    have hki : k = i := by
      by_contra hc
      exact hne (if_neg hc)
    rw [entry_map_range _ hk, if_pos hki, List.getD_eq_getElem?_getD, List.getD_eq_getElem?_getD,
      List.getElem?_take, if_pos hj]
  have hsums : (singleBlock data i s n).sums = data.take s := by
    refine List.ext_getElem ?_ ?_
    · rw [hblock.lengths.2, List.length_take, Nat.min_eq_left hs]
    · intro j hj hj'
      have hjs : j < s := by
        rw [← hblock.lengths.2]
        exact hj
      have hsum := hblock.sums j hjs
      rw [hcoeffs, Finset.sum_eq_single i, hunit i hi, if_pos rfl, one_mul,
        List.getD_eq_getElem _ _ hj, List.getD_eq_getElem _ _ (by omega)] at hsum
      · rw [hsum, List.getElem_take]
      · intro k hk hki
        rw [hunit k (Finset.mem_range.mp hk), if_neg hki, zero_mul]
      · exact fun hnot => absurd (Finset.mem_range.mpr hi) hnot
  rw [← hcoeffs, ← hsums]
  rfl

/-- With the block size as fragment size, the block is the padded fragment. -/
theorem encodeFragment_eq {file : List Symbol} {s q : Nat} (hq1 : 1 ≤ q)
    (hq : q ≤ numBlocks file.length s) :
    encodeFragment file s q = ⟨0, numBlocks file.length s, s,
      unitVector (numBlocks file.length s) (q - 1), paddedFragment file s q⟩ := by
  have hfull : (paddedFragment file s q).take s = paddedFragment file s q :=
    List.take_of_length_le (by rw [length_paddedFragment])
  have hblock : encodeFragment file s q =
      singleBlock (paddedFragment file s q) (q - 1) s (numBlocks file.length s) := by
    unfold singleBlock
    rw [hfull]
    rfl
  rw [hblock, singleBlock_eq (by omega) (by rw [length_paddedFragment]), hfull]

/-- So it is a block that an honest node sends. -/
theorem paddedFragment_consistent {file : List Symbol} {s q : Nat} (hq1 : 1 ≤ q)
    (hq : q ≤ numBlocks file.length s) :
    Consistent (source file s) (numBlocks file.length s) s
      ⟨0, numBlocks file.length s, s, unitVector (numBlocks file.length s) (q - 1),
        paddedFragment file s q⟩ := by
  rw [← encodeFragment_eq hq1 hq]
  exact encodeFragment_consistent file s q

/-! ## The fragment objects of a file -/

section Fragment

variable {file : List Symbol} {s q : Nat} {id : ι} {fileName fragmentId : String}
variable {fragment : Fragment.FragmentDataObject ι}

/-- Fragments are counted as blocks are. -/
theorem totalNumberOfFragments_eq {L s : Nat} (hL : 0 < L) (hs : 0 < s) :
    Fragment.calculateTotalNumberOfFragments L s = numBlocks L s := by
  have hpos := (numBlocks_bounds hL hs).1
  unfold numBlocks at hpos ⊢
  unfold Fragment.calculateTotalNumberOfFragments
  dsimp only
  rw [if_neg (by omega)]

/-- A sequence number that fits an `int` is read back from the text. -/
theorem sequenceNumber_read {text : List Char} (h : text = sprintfD (q : Int))
    (hq : q < 2147483648) : (strtol text % 18446744073709551616).toNat = q := by
  rw [h, strtol_sprintfD (by omega) (by omega)]
  omega

/-- The object with the `q`-th fragment: its number, the length that is claimed, and its bytes. -/
theorem fragmentObject_spec (hsz : Fragment.Sizes file.length s) (hq1 : 1 ≤ q)
    (hq : q ≤ numBlocks file.length s)
    (h : Fragment.encodeDataObject (fileBytes file) id fileName fragmentId 1 (q - 1) s =
      some fragment) :
    q < 2147483648 ∧ (file.length : Int).bmod 4294967296 ≠ 0 ∧
      fragment.sequenceNumber = sprintfD (q : Int) ∧
      fragment.parentOrigLen = sprintfD ((file.length : Int).bmod 4294967296) ∧
      fileSymbols fragment.contents = (file.drop ((q - 1) * s)).take s := by
  have htotal := totalNumberOfFragments_eq hsz.file_pos hsz.frag_pos
  obtain ⟨hfew, hne⟩ := Fragment.encode_isSome (Option.isSome_of_eq_some h)
  obtain ⟨fragment', h', -, hsize, hnumber, hcontents⟩ :=
    @Fragment.encodeDataObject_eq _ (fileBytes file) _ hsz id fileName fragmentId 1 (q - 1) hfew
      hne
  rw [h] at h'
  rw [← Option.some.inj h'] at hsize hnumber hcontents
  have hlen : (fileBytes file).length = file.length := rfl
  have hnumbers : Fragment.sequenceNumbersToWrite
      (Fragment.calculateTotalNumberOfFragments (fileBytes file).length s) 1 (q - 1) = [q] := by
    unfold Fragment.sequenceNumbersToWrite
    rw [hlen, htotal, Nat.sub_add_cancel hq1,
      Nat.min_eq_left (by omega : 1 ≤ numBlocks file.length s),
      Nat.min_eq_left (by omega)]
    rfl
  rw [hlen, htotal] at hfew
  rw [hnumbers] at hnumber hcontents
  refine ⟨by omega, hne, ?_, hsize, ?_⟩
  · rw [hnumber, List.map_singleton, List.intercalate_singleton]
  · rw [hcontents, List.flatMap_singleton]
    rfl

/-- The length that is claimed, read as a `size_t`. -/
theorem fragment_fileSize (hsize : fragment.parentOrigLen =
      sprintfD ((file.length : Int).bmod 4294967296))
    (hne : (file.length : Int).bmod 4294967296 ≠ 0) :
    (Fragment.getFragmentParentDataObjectInfo fragment).fileSize =
      ((file.length : Int).bmod 4294967296 % 18446744073709551616).toNat := by
  have hlow := @Int.le_bmod (file.length : Int) 4294967296 (by omega)
  have hhigh := @Int.bmod_lt (file.length : Int) 4294967296 (by omega)
  refine (Fragment.info_of_length ?_ ?_).1
  · omega
  · rw [hsize, strtol_sprintfD (by omega) (by omega)]

/-- The length that is claimed is the file's, or it has too many blocks of any size, or it is
shorter by more than any size. -/
theorem claimed_length (hne : (file.length : Int).bmod 4294967296 ≠ 0) :
    let claimed := ((file.length : Int).bmod 4294967296 % 18446744073709551616).toNat
    file.length < 2147483648 ∧ claimed = file.length ∨
      2147483648 ≤ file.length ∧
        (18446744071562067968 ≤ claimed ∨ 0 < claimed ∧ claimed + 2147483648 ≤ file.length) := by
  have hlow := @Int.le_bmod (file.length : Int) 4294967296 (by omega)
  have hhigh := @Int.bmod_lt (file.length : Int) 4294967296 (by omega)
  have hmod : (file.length : Int).bmod 4294967296 % 4294967296 = (file.length : Int) % 4294967296 :=
    Int.bmod_emod
  generalize (file.length : Int).bmod 4294967296 = v at hne hlow hhigh hmod ⊢
  dsimp only
  omega

end Fragment

/-! ## When a fragment is converted -/

section Conversion

variable {cfg : DecoderConfiguration} {file : List Symbol} {q : Nat} {id : ι}
variable {fileName fragmentId : String} {fragment : Fragment.FragmentDataObject ι}

theorem length_passedBlocks (coeffsLen blockSize : Nat) : ∀ n pointer,
    (passedBlocks coeffsLen blockSize n pointer).length = n
  | 0, _ => rfl
  | n + 1, pointer => by rw [passedBlocks, List.length_cons, length_passedBlocks]

/-- What a decoder finds in the file of one block of its sizes. -/
theorem found_block {d : CodetorrentDecoder} {coeffs sums : List Symbol}
    (hc : d.getNumberOfBlocksPerGen = coeffs.length) (hw : d.codetorrent.blockSize = sums.length) :
    d.found (coeffs ++ sums) ⟨0, 0 + coeffs.length⟩ = (coeffs, sums) ∧
      d.blockAt coeffs.length (coeffs ++ sums) = ⟨0, coeffs.length, sums.length, coeffs, sums⟩ := by
  unfold CodetorrentDecoder.found CodetorrentDecoder.blockAt
  dsimp only
  rw [hc, hw, List.drop_zero, List.take_left, Nat.zero_add, List.drop_left, List.take_length]
  exact ⟨rfl, rfl⟩

/-- A fragment of a whole block becomes the block it is. -/
theorem converts_of_full (hsz : Fragment.Sizes file.length cfg.blockSize) (hq1 : 1 ≤ q)
    (hq : q ≤ numBlocks file.length cfg.blockSize)
    (h : Fragment.encodeDataObject (fileBytes file) id fileName fragmentId 1 (q - 1)
      cfg.blockSize = some fragment)
    (hint : file.length < 2147483648) (hfull : q * cfg.blockSize ≤ file.length)
    (hone : cfg.numberOfBlocksPerDataObject = 1) : Converts cfg file q fragment := by
  obtain ⟨hq31, hne, hnumber, hsize, hcontents⟩ := fragmentObject_spec hsz hq1 hq h
  have hfileSize := fragment_fileSize hsize hne
  obtain ⟨hn, -, hall⟩ := numBlocks_bounds hsz.file_pos hsz.frag_pos
  have hmul : q * cfg.blockSize = (q - 1) * cfg.blockSize + cfg.blockSize := by
    rw [← Nat.succ_mul, Nat.succ_eq_add_one, Nat.sub_add_cancel hq1]
  have hs := hsz.frag_pos
  have hsymbols : (fileSymbols fragment.contents).length = cfg.blockSize := by
    rw [hcontents, List.length_take, List.length_drop]
    omega
  have hlen : fragment.contents.length = cfg.blockSize := hsymbols
  -- the name that the fragment claims gives back the length of the file
  have hclaimed : (Fragment.getFragmentParentDataObjectInfo fragment).fileSize = file.length := by
    rcases claimed_length hne with ⟨-, heq⟩ | ⟨hlong, -⟩
    · rw [hfileSize, heq]
    · omega
  have hposition : (Fragment.calculateFragmentationPositionInfo q cfg.blockSize
      file.length).actualFragmentSize = cfg.blockSize := by
    rw [Fragment.positionInfo_eq hsz.file_pos (by have := hsz.file_lt; omega) hs hsz.frag_lt hq1
      (by rw [totalNumberOfFragments_eq hsz.file_pos hs]; exact hq)]
    exact Nat.min_eq_left (by omega)
  -- a whole block needs no padding
  have hpadded : paddedFragment file cfg.blockSize q = fileSymbols fragment.contents := by
    unfold paddedFragment
    dsimp only
    rw [← hcontents, hsymbols, Nat.sub_self, List.replicate_zero, List.append_nil]
  have hindex : Fragment.sizeSub q 1 % 4294967296 = q - 1 := by
    unfold Fragment.sizeSub
    omega
  have hcount := numBlocks_le hsz.file_pos hs
  refine ⟨unitVector (numBlocks file.length cfg.blockSize) (q - 1) ++
    paddedFragment file cfg.blockSize q, ?_, rfl, ?_⟩
  · unfold onIncomingFragmentationToNetworkCodingConversion encodeFragmentFile
    dsimp only
    rw [sequenceNumber_read hnumber hq31, hclaimed, hlen, hposition,
      List.take_of_length_le hlen.le, if_neg (by omega), if_neg (by omega), if_neg (by omega), hindex,
      singleBlock_eq (by omega) (by simp; omega)]
    dsimp only
    rw [List.take_append_of_le_length hsymbols.ge, List.take_of_length_le hsymbols.le,
      List.take_of_length_le hsymbols.le, List.take_of_length_le (length_unitVector _ _).le, hpadded]
  · -- a decoder made for these sizes finds the vector first and the block behind it
    intro d hc hw
    obtain ⟨hfound, hblock⟩ := @found_block d (unitVector (numBlocks file.length cfg.blockSize)
      (q - 1)) (paddedFragment file cfg.blockSize q) (by rw [hc, length_unitVector])
      (by rw [hw, length_paddedFragment])
    rw [length_unitVector] at hfound hblock
    refine ⟨⟨?_, ?_⟩, ?_⟩
    · rw [within_iff_fits, hc, hw]
      refine Or.inr ?_
      rw [hone, List.length_append, length_unitVector, length_paddedFragment]
      simp
    · rw [hone, hc]
      exact congrArg (fun x => [x]) hfound
    · rw [hblock, length_paddedFragment]
      exact paddedFragment_consistent hq1 hq

/-- A fragment that became the block it is was a whole one. -/
theorem full_of_converts (hsz : Fragment.Sizes file.length cfg.blockSize) (hq1 : 1 ≤ q)
    (hq : q ≤ numBlocks file.length cfg.blockSize)
    (h : Fragment.encodeDataObject (fileBytes file) id fileName fragmentId 1 (q - 1)
      cfg.blockSize = some fragment) (hconverts : Converts cfg file q fragment) :
    file.length < 2147483648 ∧ q * cfg.blockSize ≤ file.length ∧
      cfg.numberOfBlocksPerDataObject = 1 := by
  obtain ⟨hq31, hne, hnumber, hsize, hcontents⟩ := fragmentObject_spec hsz hq1 hq h
  obtain ⟨payload, hwritten, hpayload, hstored⟩ := hconverts
  have hs := hsz.frag_pos
  have hmul : q * cfg.blockSize = (q - 1) * cfg.blockSize + cfg.blockSize := by
    rw [← Nat.succ_mul, Nat.succ_eq_add_one, Nat.sub_add_cancel hq1]
  -- a decoder of these sizes is there to be handed one block
  have hcount : cfg.numberOfBlocksPerDataObject = 1 := by
    obtain ⟨⟨-, hfound⟩, -⟩ := hstored (.new file.length [] cfg.blockSize)
      (new_blocksPerGen hsz.file_pos hs []) rfl
    have hlen := congrArg List.length hfound
    rw [List.length_map, length_passedBlocks, List.length_singleton] at hlen
    omega
  unfold onIncomingFragmentationToNetworkCodingConversion encodeFragmentFile at hwritten
  dsimp only at hwritten
  rw [sequenceNumber_read hnumber hq31] at hwritten
  split at hwritten
  · cases hwritten
  · next hsizes =>
    split at hwritten
    · cases hwritten
    · split at hwritten
      · cases hwritten
      · next hwhole =>
        -- no more data than a whole block are in the fragment
        have hsymbols : (fileSymbols fragment.contents).length = fragment.contents.length := rfl
        rw [hcontents, List.length_take, List.length_drop] at hsymbols
        have hlen : fragment.contents.length = cfg.blockSize := by omega
        have hfull : q * cfg.blockSize ≤ file.length := by omega
        refine ⟨?_, hfull, hcount⟩
        have hlength := congrArg List.length (Option.some.inj hwritten)
        simp only [hpayload, List.length_append, List.length_take, lengths_singleBlock,
          length_unitVector, length_paddedFragment, hlen, fragment_fileSize hsize hne] at hlength
        rw [hlen, fragment_fileSize hsize hne] at hsizes
        obtain ⟨hn, hlast, hall⟩ := numBlocks_bounds hsz.file_pos hs
        have hclaimed := claimed_length hne
        dsimp only at hclaimed
        generalize ((file.length : Int).bmod 4294967296 % 18446744073709551616).toNat = claimed
          at hclaimed hlength hsizes
        rcases hclaimed with ⟨hint, -⟩ | ⟨-, hhuge | ⟨hpos, hshort⟩⟩
        · exact hint
        · exact absurd (numBlocks_huge hhuge hs (by omega)) (by omega)
        · -- the claimed length has fewer blocks than the file
          have hblocks := (numBlocks_bounds hpos hs).2.1
          rw [Nat.min_self, Nat.min_self] at hlength
          have hsame := Nat.add_right_cancel hlength
          rw [hsame] at hblocks
          have hmulN : numBlocks file.length cfg.blockSize * cfg.blockSize =
              (numBlocks file.length cfg.blockSize - 1) * cfg.blockSize + cfg.blockSize := by
            rw [← Nat.succ_mul, Nat.succ_eq_add_one, Nat.sub_add_cancel hn]
          omega

/-- What a conversion has written is handed to the decoder of the parent as the block it is. -/
theorem Converts.handed (hsz : Fragment.Sizes file.length cfg.blockSize)
    (hb : cfg.blockSize < 2147483648) (hint : file.length < 2147483648)
    (hconverts : Converts cfg file q fragment) {payload : List Symbol}
    (hpayload : onIncomingFragmentationToNetworkCodingConversion cfg fragment = some payload)
    {s : NetworkCodingDecoderStorage} {env : DecoderSurroundings} {dObj : DataObject}
    {info : BlockInfo} (hinfo : blockInfo dObj = some info)
    (hlen : info.originalDataFileSize = file.length)
    (hread : readBlockFile env dObj = some payload) (hnew : env.isDuplicate = false)
    (hneeded : s.isDecodingCompleted info.originalDataObjectId = false)
    (hmade : ∀ d, s.decoderStorage info.originalDataObjectId = some d →
      d.getNumberOfBlocksPerGen = numBlocks file.length cfg.blockSize ∧
        d.codetorrent.blockSize = cfg.blockSize) :
    ∃ handed, handOver cfg s env dObj = some handed ∧
      handed.Exactly [(unitVector (numBlocks file.length cfg.blockSize) (q - 1),
        paddedFragment file cfg.blockSize q)] := by
  obtain ⟨payload', hwritten, -, hstored⟩ := hconverts
  rw [hpayload] at hwritten
  rw [← Option.some.inj hwritten] at hstored
  have hs := hsz.frag_pos
  have hfor := @decoderFor_found cfg s env _ hs hb
    (blockInfo_claimed hinfo).1 (by rw [hlen]; exact hint)
  -- a decoder that was there is as promised, a new one is made from the block
  have hsizes : (s.foundDecoder cfg.blockSize info.originalDataObjectId info.originalDataFileSize
        (decodedFilePath env info.originalFileName)).getNumberOfBlocksPerGen =
        numBlocks file.length cfg.blockSize ∧
      (s.foundDecoder cfg.blockSize info.originalDataObjectId info.originalDataFileSize
        (decodedFilePath env info.originalFileName)).codetorrent.blockSize = cfg.blockSize := by
    unfold NetworkCodingDecoderStorage.foundDecoder
    cases hfound : s.decoderStorage info.originalDataObjectId with
    | some d => exact hmade d hfound
    | none =>
        rw [Option.getD_none, hlen]
        exact ⟨new_blocksPerGen hsz.file_pos hs _, rfl⟩
  refine ⟨_, ?_, (hstored _ hsizes.1 hsizes.2).1⟩
  rw [handOver_of_info (by omega) hnew hinfo, hfor, hneeded, hread]
  rfl

end Conversion

/-- **When a fragment becomes a block.** The `q`-th fragment object is converted into a unit
vector and the padded fragment, which a decoder for the parent takes for one valid block, exactly
when the parent's length is an `int`, the fragment is as long as a block, and a file holds one
block. Then every object with this file is handed to the decoder as that block. -/
theorem fragment_conversion_iff (cfg : DecoderConfiguration) {file : List Symbol} {q : Nat} {id : ι}
    {fileName fragmentId : String} {fragment : Fragment.FragmentDataObject ι}
    (hsz : Fragment.Sizes file.length cfg.blockSize) (hq1 : 1 ≤ q)
    (hq : q ≤ numBlocks file.length cfg.blockSize)
    (h : Fragment.encodeDataObject (fileBytes file) id fileName fragmentId 1 (q - 1)
      cfg.blockSize = some fragment) :
    (Converts cfg file q fragment ↔ file.length < 2147483648 ∧
        q * cfg.blockSize ≤ file.length ∧ cfg.numberOfBlocksPerDataObject = 1) ∧
    (Converts cfg file q fragment →
      ∀ (s : NetworkCodingDecoderStorage) (env : DecoderSurroundings) (dObj : DataObject)
        (info : BlockInfo), blockInfo dObj = some info →
        info.originalDataFileSize = file.length →
        readBlockFile env dObj = onIncomingFragmentationToNetworkCodingConversion cfg fragment →
        env.isDuplicate = false → s.isDecodingCompleted info.originalDataObjectId = false →
        (∀ d, s.decoderStorage info.originalDataObjectId = some d →
          d.getNumberOfBlocksPerGen = numBlocks file.length cfg.blockSize ∧
            d.codetorrent.blockSize = cfg.blockSize) →
        ∃ handed, handOver cfg s env dObj = some handed ∧
          handed.Exactly [(unitVector (numBlocks file.length cfg.blockSize) (q - 1),
            paddedFragment file cfg.blockSize q)]) := by
  refine ⟨⟨full_of_converts hsz hq1 hq h, ?_⟩, ?_⟩
  · rintro ⟨hint, hfull, hone⟩
    exact converts_of_full hsz hq1 hq h hint hfull hone
  · intro hconverts s env dObj info hinfo hlen hread hnew hneeded hmade
    obtain ⟨hint, hfull, -⟩ := full_of_converts hsz hq1 hq h hconverts
    have hb : cfg.blockSize ≤ q * cfg.blockSize := Nat.le_mul_of_pos_left _ hq1
    obtain ⟨payload, hpayload⟩ : ∃ payload,
        onIncomingFragmentationToNetworkCodingConversion cfg fragment = some payload :=
      ⟨hconverts.choose, hconverts.choose_spec.1⟩
    exact hconverts.handed hsz (by omega) hint hpayload hinfo hlen (hread.trans hpayload) hnew
      hneeded hmade

/-- Of four bytes in blocks of two, the second half becomes the second of two blocks. -/
theorem fragment_conversion_second : ∃ fragment : Fragment.FragmentDataObject Unit,
    Fragment.encodeDataObject (fileBytes [3, 5, 7, 9]) () "a" "f" 1 1 2 = some fragment ∧
      Converts ⟨2, 1⟩ [3, 5, 7, 9] 2 fragment := by
  obtain ⟨fragment, h⟩ := Option.isSome_iff_exists.mp
    (show (Fragment.encodeDataObject (fileBytes [3, 5, 7, 9]) () "a" "f" 1 1 2).isSome = true by
      decide +kernel)
  have hsz : Fragment.Sizes [(3 : Symbol), 5, 7, 9].length 2 :=
    ⟨by decide, by decide, by decide, by decide⟩
  exact ⟨fragment, h, (@fragment_conversion_iff _ ⟨2, 1⟩ _ _ _ _ _ _ hsz (by decide) (by decide)
    h).1.mpr ⟨by decide, by decide, rfl⟩⟩

/-- Three bytes in blocks of two: the fragment with the last byte is not converted. -/
theorem last_fragment_lost : ∃ fragment : Fragment.FragmentDataObject Unit,
    Fragment.encodeDataObject (fileBytes [1, 2, 3]) () "a" "f" 1 1 2 = some fragment ∧
      ¬ Converts ⟨2, 1⟩ [1, 2, 3] 2 fragment := by
  obtain ⟨fragment, h⟩ := Option.isSome_iff_exists.mp
    (show (Fragment.encodeDataObject (fileBytes [1, 2, 3]) () "a" "f" 1 1 2).isSome = true by
      decide +kernel)
  refine ⟨fragment, h, ?_⟩
  intro hconverts
  have hsz : Fragment.Sizes [(1 : Symbol), 2, 3].length 2 :=
    ⟨by decide, by decide, by decide, by decide⟩
  obtain ⟨-, hfull, -⟩ :=
    @full_of_converts _ ⟨2, 1⟩ _ _ _ _ _ _ hsz (by decide) (by decide) h hconverts
  exact absurd hfull (by decide)

end Encoders.Coding
