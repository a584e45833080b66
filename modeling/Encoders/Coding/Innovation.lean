import Encoders.Coding.Decoding
import Encoders.Coding.Generations
import Encoders.Lib.Run

/-!
# Which blocks a client takes

A client keeps, for every generation, a matrix it reduces incoming coefficients by, and a
rank it counts up. What it accepts is a matter of linear algebra alone: a block is helpful
exactly if its coefficients are not in the span of those accepted before, and the rank is
the dimension of that span. The memory buffer and the files play no part in it.

The operations below are those on the client's buffers. `PushGenBuf` is not among them: it
is private, and only the loop of `FlushBuf` calls it.
-/

namespace Encoders.Coding

open Encoders.Lib Module Submodule

variable {block : CodedBlock}
variable {ct : CodeTorrent} {gens : List Nat} {accepted : List CodedBlock}

/-! ## Operations on the buffers -/

/-- What is done with the buffers of a client, random draws included. -/
inductive BufferOp where
  | storeBlock (draws : List Nat) (block : CodedBlock)
  | flushBuf (draws : List Nat)
  | readGenBuf (gen k : Nat)

/-- The client, and the blocks it has accepted in their order. -/
abbrev Client := CodeTorrent × List CodedBlock

/-- One operation; the accepted blocks are written down beside the client. That there is a block to
read is for the caller of `ReadGenBuf` to see to. -/
def buffered (w : Client) : BufferOp → Option Client
  | .storeBlock draws block =>
      (w.1.storeBlock draws block).map
        (fun r => (r.1, if r.2 then w.2 ++ [block] else w.2))
  | .flushBuf draws => (w.1.flushBuf draws).map (fun ct => (ct, w.2))
  | .readGenBuf gen k =>
      if k < w.1.rankVec.getD gen 0 - w.1.rankVecInBuf.getD gen 0 then some w else none

/-- A block for a client with these generations. -/
structure ForClient (gens : List Nat) (b : Nat) (block : CodedBlock) : Prop where
  gen : block.gen < gens.length
  sized : Sized (gens.getD block.gen 0) b block

/-- The blocks that are stored are made for the client. -/
def BufferOp.Fits (gens : List Nat) (b : Nat) : BufferOp → Prop
  | .storeBlock _ block => ForClient gens b block
  | _ => True

/-- The generations of a client, and what they hold. -/
def clientGens (fileSize blockSize perGen : Nat) : List Nat :=
  (clientFileInfo fileSize blockSize perGen).map Int.toNat

/-- The accepted blocks of a generation. -/
def ofGen (gen : Nat) (blocks : List CodedBlock) : List CodedBlock :=
  blocks.filter (fun x => x.gen = gen)

theorem ofGen_snoc_self (blocks : List CodedBlock) (block : CodedBlock) :
    ofGen block.gen (blocks ++ [block]) = ofGen block.gen blocks ++ [block] := by
  rw [ofGen, List.filter_append, List.filter_cons_of_pos (by simp), List.filter_nil]
  rfl

theorem ofGen_snoc_other {gen : Nat} {blocks : List CodedBlock} (h : block.gen ≠ gen) :
    ofGen gen (blocks ++ [block]) = ofGen gen blocks := by
  rw [ofGen, List.filter_append, List.filter_cons_of_neg (by simpa using h), List.filter_nil,
    List.append_nil]
  rfl

/-! ## What the operations do -/

/-- What stays when blocks move from memory to files. -/
structure SameRanks (ct ct' : CodeTorrent) : Prop where
  gens : ct'.numBlocksGen = ct.numBlocksGen
  block : ct'.blockSize = ct.blockSize
  rank : ct'.rankVec = ct.rankVec
  helpful : ct'.mHelpful = ct.mHelpful
  inBuf : ct'.rankVecInBuf.length = ct.rankVecInBuf.length

theorem sameRanks_flushBuf {ct' : CodeTorrent} {draws : List Nat} (h : ct.flushBuf draws = some ct')
    : SameRanks ct ct' := by
  obtain ⟨buf, inBuf, files, overrun, rfl, hlen⟩ := flushBuf_frame h
  exact ⟨rfl, rfl, rfl, rfl, hlen⟩

/-! ## The matrices span what was accepted -/

/-- The coefficients of the accepted blocks of a generation. -/
def genSpan (gens : List Nat) (accepted : List CodedBlock) (gen : Nat) :
    Submodule Symbol (Fin (gens.getD gen 0) → Symbol) :=
  listSpan (gens.getD gen 0) ((ofGen gen accepted).map CodedBlock.coeffs)

/-- Every generation has a clean matrix in echelon form that spans what was accepted. -/
structure Ranked (gens : List Nat) (w : Client) : Prop where
  shape : w.1.numBlocksGen = gens
  lengths : w.1.rankVec.length = gens.length ∧ w.1.rankVecInBuf.length = gens.length ∧
    w.1.mHelpful.length = gens.length
  echelon : ∀ g < gens.length,
    Echelon (gens.getD g 0) (gens.getD g 0) (w.1.mHelpful.getD g [])
  clean : ∀ g < gens.length, Clean (gens.getD g 0) (w.1.mHelpful.getD g [])
  rank : ∀ g < gens.length, w.1.rankVec.getD g 0 = pivots (gens.getD g 0) (w.1.mHelpful.getD g [])
  span : ∀ g < gens.length,
    rowSpan (gens.getD g 0) (w.1.mHelpful.getD g []) = genSpan gens w.2 g

theorem Ranked.sameRanks {ct' : CodeTorrent} (h : Ranked gens (ct, accepted))
    (hsame : SameRanks ct ct') : Ranked gens (ct', accepted) := by
  obtain ⟨hgens, hblock, hrank, hhelpful, hinBuf⟩ := hsame
  refine ⟨hgens.trans h.shape, ?_, ?_, ?_, ?_, ?_⟩
  · rw [hrank, hinBuf, hhelpful]
    exact h.lengths
  · rw [hhelpful]
    exact h.echelon
  · rw [hhelpful]
    exact h.clean
  · rw [hrank, hhelpful]
    exact h.rank
  · rw [hhelpful]
    exact h.span

theorem ranked_init (fileSize blockSize perGen : Nat) :
    Ranked (clientGens fileSize blockSize perGen) (initClient fileSize blockSize perGen, []) := by
  have hmatrix : ∀ g < (clientGens fileSize blockSize perGen).length,
      (initClient fileSize blockSize perGen).mHelpful.getD g [] =
        List.replicate ((clientGens fileSize blockSize perGen).getD g 0)
          (List.replicate ((clientGens fileSize blockSize perGen).getD g 0) 0) := by
    intro g hg
    rw [initClient, List.getD_eq_getElem _ _ (by rw [List.length_map]; exact hg), List.getElem_map,
      List.getD_eq_getElem _ _ hg]
    rfl
  have hrank : ∀ g < (clientGens fileSize blockSize perGen).length,
      (initClient fileSize blockSize perGen).rankVec.getD g 0 = 0 := by
    intro g hg
    rw [initClient, List.getD_eq_getElem _ _ (by rw [List.length_map]; exact hg), List.getElem_map]
  refine ⟨rfl, ⟨List.length_map _, List.length_map _, List.length_map _⟩, ?_, ?_, ?_, ?_⟩
  · intro g hg
    rw [hmatrix g hg]
    exact echelon_zero _ _
  · intro g hg
    rw [hmatrix g hg]
    exact clean_zero _ _
  · intro g hg
    rw [hmatrix g hg, hrank g hg, pivots_zero]
  · intro g hg
    rw [hmatrix g hg, rowSpan_zero, genSpan, ofGen, List.filter_nil, List.map_nil, listSpan_nil]

/-- **A block is helpful exactly if its coefficients are not in the span.** -/
theorem Ranked.isHelpful_iff {b : Nat} {w : Client} (h : Ranked gens w)
    (hblock : ForClient gens b block) :
    (isHelpful (w.1.rankVec.getD block.gen 0) (w.1.mHelpful.getD block.gen []) block).isSome =
        true ↔
      toVec (gens.getD block.gen 0) block.coeffs ∉ genSpan gens w.2 block.gen := by
  have hechelon := h.echelon block.gen hblock.gen
  have hclean := h.clean block.gen hblock.gen
  rw [isHelpful, hblock.sized.dims.1, h.rank block.gen hblock.gen, ← h.span block.gen hblock.gen]
  by_cases hfull : pivots (gens.getD block.gen 0) (w.1.mHelpful.getD block.gen []) =
      gens.getD block.gen 0
  · rw [if_pos hfull]
    exact iff_of_false Bool.false_ne_true
      (not_not.mpr (mem_rowSpan_of_full hechelon hclean hfull _))
  · rw [if_neg hfull]
    exact insertRow_isSome_iff hechelon hclean (le_refl _) hblock.sized.lengths.1

/-- A block that is accepted adds its coefficients to the span, and one to the rank. -/
theorem Ranked.accept {b : Nat} (h : Ranked gens (ct, accepted)) (hblock : ForClient gens b block)
    {m : List (List Symbol)}
    (hhelp : isHelpful (ct.rankVec.getD block.gen 0) (ct.mHelpful.getD block.gen []) block =
      some m) : Ranked gens (Encoders.Coding.accept ct block m, accepted ++ [block]) := by
  have hechelon := h.echelon block.gen hblock.gen
  have hclean := h.clean block.gen hblock.gen
  have hlen := hblock.sized.lengths.1
  obtain ⟨hrankLen, hinBufLen, hhelpfulLen⟩ := h.lengths
  unfold isHelpful at hhelp
  rw [hblock.sized.dims.1, Option.ite_none_left_eq_some] at hhelp
  obtain ⟨-, hinsert⟩ := hhelp
  have htrivial : Stable (gens.getD block.gen 0) (fun _ : List Symbol => True) :=
    fun _ _ _ _ _ _ _ _ _ _ => trivial
  obtain ⟨hechelon', hpivots, -⟩ :=
    insertRow_spec hechelon (le_refl _) htrivial (fun _ _ => trivial) hlen trivial hinsert
  obtain ⟨hclean', hspan⟩ := insertRow_span hechelon hclean (le_refl _) hlen hinsert
  -- only the matrix and the rank of the generation of the block change
  have hmatrix : ∀ g, (ct.mHelpful.set block.gen m).getD g [] =
      if block.gen = g then m else ct.mHelpful.getD g [] :=
    getD_set_of_lt (by rw [hhelpfulLen]; exact hblock.gen) [] m
  have hrank : ∀ g, (ct.rankVec.set block.gen (ct.rankVec.getD block.gen 0 + 1)).getD g 0 =
      if block.gen = g then ct.rankVec.getD block.gen 0 + 1 else ct.rankVec.getD g 0 :=
    getD_set_of_lt (by rw [hrankLen]; exact hblock.gen) 0 _
  refine ⟨h.shape, ⟨List.length_set.trans hrankLen, List.length_set.trans hinBufLen,
    List.length_set.trans hhelpfulLen⟩, ?_, ?_, ?_, ?_⟩
  · intro g hg
    dsimp only [Encoders.Coding.accept]
    rw [hmatrix g]
    split
    · next heq => rw [← heq]; exact hechelon'
    · exact h.echelon g hg
  · intro g hg
    dsimp only [Encoders.Coding.accept]
    rw [hmatrix g]
    split
    · next heq => rw [← heq]; exact hclean'
    · exact h.clean g hg
  · intro g hg
    dsimp only [Encoders.Coding.accept]
    rw [hmatrix g, hrank g]
    split
    · next heq => rw [← heq, hpivots, h.rank block.gen hblock.gen]
    · exact h.rank g hg
  · intro g hg
    dsimp only [Encoders.Coding.accept]
    rw [hmatrix g]
    by_cases heq : block.gen = g
    · subst heq
      rw [if_pos rfl, hspan, h.span block.gen hg, genSpan, genSpan, ofGen_snoc_self,
        List.map_append, listSpan_append, List.map_singleton, listSpan_singleton]
    · rw [if_neg heq, h.span g hg, genSpan, genSpan, ofGen_snoc_other heq]

theorem Ranked.step {gens : List Nat} {b : Nat} {w w' : Client} (h : Ranked gens w)
    {op : BufferOp} (hfits : op.Fits gens b) (hstep : buffered w op = some w') :
    Ranked gens w' := by
  obtain ⟨ct, accepted⟩ := w
  cases op with
  | storeBlock draws block =>
      obtain ⟨⟨ct', helpful⟩, hstore, rfl⟩ := Option.map_eq_some_iff.mp hstep
      rcases storeBlock_cases hstore with ⟨_, rfl, rfl⟩ |
        ⟨m, flushed, completed, hhelp, hflushed, rfl, rfl⟩
      · exact h
      · have haccept := h.accept hfits hhelp
        have hflush : Ranked gens (flushed, accepted ++ [block]) := by
          rcases hflushed with rfl | hflushed
          · exact haccept
          · exact haccept.sameRanks (sameRanks_flushBuf hflushed)
        exact hflush.sameRanks ⟨rfl, rfl, rfl, rfl, rfl⟩
  | flushBuf draws =>
      obtain ⟨ct', hflush, rfl⟩ := Option.map_eq_some_iff.mp hstep
      exact h.sameRanks (sameRanks_flushBuf hflush)
  | readGenBuf gen k =>
      obtain rfl := Option.some.inj (Option.ite_none_right_eq_some.mp hstep).2
      exact h

theorem Ranked.of_run {fileSize blockSize perGen : Nat} {ops : List BufferOp}
    (hfits : ∀ op ∈ ops, op.Fits (clientGens fileSize blockSize perGen) blockSize) {w : Client}
    (hrun : run buffered (initClient fileSize blockSize perGen, []) ops = some w) :
    Ranked (clientGens fileSize blockSize perGen) w :=
  run_keeps ops _ w (fun _ op hop _ hs hstep => hs.step (hfits op hop) hstep)
    (ranked_init fileSize blockSize perGen) hrun

/-- Storing returns if the random draws come upon the generation of the block. -/
theorem Ranked.storeBlock_returns {w : Client} (h : Ranked gens w) (hgen : block.gen < gens.length) :
    ∃ ct' helpful, w.1.storeBlock [block.gen] block = some (ct', helpful) := by
  cases hhelp : isHelpful (w.1.rankVec.getD block.gen 0) (w.1.mHelpful.getD block.gen [])
      block with
  | none => exact ⟨w.1, false, by rw [CodeTorrent.storeBlock, hhelp]⟩
  | some m =>
      have hnum : w.1.numGens = gens.length := by rw [CodeTorrent.numGens, h.shape]
      obtain ⟨buf, inBuf, files, _, _, hstore⟩ := storeBlock_helpful hhelp (by omega)
        (by rw [h.lengths.2.1, hnum])
      exact ⟨_, true, hstore⟩

/--
**A client accepts exactly the blocks that are not in the span of those it accepted before, and
its ranks are the dimensions.** After any operations on the buffers: `IsHelpful` and
`StoreBlock` decide alike, some draws make `StoreBlock` return, and a block that is refused
changes nothing.
-/
theorem innovative_iff {fileSize blockSize perGen : Nat} {ops : List BufferOp}
    (hfits : ∀ op ∈ ops, op.Fits (clientGens fileSize blockSize perGen) blockSize)
    {ct : CodeTorrent} {accepted : List CodedBlock}
    (hrun : run buffered (initClient fileSize blockSize perGen, []) ops = some (ct, accepted)) :
    (∀ gen < ct.numGens,
      ct.rankVec.getD gen 0 = finrank Symbol (genSpan ct.numBlocksGen accepted gen)) ∧
    ∀ block, ForClient (clientGens fileSize blockSize perGen) blockSize block →
      ((isHelpful (ct.rankVec.getD block.gen 0) (ct.mHelpful.getD block.gen []) block).isSome =
          true ↔
        toVec (ct.numBlocksGen.getD block.gen 0) block.coeffs ∉
          genSpan ct.numBlocksGen accepted block.gen) ∧
      (∃ draws ct' helpful, ct.storeBlock draws block = some (ct', helpful)) ∧
      ∀ draws ct' helpful, ct.storeBlock draws block = some (ct', helpful) →
        (helpful = true ↔ toVec (ct.numBlocksGen.getD block.gen 0) block.coeffs ∉
          genSpan ct.numBlocksGen accepted block.gen) ∧
        (helpful = false → ct' = ct) := by
  have h := Ranked.of_run hfits hrun
  have hgens : ct.numBlocksGen = clientGens fileSize blockSize perGen := h.shape
  rw [CodeTorrent.numGens, hgens]
  refine ⟨fun gen hgen => ?_, fun block hblock => ⟨h.isHelpful_iff hblock, ?_, ?_⟩⟩
  · rw [h.rank gen hgen, ← h.span gen hgen, finrank_rowSpan (h.echelon gen hgen) (h.clean gen hgen)]
  · obtain ⟨ct', helpful, hstore⟩ := h.storeBlock_returns hblock.gen
    exact ⟨_, ct', helpful, hstore⟩
  · intro draws ct' helpful hstore
    rw [← h.isHelpful_iff hblock]
    rcases storeBlock_cases hstore with ⟨hnone, rfl, rfl⟩ | ⟨m, _, _, hsome, _, _, rfl⟩
    · rw [hnone]
      exact ⟨Iff.rfl, fun _ => rfl⟩
    · rw [hsome]
      exact ⟨iff_of_true rfl rfl, fun hcon => by cases hcon⟩

/-- One block of a generation of two, and one that is twice as much. -/
def firstOfTwo : CodedBlock := ⟨0, 2, 1, [1, 1], [Symbol.ofNat 6]⟩

def doubleOfFirst : CodedBlock := ⟨0, 2, 1, [Symbol.ofNat 2, Symbol.ofNat 2], [Symbol.ofNat 12]⟩

theorem innovative_double : ∃ ct accepted,
    run buffered (initClient 2 1 2, []) [.storeBlock [] firstOfTwo] = some (ct, accepted) ∧
    ((isHelpful (ct.rankVec.getD 0 0) (ct.mHelpful.getD 0 []) doubleOfFirst).isSome = true ↔
      toVec (ct.numBlocksGen.getD 0 0) doubleOfFirst.coeffs ∉
        genSpan ct.numBlocksGen accepted 0) := by
  have hisSome :
      (run buffered (initClient 2 1 2, []) [.storeBlock [] firstOfTwo]).isSome = true := by
    decide +kernel
  obtain ⟨⟨ct, accepted⟩, hrun⟩ := Option.isSome_iff_exists.mp hisSome
  have hfits : ∀ op ∈ [BufferOp.storeBlock [] firstOfTwo], op.Fits (clientGens 2 1 2) 1 := by
    intro op hop
    obtain rfl := List.mem_singleton.mp hop
    exact ⟨by decide, ⟨by decide, by decide⟩⟩
  obtain ⟨-, hblocks⟩ := innovative_iff hfits hrun
  exact ⟨ct, accepted, hrun,
    (hblocks doubleOfFirst ⟨by decide, ⟨by decide, by decide⟩⟩).1⟩

end Encoders.Coding
