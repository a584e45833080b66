import Encoders.Coding.Innovation

/-!
# Blocks between memory and files

When memory is full a client moves all blocks of one generation to the end of a file, and
counts them off `rank_vec_in_buf`. Which blocks are in memory and how many are on file is
therefore the outcome of arrivals and draws; that the two together are the accepted blocks
is not. A file is the concatenation of the rows of its blocks, so the `k`-th one is found
where `ReadGenBuf` looks for it, and what `Decode` and `ReEncode` assemble from memory and
file is what was accepted, in another order.

Three things stand in the way. The names of the spill files are derived from the name of the
output, and nothing removes them, `CleanTempFiles` included (it takes the length of the number
before it has written the number); so a client may find rows of an earlier one, and appends to
them. The number of a generation is printed into three bytes. And the position in a file is
computed as an `int`. Where a client finds no rows, moves out generations below 100 only, and no
file grows beyond what an `int` can address, nothing is lost.
-/

namespace Encoders.Coding

open Encoders.Lib

variable {b : Nat} {accepted spilled : List CodedBlock} {gens : List Nat} {w : Client}
variable {ct : CodeTorrent} {gen : Nat} {leftover : Nat → List Symbol} {blocks : List CodedBlock}
  {block : CodedBlock}

/-! ## Files of rows -/

/-- Rows of one length lie one after the other. -/
theorem drop_flatMap {α β : Type} {f : α → List β} {len : Nat} :
    ∀ {xs : List α}, (∀ x ∈ xs, (f x).length = len) → ∀ k,
      (xs.flatMap f).drop (len * k) = (xs.drop k).flatMap f := by
  intro xs
  induction xs with
  | nil =>
      intro _ k
      rw [List.flatMap_nil, List.drop_nil, List.drop_nil, List.flatMap_nil]
  | cons x xs ih =>
      intro hlen k
      cases k with
      | zero => rfl
      | succ k =>
          have hx := hlen x List.mem_cons_self
          rw [List.flatMap_cons, List.drop_succ_cons, Nat.mul_succ, Nat.add_comm, ← List.drop_drop,
            ← hx, List.drop_left, hx]
          exact ih (fun y hy => hlen y (List.mem_cons_of_mem x hy)) k

theorem length_flatMap_const {α β : Type} {f : α → List β} {len : Nat} {xs : List α}
    (h : ∀ x ∈ xs, (f x).length = len) : (xs.flatMap f).length = xs.length * len := by
  induction xs with
  | nil => rw [List.flatMap_nil, List.length_nil, List.length_nil, Nat.zero_mul]
  | cons x xs ih =>
      rw [List.flatMap_cons, List.length_append, h x List.mem_cons_self,
        ih (fun y hy => h y (List.mem_cons_of_mem x hy)), List.length_cons, Nat.succ_mul,
        Nat.add_comm]

/-- What `ReadGenBuf` reads when the file holds these blocks and an `int` the position. -/
theorem readGenBuf_eq (hb : ct.blockSize = b)
    (hsized : ∀ x ∈ spilled, x.gen = gen ∧ Sized (ct.numBlocksGen.getD gen 0) b x)
    (hfile : ct.tempFiles.getD gen [] = spilled.flatMap wholeRow) {k : Nat}
    (hk : k < spilled.length) (hpos : (ct.numBlocksGen.getD gen 0 + b) * k < 2147483648) :
    ct.readGenBuf gen k = spilled[k] := by
  have hlen : ∀ x ∈ spilled, (wholeRow x).length = ct.numBlocksGen.getD gen 0 + b :=
    fun x hx => length_wholeRow (hsized x hx).2
  obtain ⟨hgen, ⟨hn, hblock⟩, hcoeffs, hsums⟩ := hsized spilled[k] (List.getElem_mem hk)
  have hposition : (cutToInt ((ct.numBlocksGen.getD gen 0 + b : Nat) * k)).toNat =
      (ct.numBlocksGen.getD gen 0 + b) * k := by
    rw [← Nat.cast_mul, cutToInt_of_lt hpos, Int.toNat_natCast]
  unfold CodeTorrent.readGenBuf
  dsimp only
  rw [hfile, hb, hposition, drop_flatMap hlen, List.drop_eq_getElem_cons hk, List.flatMap_cons,
    wholeRow, List.append_assoc, List.take_left' hcoeffs, List.drop_left' hcoeffs,
    List.take_left' hsums]
  generalize spilled[k] = x at hgen hn hblock
  cases x
  dsimp only at hgen hn hblock ⊢
  rw [hgen, hn, hblock]

/-! ## The invariant -/

/-- The blocks of a generation that are in memory. -/
def inMemory (ct : CodeTorrent) (gen : Nat) : List CodedBlock := ofGen gen ct.buf

/-- How many blocks the spill file of a generation holds. -/
def fileBlocks (ct : CodeTorrent) (gen : Nat) : Nat :=
  (ct.tempFiles.getD gen []).length / (ct.numBlocksGen.getD gen 0 + ct.blockSize)

/-- Memory and file of a generation hold its accepted blocks, and an `int` addresses them all. -/
structure Holds (gens : List Nat) (b : Nat) (w : Client) (gen : Nat) (spilled : List CodedBlock) :
    Prop where
  sized : ∀ x ∈ spilled, x.gen = gen ∧ Sized (gens.getD gen 0) b x
  file : w.1.tempFiles.getD gen [] = spilled.flatMap wholeRow
  all : (inMemory w.1 gen ++ spilled).Perm (ofGen gen w.2)
  within : ∀ k < spilled.length, (gens.getD gen 0 + b) * k < 2147483648

/-- Every accepted block is in memory or on file, and the counters are right. -/
structure Buffered (gens : List Nat) (b : Nat) (w : Client) : Prop where
  shape : w.1.numBlocksGen = gens ∧ w.1.blockSize = b
  intact : w.1.overrun = false
  lengths : w.1.rankVec.length = gens.length ∧ w.1.rankVecInBuf.length = gens.length ∧
    w.1.tempFiles.length = gens.length
  memory : ∀ x ∈ w.1.buf, ForClient gens b x
  holds : ∀ g < gens.length, ∃ spilled, Holds gens b w g spilled
  inBuf : ∀ g < gens.length, w.1.rankVecInBuf.getD g 0 = (inMemory w.1 g).length
  rank : ∀ g < gens.length, w.1.rankVec.getD g 0 = (ofGen g w.2).length

/-- A client that finds no rows. -/
theorem buffered_init (fileSize blockSize perGen : Nat)
    (hnone : ∀ g < (clientGens fileSize blockSize perGen).length, leftover g = []) :
    Buffered (clientGens fileSize blockSize perGen) blockSize
      ((initClient fileSize blockSize perGen).withLeftover leftover, []) := by
  have hzero : ∀ g < (clientGens fileSize blockSize perGen).length,
      ((clientGens fileSize blockSize perGen).map (fun _ => 0)).getD g 0 = 0 := by
    intro g hg
    rw [List.getD_eq_getElem _ _ (by rw [List.length_map]; exact hg), List.getElem_map]
  refine ⟨⟨rfl, rfl⟩, rfl, ⟨List.length_map _, List.length_map _, ?_⟩, ?_, ?_, hzero, hzero⟩
  · exact (List.length_map _).trans List.length_range
  · intro x hx
    exact absurd hx List.not_mem_nil
  · intro g hg
    refine ⟨[], fun x hx => absurd hx List.not_mem_nil, ?_, List.Perm.refl _,
      fun k hk => absurd hk (Nat.not_lt_zero k)⟩
    have hlt : g < ((List.range (initClient fileSize blockSize perGen).numGens).map leftover).length
        := by rw [List.length_map, List.length_range]; exact hg
    rw [CodeTorrent.withLeftover, List.getD_eq_getElem _ _ hlt, List.getElem_map,
      List.getElem_range]
    exact hnone g hg

/-- The files hold no more than the rank says. -/
theorem Buffered.spilled_le (h : Buffered gens b w) (hgen : gen < gens.length)
    (hholds : Holds gens b w gen spilled) :
    w.1.rankVec.getD gen 0 = (inMemory w.1 gen).length + spilled.length := by
  rw [h.rank gen hgen, ← hholds.all.length_eq, List.length_append]

/-! ## Moving blocks to files -/

/-- One block that is moved: out of memory, to the end of its file, off the count. -/
def moveBlock (ct : CodeTorrent) (i : Nat) (block : CodedBlock) : CodeTorrent :=
  { ct.pushGenBuf block with
    buf := ct.buf.eraseIdx i
    rankVecInBuf := ct.rankVecInBuf.set block.gen (ct.rankVecInBuf.getD block.gen 0 - 1) }

/-- A generation that can be moved out: three bytes hold its number, and an `int` the position of
its last block. -/
def CodeTorrent.Spillable (ct : CodeTorrent) (gen : Nat) : Prop :=
  nameFits gen = true ∧
    (ct.numBlocksGen.getD gen 0 + ct.blockSize) * (ct.rankVec.getD gen 0 - 1) < 2147483648

theorem perm_eraseIdx {i : Nat} (h : blocks[i]? = some block) :
    blocks.Perm (block :: blocks.eraseIdx i) := by
  obtain ⟨hi, rfl⟩ := List.getElem?_eq_some_iff.mp h
  exact (List.getElem_cons_eraseIdx_perm hi).symm

theorem Buffered.move (h : Buffered gens b (ct, accepted)) {i : Nat} (hin : ct.buf[i]? = some block)
    (hspill : ct.Spillable block.gen) : Buffered gens b (moveBlock ct i block, accepted) := by
  obtain ⟨hgens, hb⟩ := h.shape
  obtain ⟨hrankLen, hinBufLen, hfilesLen⟩ := h.lengths
  have hblock := h.memory block (List.mem_of_getElem? hin)
  have hperm := perm_eraseIdx hin
  -- the generation of the block has it in front of what stays in memory
  have hself : (inMemory ct block.gen).Perm
      (block :: ofGen block.gen (ct.buf.eraseIdx i)) := by
    have := hperm.filter (fun x => x.gen = block.gen)
    rwa [List.filter_cons_of_pos (by simp)] at this
  have hother : ∀ {g}, block.gen ≠ g →
      (inMemory ct g).Perm (ofGen g (ct.buf.eraseIdx i)) := by
    intro g hg
    have := hperm.filter (fun x => x.gen = g)
    rwa [List.filter_cons_of_neg (by simpa using hg)] at this
  refine ⟨⟨hgens, hb⟩, ?_, ⟨hrankLen, List.length_set.trans hinBufLen,
    List.length_set.trans hfilesLen⟩, ?_, ?_, ?_, h.rank⟩
  · have hintact : ct.overrun = false := h.intact
    simp only [moveBlock, CodeTorrent.pushGenBuf, hintact, hspill.1, Bool.not_true, Bool.or_false]
  · intro x hx
    exact h.memory x (List.mem_of_mem_eraseIdx hx)
  · intro g hg
    obtain ⟨spilled, hholds⟩ := h.holds g hg
    have hcount := h.spilled_le hg hholds
    obtain ⟨hsized, hfile, hall, hwithin⟩ := hholds
    by_cases heq : block.gen = g
    · subst heq
      -- its file grows by one row, which is whole
      refine ⟨spilled ++ [block], ?_, ?_, ?_, ?_⟩
      · intro x hx
        rcases List.mem_append.mp hx with hx | hx
        · exact hsized x hx
        · rw [List.mem_singleton.mp hx]
          exact ⟨rfl, hblock.sized⟩
      · dsimp only [moveBlock, CodeTorrent.pushGenBuf] at hfile ⊢
        rw [getD_set_of_lt (by rw [hfilesLen]; exact hg), if_pos rfl, hfile, List.flatMap_append,
          List.flatMap_singleton, hgens, hb, wholeRow,
          List.take_of_length_le hblock.sized.lengths.1.le,
          List.take_of_length_le hblock.sized.lengths.2.le]
      · refine List.Perm.trans ?_ hall
        refine List.Perm.trans ?_ (hself.symm.append_right spilled)
        rw [List.cons_append]
        exact (List.perm_append_comm.append_left _).trans
          (List.perm_middle.trans (List.Perm.refl _))
      · intro k hk
        rw [List.length_append, List.length_singleton] at hk
        rw [hself.length_eq, List.length_cons] at hcount
        have hlast := hspill.2
        rw [hgens, hb] at hlast
        refine lt_of_le_of_lt (Nat.mul_le_mul_left _ ?_) hlast
        dsimp only at hcount
        omega
    · refine ⟨spilled, hsized, ?_, ((hother heq).symm.append_right spilled).trans hall, hwithin⟩
      dsimp only [moveBlock, CodeTorrent.pushGenBuf] at hfile ⊢
      rw [getD_set_of_lt (by rw [hfilesLen]; exact hblock.gen), if_neg heq, hfile]
  · intro g hg
    have hcount := h.inBuf g hg
    dsimp only [moveBlock] at hcount ⊢
    rw [getD_set_of_lt (by rw [hinBufLen]; exact hblock.gen)]
    by_cases heq : block.gen = g
    · subst heq
      rw [if_pos rfl, hcount, hself.length_eq, List.length_cons,
        Nat.add_sub_cancel]
      rfl
    · rw [if_neg heq, hcount, (hother heq).length_eq]
      rfl

theorem Buffered.evictLoop :
    ∀ (i : Nat) {ct : CodeTorrent}, Buffered gens b (ct, accepted) → ct.Spillable gen →
      Buffered gens b (CodeTorrent.evictLoop gen i ct, accepted) := by
  intro i
  induction i with
  | zero =>
      intro ct h _
      exact h
  | succ i ih =>
      intro ct h hspill
      -- a round moves the block it looks at if that is of the generation
      have hround : ∃ ct', Buffered gens b (ct', accepted) ∧ ct'.Spillable gen ∧
          CodeTorrent.evictLoop gen (i + 1) ct =
            if ct'.rankVecInBuf.getD gen 0 = 0 then ct' else CodeTorrent.evictLoop gen i ct' := by
        rw [CodeTorrent.evictLoop]
        cases hin : ct.buf[i]? with
        | none => exact ⟨ct, h, hspill, rfl⟩
        | some block =>
            by_cases hgen : block.gen = gen
            · subst hgen
              simp only [if_pos]
              exact ⟨moveBlock ct i block, h.move hin hspill, hspill, rfl⟩
            · simp only [if_neg hgen]
              exact ⟨ct, h, hspill, rfl⟩
      obtain ⟨ct', hct', hspill', heq⟩ := hround
      rw [heq]
      split
      · exact hct'
      · exact ih hct' hspill'

/-- The generation that `FlushBuf` draws, if it moves one out. -/
def CodeTorrent.drawn (ct : CodeTorrent) (draws : List Nat) : Option Nat :=
  if ct.buf.length < ct.bufferSize then none
  else (draws.map (· % ct.numGens)).find? (fun g => 0 < ct.rankVecInBuf.getD g 0)

/-- If a generation is moved out, it can be. -/
def CodeTorrent.SpillsFit (ct : CodeTorrent) (draws : List Nat) : Prop :=
  ∀ gen, ct.drawn draws = some gen → ct.Spillable gen

instance (ct : CodeTorrent) (gen : Nat) : Decidable (ct.Spillable gen) :=
  inferInstanceAs (Decidable (_ ∧ _))

instance (ct : CodeTorrent) (draws : List Nat) : Decidable (ct.SpillsFit draws) :=
  inferInstanceAs (Decidable (∀ gen ∈ ct.drawn draws, ct.Spillable gen))

theorem Buffered.flushBuf {ct' : CodeTorrent} (h : Buffered gens b (ct, accepted))
    {draws : List Nat} (hfit : ct.SpillsFit draws) (hflush : ct.flushBuf draws = some ct') :
    Buffered gens b (ct', accepted) := by
  unfold CodeTorrent.flushBuf at hflush
  split at hflush
  · rw [← Option.some.inj hflush]
    exact h
  · next hfull =>
      obtain ⟨gen, hfind, hct⟩ := Option.bind_eq_some_iff.mp hflush
      rw [← Option.some.inj hct]
      refine h.evictLoop _ (hfit gen ?_)
      rw [CodeTorrent.drawn, if_neg hfull, hfind]

/-- A block more, and one more is counted for its generation. -/
theorem counted_snoc {counts : List Nat} {g : Nat} (hgen : block.gen < counts.length)
    (hcount : counts.getD g 0 = (ofGen g blocks).length) :
    (counts.set block.gen (counts.getD block.gen 0 + 1)).getD g 0 =
      (ofGen g (blocks ++ [block])).length := by
  rw [getD_set_of_lt hgen]
  by_cases heq : block.gen = g
  · subst heq
    rw [if_pos rfl, ofGen_snoc_self, List.length_append, hcount]
    rfl
  · rw [if_neg heq, ofGen_snoc_other heq, hcount]

theorem Buffered.accept (h : Buffered gens b (ct, accepted)) (hblock : ForClient gens b block)
    (m : List (List Symbol)) :
    Buffered gens b (Encoders.Coding.accept ct block m, accepted ++ [block]) := by
  obtain ⟨hrankLen, hinBufLen, hfilesLen⟩ := h.lengths
  refine ⟨h.shape, h.intact,
    ⟨List.length_set.trans hrankLen, List.length_set.trans hinBufLen, hfilesLen⟩, ?_, ?_, ?_, ?_⟩
  · intro x hx
    rcases List.mem_append.mp hx with hx | hx
    · exact h.memory x hx
    · rw [List.mem_singleton.mp hx]
      exact hblock
  · intro g hg
    obtain ⟨spilled, hsized, hfile, hall, hwithin⟩ := h.holds g hg
    refine ⟨spilled, hsized, hfile, ?_, hwithin⟩
    dsimp only [Encoders.Coding.accept, inMemory] at hall ⊢
    by_cases heq : block.gen = g
    · subst heq
      rw [ofGen_snoc_self, ofGen_snoc_self, List.append_assoc]
      refine List.Perm.trans ?_ (hall.append_right [block])
      rw [List.append_assoc]
      exact List.perm_append_comm.append_left _
    · rw [ofGen_snoc_other heq, ofGen_snoc_other heq]
      exact hall
  · intro g hg
    exact counted_snoc (by rw [hinBufLen]; exact hblock.gen) (h.inBuf g hg)
  · intro g hg
    exact counted_snoc (by rw [hrankLen]; exact hblock.gen) (h.rank g hg)

/--
What an operation asks of the client it finds: a generation that it moves out has a number
below 100, and its last block begins at a position that is an `int`.
-/
def SpillsWithin (w : Client) : BufferOp → Prop
  | .storeBlock draws block => ∀ m,
      isHelpful (w.1.rankVec.getD block.gen 0) (w.1.mHelpful.getD block.gen []) block = some m →
      (accept w.1 block m).SpillsFit draws
  | .flushBuf draws => w.1.SpillsFit draws
  | .readGenBuf _ _ => True

instance : ∀ w op, Decidable (SpillsWithin w op)
  | w, .storeBlock draws block => inferInstanceAs (Decidable (∀ m ∈
      isHelpful (w.1.rankVec.getD block.gen 0) (w.1.mHelpful.getD block.gen []) block,
      (accept w.1 block m).SpillsFit draws))
  | w, .flushBuf draws => inferInstanceAs (Decidable (w.1.SpillsFit draws))
  | _, .readGenBuf _ _ => inferInstanceAs (Decidable True)

theorem Buffered.step {gens : List Nat} {b : Nat} {w w' : Client} (h : Buffered gens b w)
    {op : BufferOp} (hfits : op.Fits gens b) (hwithin : SpillsWithin w op)
    (hstep : buffered w op = some w') : Buffered gens b w' := by
  obtain ⟨ct, accepted⟩ := w
  cases op with
  | storeBlock draws block =>
      obtain ⟨⟨ct', helpful⟩, hstore, rfl⟩ := Option.map_eq_some_iff.mp hstep
      rcases storeBlock_cases hstore with ⟨_, rfl, rfl⟩ |
        ⟨m, flushed, completed, hhelp, hflushed, rfl, rfl⟩
      · exact h
      · have haccept := h.accept hfits m
        have hflush : Buffered gens b (flushed, accepted ++ [block]) := by
          rcases hflushed with rfl | hflushed
          · exact haccept
          · exact haccept.flushBuf (hwithin m hhelp) hflushed
        -- the count of completed generations is not looked at
        exact ⟨hflush.shape, hflush.intact, hflush.lengths, hflush.memory, fun g hg => by
          obtain ⟨spilled, hsized, hfile, hall, hwithin⟩ := hflush.holds g hg
          exact ⟨spilled, hsized, hfile, hall, hwithin⟩, hflush.inBuf, hflush.rank⟩
  | flushBuf draws =>
      obtain ⟨ct', hflush, rfl⟩ := Option.map_eq_some_iff.mp hstep
      exact h.flushBuf hwithin hflush
  | readGenBuf gen k =>
      obtain rfl := Option.some.inj (Option.ite_none_right_eq_some.mp hstep).2
      exact h

/-! ## What is assembled from memory and file -/

/-- The blocks of memory, then those of the file, as they were accepted. -/
theorem Buffered.genBlocks_eq (h : Buffered gens b w) (hgen : gen < gens.length)
    (hholds : Holds gens b w gen spilled) : w.1.genBlocks gen = inMemory w.1 gen ++ spilled := by
  obtain ⟨hsized, hfile, hall, hwithin⟩ := hholds
  obtain ⟨hgens, hb⟩ := h.shape
  have hcount : w.1.rankVec.getD gen 0 - w.1.rankVecInBuf.getD gen 0 = spilled.length := by
    rw [h.rank gen hgen, h.inBuf gen hgen, ← hall.length_eq, List.length_append,
      Nat.add_sub_cancel_left]
  rw [CodeTorrent.genBlocks, hcount]
  refine congrArg (inMemory w.1 gen ++ ·) (List.ext_getElem ?_ (fun k h1 h2 => ?_))
  · rw [List.length_map, List.length_range]
  · rw [List.getElem_map, List.getElem_range]
    exact readGenBuf_eq hb (by rw [hgens]; exact hsized) hfile h2
      (by rw [hgens]; exact hwithin k h2)

/-- **What is assembled is what was accepted.** -/
theorem Buffered.genBlocks_perm (h : Buffered gens b w) (hgen : gen < gens.length) :
    (w.1.genBlocks gen).Perm (ofGen gen w.2) := by
  obtain ⟨spilled, hholds⟩ := h.holds gen hgen
  rw [h.genBlocks_eq hgen hholds]
  exact hholds.all

/-- A file holds rows of positive length, if any. -/
theorem Buffered.fileBlocks_eq (h : Buffered gens b w) (hranked : Ranked gens w)
    (hgen : gen < gens.length) (hholds : Holds gens b w gen spilled) :
    fileBlocks w.1 gen = spilled.length := by
  obtain ⟨hgens, hb⟩ := h.shape
  have hlen : ∀ x ∈ spilled, (wholeRow x).length = gens.getD gen 0 + b :=
    fun x hx => length_wholeRow (hholds.sized x hx).2
  have hle : spilled.length ≤ gens.getD gen 0 := by
    have hrank := hranked.rank gen hgen
    rw [h.rank gen hgen, ← hholds.all.length_eq, List.length_append] at hrank
    have := pivots_le (gens.getD gen 0) (w.1.mHelpful.getD gen [])
    omega
  rw [fileBlocks, hholds.file, length_flatMap_const hlen, hgens, hb]
  rcases Nat.eq_zero_or_pos spilled.length with hzero | hpos
  · rw [hzero, Nat.zero_mul, Nat.zero_div]
  · exact Nat.mul_div_cancel _ (by omega)

/-! ## Runs of a client -/

/-- What is wanted of a client: it has left no buffer, and for each of its generations the rank is
the number of blocks in memory and on file, and what is assembled for decoding is every accepted
block once, as it was. -/
structure Accounted (ct : CodeTorrent) (accepted : List CodedBlock) : Prop where
  intact : ct.overrun = false
  rank : ∀ gen < ct.numGens,
    ct.rankVec.getD gen 0 = (inMemory ct gen).length + fileBlocks ct gen
  inBuf : ∀ gen < ct.numGens, ct.rankVecInBuf.getD gen 0 = (inMemory ct gen).length
  blocks : ∀ gen < ct.numGens, (ct.genBlocks gen).Perm (ofGen gen accepted)

theorem Buffered.accounted (h : Buffered gens b w) (hranked : Ranked gens w) :
    Accounted w.1 w.2 := by
  have hnum : w.1.numGens = gens.length := by rw [CodeTorrent.numGens, h.shape.1]
  refine ⟨h.intact, fun gen hgen => ?_, fun gen hgen => h.inBuf gen (by omega),
    fun gen hgen => h.genBlocks_perm (by omega)⟩
  have hlt : gen < gens.length := by omega
  obtain ⟨spilled, hholds⟩ := h.holds gen hlt
  rw [h.fileBlocks_eq hranked hlt hholds, h.spilled_le hlt hholds]

/-- Both invariants hold along a run whose steps find what they ask for. -/
theorem buffered_of_run {numBlocksPerGen blockSize fileSize : Int} {ct₀ : CodeTorrent}
    (hclient : CodeTorrent.client numBlocksPerGen blockSize fileSize leftover = some ct₀)
    (hnone : ∀ gen < ct₀.numGens, leftover gen = []) {ops : List BufferOp}
    (hfits : ∀ op ∈ ops, op.Fits ct₀.numBlocksGen ct₀.blockSize)
    (hwithin : Guarded buffered SpillsWithin (ct₀, []) ops)
    (hrun : run buffered (ct₀, []) ops = some w) :
    Buffered ct₀.numBlocksGen ct₀.blockSize w ∧ Ranked ct₀.numBlocksGen w := by
  obtain rfl := (client_eq_some hclient).2
  have hranked := ranked_init fileSize.toNat blockSize.toNat numBlocksPerGen.toNat
  refine @run_keeps_guarded Client BufferOp buffered SpillsWithin
    (fun w => Buffered _ _ w ∧ Ranked _ w) _
    (fun s op s' h hop hok hstep => ⟨h.1.step hop hok hstep, h.2.step hop hstep⟩) ops _ w hfits
    ⟨buffered_init _ _ _ hnone, ?_⟩ hwithin hrun
  exact ⟨hranked.shape, hranked.lengths, hranked.echelon, hranked.clean, hranked.rank, hranked.span⟩

/--
**Nothing is lost between memory and files**, after any operations on the buffers of a client that
finds no rows, if only generations below 100 are moved out and an `int` addresses their last
blocks.
-/
theorem spilling_loses_nothing {numBlocksPerGen blockSize fileSize : Int}
    {leftover : Nat → List Symbol} {ct₀ : CodeTorrent}
    (hclient : CodeTorrent.client numBlocksPerGen blockSize fileSize leftover = some ct₀)
    (hnone : ∀ gen < ct₀.numGens, leftover gen = []) {ops : List BufferOp}
    (hfits : ∀ op ∈ ops, op.Fits ct₀.numBlocksGen ct₀.blockSize)
    (hwithin : Guarded buffered SpillsWithin (ct₀, []) ops) {ct : CodeTorrent}
    {accepted : List CodedBlock} (hrun : run buffered (ct₀, []) ops = some (ct, accepted)) :
    Accounted ct accepted := by
  obtain ⟨hbuffered, hranked⟩ := buffered_of_run hclient hnone hfits hwithin hrun
  exact hbuffered.accounted hranked

/-! ### Three generations of one block -/

/-- A block of one symbol for a generation of one block. -/
def oneBlock (gen : Nat) (value : Nat) : CodedBlock := ⟨gen, 1, 1, [1], [Symbol.ofNat value]⟩

/-- Memory holds one block: the second one makes both leave, one draw after the other. -/
def oneBlocks : List BufferOp :=
  [.storeBlock [] (oneBlock 2 7), .storeBlock [2] (oneBlock 0 5), .storeBlock [0, 1] (oneBlock 1 6),
    .readGenBuf 2 0]

/-- The client of three blocks, one to the generation. -/
def threeClient (leftover : Nat → List Symbol) : CodeTorrent :=
  (initClient 3 1 1).withLeftover leftover

theorem threeClient_eq (leftover : Nat → List Symbol) :
    CodeTorrent.client 1 1 3 leftover = some (threeClient leftover) := by
  rw [CodeTorrent.client, if_pos (by omega)]
  rfl

theorem oneBlocks_fit : ∀ op ∈ oneBlocks, op.Fits [1, 1, 1] 1 := by
  intro op hop
  simp only [oneBlocks, List.mem_cons, List.not_mem_nil, or_false] at hop
  rcases hop with rfl | rfl | rfl | rfl
  · exact ⟨by decide, ⟨by decide, by decide⟩⟩
  · exact ⟨by decide, ⟨by decide, by decide⟩⟩
  · exact ⟨by decide, ⟨by decide, by decide⟩⟩
  · trivial

theorem spilling_three : ∃ ct accepted,
    run buffered (threeClient (fun _ => []), []) oneBlocks = some (ct, accepted) ∧
    Accounted ct accepted := by
  have hrun : (run buffered (threeClient (fun _ => []), []) oneBlocks).isSome = true := by
    decide +kernel
  obtain ⟨⟨ct, accepted⟩, hrun⟩ := Option.isSome_iff_exists.mp hrun
  exact ⟨ct, accepted, hrun, spilling_loses_nothing (threeClient_eq _) (fun _ _ => rfl)
    oneBlocks_fit (by decide +kernel) hrun⟩

/-- What an earlier client of three blocks left of its last one. -/
def earlierRows (gen : Nat) : List Symbol := if gen = 2 then wholeRow (oneBlock 2 9) else []

/-- The client of 101 blocks, one to the generation. -/
def manyClient : CodeTorrent := (initClient 101 1 1).withLeftover (fun _ => [])

/-- Two blocks, and the draw of the first one's generation. -/
def hundredth : List BufferOp := [.storeBlock [] (oneBlock 100 7), .storeBlock [100] (oneBlock 0 5)]

/-- A test on the client a run ends with that tells it is not as wanted. -/
theorem not_accounted {ct₀ : CodeTorrent} {ops : List BufferOp} {bad : Client → Bool}
    (hbad : ∀ w, bad w = true → ¬ Accounted w.1 w.2)
    (hrun : (run buffered (ct₀, []) ops).any bad = true) : ∃ ct accepted,
      run buffered (ct₀, []) ops = some (ct, accepted) ∧ ¬ Accounted ct accepted := by
  cases heq : run buffered (ct₀, []) ops with
  | none =>
      rw [heq] at hrun
      exact absurd hrun Bool.false_ne_true
  | some w =>
      rw [heq] at hrun
      exact ⟨w.1, w.2, rfl, hbad w hrun⟩

/-- A client that finds the row of an earlier one counts it for its own and reads it instead of
what it accepted; and one that moves out generation 100 writes past a buffer. -/
theorem spilling_loses_blocks :
    CodeTorrent.client 1 1 3 earlierRows = some (threeClient earlierRows) ∧
    CodeTorrent.client 1 1 101 (fun _ => []) = some manyClient ∧
    (∃ ct accepted, run buffered (threeClient earlierRows, []) oneBlocks = some (ct, accepted) ∧
      ¬ Accounted ct accepted) ∧
    ∃ ct accepted, run buffered (manyClient, []) hundredth = some (ct, accepted) ∧
      ¬ Accounted ct accepted := by
  refine ⟨threeClient_eq _, ?_, ?_, ?_⟩
  · rw [CodeTorrent.client, if_pos (by omega)]
    rfl
  · refine @not_accounted _ _ (fun w => 2 < w.1.numGens ∧
      w.1.genBlocks 2 = [oneBlock 2 9] ∧ ofGen 2 w.2 = [oneBlock 2 7]) ?_ (by decide +kernel)
    intro w hw h
    obtain ⟨hgen, hread, haccepted⟩ := of_decide_eq_true hw
    have hperm := h.blocks 2 hgen
    rw [hread, haccepted] at hperm
    exact absurd (List.perm_singleton.mp hperm) (by decide)
  · refine @not_accounted _ _ (fun w => w.1.overrun) ?_ (by decide +kernel)
    intro w hw h
    exact absurd (hw.symm.trans h.intact) (by decide)

/-! ## Combining what is held -/

/-- The symbols of the block are those its coefficients make of the source. -/
structure Solves (S : Nat → Nat → Symbol) (n b : Nat) (block : CodedBlock) : Prop where
  sized : Sized n b block
  sums : ∀ j < b, block.sums.getD j 0 = ∑ k ∈ Finset.range n, block.coeffs.getD k 0 * S k j

/--
**Combining sound blocks is sound.** Whatever blocks a client holds of a generation, in memory
and on file, however few: if each has the symbols its coefficients make of the source, so has
what `ReEncode` makes of them, for every choice of coefficients. It is a block of that
generation, and its coefficients are the combination of the coefficients.
-/
theorem reEncode_sound (ct : CodeTorrent) (gen : Nat) (S : Nat → Nat → Symbol)
    (hblocks : ∀ x ∈ ct.genBlocks gen, Solves S (ct.numBlocksGen.getD gen 0) ct.blockSize x)
    (choice : Nat → Symbol) :
    ((ct.reEncode gen choice).isSome = true ↔ ct.genBlocks gen ≠ []) ∧
    ∀ out, ct.reEncode gen choice = some out →
      out.gen = gen ∧ Solves S (ct.numBlocksGen.getD gen 0) ct.blockSize out ∧
      ∀ k < ct.numBlocksGen.getD gen 0, out.coeffs.getD k 0 =
        ∑ i ∈ Finset.range (ct.genBlocks gen).length,
          entry ((ct.genBlocks gen).map CodedBlock.coeffs) i k * choice i := by
  constructor
  · rw [CodeTorrent.reEncode, reEncodeBlock]
    by_cases hnil : ct.genBlocks gen = []
    · rw [if_pos (by rw [hnil]; rfl)]
      exact iff_of_false Bool.false_ne_true (not_not.mpr hnil)
    · rw [if_neg (fun hzero => hnil (List.length_eq_zero_iff.mp hzero))]
      exact iff_of_true rfl hnil
  · intro out h
    obtain ⟨⟨hgen, hdims⟩, hlengths, hcoeffs, -⟩ := reEncodeBlock_combines h
    exact ⟨hgen, ⟨⟨hdims, hlengths⟩, reEncodeBlock_sums (fun x hx => (hblocks x hx).sums) h⟩,
      hcoeffs⟩

/-- A client that holds one of two blocks, on file, and combines it with coefficient 3. -/
def halfClient : CodeTorrent :=
  { initClient 2 1 2 with
    rankVec := [1]
    rankVecInBuf := [0]
    tempFiles := [[1, 1, Symbol.ofNat 6]] }

/-- The source of the two symbols 2 and 4. -/
def twoAndFour (k _ : Nat) : Symbol := Symbol.ofNat (if k = 0 then 2 else 4)

theorem halfClient_blocks : halfClient.genBlocks 0 = [⟨0, 2, 1, [1, 1], [Symbol.ofNat 6]⟩] := by
  decide +kernel

theorem reEncode_half : ∃ out,
    halfClient.reEncode 0 (fun _ => Symbol.ofNat 3) = some out ∧ out.gen = 0 ∧
    Solves twoAndFour 2 1 out := by
  have hblocks : ∀ x ∈ halfClient.genBlocks 0,
      Solves twoAndFour (halfClient.numBlocksGen.getD 0 0) halfClient.blockSize x := by
    rw [halfClient_blocks]
    intro x hx
    obtain rfl := List.mem_singleton.mp hx
    refine ⟨⟨by decide, by decide⟩, ?_⟩
    intro j hj
    have hj : j < 1 := hj
    obtain rfl : j = 0 := by omega
    decide +kernel
  obtain ⟨hsome, hsound⟩ := reEncode_sound halfClient 0 twoAndFour hblocks
    (fun _ => Symbol.ofNat 3)
  obtain ⟨out, hout⟩ := Option.isSome_iff_exists.mp
    (hsome.mpr (by rw [halfClient_blocks]; exact List.cons_ne_nil _ _))
  obtain ⟨hgen, hsolves, -⟩ := hsound out hout
  exact ⟨out, hout, hgen, hsolves⟩

end Encoders.Coding
