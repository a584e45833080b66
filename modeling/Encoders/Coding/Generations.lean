import Encoders.Coding.EndToEnd

/-!
# Several generations

Two slips keep the multi-generation path from working. The server starts its
arithmetic from at least one generation, so for a file of fewer blocks than a
generation it arrives at two, the second of negative size, where the client has
one. And `WriteFile` opens the output for writing anew for every generation, so
that in the end only the last one is in it. Whatever a client of several
generations was sent, what it decodes is shorter than the file.

What is left is the case the rest of the system uses: a generation as long as the
file. The theorem below says that this, with sizes that are `int`s, is exactly when
the two sides agree and every completed download gives the file back. That there
is one is shown by unit vectors, which also serve to show what a client does that
was given the length of its file cut to an `int`: it is complete too early.
-/

namespace Encoders.Coding

open Encoders.Lib

variable {L b perGen : Nat} {ct : CodeTorrent} {block : CodedBlock}
variable {q r : Nat} {ct' : CodeTorrent} {draws : List Nat}

/-- A block the server encodes, or a client combines from blocks it was sent. -/
inductive Sent (file : List Symbol) (b perGen : Nat) : CodedBlock → Prop where
  | encode (gen : Nat) (choice : Nat → Symbol) (block : CodedBlock)
      (h : encode file (cutToInt file.length).toNat
        (loadFileInfo (cutToInt file.length).toNat b perGen) b gen choice = some block) :
      Sent file b perGen block
  | reEncode (received : List (List Nat × CodedBlock))
      (hreceived : ∀ r ∈ received, Sent file b perGen r.2) (leftover : Nat → List Symbol)
      (ct₀ ct : CodeTorrent) (answers : List Bool)
      (hclient : CodeTorrent.client perGen b (cutToInt file.length) leftover = some ct₀)
      (hstore : storeAll ct₀ received = some (ct, answers))
      (gen : Nat) (choice : Nat → Symbol) (block : CodedBlock)
      (h : ct.reEncode gen choice = some block) : Sent file b perGen block

/-- Eviction moves blocks to the files and leaves what the client knows about ranks. -/
theorem evictLoop_frame (gen : Nat) : ∀ (i : Nat) (ct : CodeTorrent),
    ∃ buf inBuf files overrun, CodeTorrent.evictLoop gen i ct = { ct with
      buf := buf, rankVecInBuf := inBuf, tempFiles := files, overrun := overrun } ∧
      inBuf.length = ct.rankVecInBuf.length := by
  intro i
  induction i with
  | zero => intro ct; exact ⟨ct.buf, ct.rankVecInBuf, ct.tempFiles, ct.overrun, rfl, rfl⟩
  | succ i ih =>
      intro ct
      have hround : ∃ ct' buf inBuf files overrun, ct' = { ct with
          buf := buf, rankVecInBuf := inBuf, tempFiles := files, overrun := overrun } ∧
          inBuf.length = ct.rankVecInBuf.length ∧
          CodeTorrent.evictLoop gen (i + 1) ct =
            if ct'.rankVecInBuf.getD gen 0 = 0 then ct' else CodeTorrent.evictLoop gen i ct' := by
        rw [CodeTorrent.evictLoop]
        cases ct.buf[i]? with
        | none => exact ⟨ct, _, _, _, _, rfl, rfl, rfl⟩
        | some block =>
            by_cases hgen : block.gen = gen
            · simp only [if_pos hgen]
              exact ⟨_, _, _, _, _, rfl, List.length_set, rfl⟩
            · simp only [if_neg hgen]
              exact ⟨ct, _, _, _, _, rfl, rfl, rfl⟩
      obtain ⟨ct', buf, inBuf, files, overrun, rfl, hlen, heq⟩ := hround
      rw [heq]
      split
      · exact ⟨buf, inBuf, files, overrun, rfl, hlen⟩
      · obtain ⟨buf', inBuf', files', overrun', h, hlen'⟩ := ih _
        exact ⟨buf', inBuf', files', overrun', by rw [h], by rw [hlen', hlen]⟩

/-- Flushing touches the buffers only, whatever is drawn. -/
theorem flushBuf_cases (h : ct.flushBuf draws = some ct') :
    ct' = ct ∨ ∃ gen, 0 < ct.rankVecInBuf.getD gen 0 ∧
      ct' = CodeTorrent.evictLoop gen ct.buf.length ct := by
  unfold CodeTorrent.flushBuf at h
  split at h
  · exact Or.inl (Option.some.inj h).symm
  · obtain ⟨gen, hfind, hct⟩ := Option.bind_eq_some_iff.mp h
    exact Or.inr ⟨gen, by simpa using List.find?_some hfind, (Option.some.inj hct).symm⟩

theorem flushBuf_frame (h : ct.flushBuf draws = some ct') :
    ∃ buf inBuf files overrun, ct' = { ct with
      buf := buf, rankVecInBuf := inBuf, tempFiles := files, overrun := overrun } ∧
      inBuf.length = ct.rankVecInBuf.length := by
  rcases flushBuf_cases h with rfl | ⟨gen, _, rfl⟩
  · exact ⟨_, _, _, _, rfl, rfl⟩
  · exact evictLoop_frame gen ct.buf.length ct

/-- Drawing a generation that is in memory, flushing returns. -/
theorem flushBuf_returns {ct : CodeTorrent} {gen : Nat} (hgen : gen < ct.numGens)
    (hin : 0 < ct.rankVecInBuf.getD gen 0) : ∃ ct', ct.flushBuf [gen] = some ct' := by
  rw [CodeTorrent.flushBuf]
  split
  · exact ⟨ct, rfl⟩
  · refine ⟨CodeTorrent.evictLoop gen ct.buf.length ct, ?_⟩
    rw [List.map_singleton, Nat.mod_eq_of_lt hgen, List.find?_singleton,
      if_pos (by simpa using hin), Option.bind_eq_bind, Option.bind_some]

/-- What `StoreBlock` does to a helpful block before it looks at the memory limit. -/
def accept (ct : CodeTorrent) (block : CodedBlock) (m : List (List Symbol)) : CodeTorrent :=
  { ct with
    mHelpful := ct.mHelpful.set block.gen m
    buf := ct.buf ++ [block]
    rankVec := ct.rankVec.set block.gen (ct.rankVec.getD block.gen 0 + 1)
    rankVecInBuf := ct.rankVecInBuf.set block.gen (ct.rankVecInBuf.getD block.gen 0 + 1) }

/-- `StoreBlock` of a helpful block: accept it, flush if memory is full, and see if this was it. -/
theorem storeBlock_eq {m : List (List Symbol)}
    (hhelp : isHelpful (ct.rankVec.getD block.gen 0) (ct.mHelpful.getD block.gen []) block = some m)
    (draws : List Nat) :
    ct.storeBlock draws block =
      (if (accept ct block m).bufferSize ≤ (accept ct block m).buf.length then
        (accept ct block m).flushBuf draws else some (accept ct block m)).bind (fun ct1 =>
        some (if ct.rankVec.getD block.gen 0 + 1 = ct1.numBlocksGen.getD block.gen 0 then
            { ct1 with genCompleted := ct1.genCompleted + 1 } else ct1, true)) := by
  rw [CodeTorrent.storeBlock, hhelp]
  by_cases hfull : ct.bufferSize ≤ (ct.buf ++ [block]).length
  · simp only [accept, hfull, ↓reduceIte, Option.bind_eq_bind]
  · simp only [accept, hfull, ↓reduceIte, Option.bind_eq_bind]

/-- A block is refused and nothing changes, or it is accepted, and then memory may be flushed. -/
theorem storeBlock_cases {helpful : Bool} (h : ct.storeBlock draws block = some (ct', helpful)) :
    (isHelpful (ct.rankVec.getD block.gen 0) (ct.mHelpful.getD block.gen []) block = none ∧
      ct' = ct ∧ helpful = false) ∨
    ∃ m flushed completed,
      isHelpful (ct.rankVec.getD block.gen 0) (ct.mHelpful.getD block.gen []) block = some m ∧
      (flushed = accept ct block m ∨ (accept ct block m).flushBuf draws = some flushed) ∧
      ct' = { flushed with genCompleted := completed } ∧ helpful = true := by
  cases hhelp : isHelpful (ct.rankVec.getD block.gen 0) (ct.mHelpful.getD block.gen []) block with
  | none =>
      rw [CodeTorrent.storeBlock, hhelp] at h
      obtain ⟨rfl, rfl⟩ := Prod.mk.inj (Option.some.inj h)
      exact Or.inl ⟨rfl, rfl, rfl⟩
  | some m =>
      rw [storeBlock_eq hhelp] at h
      obtain ⟨flushed, hflushed, hct⟩ := Option.bind_eq_some_iff.mp h
      obtain ⟨heq, rfl⟩ := Prod.mk.inj (Option.some.inj hct)
      have hcompleted : ∃ completed, ct' = { flushed with genCompleted := completed } := by
        rw [← heq]
        split
        · exact ⟨_, rfl⟩
        · exact ⟨flushed.genCompleted, rfl⟩
      obtain ⟨completed, hcompleted⟩ := hcompleted
      refine Or.inr ⟨m, flushed, completed, rfl, ?_, hcompleted, rfl⟩
      split at hflushed
      · exact Or.inr hflushed
      · exact Or.inl (Option.some.inj hflushed).symm

/-- A helpful block whose generation is drawn when memory is full is stored. -/
theorem storeBlock_helpful {m : List (List Symbol)}
    (hhelp : isHelpful (ct.rankVec.getD block.gen 0) (ct.mHelpful.getD block.gen []) block = some m)
    (hgen : block.gen < ct.numGens) (hlen : ct.rankVecInBuf.length = ct.numGens) :
    ∃ buf inBuf files overrun, inBuf.length = ct.rankVecInBuf.length ∧
      ct.storeBlock [block.gen] block = some ({ accept ct block m with
        buf := buf, rankVecInBuf := inBuf, tempFiles := files, overrun := overrun
        genCompleted :=
          if ct.rankVec.getD block.gen 0 + 1 = ct.numBlocksGen.getD block.gen 0 then
            ct.genCompleted + 1
          else ct.genCompleted }, true) := by
  have hin : 0 < (accept ct block m).rankVecInBuf.getD block.gen 0 := by
    rw [accept, getD_set, if_pos ⟨rfl, by omega⟩]; omega
  have hflush : ∃ buf inBuf files overrun,
      (if (accept ct block m).bufferSize ≤ (accept ct block m).buf.length then
        (accept ct block m).flushBuf [block.gen] else some (accept ct block m)) =
        some { accept ct block m with
          buf := buf, rankVecInBuf := inBuf, tempFiles := files, overrun := overrun } ∧
      inBuf.length = (accept ct block m).rankVecInBuf.length := by
    split
    · obtain ⟨ct', hct'⟩ := @flushBuf_returns (accept ct block m) _ hgen hin
      obtain ⟨buf, inBuf, files, overrun, rfl, hinlen⟩ := flushBuf_frame hct'
      exact ⟨buf, inBuf, files, overrun, hct', hinlen⟩
    · exact ⟨_, _, _, _, rfl, rfl⟩
  obtain ⟨buf, inBuf, files, overrun, hstored, hinlen⟩ := hflush
  refine ⟨buf, inBuf, files, overrun, by rw [hinlen]; exact List.length_set, ?_⟩
  rw [storeBlock_eq hhelp, hstored, Option.bind_some]
  by_cases hlast : ct.rankVec.getD block.gen 0 + 1 = ct.numBlocksGen.getD block.gen 0
  · simp only [accept, hlast, ↓reduceIte]
  · simp only [accept, hlast, ↓reduceIte]

/-! ## A download by unit vectors -/

/-- The places from `j` on are free. -/
def Free (m : List (List Symbol)) (n j : Nat) : Prop :=
  m.length = n ∧ ∀ p, j ≤ p → p < n → entry m p p = 0

/-- A client of one generation of `n` blocks that has the first `j` of them. -/
structure Filling (n j : Nat) (ct : CodeTorrent) : Prop where
  gens : ct.numBlocksGen = [n]
  lengths : ct.rankVec = [j] ∧ ct.rankVecInBuf.length = 1 ∧ ct.mHelpful.length = 1
  completed : ct.genCompleted = if j = n then 1 else 0
  free : Free (ct.mHelpful.getD 0 []) n j

/-- A block of the only generation that says what source block `j` is. -/
structure IsUnit (n j : Nat) (block : CodedBlock) : Prop where
  gen : block.gen = 0
  dim : block.numBlocksGen = n
  coeffs : ∀ k, block.coeffs.getD k 0 = if k = j then 1 else 0

/-- One unit vector more. -/
theorem Filling.step {n j : Nat} {ct : CodeTorrent} (h : Filling n j ct) (hj : j < n)
    {block : CodedBlock} (hunit : IsUnit n j block) :
    ∃ ct', ct.storeBlock [0] block = some (ct', true) ∧ Filling n (j + 1) ct' := by
  obtain ⟨hrank, hinBuf, hhelpful⟩ := h.lengths
  obtain ⟨hmlen, hfree⟩ := h.free
  have hnum : ct.numGens = 1 := by rw [CodeTorrent.numGens, h.gens]; rfl
  have hone : block.coeffs.getD j 0 ≠ 0 := by rw [hunit.coeffs j, if_pos rfl]; exact one_ne_zero
  have hsweep : sweep (ct.mHelpful.getD 0 []) n n 0 block.coeffs = some (j, block.coeffs) :=
    sweep_direct (hfree j (le_refl j) hj) (fun k hk => by rw [hunit.coeffs k, if_neg (by omega)])
      hone _ 0 (Nat.zero_le j) (by omega)
  have hhelp : isHelpful (ct.rankVec.getD block.gen 0) (ct.mHelpful.getD block.gen []) block =
      some ((ct.mHelpful.getD 0 []).set j block.coeffs) := by
    rw [isHelpful, hrank, hunit.gen, hunit.dim, List.getD_cons_zero, if_neg (by omega), insertRow,
      hsweep]
    rfl
  obtain ⟨buf, inBuf, files, overrun, hinlen, hstore⟩ :=
    storeBlock_helpful hhelp (by rw [hunit.gen, hnum]; decide) (by omega)
  rw [hunit.gen] at hstore
  refine ⟨_, hstore, h.gens, ⟨?_, by rw [hinlen, hinBuf], ?_⟩, ?_, ?_⟩
  · simp only [accept, hunit.gen, hrank]
    rfl
  · simp only [accept, List.length_set, hhelpful]
  · simp only [hrank, h.gens, h.completed, List.getD_cons_zero, if_neg hj.ne]
  · simp only [accept, hunit.gen]
    rw [getD_set, if_pos ⟨rfl, by omega⟩]
    refine ⟨by rw [List.length_set, hmlen], ?_⟩
    intro p hp hpn
    rw [entry_set _ (by omega), if_neg (by omega)]
    exact hfree p (by omega) hpn

/-- Unit vectors fill the generation. -/
theorem Filling.storeAll {n : Nat} (h : Filling n 0 ct) {blocks : Nat → CodedBlock}
    (hunits : ∀ j < n, IsUnit n j (blocks j)) : ∀ j ≤ n,
    ∃ ct', Encoders.Coding.storeAll ct ((List.range j).map (fun i => ([0], blocks i))) =
      some (ct', List.replicate j true) ∧ Filling n j ct' := by
  intro j
  induction j with
  | zero => intro _; exact ⟨ct, rfl, h⟩
  | succ j ih =>
      intro hj
      obtain ⟨ct1, hstore1, hfill1⟩ := ih (by omega)
      obtain ⟨ct2, hstore2, hfill2⟩ := hfill1.step hj (hunits j hj)
      refine ⟨ct2, ?_, hfill2⟩
      rw [List.range_succ, List.map_append, storeAll_append, hstore1, List.replicate_succ']
      simp only [Option.bind_some, List.map_singleton, Encoders.Coding.storeAll, hstore2,
        Option.bind_eq_bind, Option.map_some]

end Encoders.Coding
