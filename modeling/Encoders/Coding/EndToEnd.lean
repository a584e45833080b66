import Encoders.Lib.Slice
import Encoders.Coding.CodeTorrent

/-!
# One generation, end to end

When the whole file is one generation, a client that has accepted as many blocks
as the file has can decode, and what it writes is the file.

The decoder repeats, on whole rows, the elimination the client did on coefficients
when it accepted the blocks. So the invariant of the client says that the blocks in
its buffer go through the decoder's elimination one after the other, that the
result agrees with the client's matrix on the coefficients, and that its rows
still satisfy the equation every honest block satisfies. Blocks may come from the
source, from plain fragments, or from other clients that combined what they hold,
in any order and any number of times.
-/

namespace Encoders.Coding

open Encoders.Lib

variable {L b n : Nat} {file : List Symbol} {ct : CodeTorrent} {S : Nat → Nat → Symbol}
variable {leftover : Nat → List Symbol}
  {block : CodedBlock}

/-! ## The source -/

/-- Symbol `j` of block `i`, the file being followed by zeros. -/
def source (file : List Symbol) (b i j : Nat) : Symbol := file.getD (i * b + j) 0

theorem numBlocks_bounds (hL : 0 < L) (hb : 0 < b) :
    0 < numBlocks L b ∧ (numBlocks L b - 1) * b < L ∧ L ≤ numBlocks L b * b :=
  ceil_div_bounds hL hb

theorem splitBlocks_one : splitBlocks n n 1 = [(n : Int)] := by
  rw [splitBlocks, if_pos (Nat.mul_one n)]; rfl

/-- With as many blocks per generation as the file has, both sides see one generation. -/
theorem one_generation (hL : 0 < L) (hb : 0 < b) :
    loadFileInfo L b (numBlocks L b) = [(numBlocks L b : Int)] ∧
      clientFileInfo L b (numBlocks L b) = [(numBlocks L b : Int)] := by
  have hn := (numBlocks_bounds hL hb).1
  have hdiv : numBlocks L b / numBlocks L b = 1 := Nat.div_self hn
  refine ⟨?_, ?_⟩
  · simp only [loadFileInfo, hdiv]
    rw [if_neg (by omega), splitBlocks_one]
  · simp only [clientFileInfo, hdiv, splitBlocks_one]

/-- A symbol of eight bits is a byte of the buffer. -/
theorem nthSymbol_eight (buf : List Symbol) (pos : Nat) : nthSymbol buf 8 pos = buf.getD pos 0 := by
  have hlt := (buf.getD pos 0).toNat_lt
  have hmask : (buf.getD pos 0).toNat &&& 255 = (buf.getD pos 0).toNat := by
    rw [show 255 = 2 ^ 8 - 1 from rfl, Nat.and_two_pow_sub_one_eq_mod, Nat.mod_eq_of_lt hlt]
  have hpos : pos / (8 / 8) = pos := Nat.div_one pos
  have hshift : (8 / 8 - pos % (8 / 8) - 1) * 8 = 0 := by
    rw [show 8 / 8 = 1 from rfl, Nat.mod_one]
  simp only [nthSymbol, hpos, hshift, Nat.sub_self, Nat.shiftRight_zero, hmask]
  exact Symbol.toNat_inj.mp (Symbol.toNat_ofNat hlt)

theorem map_range_getD {j : Nat} (f : Nat → Symbol) (hj : j < b) :
    ((List.range b).map f).getD j 0 = f j := by
  rw [List.getD_eq_getElem _ _ (by simpa using hj), List.getElem_map, List.getElem_range]

/-- `LoadFile` of the only generation gives the source, if its size is an `int`. -/
theorem loadFile_source (hL : 0 < file.length) (hb : 0 < b)
    (hfits : numBlocks file.length b * b < 2147483648) :
    ∃ data, loadFile file file.length [(numBlocks file.length b : Int)] b 0 = some data ∧
      data.length = numBlocks file.length b ∧
      ∀ i < numBlocks file.length b, ∀ j < b, entry data i j = source file b i j := by
  obtain ⟨hn, hlast, hall⟩ := numBlocks_bounds hL hb
  generalize numBlocks file.length b = n at hn hlast hall hfits
  have htake : file.take (b * n) = file := List.take_of_length_le (by rw [Nat.mul_comm]; exact hall)
  refine ⟨(List.range n).map (fun i =>
    if i = n - 1 then
      (List.range (file.length - (n - 1) * b)).map (fun j => nthSymbol file 8 (b * i + j)) ++
        List.replicate (b - (file.length - (n - 1) * b)) 0
    else (List.range b).map (fun j => nthSymbol file 8 (b * i + j))), ?_, by simp, ?_⟩
  · simp only [loadFile, List.getElem?_cons_zero, Option.bind_eq_bind, Option.bind_some,
      List.take_zero, List.sum_nil, Int.toNat_zero, Nat.zero_mul, List.drop_zero, Int.toNat_natCast,
      htake, Nat.add_zero, List.length_singleton, Nat.sub_self, and_self, not_true_eq_false,
      false_and, if_false, true_and]
    rw [if_neg (by omega), if_neg (by rw [Nat.mul_comm]; omega)]
  · intro i hi j hj
    rw [entry_map_range _ hi, source, Nat.mul_comm i b]
    split
    · next hlasti =>
        subst hlasti
        rw [Nat.mul_comm b]
        rcases Nat.lt_or_ge j (file.length - (n - 1) * b) with hin | hout
        · rw [List.getD_append _ _ _ _ (by simpa using hin), map_range_getD _ hin, nthSymbol_eight]
        · -- past the end of the file both sides are the padding
          rw [List.getD_append_right _ _ _ _ (by simpa using hout), List.getD_replicate,
            List.getD_eq_default _ _ (by omega)]
          simp only [List.length_map, List.length_range]; omega
    · rw [map_range_getD _ hj, nthSymbol_eight]

/-- The bytes of the file, block by block. -/
theorem flatMap_blocks (file : List Symbol) (b : Nat) : ∀ q : Nat,
    (List.range q).flatMap (fun i => (file.drop (i * b)).take b) = file.take (q * b)
  | 0 => by simp
  | q + 1 => by
      rw [List.range_succ, List.flatMap_append, flatMap_blocks file b q, List.flatMap_singleton,
        Nat.succ_mul, List.take_add]

theorem source_row (file : List Symbol) (b i len : Nat) (h : i * b + len ≤ file.length) :
    (List.range len).map (source file b i) = (file.drop (i * b)).take len := by
  refine List.ext_getElem (by simp; omega) ?_
  intro j h1 h2
  rw [List.length_map, List.length_range] at h1
  rw [List.getElem_map, List.getElem_range, List.getElem_take, List.getElem_drop, source,
    List.getD_eq_getElem _ _ (by omega)]

/-! ## From sizes to a client -/

theorem cutToInt_of_lt {x : Nat} (h : x < 2147483648) : cutToInt x = x := by
  unfold cutToInt
  rw [Int.bmod_def]
  omega

theorem numBlocks_eq_ceil (hL : 0 < L) (hb : 0 < b) : ⌈(L : ℚ) / b⌉₊ = numBlocks L b := by
  obtain ⟨hn, hlast, hall⟩ := numBlocks_bounds hL hb
  have hbq : (0 : ℚ) < b := by exact_mod_cast hb
  rw [Nat.ceil_eq_iff hn.ne', lt_div_iff₀ hbq, div_le_iff₀ hbq]
  exact ⟨by exact_mod_cast hlast, by exact_mod_cast hall⟩

/-- A client for one generation, beside the spill files that are there. -/
def oneGenerationClient (L b : Nat) (leftover : Nat → List Symbol) : CodeTorrent :=
  (initClient L b (numBlocks L b)).withLeftover leftover

theorem client_eq_some {numBlocksPerGen blockSize fileSize : Int}
    (h : CodeTorrent.client numBlocksPerGen blockSize fileSize leftover = some ct) :
    (0 < numBlocksPerGen ∧ 0 < blockSize ∧ 0 < fileSize ∧ numBlocksPerGen * 2 < 2147483648) ∧
      ct = (initClient fileSize.toNat blockSize.toNat numBlocksPerGen.toNat).withLeftover
        leftover := by
  unfold CodeTorrent.client at h
  rw [Option.ite_none_right_eq_some] at h
  exact ⟨h.1, (Option.some.inj h.2).symm⟩

/-- **The decoder of a file whose length is an `int`** has one generation of all blocks. -/
theorem codetorrentdecoder_eq (hL : 0 < L) (hL' : L < 2147483648) (hb : 0 < b)
    (hb' : b < 2147483648) (leftover : Nat → List Symbol) :
    codetorrentdecoder L b leftover =
      if numBlocks L b * 2 < 2147483648 then some (oneGenerationClient L b leftover) else none := by
  have hn := (numBlocks_bounds hL hb).1
  have hceil : ⌈toDouble (toDouble (L : ℚ) / ((b : Int) : ℚ))⌉ = (numBlocks L b : Int) := by
    have hpos : 0 < toDouble ((L : ℚ) / b) :=
      toDouble_pos (div_pos (by exact_mod_cast hL) (by exact_mod_cast hb))
    rw [toDouble_natCast hL (by omega), Int.cast_natCast, ← numBlocks_eq_ceil hL hb,
      ← ceil_toDouble_div hL (by omega) hb, Int.natCast_ceil_eq_ceil hpos.le]
  have hne : ¬ (numBlocks L b : Int) = 0 := by omega
  unfold codetorrentdecoder CodeTorrent.client
  simp only [cutToInt_of_lt hL', cutToInt_of_lt hb', hceil, Int.toNat_natCast, if_neg hne]
  rw [if_neg (by omega)]
  by_cases hfits : numBlocks L b * 2 < 2147483648
  · rw [if_neg (by omega), if_pos (by omega), if_pos hfits]
    rfl
  · rw [if_neg hfits, if_neg (by omega : ¬ (0 < (numBlocks L b : Int) ∧ 0 < (b : Int) ∧
      0 < (L : Int) ∧ (numBlocks L b : Int) * 2 < 2147483648)), ite_self]

/-- The blocks of the source in memory, the last one padded with zeros. -/
structure IsSource (file : List Symbol) (b : Nat) (data : List (List Symbol)) : Prop where
  length : data.length = numBlocks file.length b
  blocks : ∀ i < numBlocks file.length b, ∀ j < b, entry data i j = source file b i j

/--
A block some honest node can send: encoded from the source, converted from a plain
fragment, or combined by a decoder from blocks it was sent.
-/
inductive Produced (file : List Symbol) (b : Nat) : CodedBlock → Prop where
  | encode (data : List (List Symbol)) (hdata : IsSource file b data) (choice : Nat → Symbol) :
      Produced file b (encodeBlock data 0 (numBlocks file.length b) b choice)
  | fragment (q : Nat) (h1 : 1 ≤ q) (hq : q ≤ numBlocks file.length b) :
      Produced file b (encodeFragment file b q)
  | reEncode (received : List (List Nat × CodedBlock))
      (hreceived : ∀ r ∈ received, Produced file b r.2) (leftover : Nat → List Symbol)
      (ct₀ ct : CodeTorrent) (answers : List Bool)
      (hclient : codetorrentdecoder file.length b leftover = some ct₀)
      (hstore : storeAll ct₀ (received.map (fun r => (r.1, ct₀.handed r.2))) = some (ct, answers))
      (choice : Nat → Symbol) (block : CodedBlock) (h : ct.reEncode 0 choice = some block) :
      Produced file b block

/-- The client's state, for a source `S` of `n` blocks of `b` symbols in a file of `L`. -/
structure ClientInv (S : Nat → Nat → Symbol) (n b L : Nat) (ct : CodeTorrent) : Prop where
  shape : ct.fileSize = L ∧ ct.blockSize = b ∧ ct.numBlocksGen = [n] ∧ ct.bufferSize = n * 2
  ranks : ct.rankVec = [ct.buf.length] ∧ ct.rankVecInBuf = [ct.buf.length]
  completed : ct.genCompleted = if ct.buf.length = n then 1 else 0
  honest : ∀ x ∈ ct.buf, Consistent S n b x
  /-- The decoder's elimination accepts the buffer and agrees with the client's matrix. -/
  upper : ∃ mh mu, ct.mHelpful = [mh] ∧ mh.length = n ∧
    decodeLoop (List.replicate n (List.replicate (n + b) 0)) ct.buf = some mu ∧
    Echelon n (n + b) mu ∧ Agree n mh mu ∧ pivots n mu = ct.buf.length ∧
    ∀ i < n, RowSolves S n b (mu.getD i [])

theorem ClientInv.buf_le (h : ClientInv S n b L ct) : ct.buf.length ≤ n := by
  obtain ⟨_, mu, _, _, _, _, _, hpiv, _⟩ := h.upper
  rw [← hpiv]; exact pivots_le n mu

theorem clientInv_init (hL : 0 < L) (hb : 0 < b) :
    ClientInv S (numBlocks L b) b L (initClient L b (numBlocks L b)) := by
  have hn := (numBlocks_bounds hL hb).1
  have hinfo := (one_generation hL hb).2
  refine ⟨⟨rfl, rfl, ?_, rfl⟩, ⟨?_, ?_⟩, ?_, ?_, ?_⟩
  · simp [initClient, hinfo]
  · simp [initClient, hinfo]
  · simp [initClient, hinfo]
  · simp [initClient]; omega
  · intro x hx; simp [initClient] at hx
  · refine ⟨List.replicate _ (List.replicate (numBlocks L b) 0),
      List.replicate _ (List.replicate (numBlocks L b + b) 0), ?_, List.length_replicate, rfl,
      echelon_zero _ _, ?_, pivots_zero _ _, ?_⟩
    · simp [initClient, hinfo]
    · intro i _ k _
      rw [entry_zero, entry_zero]
    · intro i _
      exact rowSolves_zero S _ b

theorem decodeLoop_append (m : List (List Symbol)) : ∀ (xs ys : List CodedBlock),
    decodeLoop m (xs ++ ys) = (decodeLoop m xs).bind (fun m' => decodeLoop m' ys) := by
  intro xs
  induction xs generalizing m with
  | nil => intro ys; rfl
  | cons x xs ih =>
      intro ys
      simp only [List.cons_append, decodeLoop]
      cases incrementalDecode m x with
      | none => rfl
      | some m' => exact ih m' ys

/-- Storing one honest block keeps the invariant; the answer says whether the buffer grew. -/
theorem clientInv_step (hn : 0 < n) (h : ClientInv S n b L ct) (draws : List Nat)
    (hx : Consistent S n b block) :
    ∃ ct' helpful, ct.storeBlock draws block = some (ct', helpful) ∧ ClientInv S n b L ct' ∧
      ct'.buf.length = ct.buf.length + if helpful then 1 else 0 := by
  obtain ⟨mh, mu, hmh, hmhlen, hloop, hech, hagree, hpiv, hsol⟩ := h.upper
  obtain ⟨hrank, hrankBuf⟩ := h.ranks
  have hle := h.buf_le
  have hhelp : isHelpful (ct.rankVec.getD block.gen 0) (ct.mHelpful.getD block.gen []) block =
      if ct.buf.length = n then none else insertRow n n mh block.coeffs := by
    rw [isHelpful, hx.gen, hx.dims.1, hrank, hmh]; rfl
  by_cases hfull : ct.buf.length = n
  · refine ⟨ct, false, ?_, h, rfl⟩
    simp only [CodeTorrent.storeBlock, hhelp, if_pos hfull]
  rw [if_neg hfull] at hhelp
  -- the decoder takes or refuses the block as the client does
  have hsame := insertRow_agree (le_refl n) (Nat.le_add_right n b) hmhlen hech.rows hagree
    hx.lengths.1 (show (block.coeffs ++ block.sums).length = n + b by
      rw [List.length_append, hx.lengths.1, hx.lengths.2])
    (fun k hk => by rw [List.getD_append _ _ _ _ (by rw [hx.lengths.1]; exact hk)])
  rcases hsame with ⟨hnone, _⟩ | ⟨mh', mu', hmh', hmu', hagree'⟩
  · refine ⟨ct, false, ?_, h, rfl⟩
    simp only [CodeTorrent.storeBlock, hhelp, hnone]
  · rw [hmh'] at hhelp
    obtain ⟨hech', hpiv', hsol'⟩ := insertRow_spec hech (Nat.le_add_right n b)
      (rowSolves_stable S n b) hsol
      (by rw [List.length_append, hx.lengths.1, hx.lengths.2]) hx.rowSolves hmu'
    have hbuf : ¬ ct.bufferSize ≤ (ct.buf ++ [block]).length := by
      rw [h.shape.2.2.2, List.length_append, List.length_singleton]; omega
    have hmh'len : mh'.length = n := by
      rw [insertRow, Option.map_eq_some_iff] at hmh'
      obtain ⟨r, _, rfl⟩ := hmh'
      rw [List.length_set, hmhlen]
    refine ⟨{ ct with
      mHelpful := ct.mHelpful.set block.gen mh'
      buf := ct.buf ++ [block]
      rankVec := ct.rankVec.set block.gen (ct.rankVec.getD block.gen 0 + 1)
      rankVecInBuf := ct.rankVecInBuf.set block.gen (ct.rankVecInBuf.getD block.gen 0 + 1)
      genCompleted := if ct.buf.length + 1 = n then ct.genCompleted + 1 else ct.genCompleted },
      true, ?_, ⟨?_, ?_, ?_, ?_, ?_⟩, ?_⟩
    · simp only [CodeTorrent.storeBlock, hhelp, if_neg hbuf, Option.bind_eq_bind, Option.bind_some]
      rw [hx.gen, hrank, h.shape.2.2.1]
      simp only [List.getD_cons_zero]
      by_cases hlast : ct.buf.length + 1 = n
      · rw [if_pos hlast, if_pos hlast]
      · rw [if_neg hlast, if_neg hlast]
    · exact h.shape
    · rw [hx.gen, hrank, hrankBuf]; simp
    · simp only [List.length_append, List.length_singleton]
      rw [h.completed, if_neg hfull]
    · intro x hxmem
      rcases List.mem_append.mp hxmem with hmem | hmem
      · exact h.honest x hmem
      · rw [List.mem_singleton.mp hmem]; exact hx
    · refine ⟨mh', mu', by rw [hx.gen, hmh]; rfl, hmh'len, ?_, hech', hagree', ?_, hsol'⟩
      · rw [decodeLoop_append, hloop, Option.bind_some, decodeLoop, incrementalDecode, hx.dims.1,
          hx.dims.2, hmu', Option.bind_some, decodeLoop]
      · rw [hpiv', hpiv, List.length_append, List.length_singleton]
    · simp

/-- Storing any number of honest blocks. The buffer holds what was accepted. -/
theorem clientInv_storeAll (hn : 0 < n) :
    ∀ (blocks : List (List Nat × CodedBlock)) (ct : CodeTorrent), ClientInv S n b L ct →
      (∀ x ∈ blocks, Consistent S n b x.2) →
      ∃ ct' answers, storeAll ct blocks = some (ct', answers) ∧ ClientInv S n b L ct' ∧
        ct'.buf.length = ct.buf.length + answers.count true
  | [], ct, h, _ => ⟨ct, [], rfl, h, rfl⟩
  | (draws, block) :: rest, ct, h, hx => by
      obtain ⟨ct1, helpful, h1, hinv1, hlen1⟩ :=
        clientInv_step hn h draws (hx (draws, block) (by simp))
      obtain ⟨ct2, answers, h2, hinv2, hlen2⟩ :=
        clientInv_storeAll hn rest ct1 hinv1 (fun x hmem => hx x (by simp [hmem]))
      refine ⟨ct2, helpful :: answers, ?_, hinv2, ?_⟩
      · simp only [storeAll, h1, h2, Option.bind_eq_bind, Option.bind_some]
      · rw [hlen2, hlen1, List.count_cons]
        cases helpful with
        | true => simp; omega
        | false => simp

/-- Storing in two parts. -/
theorem storeAll_append {xs ys : List (List Nat × CodedBlock)} : ∀ {ct : CodeTorrent},
    storeAll ct (xs ++ ys) = (storeAll ct xs).bind (fun r =>
      (storeAll r.1 ys).map (fun r' => (r'.1, r.2 ++ r'.2))) := by
  induction xs with
  | nil =>
      intro ct
      simp [storeAll]
  | cons x xs ih =>
      intro ct
      obtain ⟨draws, block⟩ := x
      rw [List.cons_append, storeAll, storeAll]
      cases ct.storeBlock draws block with
      | none => rfl
      | some r =>
          simp only [Option.bind_eq_bind, Option.bind_some]
          rw [ih]
          cases storeAll r.1 xs with
          | none => rfl
          | some r' =>
              simp only [Option.bind_some]
              cases storeAll r'.1 ys with
              | none => rfl
              | some r'' => rfl

/-- In one generation everything a client holds is in memory. -/
theorem ClientInv.genBlocks (h : ClientInv S n b L ct) : ct.genBlocks 0 = ct.buf := by
  have hfilter : ct.buf.filter (fun x => x.gen = 0) = ct.buf := by
    rw [List.filter_eq_self]
    intro x hx
    simpa using (h.honest x hx).gen
  rw [CodeTorrent.genBlocks, hfilter, h.ranks.1, h.ranks.2, Nat.sub_self]
  simp

/-- What `Encode` makes of the only generation of a file. -/
theorem encode_produced (hL : 0 < file.length) (hb : 0 < b) {choice : Nat → Symbol}
    (h : encode file file.length (loadFileInfo file.length b (numBlocks file.length b)) b 0
      choice = some block) : Produced file b block := by
  obtain ⟨data, hload, h⟩ := Option.bind_eq_some_iff.mp h
  rw [(one_generation hL hb).1] at hload
  -- a generation that was loaded has an `int` for its size
  have hfits : numBlocks file.length b * b < 2147483648 := by
    by_contra hlarge
    rw [loadFile, List.getElem?_cons_zero, Option.bind_eq_bind, Option.bind_some,
      if_neg (by omega)] at hload
    simp only [Int.toNat_natCast] at hload
    rw [if_pos (Or.inl (by rw [Nat.mul_comm]; omega))] at hload
    cases hload
  obtain ⟨data', hload', hlen, hblocks⟩ := loadFile_source hL hb hfits
  rw [hload] at hload'
  obtain rfl := Option.some.inj hload'
  rw [Option.ite_none_left_eq_some] at h
  rw [← Option.some.inj h.2, hlen]
  exact .encode data ⟨hlen, hblocks⟩ choice

theorem encodeFragment_consistent (file : List Symbol) (b q : Nat) :
    Consistent (source file b) (numBlocks file.length b) b (encodeFragment file b q) := by
  refine encodeBlock_consistent _ ?_
  intro i hi j hj hne
  have hiq : i = q - 1 := by
    by_contra hc
    exact hne (if_neg hc)
  rw [entry_map_range _ hi, if_pos hiq, hiq, source]
  rcases Nat.lt_or_ge ((q - 1) * b + j) file.length with hin | hout
  · have hlen : j < ((file.drop ((q - 1) * b)).take b).length := by
      rw [List.length_take, List.length_drop]; omega
    rw [List.getD_append _ _ _ _ hlen, List.getD_eq_getElem _ _ hlen, List.getElem_take,
      List.getElem_drop, List.getD_eq_getElem _ _ hin]
  · have hlen : ((file.drop ((q - 1) * b)).take b).length ≤ j := by
      rw [List.length_take, List.length_drop]; omega
    rw [List.getD_append_right _ _ _ _ hlen, List.getD_eq_default file _ hout,
      List.getD_replicate]
    omega

/-- A block with the client's sizes is handed on as it is. -/
theorem ClientInv.handed (h : ClientInv S n b L ct) (hx : Consistent S n b block) :
    ct.handed block = block := by
  unfold CodeTorrent.handed
  rw [h.shape.2.2.1, h.shape.2.1, hx.gen]
  simp only [List.getD_cons_zero]
  rw [List.take_of_length_le hx.lengths.1.le, List.take_of_length_le hx.lengths.2.le, ← hx.gen,
    ← hx.dims.1, ← hx.dims.2]

theorem ClientInv.map_handed (h : ClientInv S n b L ct) {blocks : List (List Nat × CodedBlock)}
    (hx : ∀ x ∈ blocks, Consistent S n b x.2) :
    blocks.map (fun x => (x.1, ct.handed x.2)) = blocks := by
  refine (List.map_congr_left (fun x hmem => ?_)).trans (List.map_id blocks)
  rw [h.handed (hx x hmem)]
  rfl

/-- The spill files that are there when a client starts do not matter to it. -/
theorem clientInv_oneGeneration (hL : 0 < L) (hb : 0 < b) (leftover : Nat → List Symbol) :
    ClientInv S (numBlocks L b) b L (oneGenerationClient L b leftover) :=
  let h := clientInv_init hL hb
  ⟨h.shape, h.ranks, h.completed, h.honest, h.upper⟩

/-- **Every block an honest node can send is consistent** with the file. -/
theorem produced_consistent (hL : 0 < file.length) (hL' : file.length < 2147483648) (hb : 0 < b)
    (hb' : b < 2147483648) (h : Produced file b block) :
    Consistent (source file b) (numBlocks file.length b) b block := by
  have hn := (numBlocks_bounds hL hb).1
  induction h with
  | encode data hdata choice =>
      exact encodeBlock_consistent choice (fun i hi j hj _ => hdata.blocks i hi j hj)
  | fragment q _ _ => exact encodeFragment_consistent file b q
  | reEncode received _ leftover ct₀ ct answers hclient hstore choice block h ih =>
      rw [codetorrentdecoder_eq hL hL' hb hb', Option.ite_none_right_eq_some] at hclient
      obtain rfl := Option.some.inj hclient.2
      have hinv₀ := clientInv_oneGeneration (S := source file b) hL hb leftover
      rw [hinv₀.map_handed ih] at hstore
      obtain ⟨ct', answers', hstore', hinv, _⟩ := clientInv_storeAll hn received _ hinv₀ ih
      rw [hstore] at hstore'
      obtain ⟨rfl, rfl⟩ := Prod.mk.inj (Option.some.inj hstore')
      rw [CodeTorrent.reEncode, hinv.genBlocks, hinv.shape.2.1, hinv.shape.2.2.1] at h
      exact reEncodeBlock_consistent choice hinv.honest h

/-! ## Decoding -/

/-- A full buffer decodes to the blocks of the source. -/
theorem ClientInv.ncDecode (h : ClientInv S n b L ct) (hn : 0 < n) (hfull : ct.buf.length = n)
    (gData : List (List Symbol)) (hg : gData.length = n) :
    ∃ data, Encoders.Coding.ncDecode ct.buf gData = some data ∧
      ∀ k < n, data.getD k [] = (List.range b).map (S k) := by
  obtain ⟨mh, mu, _, _, hloop, hech, _, hpiv, hsol⟩ := h.upper
  cases hbuf : ct.buf with
  | nil => rw [hbuf] at hfull; simp at hfull; omega
  | cons x xs =>
      have hx := h.honest x (by rw [hbuf]; simp)
      rw [hbuf] at hloop hfull hpiv
      refine ⟨backSubstitute mu n b n gData, ?_, ?_⟩
      · have htake : (x :: xs).take n = x :: xs := List.take_of_length_le hfull.le
        simp only [Encoders.Coding.ncDecode, List.head?_cons, Option.bind_eq_bind, Option.bind_some,
          hx.dims.1, hx.dims.2, htake, hloop]
        rw [if_neg (by omega), if_neg (by omega)]
      · exact backSubstitute_spec (pivots_full (by rw [hpiv, hfull])) hech.lower hsol n gData
          (le_refl n) hg.ge (fun k h1 h2 => by omega)

/-- What `WriteFile` makes of the source blocks is the file. -/
theorem writeFile_source (hL : 0 < file.length) (hb : 0 < b) {data : List (List Symbol)}
    (hsize : ct.fileSize = file.length) (hblock : ct.blockSize = b)
    (hgens : ct.numBlocksGen = [numBlocks file.length b])
    (hdata : ∀ k < numBlocks file.length b, data.getD k [] = (List.range b).map (source file b k)) :
    ct.writeFile data 0 = file := by
  obtain ⟨hn, hlast, hall⟩ := numBlocks_bounds hL hb
  rw [CodeTorrent.writeFile, CodeTorrent.numGens, hgens, hsize, hblock]
  simp only [List.getD_cons_zero, List.length_singleton, Nat.sub_self, List.take_zero, List.sum_nil,
    Nat.zero_add, true_and]
  generalize numBlocks file.length b = n at hn hlast hall hdata
  have hnb : n * b = (n - 1) * b + b := by
    rw [← Nat.succ_mul, Nat.succ_eq_add_one, Nat.sub_add_cancel hn]
  have hpieces : ∀ j ∈ List.range n,
      (if j = n - 1 then (data.getD j []).take (file.length - (n - 1) * b)
        else (data.getD j []).take b) = (file.drop (j * b)).take b := by
    intro j hj
    rw [List.mem_range] at hj
    rw [hdata j hj]
    split
    · next hj' =>
        subst hj'
        have hrest : (file.drop ((n - 1) * b)).length = file.length - (n - 1) * b :=
          List.length_drop
        rw [← List.map_take, List.take_range, Nat.min_eq_left (by omega),
          source_row _ _ _ _ (by omega), List.take_of_length_le hrest.le,
          List.take_of_length_le (by omega)]
    · next hj' =>
        have hle : j * b + b ≤ (n - 1) * b := by
          rw [← Nat.succ_mul]; exact Nat.mul_le_mul_right b (by omega)
        rw [← List.map_take, List.take_range, Nat.min_self, source_row _ _ _ _ (by omega)]
  rw [List.flatMap_congr hpieces, flatMap_blocks, List.take_of_length_le hall]

/-- A client decodes exactly if its buffer is full, and then to the file. -/
theorem ClientInv.decode_eq (hL : 0 < file.length) (hb : 0 < b)
    (h : ClientInv (source file b) (numBlocks file.length b) b file.length ct) :
    ct.decode = if ct.buf.length = numBlocks file.length b then some file else none := by
  have hn := (numBlocks_bounds hL hb).1
  have hgens : ct.numGens = 1 := by rw [CodeTorrent.numGens, h.shape.2.2.1]; rfl
  rw [CodeTorrent.decode, h.completed, hgens]
  by_cases hfull : ct.buf.length = numBlocks file.length b
  · obtain ⟨data, hdec, hdata⟩ := h.ncDecode hn hfull
      (List.replicate (ct.numBlocksGen.getD 0 0) (List.replicate ct.blockSize 0))
      (by rw [List.length_replicate, h.shape.2.2.1]; rfl)
    rw [if_pos hfull, if_pos hfull, if_neg (not_not.mpr rfl)]
    simp only [List.range_one, CodeTorrent.decodeGens, CodeTorrent.decodeGen, h.genBlocks, hdec,
      Option.bind_eq_bind, Option.bind_some]
    rw [writeFile_source hL hb h.shape.1 h.shape.2.1 h.shape.2.2.1 hdata]
  · rw [if_neg hfull, if_neg hfull, if_pos (by decide)]

end Encoders.Coding
