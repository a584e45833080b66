import Encoders.Coding.Galois
import Encoders.Lib.Elimination

/-!
# The coder

`networkcoding/nc.cpp`. A source is a list of blocks of symbols. A coded block is
a linear combination of them together with its coefficients; coding is adding up
multiples of rows, decoding is elimination.

The two tests the coder makes on an incoming block are one algorithm at two
widths: `IsHelpful` reduces the coefficients alone, `IncrementalDecode` the
coefficients with the coded symbols behind them.
-/

namespace Encoders.Coding

open Encoders.Lib

variable {S : Nat → Nat → Symbol}
variable {b n : Nat} {buffer : List CodedBlock} {out : CodedBlock} {choice : Nat → Symbol}

/-- `struct CodedBlock_` -/
structure CodedBlock where
  gen : Nat
  numBlocksGen : Nat
  blockSize : Nat
  coeffs : List Symbol
  sums : List Symbol
deriving DecidableEq

/--
The accumulation all encoders share: for `i < count` and `j < width`,
`out[j] = Add(Mul(rows[i][j], coeffs[i]), out[j])`.
-/
def accumulate (rows : List (List Symbol)) (coeffs : List Symbol) (count width : Nat) :
    List Symbol :=
  (List.range count).foldl
    (fun out i => (List.range width).map (fun j => entry rows i j * coeffs.getD i 0 + out.getD j 0))
    (List.replicate width 0)

/-- `EncodeBlock`: `choice` is what the random draws settle on. -/
def encodeBlock (data : List (List Symbol)) (gen n b : Nat) (choice : Nat → Symbol) : CodedBlock :=
  let coeffs := (List.range n).map choice
  ⟨gen, n, b, coeffs, accumulate data coeffs n b⟩

/-- `EncodeSingleBlock`: the coefficients are a unit vector. -/
def encodeSingleBlock (data : List (List Symbol)) (gen n b blockIdInGen : Nat) : CodedBlock :=
  encodeBlock data gen n b (fun i => if i = blockIdInGen then 1 else 0)

/-- `ReEncodeBlock`: combine coded blocks, coefficients and symbols alike. -/
def reEncodeBlock (buffer : List CodedBlock) (gen n b : Nat) (choice : Nat → Symbol) :
    Option CodedBlock :=
  if buffer.length = 0 then none
  else
    let randCoeffs := (List.range buffer.length).map choice
    some ⟨gen, n, b,
      accumulate (buffer.map CodedBlock.coeffs) randCoeffs buffer.length n,
      accumulate (buffer.map CodedBlock.sums) randCoeffs buffer.length b⟩

/-- `IsHelpful`: the matrix with the new row in it, or `none` for `false`. -/
def isHelpful (rank : Nat) (mHelpful : List (List Symbol)) (block : CodedBlock) :
    Option (List (List Symbol)) :=
  if rank = block.numBlocksGen then none
  else insertRow block.numBlocksGen block.numBlocksGen mHelpful block.coeffs

/-- `IncrementalDecode` -/
def incrementalDecode (mUpper : List (List Symbol)) (block : CodedBlock) :
    Option (List (List Symbol)) :=
  insertRow block.numBlocksGen (block.numBlocksGen + block.blockSize) mUpper
    (block.coeffs ++ block.sums)

/-- The elimination loop of `Decode` over the blocks that are left. -/
def decodeLoop (mUpper : List (List Symbol)) : List CodedBlock → Option (List (List Symbol))
  | [] => some mUpper
  | block :: rest => (incrementalDecode mUpper block).bind (fun m => decodeLoop m rest)

/--
`Decode` of one generation into `mData`. It looks at `num_blocks_gen` blocks, so a
shorter buffer is read past its end; `BackSubstitution` refuses a longer one.
-/
def ncDecode (buffer : List CodedBlock) (mData : List (List Symbol)) :
    Option (List (List Symbol)) := do
  let first ← buffer.head?
  let n := first.numBlocksGen
  let b := first.blockSize
  if buffer.length < n then none
  else
    let mUpper ← decodeLoop (List.replicate n (List.replicate (n + b) 0)) (buffer.take n)
    if buffer.length ≠ n then none
    else some (backSubstitute mUpper n b n mData)

/-! ## Accumulation adds up -/

theorem length_accumulate (rows : List (List Symbol)) (coeffs : List Symbol) (count width : Nat) :
    (accumulate rows coeffs count width).length = width := by
  rw [accumulate]
  cases count with
  | zero => simp
  | succ count => rw [List.range_succ, List.foldl_append]; simp

theorem accumulate_get (rows : List (List Symbol)) (coeffs : List Symbol) (count width : Nat)
    {j : Nat} (hj : j < width) :
    (accumulate rows coeffs count width).getD j 0 =
      ∑ i ∈ Finset.range count, entry rows i j * coeffs.getD i 0 := by
  induction count with
  | zero =>
      rw [accumulate, List.range_zero, List.foldl_nil, Finset.sum_range_zero,
        List.getD_eq_getElem _ _ (by simpa using hj), List.getElem_replicate]
  | succ count ih =>
      rw [accumulate, List.range_succ, List.foldl_append, Finset.sum_range_succ, add_comm, ← ih]
      simp only [List.foldl_cons, List.foldl_nil]
      rw [List.getD_eq_getElem _ _ (by simpa using hj), List.getElem_map, List.getElem_range]
      rfl

/-! ## Blocks that say something true about a source -/

/-- The block is the combination of the rows of `S` that its coefficients name. -/
structure Consistent (S : Nat → Nat → Symbol) (n b : Nat) (block : CodedBlock) : Prop where
  gen : block.gen = 0
  dims : block.numBlocksGen = n ∧ block.blockSize = b
  lengths : block.coeffs.length = n ∧ block.sums.length = b
  sums : ∀ j < b, block.sums.getD j 0 = ∑ i ∈ Finset.range n, block.coeffs.getD i 0 * S i j

/-- The equation, on a row of coefficients and symbols. -/
def RowSolves (S : Nat → Nat → Symbol) (n b : Nat) (row : List Symbol) : Prop :=
  ∀ j < b, ∑ k ∈ Finset.range n, row.getD k 0 * S k j = row.getD (n + j) 0

/-- Elimination does not leave the equation. -/
theorem rowSolves_stable (S : Nat → Nat → Symbol) (n b : Nat) :
    Stable (n + b) (RowSolves S n b) := by
  intro v row v' c hv hrow _ _ _ hlin j hj
  calc ∑ k ∈ Finset.range n, v'.getD k 0 * S k j
      = ∑ k ∈ Finset.range n, (v.getD k 0 * S k j - c * (row.getD k 0 * S k j)) :=
        Finset.sum_congr rfl (fun k _ => by rw [hlin k]; ring)
    _ = v.getD (n + j) 0 - c * row.getD (n + j) 0 := by
        rw [Finset.sum_sub_distrib, ← Finset.mul_sum, hv j hj, hrow j hj]
    _ = v'.getD (n + j) 0 := (hlin (n + j)).symm

theorem Consistent.rowSolves {block : CodedBlock} (h : Consistent S n b block) :
    RowSolves S n b (block.coeffs ++ block.sums) := by
  intro j hj
  rw [List.getD_append_right _ _ _ _ (by rw [h.lengths.1]; omega), h.lengths.1,
    Nat.add_sub_cancel_left, h.sums j hj]
  refine Finset.sum_congr rfl ?_
  intro k hk
  rw [List.getD_append _ _ _ _ (by rw [h.lengths.1]; exact Finset.mem_range.mp hk)]

theorem rowSolves_zero (S : Nat → Nat → Symbol) (n b : Nat) {i : Nat} :
    RowSolves S n b ((List.replicate n (List.replicate (n + b) (0 : Symbol))).getD i []) := by
  intro j _
  have hz : ∀ k, ((List.replicate n (List.replicate (n + b) (0 : Symbol))).getD i []).getD k 0 = 0 :=
    fun k => entry_zero n (n + b) i k
  rw [hz, Finset.sum_eq_zero]
  intro k _
  rw [hz k, zero_mul]

/-- Encoding from the source is consistent, whatever the coefficients. -/
theorem encodeBlock_consistent {data : List (List Symbol)} (choice : Nat → Symbol)
    (hdata : ∀ i < n, ∀ j < b, choice i ≠ 0 → entry data i j = S i j) :
    Consistent S n b (encodeBlock data 0 n b choice) := by
  have hcoeff : ∀ i < n, ((List.range n).map choice).getD i 0 = choice i := by
    intro i hi
    rw [List.getD_eq_getElem _ _ (by simpa using hi), List.getElem_map, List.getElem_range]
  refine ⟨rfl, ⟨rfl, rfl⟩, ⟨by simp [encodeBlock], length_accumulate _ _ _ _⟩, ?_⟩
  intro j hj
  simp only [encodeBlock]
  rw [accumulate_get _ _ _ _ hj]
  refine Finset.sum_congr rfl ?_
  intro i hi
  rw [Finset.mem_range] at hi
  rw [hcoeff i hi]
  by_cases h0 : choice i = 0
  · rw [h0, mul_zero, zero_mul]
  · rw [hdata i hi j hj h0, mul_comm]

/-- What a re-encoded block holds: one combination, of the coefficients and of the symbols. -/
theorem reEncodeBlock_combines {gen : Nat} (h : reEncodeBlock buffer gen n b choice = some out) :
    (out.gen = gen ∧ out.numBlocksGen = n ∧ out.blockSize = b) ∧
    (out.coeffs.length = n ∧ out.sums.length = b) ∧
    (∀ k < n, out.coeffs.getD k 0 = ∑ i ∈ Finset.range buffer.length,
      entry (buffer.map CodedBlock.coeffs) i k * choice i) ∧
    ∀ j < b, out.sums.getD j 0 = ∑ i ∈ Finset.range buffer.length,
      entry (buffer.map CodedBlock.sums) i j * choice i := by
  rw [reEncodeBlock, Option.ite_none_left_eq_some] at h
  obtain ⟨_, h⟩ := h
  obtain rfl := Option.some.inj h
  have hchoice : ∀ i ∈ Finset.range buffer.length,
      ((List.range buffer.length).map choice).getD i 0 = choice i := by
    intro i hi
    rw [List.getD_eq_getElem _ _ (by simpa using hi), List.getElem_map, List.getElem_range]
  refine ⟨⟨rfl, rfl, rfl⟩, ⟨length_accumulate _ _ _ _, length_accumulate _ _ _ _⟩, ?_, ?_⟩
  · intro k hk
    rw [accumulate_get _ _ _ _ hk]
    exact Finset.sum_congr rfl (fun i hi => by rw [hchoice i hi])
  · intro j hj
    rw [accumulate_get _ _ _ _ hj]
    exact Finset.sum_congr rfl (fun i hi => by rw [hchoice i hi])

/-- The symbols follow from the coefficients as those of all combined blocks do. -/
theorem reEncodeBlock_sums {gen : Nat} (hbuf : ∀ x ∈ buffer, ∀ j < b,
      x.sums.getD j 0 = ∑ k ∈ Finset.range n, x.coeffs.getD k 0 * S k j)
    (h : reEncodeBlock buffer gen n b choice = some out) :
    ∀ j < b, out.sums.getD j 0 = ∑ k ∈ Finset.range n, out.coeffs.getD k 0 * S k j := by
  obtain ⟨-, -, hcoeffs, hsums⟩ := reEncodeBlock_combines h
  intro j hj
  have hrow : ∀ i < buffer.length, entry (buffer.map CodedBlock.sums) i j =
      ∑ k ∈ Finset.range n, entry (buffer.map CodedBlock.coeffs) i k * S k j := by
    intro i hi
    have hget : ∀ f : CodedBlock → List Symbol, (buffer.map f).getD i [] = f buffer[i] := by
      intro f
      rw [List.getD_eq_getElem _ _ (by simpa using hi), List.getElem_map]
    rw [entry, hget, hbuf _ (List.getElem_mem hi) j hj]
    exact Finset.sum_congr rfl (fun k _ => by rw [entry, hget])
  calc out.sums.getD j 0
      = ∑ i ∈ Finset.range buffer.length, entry (buffer.map CodedBlock.sums) i j * choice i :=
        hsums j hj
    _ = ∑ i ∈ Finset.range buffer.length, ∑ k ∈ Finset.range n,
          entry (buffer.map CodedBlock.coeffs) i k * choice i * S k j := by
        refine Finset.sum_congr rfl ?_
        intro i hi
        rw [hrow i (Finset.mem_range.mp hi), Finset.sum_mul]
        refine Finset.sum_congr rfl ?_
        intro k _
        ring
    _ = ∑ k ∈ Finset.range n, out.coeffs.getD k 0 * S k j := by
        rw [Finset.sum_comm]
        refine Finset.sum_congr rfl ?_
        intro k hk
        rw [hcoeffs k (Finset.mem_range.mp hk), Finset.sum_mul]

/-- Combining consistent blocks is consistent, whatever the coefficients. -/
theorem reEncodeBlock_consistent (choice : Nat → Symbol) (hbuf : ∀ x ∈ buffer, Consistent S n b x)
    (h : reEncodeBlock buffer 0 n b choice = some out) : Consistent S n b out := by
  obtain ⟨⟨hgen, hdims⟩, hlengths, -, -⟩ := reEncodeBlock_combines h
  exact ⟨hgen, hdims, hlengths, reEncodeBlock_sums (fun x hx => (hbuf x hx).sums) h⟩

end Encoders.Coding
