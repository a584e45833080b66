import Encoders.Coding.NC
import Encoders.Lib.RowSpan

/-!
# When a generation decodes

`NC::Decode` takes `n` coded blocks of a generation of `n`: a square system over the
symbols. It reduces every block by the rows that are stored already, at whatever column it
still has an entry, and solves from the last row up. Nothing in it looks for a better pivot
or changes the order of rows. All the same it succeeds whenever there is one solution: a
block that finds no place is in the span of those before it, so the matrix is singular, and
when each has found a place all diagonal entries are there to divide by.
-/

namespace Encoders.Coding

open Encoders.Lib Module Submodule

variable {b n : Nat} {block : CodedBlock} {buffer : List CodedBlock}
variable {X : Matrix (Fin n) (Fin b) Symbol}

/-- A coded block for generations of `n` blocks of `b` symbols, as far as its lengths go. -/
structure Sized (n b : Nat) (block : CodedBlock) : Prop where
  dims : block.numBlocksGen = n ∧ block.blockSize = b
  lengths : block.coeffs.length = n ∧ block.sums.length = b

/-- The row `IncrementalDecode` makes of a block. -/
def wholeRow (block : CodedBlock) : List Symbol := block.coeffs ++ block.sums

theorem length_wholeRow (h : Sized n b block) : (wholeRow block).length = n + b := by
  rw [wholeRow, List.length_append, h.lengths.1, h.lengths.2]

end Encoders.Coding
