import Encoders.Fragment.Utility
import Encoders.Lib.Double
import Encoders.Lib.Tiling

/-!
# The pieces of a file tile it

The number of pieces is computed in doubles, and two routines compute where a piece starts and how
long it is. Here the number is computed as the code does it, with every rounding. For lengths
below `2 ^ 53` no rounding shows, and the number is the exact one of the other modules.

The two routines differ in the last piece. One of them takes the position behind its last byte for
the length of the file when the file is one byte short of a multiple of the piece; the other, which
has the word encoder in its name and is not called, does not look.
-/

namespace Encoders.Fragment

open Encoders.Lib

/-! ## The number of pieces in doubles -/

namespace InDoubles

/-- `doubleNumberOfFragments` -/
def doubleNumberOfFragments (dataLen fragmentSize : Nat) : ℚ :=
  toDouble (toDouble dataLen / toDouble fragmentSize)

/-- `calculateTotalNumberOfFragments`; a number that does not fit into a `size_t` has no meaning
as one, and nothing is divided by zero. -/
def calculateTotalNumberOfFragments (dataLen fragmentSize : Nat) : Option Nat :=
  let roundedNumberOfFragments := ⌈doubleNumberOfFragments dataLen fragmentSize⌉₊
  if fragmentSize = 0 ∨ 18446744073709551616 ≤ roundedNumberOfFragments then none
  else if roundedNumberOfFragments = 0 then some 1
  else some roundedNumberOfFragments

/-- `calculateFragmentationPositionInfo` -/
def calculateFragmentationPositionInfo (sequenceNumber fragmentSize fileSize : Nat) :
    Option FragmentationPositionInfo :=
  let startPosition := sizeSub sequenceNumber 1 * fragmentSize % 18446744073709551616
  let endPosition := sizeSub (startPosition + fragmentSize) 1
  let actualFragmentSize :=
    if fileSize < endPosition then sizeSub fileSize startPosition else fragmentSize
  (calculateTotalNumberOfFragments fileSize fragmentSize).map (fun totalNumberOfFragments =>
    ⟨startPosition,
      if sequenceNumber = totalNumberOfFragments ∧ endPosition = fileSize then
        sizeSub fileSize startPosition
      else actualFragmentSize⟩)

end InDoubles

variable {q : Nat}

/-- `calculateFragmentPositionInfoEncoder` -/
def calculateFragmentPositionInfoEncoder (sequenceNumber fragmentSize fileSize : Nat) :
    FragmentationPositionInfo :=
  let startPosition := sizeSub sequenceNumber 1 * fragmentSize % 18446744073709551616
  let endPosition := sizeSub (startPosition + fragmentSize) 1
  let readFragmentSize :=
    if fileSize < endPosition then sizeSub fileSize startPosition else fragmentSize
  ⟨startPosition, readFragmentSize⟩

/-! ## What the rounding leaves of the number -/

variable {L s : Nat}

theorem total_eq (hL : 0 < L) (hs : 0 < s) :
    calculateTotalNumberOfFragments L s = (L + s - 1) / s := by
  unfold calculateTotalNumberOfFragments
  exact if_neg (Nat.div_pos (by omega) hs).ne'

/-- The number of pieces is the one number of pieces that is enough and not too many. -/
theorem eq_total (hL : 0 < L) (hs : 0 < s) {N : Nat} (hlow : (N - 1) * s < L)
    (hhigh : L ≤ N * s) : N = calculateTotalNumberOfFragments L s := by
  obtain ⟨hpos, hlow', hhigh'⟩ := total_bounds hL hs
  have hle : ∀ {a b : Nat}, (a - 1) * s < L → L ≤ b * s → a ≤ b := by
    intro a b ha hb
    by_contra hlt
    have := Nat.mul_le_mul_right s (show b ≤ a - 1 by omega)
    omega
  exact Nat.le_antisymm (hle hlow hhigh') (hle hlow' hhigh)

/-- The quotient of the two sizes as doubles, rounded up, is the number of pieces. -/
def QuotientFits (dataLen fragmentSize : Nat) : Prop :=
  (((dataLen + fragmentSize - 1) / fragmentSize : Nat) : ℚ) - 1 <
      InDoubles.doubleNumberOfFragments dataLen fragmentSize ∧
    InDoubles.doubleNumberOfFragments dataLen fragmentSize ≤
      ((dataLen + fragmentSize - 1) / fragmentSize : Nat)

theorem toDouble_natCast_pos {n : Nat} (h : 0 < n) : 0 < toDouble (n : ℚ) :=
  toDouble_pos (by exact_mod_cast h)

theorem doubleNumberOfFragments_pos (hL : 0 < L) (hs : 0 < s) :
    0 < InDoubles.doubleNumberOfFragments L s :=
  toDouble_pos (div_pos (toDouble_natCast_pos hL) (toDouble_natCast_pos hs))

theorem quotientFits_iff (hL : 0 < L) (hs : 0 < s) :
    QuotientFits L s ↔
      ⌈InDoubles.doubleNumberOfFragments L s⌉₊ = calculateTotalNumberOfFragments L s := by
  have hpos := (total_bounds hL hs).1
  rw [Nat.ceil_eq_iff hpos.ne', Nat.cast_sub hpos, total_eq hL hs, Nat.cast_one]
  rfl

/-- **Below `2 ^ 53` bytes the number of pieces is exact**, whatever the size of a piece. -/
theorem quotientFits_of_lt (hL : 0 < L) (hL53 : L < 9007199254740992) (hs : 0 < s) :
    QuotientFits L s := by
  rw [quotientFits_iff hL hs]
  obtain ⟨hpos, hlow, hhigh⟩ := total_bounds hL hs
  have hsq : (0 : ℚ) < s := by exact_mod_cast hs
  unfold InDoubles.doubleNumberOfFragments
  rw [toDouble_natCast hL (by omega)]
  by_cases hs53 : s < 9007199254740992
  · rw [toDouble_natCast hs (by omega), ceil_toDouble_div hL (by omega) hs,
      Nat.ceil_eq_iff hpos.ne', lt_div_iff₀ hsq, div_le_iff₀ hsq]
    exact ⟨by exact_mod_cast hlow, by exact_mod_cast hhigh⟩
  · -- the piece is longer than the file, and stays so as a double
    have hone : calculateTotalNumberOfFragments L s = 1 :=
      (eq_total hL hs (by omega) (by omega)).symm
    have hlarge : (2 : ℚ) ^ 53 ≤ toDouble s := toDouble_ge (by exact_mod_cast not_lt.mp hs53)
    have hspos : (0 : ℚ) < toDouble s := lt_of_lt_of_le (by norm_num) hlarge
    have hLq : (0 : ℚ) < L := by exact_mod_cast hL
    have hquot : (0 : ℚ) < L / toDouble s := div_pos hLq hspos
    have hlt : (L : ℚ) / toDouble s < 1 := by
      rw [div_lt_one hspos]
      exact lt_of_lt_of_le (by exact_mod_cast hL53) hlarge
    have hlog : Int.log 2 ((L : ℚ) / toDouble s) ≤ 52 :=
      log_le_52 hquot (hlt.trans (by norm_num))
    obtain ⟨k, hk⟩ := natCast_on_grid hlog 1
    rw [hone, Nat.ceil_eq_iff one_ne_zero]
    exact ⟨by simpa using toDouble_pos hquot, toDouble_le hk (by simpa using hlt.le)⟩

theorem InDoubles.total_eq_iff (hL : 0 < L) (hL64 : L < 18446744073709551616) (hs : 0 < s) :
    InDoubles.calculateTotalNumberOfFragments L s =
        some (Fragment.calculateTotalNumberOfFragments L s) ↔
      QuotientFits L s := by
  obtain ⟨hpos, hlow, _⟩ := total_bounds hL hs
  have hceil : 0 < ⌈InDoubles.doubleNumberOfFragments L s⌉₊ :=
    Nat.ceil_pos.mpr (doubleNumberOfFragments_pos hL hs)
  have hlt : Fragment.calculateTotalNumberOfFragments L s < 18446744073709551616 := by
    have := Nat.le_mul_of_pos_right (Fragment.calculateTotalNumberOfFragments L s - 1) hs
    omega
  rw [quotientFits_iff hL hs]
  unfold InDoubles.calculateTotalNumberOfFragments
  dsimp only
  constructor
  · intro h
    split_ifs at h
    · omega
    · exact Option.some.inj h
  · intro h
    rw [h, if_neg (by omega), if_neg (by omega)]

/-- Where the number is exact, so is the position. -/
theorem InDoubles.positionInfo_eq (h : InDoubles.calculateTotalNumberOfFragments L s =
      some (Fragment.calculateTotalNumberOfFragments L s)) :
    InDoubles.calculateFragmentationPositionInfo q s L =
      some (Fragment.calculateFragmentationPositionInfo q s L) := by
  unfold InDoubles.calculateFragmentationPositionInfo
  rw [h]
  rfl

theorem InDoubles.total_pos {N : Nat}
    (h : InDoubles.calculateTotalNumberOfFragments L s = some N) : 1 ≤ N := by
  unfold InDoubles.calculateTotalNumberOfFragments at h
  dsimp only at h
  split_ifs at h with _ hzero
  · exact (Option.some.inj h).le
  · have := Option.some.inj h
    omega

/-! ## The two routines -/

/-- Neither the start of a piece nor its end leaves `size_t`. -/
theorem start_end_of_fits (hs : 0 < s) (hq1 : 1 ≤ q) (hfit : q * s ≤ 18446744073709551616) :
    sizeSub q 1 * s % 18446744073709551616 = (q - 1) * s ∧
      sizeSub ((q - 1) * s + s) 1 = q * s - 1 := by
  have hmul := mul_eq_pred_mul_add hq1 s
  refine ⟨sizeSub_one_mul hs hq1 (by omega), ?_⟩
  unfold sizeSub
  omega

/-- The routine of the encoder, where the end of the piece does not leave `size_t`. -/
theorem encoderPosition_of_fits (hs : 0 < s) (hL64 : L < 18446744073709551616) (hq1 : 1 ≤ q)
    (hstart : (q - 1) * s < L) (hfit : q * s ≤ 18446744073709551616) :
    calculateFragmentPositionInfoEncoder q s L =
      ⟨(q - 1) * s, if L + 1 < q * s then L - (q - 1) * s else s⟩ := by
  obtain ⟨hpos, hend⟩ := start_end_of_fits hs hq1 hfit
  unfold calculateFragmentPositionInfoEncoder
  simp only [hpos, hend, sizeSub_of_le hstart.le hL64, FragmentationPositionInfo.mk.injEq, true_and]
  by_cases hlt : L + 1 < q * s
  · rw [if_pos hlt, if_pos (by omega)]
  · rw [if_neg hlt, if_neg (by omega)]

/-- **The two routines agree on every piece but one that ends one byte behind the file.** -/
theorem encoderPosition_eq_iff (hL : 0 < L) (hL64 : L < 18446744073709551616) (hs : 0 < s)
    (hq1 : 1 ≤ q) (hq : q ≤ calculateTotalNumberOfFragments L s)
    (hfit : q * s ≤ 18446744073709551616) :
    calculateFragmentPositionInfoEncoder q s L = calculateFragmentationPositionInfo q s L ↔
      q * s ≠ L + 1 := by
  have hstart := start_lt hL hs hq
  have hmul := mul_eq_pred_mul_add hq1 s
  rw [encoderPosition_of_fits hs hL64 hq1 hstart hfit, positionInfo_of_fits hL hL64 hs hq1 hq hfit,
    FragmentationPositionInfo.mk.injEq]
  simp only [true_and]
  by_cases hlt : L + 1 < q * s
  · rw [if_pos hlt]
    omega
  · rw [if_neg hlt]
    omega

/-- A piece that ends one byte behind the file: there is one when the piece divides the length and
one more, unless the pieces are single bytes. -/
theorem exists_short_piece_iff (hL : 0 < L) (hs : 0 < s) :
    (∃ q, 1 ≤ q ∧ q ≤ calculateTotalNumberOfFragments L s ∧ q * s = L + 1) ↔
      s ≠ 1 ∧ s ∣ L + 1 := by
  obtain ⟨_, hlow, hhigh⟩ := total_bounds hL hs
  constructor
  · rintro ⟨q, hq1, hq, heq⟩
    refine ⟨?_, Dvd.intro_left q heq⟩
    rintro rfl
    omega
  · rintro ⟨hs1, q, hq⟩
    rw [Nat.mul_comm] at hq
    have hq1 : 1 ≤ q := by
      rcases Nat.eq_zero_or_pos q with rfl | hpos
      · omega
      · exact hpos
    refine ⟨q, hq1, ?_, hq.symm⟩
    by_contra hlt
    -- otherwise the pieces before it would not reach the end of the file
    have hle := Nat.mul_le_mul_right s (show calculateTotalNumberOfFragments L s ≤ q - 1 by omega)
    have hmul := mul_eq_pred_mul_add hq1 s
    omega

/-- A last piece whose end leaves `size_t` is not cut off. -/
theorem position_of_not_fits (hL : 0 < L) (hL64 : L < 18446744073709551616) (hs : 0 < s)
    (hs64 : s < 18446744073709551616)
    (hwrap : 18446744073709551616 < calculateTotalNumberOfFragments L s * s) :
    calculateFragmentationPositionInfo (calculateTotalNumberOfFragments L s) s L =
      ⟨(calculateTotalNumberOfFragments L s - 1) * s, s⟩ := by
  obtain ⟨hpos, hlow, _⟩ := total_bounds hL hs
  have hmul := mul_eq_pred_mul_add hpos s
  have hstart : sizeSub (calculateTotalNumberOfFragments L s) 1 * s % 18446744073709551616 =
      (calculateTotalNumberOfFragments L s - 1) * s := by
    have hle := Nat.le_mul_of_pos_right (calculateTotalNumberOfFragments L s - 1) hs
    rw [sizeSub_of_le (show 1 ≤ _ from hpos) (by omega)]
    exact Nat.mod_eq_of_lt (by omega)
  have hend : sizeSub ((calculateTotalNumberOfFragments L s - 1) * s + s) 1 <
      (calculateTotalNumberOfFragments L s - 1) * s := by
    unfold sizeSub
    omega
  unfold calculateFragmentationPositionInfo
  simp only [hstart, FragmentationPositionInfo.mk.injEq, true_and]
  rw [if_neg (by omega), if_neg (by omega)]

/-! ## Tiling -/

/-- The number of pieces is computed, the two routines agree on every one of them, and the ranges
tile the file. -/
def FragmentsTile (fileSize fragmentSize : Nat) : Prop :=
  ∃ (total : Nat) (info : Nat → FragmentationPositionInfo),
    InDoubles.calculateTotalNumberOfFragments fileSize fragmentSize = some total ∧
      (∀ q, 1 ≤ q → q ≤ total →
        InDoubles.calculateFragmentationPositionInfo q fragmentSize fileSize = some (info q) ∧
          calculateFragmentPositionInfoEncoder q fragmentSize fileSize = info q) ∧
      Tiling fileSize fragmentSize total (fun q => (info q).startPosition)
        (fun q => (info q).actualFragmentSize)

/-- What tiles has the exact number of pieces. -/
theorem FragmentsTile.exact (h : FragmentsTile L s) (hL : 0 < L) (hs : 0 < s) :
    InDoubles.calculateTotalNumberOfFragments L s = some (calculateTotalNumberOfFragments L s) ∧
      (∀ q, 1 ≤ q → q ≤ calculateTotalNumberOfFragments L s →
        calculateFragmentPositionInfoEncoder q s L = calculateFragmentationPositionInfo q s L) ∧
      Tiling L s (calculateTotalNumberOfFragments L s)
        (fun q => (calculateFragmentationPositionInfo q s L).startPosition)
        (fun q => (calculateFragmentationPositionInfo q s L).actualFragmentSize) := by
  obtain ⟨N, info, htotal, hinfo, htiling⟩ := h
  have hN := InDoubles.total_pos htotal
  obtain ⟨hlow, hhigh⟩ := htiling.count hN
  obtain rfl := eq_total hL hs hlow hhigh
  have hsame : ∀ q, 1 ≤ q → q ≤ calculateTotalNumberOfFragments L s →
      info q = calculateFragmentationPositionInfo q s L := by
    intro q hq1 hq
    have hq' := (hinfo q hq1 hq).1
    rw [InDoubles.positionInfo_eq htotal] at hq'
    exact (Option.some.inj hq').symm
  refine ⟨htotal, fun q hq1 hq => ?_, htiling.congr hN (fun q hq1 hq => ?_) (fun q hq1 hq => ?_)⟩
  · rw [← hsame q hq1 hq]
    exact (hinfo q hq1 hq).2
  · rw [hsame q hq1 hq]
  · rw [hsame q hq1 hq]

/--
**When the pieces tile the file.** The rounding of the quotient has to keep the number of pieces,
as it does below `2 ^ 53` bytes; the end of the last piece has to be a `size_t`; and the file must
not be one byte short of a multiple of the piece, unless the pieces are single bytes.
-/
theorem fragmentsTile_iff (L s : Nat) (hL : 0 < L) (hL64 : L < 18446744073709551616) (hs : 0 < s)
    (hs64 : s < 18446744073709551616) :
    FragmentsTile L s ↔
      (L < 9007199254740992 ∨ QuotientFits L s) ∧ (L + s - 1) / s * s ≤ 18446744073709551616 ∧
        (s = 1 ∨ ¬s ∣ L + 1) := by
  obtain ⟨hpos, hlow, hhigh⟩ := total_bounds hL hs
  rw [← total_eq hL hs]
  constructor
  · intro h
    obtain ⟨htotal, hencoder, htiling⟩ := h.exact hL hs
    have hfit : calculateTotalNumberOfFragments L s * s ≤ 18446744073709551616 := by
      by_contra hwrap
      -- the last piece would reach behind the file
      have hlast := position_of_not_fits hL hL64 hs hs64 (by omega)
      have hmul := mul_eq_pred_mul_add hpos s
      refine absurd ((htiling.covers L).mpr ⟨_, hpos, le_rfl, ?_⟩) (lt_irrefl L)
      rw [hlast, Finset.mem_Ico]
      dsimp only
      omega
    refine ⟨.inr ((InDoubles.total_eq_iff hL hL64 hs).mp htotal), hfit, ?_⟩
    by_contra hshort
    rw [not_or, not_not] at hshort
    obtain ⟨q, hq1, hq, heq⟩ := (exists_short_piece_iff hL hs).mpr hshort
    have hfitq : q * s ≤ 18446744073709551616 := (Nat.mul_le_mul_right s hq).trans hfit
    exact (encoderPosition_eq_iff hL hL64 hs hq1 hq hfitq).mp (hencoder q hq1 hq) heq
  · rintro ⟨hround, hfit, hshort⟩
    have hquotient : QuotientFits L s := hround.elim (fun h => quotientFits_of_lt hL h hs) id
    have htotal := (InDoubles.total_eq_iff hL hL64 hs).mpr hquotient
    have hfitq : ∀ q, q ≤ calculateTotalNumberOfFragments L s → q * s ≤ 18446744073709551616 :=
      fun q hq => (Nat.mul_le_mul_right s hq).trans hfit
    refine ⟨_, fun q => calculateFragmentationPositionInfo q s L, htotal, fun q hq1 hq => ?_, ?_⟩
    · refine ⟨InDoubles.positionInfo_eq htotal, ?_⟩
      rw [encoderPosition_eq_iff hL hL64 hs hq1 hq (hfitq q hq)]
      intro heq
      have hboth := (exists_short_piece_iff hL hs).mp ⟨q, hq1, hq, heq⟩
      exact hshort.elim hboth.1 (fun hnot => hnot hboth.2)
    · refine (tiling_of_consecutive hs hpos hlow hhigh).congr hpos (fun q hq1 hq => ?_)
        (fun q hq1 hq => ?_)
      · exact congrArg (·.startPosition) (positionInfo_of_fits hL hL64 hs hq1 hq (hfitq q hq))
      · exact congrArg (·.actualFragmentSize)
          (positionInfo_of_fits hL hL64 hs hq1 hq (hfitq q hq))

/-- Ten bytes in pieces of four. -/
theorem fragmentsTile_ten : FragmentsTile 10 4 :=
  (fragmentsTile_iff 10 4 (by decide) (by decide) (by decide) (by decide)).mpr
    ⟨.inl (by decide), by decide, .inr (by decide)⟩

/-- Three bytes in pieces of two: the second piece is one byte long, and the routine of the encoder
says two. -/
theorem not_fragmentsTile_three :
    ¬ ∀ fileSize fragmentSize : Nat, 0 < fileSize → fileSize < 18446744073709551616 →
      0 < fragmentSize → fragmentSize < 18446744073709551616 →
        FragmentsTile fileSize fragmentSize := by
  intro h
  have htile := h 3 2 (by decide) (by decide) (by decide) (by decide)
  obtain ⟨_, hencoder, _⟩ := htile.exact (by decide) (by decide)
  exact absurd (hencoder 2 (by decide) (by decide)) (by decide)

end Encoders.Fragment
