import Encoders.Lib.Slice
import Mathlib.Algebra.BigOperators.Intervals
import Mathlib.Order.Interval.Finset.Nat

/-!
# Ranges of one length

Numbered ranges that cover an initial segment of the natural numbers without overlap, all of one
length but the last, which may be shorter. How many there are is decided by the segment and the
length: the lengths add up.
-/

namespace Encoders.Lib

open Finset

/-- The ranges `1` to `N` cover the numbers below `L`, with pieces of length `s`. -/
structure Tiling (L s N : ℕ) (start len : ℕ → ℕ) : Prop where
  disjoint : ∀ p q, 1 ≤ p → p < q → q ≤ N →
    Disjoint (Ico (start p) (start p + len p)) (Ico (start q) (start q + len q))
  covers : ∀ x, x < L ↔ ∃ q, 1 ≤ q ∧ q ≤ N ∧ x ∈ Ico (start q) (start q + len q)
  full : ∀ q, 1 ≤ q → q < N → len q = s
  last : 1 ≤ len N ∧ len N ≤ s

variable {L s N : ℕ} {start len : ℕ → ℕ}

/-- Only the ranges numbered `1` to `N` matter. -/
theorem Tiling.congr {start' len' : ℕ → ℕ} (h : Tiling L s N start len) (hN : 1 ≤ N)
    (hstart : ∀ q, 1 ≤ q → q ≤ N → start' q = start q)
    (hlen : ∀ q, 1 ≤ q → q ≤ N → len' q = len q) : Tiling L s N start' len' where
  disjoint p q hp hpq hq := by
    rw [hstart p hp (hpq.le.trans hq), hlen p hp (hpq.le.trans hq), hstart q (hp.trans hpq.le) hq,
      hlen q (hp.trans hpq.le) hq]
    exact h.disjoint p q hp hpq hq
  covers x := by
    rw [h.covers x]
    refine exists_congr (fun q => and_congr_right (fun hq1 => and_congr_right (fun hq => ?_)))
    rw [hstart q hq1 hq, hlen q hq1 hq]
  full q hq1 hq := by rw [hlen q hq1 hq.le, h.full q hq1 hq]
  last := by
    rw [hlen N hN le_rfl]
    exact h.last

/-- The lengths add up to the segment. -/
theorem Tiling.sum_len (h : Tiling L s N start len) : ∑ q ∈ Icc 1 N, len q = L := by
  have hunion : range L = (Icc 1 N).biUnion (fun q => Ico (start q) (start q + len q)) := by
    ext x
    rw [mem_range, h.covers x, mem_biUnion]
    constructor
    · rintro ⟨q, hq1, hq, hx⟩
      exact ⟨q, mem_Icc.mpr ⟨hq1, hq⟩, hx⟩
    · rintro ⟨q, hq, hx⟩
      exact ⟨q, (mem_Icc.mp hq).1, (mem_Icc.mp hq).2, hx⟩
  have hdisjoint : ∀ p ∈ Icc 1 N, ∀ q ∈ Icc 1 N, p ≠ q →
      Disjoint (Ico (start p) (start p + len p)) (Ico (start q) (start q + len q)) := by
    intro p hp q hq hne
    rw [mem_Icc] at hp hq
    rcases lt_or_gt_of_ne hne with hlt | hgt
    · exact h.disjoint p q hp.1 hlt hq.2
    · exact (h.disjoint q p hq.1 hgt hp.2).symm
  calc ∑ q ∈ Icc 1 N, len q
      = ∑ q ∈ Icc 1 N, (Ico (start q) (start q + len q)).card := by
        refine sum_congr rfl (fun q _ => ?_)
        rw [Nat.card_Ico, Nat.add_sub_cancel_left]
    _ = ((Icc 1 N).biUnion (fun q => Ico (start q) (start q + len q))).card :=
        (card_biUnion hdisjoint).symm
    _ = L := by rw [← hunion, card_range]

/-- **The number of pieces is the quotient, rounded up.** -/
theorem Tiling.count (h : Tiling L s N start len) (hN : 1 ≤ N) :
    (N - 1) * s < L ∧ L ≤ N * s := by
  obtain ⟨n, rfl⟩ : ∃ n, N = n + 1 := ⟨N - 1, by omega⟩
  have hsum := h.sum_len
  rw [sum_Icc_succ_top (by omega)] at hsum
  have hfull : ∑ q ∈ Icc 1 n, len q = n * s := by
    rw [sum_const_nat
        (fun q hq => h.full q (mem_Icc.mp hq).1 (Nat.lt_succ_of_le (mem_Icc.mp hq).2)),
      Nat.card_Icc, Nat.add_sub_cancel]
  have hlast := h.last
  rw [hfull] at hsum
  rw [Nat.add_sub_cancel, Nat.add_mul, Nat.one_mul]
  omega

/-- Pieces one after another, cut off at the end, are a tiling. -/
theorem tiling_of_consecutive (hs : 0 < s) (hN : 1 ≤ N) (hlow : (N - 1) * s < L)
    (hhigh : L ≤ N * s) :
    Tiling L s N (fun q => (q - 1) * s) (fun q => min s (L - (q - 1) * s)) := by
  refine ⟨fun p q hp hpq hq => ?_, fun x => ⟨fun hx => ?_, ?_⟩, fun q hq1 hq => ?_, ?_⟩
  · refine Finset.disjoint_left.mpr (fun x hxp hxq => ?_)
    rw [mem_Ico] at hxp hxq
    have hle : p * s ≤ (q - 1) * s := Nat.mul_le_mul_right s (by omega)
    have hps := mul_eq_pred_mul_add hp s
    omega
  · -- the piece that a position is in
    have hdiv := Nat.div_add_mod x s
    have hmod := Nat.mod_lt x hs
    rw [Nat.mul_comm] at hdiv
    have hq : x / s < N := (Nat.div_lt_iff_lt_mul hs).mpr (hx.trans_le hhigh)
    refine ⟨x / s + 1, Nat.le_add_left 1 _, hq, ?_⟩
    rw [mem_Ico]
    simp only [Nat.add_sub_cancel]
    omega
  · rintro ⟨q, hq1, hq, hx⟩
    rw [mem_Ico] at hx
    have hle : (q - 1) * s ≤ (N - 1) * s := Nat.mul_le_mul_right s (by omega)
    omega
  · have hle : q * s ≤ (N - 1) * s := Nat.mul_le_mul_right s (by omega)
    have hqs := mul_eq_pred_mul_add hq1 s
    show min s (L - (q - 1) * s) = s
    omega
  · have hNs := mul_eq_pred_mul_add hN s
    show 1 ≤ min s (L - (N - 1) * s) ∧ min s (L - (N - 1) * s) ≤ s
    omega

end Encoders.Lib
