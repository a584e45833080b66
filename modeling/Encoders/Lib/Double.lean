import Mathlib.Data.Int.Log
import Mathlib.Data.Rat.Floor
import Mathlib.Tactic.Linarith
import Mathlib.Tactic.FieldSimp
import Mathlib.Tactic.NormNum

/-!
# Rounding to doubles

A `double` has 53 significant bits, and the operations round to the nearest one, a tie to the
even one. Here a double is the rational number it stands for, and `toDouble` is the rounding.
Nothing is said of exponents out of range: the numbers this is used for, counts below `2 ^ 64`
and their quotients, do not come near.

The numbers between two powers of two that are doubles make a grid, and every natural number up
to `2 ^ 53` lies on the grid of whatever is not above it. So rounding never crosses such a
number, and it does not reach one that is further away than half a step.
-/

namespace Encoders.Lib

variable {x : ℚ}
variable {k : ℤ} {a n : ℕ}

/-! ## Rounding to whole numbers -/

/-- To the nearest whole number, a tie to the even one. -/
def roundHalfEven (x : ℚ) : ℤ :=
  if Int.fract x < 1 / 2 then ⌊x⌋
  else if 1 / 2 < Int.fract x then ⌊x⌋ + 1
  else if ⌊x⌋ % 2 = 0 then ⌊x⌋
  else ⌊x⌋ + 1

theorem roundHalfEven_cases (x : ℚ) :
    roundHalfEven x = ⌊x⌋ ∧ Int.fract x ≤ 1 / 2 ∨
      roundHalfEven x = ⌊x⌋ + 1 ∧ 1 / 2 ≤ Int.fract x := by
  unfold roundHalfEven
  split_ifs with hlow hhigh heven
  · exact .inl ⟨rfl, hlow.le⟩
  · exact .inr ⟨rfl, hhigh.le⟩
  · exact .inl ⟨rfl, not_lt.mp hhigh⟩
  · exact .inr ⟨rfl, not_lt.mp hlow⟩

/-- Rounding does not cross a whole number upwards. -/
theorem roundHalfEven_le (h : x ≤ k) : roundHalfEven x ≤ k := by
  rcases roundHalfEven_cases x with ⟨hround, -⟩ | ⟨hround, hfract⟩
  · rw [hround]
    exact_mod_cast (Int.floor_le x).trans h
  · rw [hround]
    have hsplit := Int.floor_add_fract x
    have hlt : (⌊x⌋ : ℚ) < k := by linarith
    exact_mod_cast Int.add_one_le_of_lt (by exact_mod_cast hlt)

/-- Nor downwards. -/
theorem le_roundHalfEven (h : (k : ℚ) ≤ x) : k ≤ roundHalfEven x := by
  have hfloor : k ≤ ⌊x⌋ := Int.le_floor.mpr h
  rcases roundHalfEven_cases x with ⟨hround, -⟩ | ⟨hround, -⟩
  · rwa [hround]
  · rw [hround]
    exact hfloor.trans (Int.le_add_one le_rfl)

/-- It does not go further than a half. -/
theorem lt_roundHalfEven (h : (k : ℚ) + 1 / 2 < x) : k < roundHalfEven x := by
  have hfloor : k ≤ ⌊x⌋ := Int.le_floor.mpr (by linarith)
  rcases roundHalfEven_cases x with ⟨hround, hfract⟩ | ⟨hround, -⟩
  · rw [hround]
    have hsplit := Int.floor_add_fract x
    have hlt : (k : ℚ) < ⌊x⌋ := by linarith
    exact_mod_cast hlt
  · rw [hround]
    exact Int.lt_add_one_of_le hfloor

/-- **The nearest whole number is half a step away at most.** -/
theorem abs_roundHalfEven_sub_le (x : ℚ) : |(roundHalfEven x : ℚ) - x| ≤ 1 / 2 := by
  have hsplit := Int.floor_add_fract x
  have hlow := Int.fract_nonneg x
  have hhigh := Int.fract_lt_one x
  rcases roundHalfEven_cases x with ⟨hround, hfract⟩ | ⟨hround, hfract⟩
  · rw [hround, abs_le]
    constructor <;> linarith
  · rw [hround, abs_le]
    push_cast
    constructor <;> linarith

/-! ## Rounding to 53 bits -/

/-- The distance of the doubles between two powers of two. -/
def ulp (x : ℚ) : ℚ := 2 ^ (Int.log 2 x - 52)

/-- The nearest double, for positive numbers and zero. -/
def toDouble (x : ℚ) : ℚ := roundHalfEven (x / ulp x) * ulp x

theorem ulp_pos (x : ℚ) : 0 < ulp x := zpow_pos (by norm_num) _

/-- A number on the grid is not crossed upwards. -/
theorem toDouble_le {y : ℚ} (hy : y = k * ulp x) (h : x ≤ y) : toDouble x ≤ y := by
  have hk : x / ulp x ≤ k := (div_le_iff₀ (ulp_pos x)).mpr (hy ▸ h)
  have hround : ((roundHalfEven (x / ulp x) : ℤ) : ℚ) ≤ k := by exact_mod_cast roundHalfEven_le hk
  rw [hy]
  exact mul_le_mul_of_nonneg_right hround (ulp_pos x).le

/-- Nor downwards. -/
theorem le_toDouble {y : ℚ} (hy : y = k * ulp x) (h : y ≤ x) : y ≤ toDouble x := by
  have hk : (k : ℚ) ≤ x / ulp x := (le_div_iff₀ (ulp_pos x)).mpr (hy ▸ h)
  have hround : (k : ℚ) ≤ (roundHalfEven (x / ulp x) : ℤ) := by exact_mod_cast le_roundHalfEven hk
  rw [hy]
  exact mul_le_mul_of_nonneg_right hround (ulp_pos x).le

/-- It is not reached from further away than half a step. -/
theorem lt_toDouble {y : ℚ} (hy : y = k * ulp x) (h : y + ulp x / 2 < x) : y < toDouble x := by
  have hpos := ulp_pos x
  have hk : (k : ℚ) + 1 / 2 < x / ulp x := by
    rw [lt_div_iff₀ hpos, add_mul, ← hy]
    linarith
  have hround : (k : ℚ) < (roundHalfEven (x / ulp x) : ℤ) := by exact_mod_cast lt_roundHalfEven hk
  rw [hy]
  exact mul_lt_mul_of_pos_right hround hpos

/-- Every natural number is on the grid of a number below `2 ^ 53`. -/
theorem natCast_on_grid (h : Int.log 2 x ≤ 52) (n : ℕ) : ∃ k : ℤ, (n : ℚ) = k * ulp x := by
  obtain ⟨d, hd⟩ := Int.eq_ofNat_of_zero_le (show 0 ≤ 52 - Int.log 2 x by omega)
  refine ⟨n * 2 ^ d, ?_⟩
  have hulp : ulp x = ((2 : ℚ) ^ d)⁻¹ := by
    unfold ulp
    rw [show Int.log 2 x - 52 = -(d : ℤ) by omega, zpow_neg, zpow_natCast]
  rw [hulp]
  push_cast
  field_simp

theorem log_le_52 (hpos : 0 < x) (h : x < 2 ^ 53) : Int.log 2 x ≤ 52 := by
  have hlog : Int.log 2 x < 53 :=
    (Int.lt_zpow_iff_log_lt (by norm_num) hpos).mp (by exact_mod_cast h)
  omega

/-- **Whole numbers below `2 ^ 53` are doubles.** -/
theorem toDouble_natCast (hpos : 0 < n) (h : n < 2 ^ 53) : toDouble n = n := by
  have hlog : Int.log 2 (n : ℚ) ≤ 52 := log_le_52 (by exact_mod_cast hpos) (by exact_mod_cast h)
  obtain ⟨k, hk⟩ := natCast_on_grid hlog n
  exact le_antisymm (toDouble_le hk le_rfl) (le_toDouble hk le_rfl)

/-- The power of two below a number is `2 ^ 52` steps. -/
theorem ulp_mul (x : ℚ) : 2 ^ 52 * ulp x = (2 : ℚ) ^ Int.log 2 x := by
  unfold ulp
  rw [← zpow_natCast, ← zpow_add₀ (by norm_num)]
  congr 1
  omega

/-- A step is small beside the number. -/
theorem ulp_le (h : 0 < x) : 2 ^ 52 * ulp x ≤ x := by
  rw [ulp_mul]
  exact_mod_cast Int.zpow_log_le_self one_lt_two h

/-- Rounding keeps a number positive. -/
theorem toDouble_pos (h : 0 < x) : 0 < toDouble x := by
  have hpos := ulp_pos x
  have hsmall := ulp_le h
  exact lt_toDouble (k := 0) (by simp) (by linarith)

@[simp] theorem toDouble_zero : toDouble 0 = 0 := by
  unfold toDouble
  rw [zero_div, show roundHalfEven 0 = 0 from by decide +kernel, Int.cast_zero, zero_mul]

theorem toDouble_nonneg (h : 0 ≤ x) : 0 ≤ toDouble x := by
  rcases h.eq_or_lt with rfl | hpos
  · simp
  · exact (toDouble_pos hpos).le

/-- **Rounding moves a number by one part in `2 ^ 53` at most.** -/
theorem abs_toDouble_sub_le (h : 0 ≤ x) : |toDouble x - x| ≤ x / 2 ^ 53 := by
  rcases h.eq_or_lt with rfl | hpos
  · simp
  · have hulp := ulp_pos x
    -- half a step on the grid, scaled back
    have hstep : |toDouble x - x| ≤ 1 / 2 * ulp x := by
      have hscaled : toDouble x - x = (roundHalfEven (x / ulp x) - x / ulp x) * ulp x := by
        unfold toDouble
        rw [sub_mul, div_mul_cancel₀ x hulp.ne']
      rw [hscaled, abs_mul, abs_of_pos hulp]
      exact mul_le_mul_of_nonneg_right (abs_roundHalfEven_sub_le _) hulp.le
    have hsmall := ulp_le hpos
    rw [le_div_iff₀ (by norm_num)]
    linarith

/-- A number that is at least `2 ^ 53` stays so. -/
theorem toDouble_ge (h : 2 ^ 53 ≤ x) : 2 ^ 53 ≤ toDouble x := by
  have hpos : (0 : ℚ) < x := lt_of_lt_of_le (by norm_num) h
  have hlog : 53 ≤ Int.log 2 x :=
    (Int.zpow_le_iff_le_log one_lt_two hpos).mp (by exact_mod_cast h)
  -- the power of two below it is a double
  have hgrid : (2 : ℚ) ^ Int.log 2 x = ((2 ^ 52 : ℤ) : ℚ) * ulp x := by
    rw [← ulp_mul]
    norm_num
  have hle : (2 : ℚ) ^ Int.log 2 x ≤ x := by exact_mod_cast Int.zpow_log_le_self one_lt_two hpos
  have hlow : (2 : ℚ) ^ (53 : ℤ) ≤ 2 ^ Int.log 2 x := zpow_le_zpow_right₀ (by norm_num) hlog
  exact (by exact_mod_cast hlow : (2 : ℚ) ^ 53 ≤ 2 ^ Int.log 2 x).trans (le_toDouble hgrid hle)

/-- The first whole number that is followed by a step of two. -/
theorem log_two_pow_53 (hlow : 2 ^ 53 ≤ x) (hhigh : x < 2 ^ 54) : Int.log 2 x = 53 := by
  have hpos : (0 : ℚ) < x := lt_of_lt_of_le (by norm_num) hlow
  have hge := (Int.zpow_le_iff_le_log (b := 2) one_lt_two hpos (x := 53)).mp
    (by exact_mod_cast hlow)
  have hlt := (Int.lt_zpow_iff_log_lt (b := 2) one_lt_two hpos (x := 54)).mp
    (by exact_mod_cast hhigh)
  omega

theorem toDouble_two_pow_53 : toDouble (2 ^ 53) = 2 ^ 53 := by
  refine le_antisymm (toDouble_le (k := 2 ^ 52) ?_ le_rfl) (toDouble_ge le_rfl)
  unfold ulp
  rw [log_two_pow_53 le_rfl (by norm_num)]
  norm_num

/-- **Counting in doubles stops at `2 ^ 53`**: one more is a tie, and rounds to the even one. -/
theorem toDouble_two_pow_53_add_one : toDouble (2 ^ 53 + 1) = 2 ^ 53 := by
  have hulp : ulp (2 ^ 53 + 1) = 2 := by
    unfold ulp
    rw [log_two_pow_53 (by norm_num) (by norm_num)]
    norm_num
  have hround : roundHalfEven ((2 ^ 53 + 1) / 2) = 2 ^ 52 := by
    have hfloor : ⌊((2 : ℚ) ^ 53 + 1) / 2⌋ = 2 ^ 52 := by
      rw [Int.floor_eq_iff]
      norm_num
    have hfract : Int.fract (((2 : ℚ) ^ 53 + 1) / 2) = 1 / 2 := by
      rw [Int.fract, hfloor]
      norm_num
    unfold roundHalfEven
    rw [hfract, hfloor, if_neg (lt_irrefl _), if_neg (lt_irrefl _), if_pos (by norm_num)]
  unfold toDouble
  rw [hulp, hround]
  norm_num

/-- Counting by one in doubles, from `n`. -/
theorem toDouble_min_add_one (n : ℕ) :
    toDouble (((min n (2 ^ 53) : ℕ) : ℚ) + 1) = ((min (n + 1) (2 ^ 53) : ℕ) : ℚ) := by
  rcases lt_trichotomy (n + 1) (2 ^ 53) with hlt | heq | hgt
  · rw [min_eq_left (by omega), min_eq_left (by omega)]
    exact_mod_cast toDouble_natCast (Nat.succ_pos n) hlt
  · rw [min_eq_left (by omega), min_eq_left heq.le]
    have hcast : ((n : ℚ) + 1) = 2 ^ 53 := by exact_mod_cast heq
    rw [hcast, toDouble_two_pow_53, heq]
    norm_num
  · rw [min_eq_right (by omega), min_eq_right (by omega)]
    push_cast
    exact toDouble_two_pow_53_add_one

/-- The nearest double of any number. -/
def nearestDouble (x : ℚ) : ℚ := if x < 0 then -toDouble (-x) else toDouble x

theorem nearestDouble_of_nonneg (h : 0 ≤ x) : nearestDouble x = toDouble x :=
  if_neg (not_lt.mpr h)

@[simp] theorem nearestDouble_zero : nearestDouble 0 = 0 := by
  rw [nearestDouble_of_nonneg le_rfl, toDouble_zero]

/-- **Quotients with one divisor below `2 ^ 52` keep their order.** -/
theorem toDouble_div_lt {b : ℕ} (hn : n < 2 ^ 52) (hb : b ≤ n) (h : a < b) :
    toDouble ((a : ℚ) / n) < toDouble ((b : ℚ) / n) := by
  have hnq : (0 : ℚ) < n := by exact_mod_cast (by omega : 0 < n)
  have hn52 : (n : ℚ) < 2 ^ 52 := by exact_mod_cast hn
  -- they are one part of the divisor apart, and none of them is above one
  have hpart : (a : ℚ) / n + 1 / n ≤ b / n := by
    rw [← add_div, div_le_div_iff_of_pos_right hnq]
    exact_mod_cast h
  have hone : (b : ℚ) / n ≤ 1 := (div_le_one hnq).mpr (by exact_mod_cast hb)
  have hapart : 1 / 2 ^ 52 < 1 / (n : ℚ) := one_div_lt_one_div_of_lt hnq hn52
  have hlow := abs_le.mp (abs_toDouble_sub_le (div_nonneg (Nat.cast_nonneg a) hnq.le))
  have hhigh := abs_le.mp (abs_toDouble_sub_le (div_nonneg (Nat.cast_nonneg b) hnq.le))
  linarith [hlow.2, hhigh.1]

/--
**The quotient of two counts, rounded up, is not spoilt by the rounding of the quotient.** What is
above a whole number is above it by one part of the divisor at least, and that is more than half a
step.
-/
theorem ceil_toDouble_div {b : ℕ} (ha : 0 < a) (ha53 : a < 2 ^ 53) (hb : 0 < b) :
    ⌈toDouble ((a : ℚ) / b)⌉₊ = ⌈(a : ℚ) / b⌉₊ := by
  have haq : (0 : ℚ) < a := by exact_mod_cast ha
  have hbq : (0 : ℚ) < b := by exact_mod_cast hb
  have hx : 0 < (a : ℚ) / b := div_pos haq hbq
  have hxa : (a : ℚ) / b ≤ a := div_le_self haq.le (by exact_mod_cast hb)
  have hlog := log_le_52 hx (hxa.trans_lt (by exact_mod_cast ha53))
  obtain ⟨n, hn⟩ : ∃ n, ⌈(a : ℚ) / b⌉₊ = n + 1 :=
    Nat.exists_eq_succ_of_ne_zero (Nat.ceil_pos.mpr hx).ne'
  obtain ⟨hlow, hhigh⟩ := (Nat.ceil_eq_iff n.succ_ne_zero).mp hn
  rw [hn, Nat.ceil_eq_iff n.succ_ne_zero]
  rw [Nat.succ_sub_one] at hlow ⊢
  obtain ⟨k, hk⟩ := natCast_on_grid hlog n
  obtain ⟨l, hl⟩ := natCast_on_grid hlog (n + 1)
  refine ⟨lt_toDouble hk ?_, toDouble_le hl hhigh⟩
  have hpart : (n : ℚ) + 1 / b ≤ a / b := by
    rw [lt_div_iff₀ hbq] at hlow
    have hnat : n * b + 1 ≤ a := by exact_mod_cast hlow
    have hsum : (n : ℚ) + 1 / b = (n * b + 1) / b := by field_simp
    rw [hsum, div_le_div_iff_of_pos_right hbq]
    exact_mod_cast hnat
  have hstep : ulp ((a : ℚ) / b) / 2 < 1 / b := by
    have hsmall := ulp_le hx
    rw [le_div_iff₀ hbq] at hsmall
    rw [lt_div_iff₀ hbq]
    have ha53' : (a : ℚ) < 2 ^ 53 := by exact_mod_cast ha53
    linarith
  linarith

/-! ## Percentages -/

/-- A quotient as a percentage, rounded after the division and after the multiplication. -/
def percent (a n : ℕ) : ℚ := toDouble (toDouble ((a : ℚ) / n) * 100)

/-- Rounding twice does not bring a quotient to a whole percentage, nor past it. -/
theorem le_percent_of_ne {t : ℤ} (hn : n < 2 ^ 31) (ha : a ≤ n) (hne : (a : ℚ) / n * 100 ≠ t) :
    (t : ℚ) ≤ percent a n ↔ (t : ℚ) ≤ (a : ℚ) / n * 100 := by
  rcases Nat.eq_zero_or_pos n with rfl | hpos
  · simp [percent]
  · have hnq : (0 : ℚ) < n := by exact_mod_cast hpos
    have hx : (0 : ℚ) ≤ (a : ℚ) / n := div_nonneg (Nat.cast_nonneg a) hnq.le
    have hone : (a : ℚ) / n ≤ 1 := (div_le_one hnq).mpr (by exact_mod_cast ha)
    -- the two roundings together
    have hfirst := abs_le.mp (abs_toDouble_sub_le hx)
    have hy : 0 ≤ toDouble ((a : ℚ) / n) * 100 := mul_nonneg (toDouble_nonneg hx) (by norm_num)
    have hsecond := abs_le.mp (abs_toDouble_sub_le hy)
    -- a percentage that is not whole is one part of the divisor away from any that is
    have happart : 1 / 2 ^ 31 < 1 / (n : ℚ) :=
      one_div_lt_one_div_of_lt hnq (by exact_mod_cast hn)
    have hscaled : (a : ℚ) / n * 100 - t = ((a * 100 - t * n : ℤ) : ℚ) * (1 / n) := by
      push_cast
      field_simp
    have hpart : (0 : ℚ) < 1 / n := div_pos one_pos hnq
    unfold percent
    rcases lt_or_gt_of_ne (show (a * 100 - t * n : ℤ) ≠ 0 by
      intro hzero
      rw [hzero] at hscaled
      exact hne (by simpa [sub_eq_zero] using hscaled)) with hless | hmore
    · have hgap : ((a * 100 - t * n : ℤ) : ℚ) ≤ -1 := by exact_mod_cast (by omega)
      have hbelow := mul_le_mul_of_nonneg_right hgap hpart.le
      constructor
      · intro h
        linarith [hfirst.2, hsecond.2]
      · intro h
        linarith
    · have hgap : (1 : ℚ) ≤ ((a * 100 - t * n : ℤ) : ℚ) := by exact_mod_cast (by omega)
      have habove := mul_le_mul_of_nonneg_right hgap hpart.le
      constructor
      · intro _
        linarith
      · intro _
        linarith [hfirst.1, hsecond.1]

/-- The percentages that a quotient of just as much falls short of. -/
def FallsShort (t : ℤ) : Prop := t = 29 ∨ t = 57 ∨ t = 58

instance (t : ℤ) : Decidable (FallsShort t) := inferInstanceAs (Decidable (_ ∨ _))

theorem le_hundredths : ∀ t : Fin 101,
    ((t.val : ℤ) : ℚ) ≤ toDouble (toDouble (((t.val : ℤ) : ℚ) / 100) * 100) ↔
      ¬ FallsShort t.val := by
  decide +kernel

/-- **What a rounded percentage reaches**: all that the quotient reaches, but for three numbers. -/
theorem le_percent_iff {t : ℤ} (hn : n < 2 ^ 31) (ha : a ≤ n) :
    (t : ℚ) ≤ percent a n ↔
      (t : ℚ) ≤ (a : ℚ) / n * 100 ∧ ((a : ℚ) / n * 100 = t → ¬ FallsShort t) := by
  by_cases heq : (a : ℚ) / n * 100 = t
  · -- a whole percentage, so one of a hundred and one
    have hlow : (0 : ℚ) ≤ t := by
      rw [← heq]
      positivity
    have hhigh : (t : ℚ) ≤ 100 := by
      rcases Nat.eq_zero_or_pos n with rfl | hpos
      · rw [← heq]
        simp
      · have hone : (a : ℚ) / n ≤ 1 :=
          (div_le_one (by exact_mod_cast hpos)).mpr (by exact_mod_cast ha)
        linarith
    obtain ⟨k, rfl⟩ := Int.eq_ofNat_of_zero_le (show 0 ≤ t by exact_mod_cast hlow)
    have hk : k < 101 := by
      have hle : (k : ℤ) ≤ 100 := by exact_mod_cast hhigh
      omega
    have hquot : (a : ℚ) / n = ((k : ℤ) : ℚ) / 100 := by
      rw [← heq]
      ring
    unfold percent
    rw [hquot, le_hundredths ⟨k, hk⟩]
    simp
  · rw [le_percent_of_ne hn ha heq]
    simp [heq]

end Encoders.Lib
