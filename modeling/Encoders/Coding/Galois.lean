import Mathlib.Algebra.Field.Defs
import Mathlib.Algebra.Field.Basic
import Mathlib.Logic.Function.Iterate
import Mathlib.Order.Interval.Finset.Nat
import Mathlib.Tactic.WLOG

/-!
# Arithmetic of GF(256) by logarithm tables

`networkcoding/galois.h` multiplies and divides through two tables that `Init`
fills by doubling from one, reducing by the polynomial `0435` (octal). Addition
and subtraction are exclusive or.

The tables are embedded as `Init` writes them. The loop runs through the powers of
two in the field; that these are all the non-zero bytes, each met once, is what
makes the tables inverse to each other. Multiplication by a power of two is then
iterated doubling, which is linear, and that gives distributivity. The result is
a `Field`, so that the coder above can be read as linear algebra.
-/

namespace Encoders.Coding

/-! ## The tables -/

/-- `b = b * 2; if (b & GF) b = (b ^ PP) & (GF - 1);` -/
def double (b : Nat) : Nat :=
  if (b * 2) &&& 256 ≠ 0 then ((b * 2) ^^^ 0o435) &&& 255 else b * 2

/-- `Log` and `ALog`. -/
structure Tables where
  log : List Nat
  alog : List Nat

/-- The loop that writes both tables; `rounds` are left, `j` and `b` as in the source. -/
def fillLoop : Nat → Nat → Nat → Tables → Tables
  | 0, _, _, t => t
  | rounds + 1, j, b, t => fillLoop rounds (j + 1) (double b) ⟨t.log.set b j, t.alog.set j b⟩

/-- The loop that repeats `ALog`, so that sums of two logarithms need no reduction. -/
def repeatLoop : Nat → Nat → List Nat → List Nat
  | 0, _, alog => alog
  | rounds + 1, j, alog => repeatLoop rounds (j + 1) (alog.set j (alog.getD (j % 255) 0))

/-- The tables after the first two loops of `Init()`. -/
def filled : Tables := fillLoop 255 0 1 ⟨List.replicate 256 255, List.replicate 512 0⟩

/-- `ALog` after the third loop. -/
def repeated : List Nat := repeatLoop 254 255 filled.alog

/-- `Init()` -/
def init : Tables := ⟨filled.log, repeated.set 509 (repeated.getD 254 0)⟩

/-- An `unsigned char`, as an element of the field. -/
def Symbol : Type := UInt8

instance : DecidableEq Symbol := inferInstanceAs (DecidableEq UInt8)

namespace Symbol

/-- The value of the byte. -/
def toNat (a : Symbol) : Nat := UInt8.toNat a

/-- The byte of a value. -/
def ofNat (n : Nat) : Symbol := UInt8.ofNat n

/-- `Add` and `Sub` -/
def xor (a b : Symbol) : Symbol := UInt8.xor a b

/-- `Mul` -/
def mul (a b : Symbol) : Symbol :=
  if a.toNat = 0 ∨ b.toNat = 0 then ofNat 0
  else ofNat (init.alog.getD (init.log.getD a.toNat 0 + init.log.getD b.toNat 0) 0)

/-- `Div`, which gives zero for a zero divisor. -/
def div (a b : Symbol) : Symbol :=
  if a.toNat = 0 ∨ b.toNat = 0 then ofNat 0
  else ofNat (init.alog.getD (init.log.getD a.toNat 0 + 255 - init.log.getD b.toNat 0) 0)

end Symbol

variable {i : Nat}

/-! ## Powers of two -/

/-- The `i`-th power of two in the field. -/
def exp (i : Nat) : Nat := double^[i] 1

/-- The values `b` takes in the filling loop. -/
def powers : Nat → Nat → List Nat
  | 0, _ => []
  | rounds + 1, b => b :: powers rounds (double b)

theorem powers_get : ∀ (rounds b i : Nat), i < rounds → (powers rounds b)[i]? = some (double^[i] b)
  | 0, _, _, h => absurd h (Nat.not_lt_zero _)
  | _ + 1, _, 0, _ => rfl
  | rounds + 1, b, i + 1, h => by
      rw [powers, List.getElem?_cons_succ, powers_get rounds (double b) i (by omega),
        Function.iterate_succ_apply]

theorem exp_succ (i : Nat) : exp (i + 1) = double (exp i) :=
  Function.iterate_succ_apply' double i 1

theorem exp_pos_lt (i : Nat) : 0 < exp i ∧ exp i < 256 := by
  have hstep : ∀ b < 256, 0 < b → 0 < double b ∧ double b < 256 := by
    decide +kernel
  induction i with
  | zero => decide
  | succ i ih => rw [exp_succ]; exact hstep _ ih.2 ih.1

/-- The powers repeat after 255 steps. -/
theorem exp_add_255 (i : Nat) : exp (i + 255) = exp i := by
  have h255 : double^[255] 1 = 1 := by decide +kernel
  rw [exp, Function.iterate_add_apply, h255, exp]

theorem exp_mod (i : Nat) : exp (i % 255) = exp i := by
  have hmul : ∀ q, exp (i % 255 + 255 * q) = exp (i % 255) := by
    intro q
    induction q with
    | zero => rfl
    | succ q ih =>
        rw [show i % 255 + 255 * (q + 1) = i % 255 + 255 * q + 255 by omega, exp_add_255, ih]
  rw [← hmul (i / 255), Nat.mod_add_div]

/-- Below 255 no power but the first is one. -/
theorem exp_ne_one (h0 : 0 < i) (hi : i < 255) : exp i ≠ 1 := by
  have hone : 1 ∉ powers 254 2 := by decide +kernel
  obtain ⟨k, rfl⟩ := Nat.exists_eq_succ_of_ne_zero h0.ne'
  intro h
  refine hone (List.mem_iff_getElem?.mpr ⟨k, ?_⟩)
  rw [powers_get _ _ _ (by omega)]
  exact congrArg some h

/-- Below 255 no power repeats. -/
theorem exp_injOn {j : Nat} (hi : i < 255) (hj : j < 255) (h : exp i = exp j) : i = j := by
  wlog hle : i ≤ j generalizing i j
  · exact (this hj hi h.symm (by omega)).symm
  -- with as many doublings as make one of the greater, one is made of the lesser
  by_contra hne
  have hup : exp (255 - j + i) = exp (255 - j + j) := by
    rw [exp, exp, Function.iterate_add_apply, Function.iterate_add_apply]
    exact congrArg _ h
  rw [Nat.sub_add_cancel hj.le, ← Nat.zero_add 255, exp_add_255] at hup
  exact exp_ne_one (by omega) (by omega) hup

/-- Every non-zero byte is a power of two: there are as many powers as bytes. -/
theorem exists_exp {a : Nat} (h0 : a ≠ 0) (ha : a < 256) : ∃ i < 255, exp i = a := by
  have hsurj : Set.SurjOn exp (Finset.range 255) (Finset.Ioo 0 256) := by
    refine Finset.surjOn_of_injOn_of_card_le exp ?_ ?_ (by simp)
    · intro i _
      exact Finset.mem_coe.mpr (Finset.mem_Ioo.mpr (exp_pos_lt i))
    · intro i hi j hj
      exact exp_injOn (Finset.mem_range.mp hi) (Finset.mem_range.mp hj)
  obtain ⟨i, hi, heq⟩ := hsurj (Finset.mem_coe.mpr
    (Finset.mem_Ioo.mpr ⟨Nat.pos_of_ne_zero h0, ha⟩))
  exact ⟨i, Finset.mem_range.mp hi, heq⟩

/-! ## What `Init` leaves in the tables -/

theorem fillLoop_spec : ∀ (rounds j : Nat) (t : Tables), j + rounds ≤ 255 →
    t.log.length = 256 → 255 ≤ t.alog.length →
    (fillLoop rounds j (exp j) t).alog.length = t.alog.length ∧
      (∀ i, j ≤ i → i < j + rounds →
        (fillLoop rounds j (exp j) t).log.getD (exp i) 0 = i ∧
        (fillLoop rounds j (exp j) t).alog.getD i 0 = exp i) ∧
      (∀ i < j, (fillLoop rounds j (exp j) t).log.getD (exp i) 0 = t.log.getD (exp i) 0 ∧
        (fillLoop rounds j (exp j) t).alog.getD i 0 = t.alog.getD i 0)
  | 0, j, t, _, _, _ => ⟨rfl, fun i h1 h2 => by omega, fun i _ => ⟨rfl, rfl⟩⟩
  | rounds + 1, j, t, hj, hlog, halog => by
      obtain ⟨hlen, hnew, hold⟩ := fillLoop_spec rounds (j + 1)
        ⟨t.log.set (exp j) j, t.alog.set j (exp j)⟩ (by omega)
        (by rw [List.length_set]; exact hlog) (by rw [List.length_set]; exact halog)
      rw [fillLoop, ← exp_succ]
      refine ⟨by rw [hlen, List.length_set], ?_, ?_⟩
      · intro i h1 h2
        rcases Nat.lt_or_eq_of_le h1 with h | rfl
        · exact hnew i h (by omega)
        · -- the entry written in this round survives the rest
          obtain ⟨hl, ha⟩ := hold j (Nat.lt_succ_self j)
          rw [hl, ha]
          have hb := (exp_pos_lt j).2
          simp only [List.getD_eq_getElem?_getD]
          rw [List.getElem?_set_self (by omega), List.getElem?_set_self (by omega)]
          exact ⟨rfl, rfl⟩
      · intro i hi
        obtain ⟨hl, ha⟩ := hold i (by omega)
        rw [hl, ha]
        have hne : exp j ≠ exp i := fun h => by
          have := exp_injOn (by omega) (by omega) h
          omega
        simp only [List.getD_eq_getElem?_getD]
        rw [List.getElem?_set_ne hne, List.getElem?_set_ne (by omega)]
        exact ⟨rfl, rfl⟩

theorem repeatLoop_spec : ∀ (rounds j : Nat) (alog : List Nat), 255 ≤ j → j + rounds ≤ alog.length →
    (∀ i < j, alog.getD i 0 = exp i) →
    (repeatLoop rounds j alog).length = alog.length ∧
      ∀ i < j + rounds, (repeatLoop rounds j alog).getD i 0 = exp i
  | 0, _, _, _, _, h => ⟨rfl, h⟩
  | rounds + 1, j, alog, hj, hlen, h => by
      obtain ⟨hl, hrest⟩ := repeatLoop_spec rounds (j + 1) (alog.set j (alog.getD (j % 255) 0))
        (by omega) (by rw [List.length_set]; omega) (by
          intro i hi
          rw [List.getD_eq_getElem?_getD]
          by_cases hij : j = i
          · subst hij
            rw [List.getElem?_set_self (by omega), Option.getD_some, h _ (by omega), exp_mod]
          · rw [List.getElem?_set_ne hij, ← List.getD_eq_getElem?_getD, h i (by omega)])
      rw [repeatLoop]
      exact ⟨by rw [hl, List.length_set], fun i hi => hrest i (by omega)⟩

theorem filled_spec : filled.alog.length = 512 ∧
    ∀ i < 255, filled.log.getD (exp i) 0 = i ∧ filled.alog.getD i 0 = exp i := by
  obtain ⟨hlen, hfill, _⟩ := fillLoop_spec 255 0 ⟨List.replicate 256 255, List.replicate 512 0⟩
    (by omega) (by simp only [List.length_replicate]) (by simp only [List.length_replicate]; omega)
  simp only [List.length_replicate] at hlen
  rw [show exp 0 = 1 from rfl] at hlen hfill
  rw [filled]
  exact ⟨hlen, fun i hi => hfill i (Nat.zero_le i) (by omega)⟩

theorem repeated_spec : repeated.length = 512 ∧ ∀ i < 509, repeated.getD i 0 = exp i := by
  obtain ⟨hlen, hfill⟩ := filled_spec
  obtain ⟨hlen', hrep⟩ := repeatLoop_spec 254 255 filled.alog (le_refl 255) (by omega)
    (fun i hi => (hfill i hi).2)
  rw [repeated]
  exact ⟨by rw [hlen', hlen], fun i hi => hrep i (by omega)⟩

/-- The logarithm table inverts the powers. -/
theorem init_log (hi : i < 255) : init.log.getD (exp i) 0 = i := by
  have hlog : init.log = filled.log := by rw [init]
  rw [hlog, (filled_spec.2 i hi).1]

/-- The antilogarithm table holds the powers, for every index the operations use. -/
theorem init_alog (hi : i < 510) : init.alog.getD i 0 = exp i := by
  obtain ⟨hlen, hrep⟩ := repeated_spec
  have halog : init.alog = repeated.set 509 (repeated.getD 254 0) := by rw [init]
  rw [halog]
  simp only [List.getD_eq_getElem?_getD]
  by_cases h : 509 = i
  · subst h
    rw [List.getElem?_set_self (by omega), Option.getD_some, ← List.getD_eq_getElem?_getD,
      hrep 254 (by omega), show 254 = 509 % 255 from rfl, exp_mod]
  · rw [List.getElem?_set_ne h, ← List.getD_eq_getElem?_getD, hrep i (by omega)]

/-! ## The field -/

namespace Symbol

theorem toNat_lt (a : Symbol) : a.toNat < 256 := UInt8.toNat_lt a

theorem toNat_inj {a b : Symbol} : a.toNat = b.toNat ↔ a = b := UInt8.toNat_inj

theorem toNat_ofNat {n : Nat} (h : n < 256) : (ofNat n).toNat = n := by
  show (UInt8.ofNat n).toNat = n
  rw [UInt8.toNat_ofNat']
  exact Nat.mod_eq_of_lt h

/-- The `i`-th power of two as a symbol. -/
def pow2 (i : Nat) : Symbol := ofNat (exp i)

theorem toNat_pow2 (i : Nat) : (pow2 i).toNat = exp i := toNat_ofNat (exp_pos_lt i).2

theorem exists_pow2 {a : Symbol} (h : a.toNat ≠ 0) : ∃ i < 255, a = pow2 i := by
  obtain ⟨i, hi, he⟩ := exists_exp h a.toNat_lt
  exact ⟨i, hi, toNat_inj.mp (by rw [toNat_pow2, he])⟩

theorem pow2_mod (i : Nat) : pow2 (i % 255) = pow2 i := by rw [pow2, exp_mod, pow2]

theorem mul_pow2 {i j : Nat} (hi : i < 255) (hj : j < 255) :
    mul (pow2 i) (pow2 j) = pow2 (i + j) := by
  have h1 := (exp_pos_lt i).1
  have h2 := (exp_pos_lt j).1
  rw [mul, toNat_pow2, toNat_pow2, if_neg (by omega), init_log hi, init_log hj,
    init_alog (by omega), pow2]

theorem div_pow2 {i j : Nat} (hi : i < 255) (hj : j < 255) :
    div (pow2 i) (pow2 j) = pow2 (i + 255 - j) := by
  have h1 := (exp_pos_lt i).1
  have h2 := (exp_pos_lt j).1
  rw [div, toNat_pow2, toNat_pow2, if_neg (by omega), init_log hi, init_log hj,
    init_alog (by omega), pow2]

/-- Doubling on bytes: shift, and fold the bit that falls out back in. -/
def twice (a : BitVec 8) : BitVec 8 := a <<< 1 ^^^ if a.msb then 0x1D#8 else 0#8

theorem twice_xor (a b : BitVec 8) : twice (a ^^^ b) = twice a ^^^ twice b := by
  rw [twice, twice, twice, BitVec.shiftLeft_xor_distrib, BitVec.msb_xor]
  cases a.msb with
  | false => simp [BitVec.xor_assoc]
  | true =>
      cases b.msb with
      | false =>
          simp only [Bool.xor_false, if_true, Bool.false_eq_true, if_false, BitVec.xor_zero,
            BitVec.xor_assoc, BitVec.xor_comm (0x1D#8)]
      | true =>
          simp only [Bool.xor_true, Bool.not_true, Bool.false_eq_true, if_false, if_true,
            BitVec.xor_zero]
          rw [BitVec.xor_assoc, ← BitVec.xor_assoc (0x1D#8), BitVec.xor_comm (0x1D#8),
            BitVec.xor_assoc (b <<< 1), BitVec.xor_self, BitVec.xor_zero]

theorem toNat_twice (a : BitVec 8) : (twice a).toNat = double a.toNat := by
  have hall : ∀ n < 256, (twice (BitVec.ofNat 8 n)).toNat = double n := by decide +kernel
  rw [← hall a.toNat a.isLt, BitVec.ofNat_toNat, BitVec.setWidth_eq]

theorem toNat_iterate_twice (i : Nat) (a : BitVec 8) :
    (twice^[i] a).toNat = double^[i] a.toNat := by
  induction i with
  | zero => rfl
  | succ i ih => rw [Function.iterate_succ_apply', Function.iterate_succ_apply', toNat_twice, ih]

theorem iterate_twice_xor (i : Nat) (a b : BitVec 8) :
    twice^[i] (a ^^^ b) = twice^[i] a ^^^ twice^[i] b := by
  induction i with
  | zero => rfl
  | succ i ih => simp only [Function.iterate_succ_apply', ih, twice_xor]

/-- Multiplying by a power of two is doubling that often. -/
theorem toNat_mul_pow2 {i : Nat} (hi : i < 255) (b : Symbol) :
    (mul (pow2 i) b).toNat = (twice^[i] (UInt8.toBitVec b)).toNat := by
  rw [toNat_iterate_twice]
  show _ = double^[i] b.toNat
  by_cases h0 : b.toNat = 0
  · have hzero : ∀ n, double^[n] 0 = 0 := by
      intro n
      induction n with
      | zero => rfl
      | succ n ih => rw [Function.iterate_succ_apply', ih]; rfl
    rw [mul, if_pos (Or.inr h0), h0, hzero]; rfl
  · obtain ⟨j, hj, rfl⟩ := exists_pow2 h0
    rw [mul_pow2 hi hj, toNat_pow2, toNat_pow2, exp, exp, Function.iterate_add_apply]

theorem zero_or_pow2 (a : Symbol) : a = ofNat 0 ∨ ∃ i < 255, a = pow2 i := by
  by_cases h : a.toNat = 0
  · exact Or.inl (toNat_inj.mp (by rw [h]; rfl))
  · exact Or.inr (exists_pow2 h)

theorem toNat_zero : (ofNat 0).toNat = 0 := rfl

theorem mul_comm' (a b : Symbol) : mul a b = mul b a := by
  simp only [mul, Nat.add_comm (init.log.getD a.toNat 0), or_comm]

theorem zero_mul' (a : Symbol) : mul (ofNat 0) a = ofNat 0 := by
  rw [mul, if_pos (Or.inl toNat_zero)]

theorem mul_assoc' (a b c : Symbol) : mul (mul a b) c = mul a (mul b c) := by
  rcases zero_or_pow2 a with rfl | ⟨i, hi, rfl⟩
  · simp only [zero_mul']
  rcases zero_or_pow2 b with rfl | ⟨j, hj, rfl⟩
  · rw [mul_comm' (pow2 i)]; simp only [zero_mul']; rw [mul_comm', zero_mul']
  rcases zero_or_pow2 c with rfl | ⟨k, hk, rfl⟩
  · rw [mul_comm' _ (ofNat 0), mul_comm' (pow2 j)]; simp only [zero_mul']
    rw [mul_comm', zero_mul']
  -- both sides are the power of the sum, reduced at different places
  have hmod : ∀ n, n % 255 < 255 := fun n => Nat.mod_lt n (by omega)
  rw [mul_pow2 hi hj, mul_pow2 hj hk, ← pow2_mod (i + j), ← pow2_mod (j + k),
    mul_pow2 (hmod _) hk, mul_pow2 hi (hmod _), ← pow2_mod ((i + j) % 255 + k),
    ← pow2_mod (i + (j + k) % 255)]
  congr 1
  omega

theorem mul_xor (a b c : Symbol) : mul a (xor b c) = xor (mul a b) (mul a c) := by
  rcases zero_or_pow2 a with rfl | ⟨i, hi, rfl⟩
  · simp only [zero_mul']; rfl
  · apply toNat_inj.mp
    rw [toNat_mul_pow2 hi]
    show (twice^[i] (UInt8.toBitVec b ^^^ UInt8.toBitVec c)).toNat =
      (mul (pow2 i) b).toNat ^^^ (mul (pow2 i) c).toNat
    rw [iterate_twice_xor, toNat_mul_pow2 hi, toNat_mul_pow2 hi, BitVec.toNat_xor]

theorem one_mul' (a : Symbol) : mul (ofNat 1) a = a := by
  rcases zero_or_pow2 a with rfl | ⟨i, hi, rfl⟩
  · rw [mul_comm', zero_mul']
  · have h : mul (pow2 0) (pow2 i) = pow2 (0 + i) := mul_pow2 (by omega) hi
    rw [Nat.zero_add] at h
    exact h

theorem div_eq_mul_inv' (a b : Symbol) : div a b = mul a (div (ofNat 1) b) := by
  rcases zero_or_pow2 b with rfl | ⟨j, hj, rfl⟩
  · rw [div, if_pos (Or.inr toNat_zero), div, if_pos (Or.inr toNat_zero), mul_comm', zero_mul']
  rcases zero_or_pow2 a with rfl | ⟨i, hi, rfl⟩
  · rw [div, if_pos (Or.inl toNat_zero), zero_mul']
  have hone : div (ofNat 1) (pow2 j) = pow2 ((0 + 255 - j) % 255) := by
    rw [pow2_mod, ← div_pow2 (show 0 < 255 by omega) hj]; rfl
  rw [hone, div_pow2 hi hj, mul_pow2 hi (Nat.mod_lt _ (by omega)), ← pow2_mod (i + 255 - j),
    ← pow2_mod (i + (0 + 255 - j) % 255)]
  congr 1
  omega

theorem mul_inv_cancel' {a : Symbol} (ha : a ≠ ofNat 0) : mul a (div (ofNat 1) a) = ofNat 1 := by
  rcases zero_or_pow2 a with h | ⟨i, hi, rfl⟩
  · exact absurd h ha
  · rw [← div_eq_mul_inv', div_pow2 hi hi, ← pow2_mod, show (i + 255 - i) % 255 = 0 by omega]
    rfl

instance : Zero Symbol := ⟨ofNat 0⟩
instance : One Symbol := ⟨ofNat 1⟩
instance : Add Symbol := ⟨xor⟩
instance : Sub Symbol := ⟨xor⟩
instance : Neg Symbol := ⟨id⟩
instance : Mul Symbol := ⟨mul⟩
instance : Div Symbol := ⟨div⟩
instance : Inv Symbol := ⟨div (ofNat 1)⟩

/-- **The symbols form a field** under the operations of `Galois`. -/
instance : Field Symbol where
  nsmul := nsmulRec
  zsmul := zsmulRec
  add_assoc a b c := UInt8.xor_assoc a b c
  add_comm a b := UInt8.xor_comm a b
  zero_add a := UInt8.zero_xor
  add_zero a := UInt8.xor_zero
  neg_add_cancel a := UInt8.xor_self
  sub_eq_add_neg _ _ := rfl
  mul_assoc := mul_assoc'
  mul_comm := mul_comm'
  one_mul := one_mul'
  mul_one a := by show mul a (ofNat 1) = a; rw [mul_comm', one_mul']
  zero_mul := zero_mul'
  mul_zero a := by show mul a (ofNat 0) = ofNat 0; rw [mul_comm', zero_mul']
  left_distrib := mul_xor
  right_distrib a b c := by
    show mul (xor a b) c = xor (mul a c) (mul b c)
    rw [mul_comm', mul_xor, mul_comm' c a, mul_comm' c b]
  exists_pair_ne := ⟨ofNat 0, ofNat 1, by decide⟩
  div_eq_mul_inv := div_eq_mul_inv'
  inv_zero := by show div (ofNat 1) (ofNat 0) = ofNat 0; rw [div, if_pos (Or.inr toNat_zero)]
  mul_inv_cancel _ := mul_inv_cancel'
  nnqsmul := _
  nnqsmul_def := fun _ _ => rfl
  qsmul := _
  qsmul_def := fun _ _ => rfl

end Symbol

end Encoders.Coding
