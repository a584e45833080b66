import Mathlib.Data.List.Basic

/-!
# Slices of a sequence

Reading and writing a range of a sequence, as a program does on a file that it
seeks in. Writing past the end fills the gap. Two facts carry every use: a write
is seen inside its range and nowhere else, and two sequences of one length that
agree on slices covering every position are equal. A sequence cut into blocks of
one size has as many as the quotient, rounded up.
-/

namespace Encoders.Lib

variable {α : Type}
variable {l xs : List α} {pos : Nat}

/-- `len` elements from `pos` on, fewer at the end. -/
def slice (l : List α) (pos len : Nat) : List α := (l.drop pos).take len

/-- Put `xs` over `l` from `pos` on; a gap before it is filled with `z`. -/
def overwrite (z : α) (l : List α) (pos : Nat) (xs : List α) : List α :=
  l.take pos ++ List.replicate (pos - l.length) z ++ xs ++ l.drop (pos + xs.length)

theorem length_slice (l : List α) (pos len : Nat) :
    (slice l pos len).length = min len (l.length - pos) := by
  unfold slice
  rw [List.length_take, List.length_drop]

theorem slice_getElem? (l : List α) (pos len i : Nat) :
    (slice l pos len)[i]? = if i < len then l[pos + i]? else none := by
  unfold slice
  rw [List.getElem?_take, List.getElem?_drop]

/-- Two slices next to each other are one. -/
theorem slice_append_slice (l : List α) (pos a b : Nat) :
    slice l pos a ++ slice l (pos + a) b = slice l pos (a + b) := by
  unfold slice
  rw [List.take_add, List.drop_drop]

theorem slice_append_right (l m : List α) (len : Nat) :
    slice (l ++ m) l.length len = m.take len := by
  unfold slice
  rw [List.drop_left]

theorem length_overwrite (z : α) (l : List α) (pos : Nat) (xs : List α) :
    (overwrite z l pos xs).length = max l.length (pos + xs.length) := by
  unfold overwrite
  simp only [List.length_append, List.length_take, List.length_replicate, List.length_drop]
  omega

/-- What a write leaves at each position of a sequence it stays inside of. -/
theorem overwrite_getElem? (z : α) (h : pos + xs.length ≤ l.length) (i : Nat) :
    (overwrite z l pos xs)[i]? =
      if pos ≤ i ∧ i < pos + xs.length then xs[i - pos]? else l[i]? := by
  unfold overwrite
  have hgap : pos - l.length = 0 := by omega
  have htake : (l.take pos).length = pos := by rw [List.length_take]; omega
  rw [hgap, List.replicate_zero, List.append_nil]
  by_cases hlt : i < pos
  · rw [if_neg (by omega), List.append_assoc, List.getElem?_append_left (by omega),
      List.getElem?_take, if_pos hlt]
  · by_cases hin : i < pos + xs.length
    · rw [if_pos ⟨by omega, hin⟩, List.append_assoc, List.getElem?_append_right (by omega), htake,
        List.getElem?_append_left (by omega)]
    · rw [if_neg (by omega), List.getElem?_append_right (by rw [List.length_append, htake]; omega),
        List.length_append, htake, List.getElem?_drop]
      congr 1
      omega

/-- A write of nothing. -/
theorem overwrite_nil (z : α) (h : pos ≤ l.length) : overwrite z l pos [] = l := by
  apply List.ext_getElem?
  intro i
  rw [overwrite_getElem? z (by simpa using h), if_neg (by simp)]

/-- One more element written behind a write. -/
theorem set_overwrite (z : α) {l : List α} {pos : Nat} {xs : List α} (c : α)
    (h : pos + xs.length < l.length) :
    (overwrite z l pos xs).set (pos + xs.length) c = overwrite z l pos (xs ++ [c]) := by
  have hsnoc : (xs ++ [c]).length = xs.length + 1 := by rw [List.length_append, List.length_singleton]
  apply List.ext_getElem?
  intro i
  rw [overwrite_getElem? z (by omega), List.getElem?_set, length_overwrite,
    overwrite_getElem? z (by omega), hsnoc]
  by_cases hi : pos + xs.length = i
  · rw [if_pos hi, if_pos (by omega), if_pos (by omega), ← hi, Nat.add_sub_cancel_left,
      List.getElem?_append_right (Nat.le_refl _), Nat.sub_self]
    rfl
  · rw [if_neg hi]
    by_cases hin : pos ≤ i ∧ i < pos + xs.length
    · rw [if_pos hin, if_pos (by omega), List.getElem?_append_left (by omega)]
    · rw [if_neg hin, if_neg (by omega)]

theorem slice_overwrite_self (z : α) (h : pos + xs.length ≤ l.length) :
    slice (overwrite z l pos xs) pos xs.length = xs := by
  apply List.ext_getElem?
  intro i
  rw [slice_getElem?, overwrite_getElem? z h]
  by_cases hi : i < xs.length
  · rw [if_pos hi, if_pos ⟨by omega, by omega⟩, Nat.add_sub_cancel_left]
  · rw [if_neg hi, List.getElem?_eq_none (by omega)]

theorem slice_overwrite_disjoint (z : α) (h : pos + xs.length ≤ l.length) {p n : Nat}
    (hd : p + n ≤ pos ∨ pos + xs.length ≤ p) : slice (overwrite z l pos xs) p n = slice l p n := by
  apply List.ext_getElem?
  intro i
  rw [slice_getElem?, slice_getElem?, overwrite_getElem? z h]
  by_cases hi : i < n
  · rw [if_pos hi, if_pos hi, if_neg (by omega)]
  · rw [if_neg hi, if_neg hi]

/-- Slices that cover every position determine the sequence. -/
theorem eq_of_slices {m : List α} (hlen : l.length = m.length)
    (h : ∀ i < l.length, ∃ p n, p ≤ i ∧ i < p + n ∧ slice l p n = slice m p n) : l = m := by
  apply List.ext_getElem?
  intro i
  by_cases hi : i < l.length
  · obtain ⟨p, n, hp, hn, heq⟩ := h i hi
    have hget := congrArg (fun s => s[i - p]?) heq
    simp only [slice_getElem?] at hget
    rw [if_pos (by omega), if_pos (by omega), show p + (i - p) = i by omega] at hget
    exact hget
  · rw [List.getElem?_eq_none (by omega), List.getElem?_eq_none (by omega)]

/-- Where block `q` ends, counting from one. -/
theorem mul_eq_pred_mul_add {q : Nat} (hq : 1 ≤ q) (s : Nat) : q * s = (q - 1) * s + s := by
  rw [← Nat.succ_mul, Nat.succ_eq_add_one, Nat.sub_add_cancel hq]

/-- The quotient rounded up: the last block starts inside, and all of them reach the end. -/
theorem ceil_div_bounds {n b : Nat} (hn : 0 < n) (hb : 0 < b) :
    0 < (n + b - 1) / b ∧ ((n + b - 1) / b - 1) * b < n ∧ n ≤ (n + b - 1) / b * b := by
  have hdiv := Nat.div_add_mod (n + b - 1) b
  have hmod := Nat.mod_lt (n + b - 1) hb
  have hpos : 0 < (n + b - 1) / b := Nat.div_pos (by omega) hb
  obtain ⟨k, hk⟩ := Nat.exists_eq_succ_of_ne_zero (Nat.pos_iff_ne_zero.mp hpos)
  rw [hk] at hdiv ⊢
  rw [Nat.mul_succ] at hdiv
  rw [Nat.succ_sub_one, Nat.succ_mul, Nat.mul_comm k b]
  omega

end Encoders.Lib
