import Mathlib.Logic.Equiv.Basic
import Mathlib.Order.Lattice

/-!
# Heap order

An array laid out as a binary tree: the children of place `i` are `2 * i + 1` and
`2 * i + 2`. Here only the keys matter, so the array is a function from places to keys,
and what lies past its end has the greatest key of all.

A heap is repaired along one path. On the way up, everything is in order but the step into
one place from above; on the way down, everything but the steps out of one place. Either
way a swap moves the one place along, and `grand` is what makes the swap leave nothing
else out of order.
-/

namespace Encoders.Lib

variable {κ : Type} [LinearOrder κ]
variable {f : Nat → κ}
variable {i : Nat}

/-- The place above. -/
def heapParent (i : Nat) : Nat := (i - 1) / 2

/-- No key is below the key of the place above. -/
def HeapOrdered (f : Nat → κ) : Prop := ∀ j, 0 < j → f (heapParent j) ≤ f j

theorem heapParent_lt {j : Nat} (h : 0 < j) : heapParent j < j := by
  unfold heapParent
  omega

theorem heapParent_eq_iff {j : Nat} (h : 0 < j) :
    heapParent j = i ↔ j = 2 * i + 1 ∨ j = 2 * i + 2 := by
  unfold heapParent
  omega

/-- **The front has the least key.** -/
theorem HeapOrdered.front_le (h : HeapOrdered f) (j : Nat) : f 0 ≤ f j := by
  induction j using Nat.strongRecOn with
  | ind j ih =>
      rcases Nat.eq_zero_or_pos j with hzero | hpos
      · rw [hzero]
      · exact le_trans (ih (heapParent j) (heapParent_lt hpos)) (h j hpos)

/-- All is in order but the step into place `i`. -/
structure OrderedOffInto (f : Nat → κ) (i : Nat) : Prop where
  off : ∀ j, 0 < j → j ≠ i → f (heapParent j) ≤ f j
  grand : 0 < i → ∀ j, 0 < j → heapParent j = i → f (heapParent i) ≤ f j

/-- All is in order but the steps out of place `i`. -/
structure OrderedOffOutOf (f : Nat → κ) (i : Nat) : Prop where
  off : ∀ j, 0 < j → heapParent j ≠ i → f (heapParent j) ≤ f j
  grand : 0 < i → ∀ j, 0 < j → heapParent j = i → f (heapParent i) ≤ f j

/-! ## Up -/

theorem OrderedOffInto.finish (h : OrderedOffInto f i) (hstop : 0 < i → f (heapParent i) ≤ f i) :
    HeapOrdered f := by
  intro j hj
  by_cases hji : j = i
  · rw [hji] at hj ⊢
    exact hstop hj
  · exact h.off j hj hji

theorem OrderedOffInto.move (h : OrderedOffInto f i) (hi : 0 < i) (hle : f i ≤ f (heapParent i)) :
    OrderedOffInto (f ∘ Equiv.swap i (heapParent i)) (heapParent i) := by
  have hlt := heapParent_lt hi
  have hother : ∀ j, j ≠ i → j ≠ heapParent i → (f ∘ Equiv.swap i (heapParent i)) j = f j := by
    intro j hji hjp
    rw [Function.comp_apply, Equiv.swap_apply_of_ne_of_ne hji hjp]
  have hati : (f ∘ Equiv.swap i (heapParent i)) i = f (heapParent i) := by
    rw [Function.comp_apply, Equiv.swap_apply_left]
  have hatp : (f ∘ Equiv.swap i (heapParent i)) (heapParent i) = f i := by
    rw [Function.comp_apply, Equiv.swap_apply_right]
  refine ⟨?_, ?_⟩
  · intro j hj hjp
    -- at `i` stands the old parent, which is no smaller
    by_cases hji : j = i
    · rw [hji, hatp, hati]
      exact hle
    · rw [hother j hji hjp]
      -- a child of the hole is ordered with the grandparent
      by_cases hpi : heapParent j = i
      · rw [hpi, hati]
        exact h.grand hi j hj hpi
      · -- the sibling of the hole
        by_cases hpp : heapParent j = heapParent i
        · rw [hpp, hatp]
          exact le_trans hle (hpp ▸ h.off j hj hji)
        · rw [hother _ hpi hpp]
          exact h.off j hj hji
  · intro hp j hj hjp
    have hgrand := heapParent_lt hp
    have hup : f (heapParent (heapParent i)) ≤ f (heapParent i) := h.off _ hp (by omega)
    rw [hother (heapParent (heapParent i)) (by omega) (by omega)]
    by_cases hji : j = i
    · rw [hji, hati]
      exact hup
    · have hjlt := heapParent_lt hj
      rw [hother j hji (by omega)]
      exact le_trans hup (hjp ▸ h.off j hj hji)

/-! ## Down -/

theorem OrderedOffOutOf.finish (h : OrderedOffOutOf f i)
    (hstop : ∀ j, 0 < j → heapParent j = i → f i ≤ f j) : HeapOrdered f := by
  intro j hj
  by_cases hji : heapParent j = i
  · rw [hji]
    exact hstop j hj hji
  · exact h.off j hj hji

/-- The child that goes up is not above its sibling. -/
theorem OrderedOffOutOf.move {c : Nat} (h : OrderedOffOutOf f i) (hc : 0 < c)
    (hci : heapParent c = i) (hle : f c ≤ f i) (hmin : ∀ j, 0 < j → heapParent j = i → f c ≤ f j) :
    OrderedOffOutOf (f ∘ Equiv.swap i c) c := by
  have hlt : i < c := hci ▸ heapParent_lt hc
  have hother : ∀ j, j ≠ i → j ≠ c → (f ∘ Equiv.swap i c) j = f j := by
    intro j hji hjc
    rw [Function.comp_apply, Equiv.swap_apply_of_ne_of_ne hji hjc]
  have hati : (f ∘ Equiv.swap i c) i = f c := by
    rw [Function.comp_apply, Equiv.swap_apply_left]
  have hatc : (f ∘ Equiv.swap i c) c = f i := by
    rw [Function.comp_apply, Equiv.swap_apply_right]
  refine ⟨?_, ?_⟩
  · intro j hj hpc
    by_cases hjc : j = c
    · rw [hjc, hci, hati, hatc]
      exact hle
    · by_cases hji : j = i
      · rw [hji] at hj ⊢
        have hilt := heapParent_lt hj
        rw [hati, hother _ (by omega) (by omega)]
        exact h.grand hj c hc hci
      · rw [hother j hji hjc]
        by_cases hpi : heapParent j = i
        · rw [hpi, hati]
          exact hmin j hj hpi
        · rw [hother _ hpi hpc]
          exact h.off j hj hpi
  · intro _ j hj hpc
    have hjlt := heapParent_lt hj
    rw [hci, hati, hother j (by omega) (by omega)]
    exact hpc ▸ h.off j hj (by omega)

end Encoders.Lib
