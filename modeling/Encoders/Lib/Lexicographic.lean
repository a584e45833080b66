import Mathlib.Data.List.Lex
import Mathlib.Data.Prod.Lex
import Mathlib.Data.Set.Basic

/-!
# Comparing memory

`memcmp` compares as many elements as it is told to, whatever lies there. It is the lexicographic
order of what it reads.

A comparison written by hand is a strict total order on a set if on that set it is the order of
some key and equality is that of the keys.
-/

namespace Encoders.Lib

section Memcmp

variable {β : Type} [LinearOrder β]

/-- `memcmp`, with so many elements left from the `k`-th on. -/
def memcmp (p q : Nat → β) : Nat → Nat → Ordering
  | 0, _ => .eq
  | n + 1, k => if p k < q k then .lt else if q k < p k then .gt else memcmp p q n (k + 1)

variable {p q : Nat → β}

theorem memcmp_lt_iff : ∀ {n k : Nat}, memcmp p q n k = .lt ↔
    (List.range' k n).map p < (List.range' k n).map q
  | 0, k => by
      rw [memcmp, List.range'_zero, List.map_nil, List.map_nil]
      exact iff_of_false nofun (lt_irrefl _)
  | n + 1, k => by
      rw [memcmp, List.range'_succ, List.map_cons, List.map_cons, List.cons_lt_cons_iff]
      rcases lt_trichotomy (p k) (q k) with hlt | heq | hgt
      · rw [if_pos hlt]
        exact iff_of_true rfl (Or.inl hlt)
      · rw [if_neg (not_lt_of_ge (le_of_eq heq.symm)), if_neg (not_lt_of_ge (le_of_eq heq)),
          memcmp_lt_iff]
        refine ⟨fun h => Or.inr ⟨heq, h⟩, ?_⟩
        rintro (hlt | ⟨-, h⟩)
        · exact absurd heq (ne_of_lt hlt)
        · exact h
      · rw [if_neg (not_lt_of_gt hgt), if_pos hgt]
        refine iff_of_false nofun ?_
        rintro (hlt | ⟨heq, -⟩)
        · exact lt_asymm hlt hgt
        · exact ne_of_gt hgt heq

theorem memcmp_eq_iff : ∀ {n k : Nat}, memcmp p q n k = .eq ↔
    (List.range' k n).map p = (List.range' k n).map q
  | 0, _ => iff_of_true rfl rfl
  | n + 1, k => by
      rw [memcmp, List.range'_succ, List.map_cons, List.map_cons, List.cons.injEq]
      rcases lt_trichotomy (p k) (q k) with hlt | heq | hgt
      · rw [if_pos hlt]
        exact iff_of_false nofun (fun h => ne_of_lt hlt h.1)
      · rw [if_neg (not_lt_of_ge (le_of_eq heq.symm)), if_neg (not_lt_of_ge (le_of_eq heq)),
          memcmp_eq_iff]
        exact (and_iff_right heq).symm
      · rw [if_neg (not_lt_of_gt hgt), if_pos hgt]
        exact iff_of_false nofun (fun h => ne_of_gt hgt h.1)

end Memcmp

/-! ## Strict total orders -/

variable {α : Type}

/-- A comparison is a strict total order on a set, for a notion of equality. -/
structure StrictTotalOn (S : Set α) (lt eq : α → α → Prop) : Prop where
  irrefl : ∀ a ∈ S, ¬ lt a a
  trans : ∀ a ∈ S, ∀ b ∈ S, ∀ c ∈ S, lt a b → lt b c → lt a c
  /-- Exactly one of three holds. -/
  one : ∀ a ∈ S, ∀ b ∈ S, (lt a b ∧ ¬ eq a b ∧ ¬ lt b a) ∨ (¬ lt a b ∧ eq a b ∧ ¬ lt b a) ∨
    (¬ lt a b ∧ ¬ eq a b ∧ lt b a)

theorem StrictTotalOn.asymm {S : Set α} {lt eq : α → α → Prop} (h : StrictTotalOn S lt eq)
    {a b : α} (ha : a ∈ S) (hb : b ∈ S) (hlt : lt a b) : ¬ lt b a := by
  rcases h.one a ha b hb with ⟨-, -, hnot⟩ | ⟨hnot, -, -⟩ | ⟨hnot, -, -⟩
  · exact hnot
  · exact absurd hlt hnot
  · exact absurd hlt hnot

/-- **The rule for comparisons by a key.** -/
theorem StrictTotalOn.of_key {κ : Type} [LinearOrder κ] {S : Set α} {lt eq : α → α → Prop}
    (f : α → κ) (hlt : ∀ a ∈ S, ∀ b ∈ S, (lt a b ↔ f a < f b))
    (heq : ∀ a ∈ S, ∀ b ∈ S, (eq a b ↔ f a = f b)) : StrictTotalOn S lt eq where
  irrefl a ha h := lt_irrefl _ ((hlt a ha a ha).mp h)
  trans a ha b hb c hc hab hbc :=
    (hlt a ha c hc).mpr (lt_trans ((hlt a ha b hb).mp hab) ((hlt b hb c hc).mp hbc))
  one a ha b hb := by
    rw [hlt a ha b hb, heq a ha b hb, hlt b hb a ha]
    rcases lt_trichotomy (f a) (f b) with h | h | h
    · exact Or.inl ⟨h, ne_of_lt h, lt_asymm h⟩
    · exact Or.inr (Or.inl ⟨not_lt_of_ge (le_of_eq h.symm), h, not_lt_of_ge (le_of_eq h)⟩)
    · exact Or.inr (Or.inr ⟨lt_asymm h, ne_of_gt h, h⟩)

end Encoders.Lib
