import Mathlib.Logic.Relation

/-!
# Relations that do not cycle

A table in which every entry may point at one other entry is a forest when no chain of
pointers comes back to where it started. Entries that go take pointers away, which makes
no chain longer (`Acyclic.mono`). The one operation that can close a chain is to make an
entry point somewhere else, and it does so exactly when the new target already led back to
the entry (`acyclic_redirect_iff`).
-/

namespace Encoders.Lib

open Relation

variable {α : Type}
variable {r : α → α → Prop}

/-- No chain of one step or more comes back. -/
def Acyclic (r : α → α → Prop) : Prop := ∀ a, ¬ TransGen r a a

/-- The relation with `k` pointing at `p` and at nothing else. -/
def redirect (r : α → α → Prop) (k p : α) (a b : α) : Prop :=
  (a ≠ k ∧ r a b) ∨ (a = k ∧ b = p)

theorem acyclic_of_no_step (h : ∀ a b, ¬ r a b) : Acyclic r := by
  intro a hcycle
  obtain ⟨b, hstep, _⟩ := TransGen.head'_iff.mp hcycle
  exact h a b hstep

/-- **Taking steps away closes no chain.** -/
theorem Acyclic.mono {r' : α → α → Prop} (h : Acyclic r) (hsub : ∀ a b, r' a b → r a b) :
    Acyclic r' := by
  intro a hcycle
  exact h a (TransGen.mono hsub a a hcycle)

/-- What a step leads to does not lead back, so the way on needs no step out of there. -/
theorem Acyclic.leaves (h : Acyclic r) {a p b : α} (hstep : r a p) (hchain : ReflTransGen r p b) :
    ReflTransGen (fun c d => c ≠ a ∧ r c d) p b := by
  induction hchain with
  | refl => exact ReflTransGen.refl
  | @tail c d hpc hcd ih =>
      refine ih.tail ⟨?_, hcd⟩
      intro hca
      rw [hca] at hpc
      exact h a (TransGen.head' hstep hpc)

/-- A chain that reaches `k` can be cut where it first does, so it needs no step out of `k`. -/
theorem reaches_redirect {k p : α} {a : α} (h : ReflTransGen r a k) :
    ReflTransGen (redirect r k p) a k := by
  induction h using ReflTransGen.head_induction_on with
  | refl => exact ReflTransGen.refl
  | @head a b hstep _ ih =>
      by_cases hak : a = k
      · rw [hak]
      · exact ReflTransGen.head (Or.inl ⟨hak, hstep⟩) ih

/-- So it is with a chain that starts elsewhere. -/
theorem reaches_without {a k : α} (h : TransGen r a k) (hne : a ≠ k) :
    TransGen (fun c d => c ≠ k ∧ r c d) a k := by
  induction h using TransGen.head_induction_on with
  | @single a hstep => exact TransGen.single ⟨hne, hstep⟩
  | @head a c hstep _ ih =>
      by_cases hck : c = k
      · exact TransGen.single ⟨hne, hck ▸ hstep⟩
      · exact TransGen.head ⟨hne, hstep⟩ (ih hck)

/-- A chain after the change either was one before, or goes through the new step. -/
theorem redirect_chain {k p a b : α} (h : TransGen (redirect r k p) a b) :
    TransGen r a b ∨ (ReflTransGen r a k ∧ (ReflTransGen r p b ∨ ReflTransGen r p k)) := by
  induction h using TransGen.head_induction_on with
  | @single a hstep =>
      rcases hstep with ⟨_, hstep⟩ | ⟨rfl, rfl⟩
      · exact Or.inl (TransGen.single hstep)
      · exact Or.inr ⟨ReflTransGen.refl, Or.inl ReflTransGen.refl⟩
  | @head a c hstep _ ih =>
      rcases hstep with ⟨_, hstep⟩ | ⟨rfl, rfl⟩
      · rcases ih with hold | ⟨hk, hp⟩
        · exact Or.inl (TransGen.head hstep hold)
        · exact Or.inr ⟨ReflTransGen.head hstep hk, hp⟩
      · -- the new step is the first one: the rest of the chain starts at `p`
        rcases ih with hold | ⟨hk, _⟩
        · exact Or.inr ⟨ReflTransGen.refl, Or.inl hold.to_reflTransGen⟩
        · exact Or.inr ⟨ReflTransGen.refl, Or.inr hk⟩

/--
**What closes a chain.** Pointing `k` at `p` keeps a relation without cycles free of them
exactly when `p` does not lead to `k`.
-/
theorem acyclic_redirect_iff {k p : α} (h : Acyclic r) :
    Acyclic (redirect r k p) ↔ ¬ ReflTransGen r p k := by
  constructor
  · intro hacyclic hlead
    exact hacyclic k (TransGen.head' (Or.inr ⟨rfl, rfl⟩) (reaches_redirect hlead))
  · intro hlead a hcycle
    rcases redirect_chain hcycle with hold | ⟨hk, hp⟩
    · exact h a hold
    · rcases hp with hp | hp
      · exact hlead (hp.trans hk)
      · exact hlead hp

end Encoders.Lib
