import Mathlib.Data.List.Basic
import Mathlib.Data.Multiset.Basic

/-!
# Comparisons with four outcomes

A comparison of a partial preorder says that one value is above, below or as good as
another, or that the two are incomparable. Programs write such comparisons by hand, and
nothing makes them orders: `Tame` says when one is an order on a given list of values,
and asks two more things of its forks. A fork is a value with two incomparable values
above it. In a tame list nothing stands between the prongs of a fork and its foot, and
neither a prong nor the foot is as good as some other value.
-/

namespace Encoders.Lib

/-- Less, greater, equal, not comparable. -/
inductive Comparison where
  | lt
  | gt
  | eq
  | nc
deriving DecidableEq

/-- The outcome with the two sides exchanged. -/
def Comparison.flip : Comparison → Comparison
  | .lt => .gt
  | .gt => .lt
  | .eq => .eq
  | .nc => .nc

theorem Comparison.flip_eq_iff {c d : Comparison} : c.flip = d ↔ c = d.flip := by
  cases c <;> cases d <;> simp [Comparison.flip]

variable {α : Type} {cmp : α → α → Comparison} {E : List α}

/-- A comparison that is an order on the values of a list, with simple forks. -/
structure Tame (cmp : α → α → Comparison) (E : List α) : Prop where
  /-- Greater is transitive. -/
  trans : ∀ x ∈ E, ∀ y ∈ E, ∀ z ∈ E, cmp x y = .gt → cmp y z = .gt → cmp x z = .gt
  /-- Equal values compare alike. -/
  congr : ∀ x ∈ E, ∀ y ∈ E, ∀ z ∈ E, cmp x y = .eq → cmp x z = cmp y z
  /-- Nothing stands between a prong of a fork and its foot. -/
  fork : ∀ x ∈ E, ∀ y ∈ E, ∀ d ∈ E, ∀ e ∈ E, cmp x y = .nc → cmp x d = .gt → cmp y d = .gt →
    ¬ (cmp x e = .gt ∧ cmp e d = .gt)
  /-- Neither a prong of a fork nor its foot equals another value. -/
  alone : ∀ x ∈ E, ∀ y ∈ E, ∀ d ∈ E, ∀ w ∈ E, cmp x y = .nc → cmp x d = .gt → cmp y d = .gt →
    (cmp w x = .eq → w = x) ∧ (cmp w d = .eq → w = d)

set_option synthInstance.maxSize 512 in
/-- Whether a comparison is tame on a list can be tested. -/
instance Tame.decidable [DecidableEq α] : Decidable (Tame cmp E) :=
  decidable_of_iff
    ((∀ x ∈ E, ∀ y ∈ E, ∀ z ∈ E, cmp x y = .gt → cmp y z = .gt → cmp x z = .gt) ∧
      (∀ x ∈ E, ∀ y ∈ E, ∀ z ∈ E, cmp x y = .eq → cmp x z = cmp y z) ∧
      (∀ x ∈ E, ∀ y ∈ E, ∀ d ∈ E, ∀ e ∈ E, cmp x y = .nc → cmp x d = .gt → cmp y d = .gt →
        ¬ (cmp x e = .gt ∧ cmp e d = .gt)) ∧
      (∀ x ∈ E, ∀ y ∈ E, ∀ d ∈ E, ∀ w ∈ E, cmp x y = .nc → cmp x d = .gt → cmp y d = .gt →
        (cmp w x = .eq → w = x) ∧ (cmp w d = .eq → w = d)))
    ⟨fun ⟨a, b, c, d⟩ => ⟨a, b, c, d⟩, fun h => ⟨h.trans, h.congr, h.fork, h.alone⟩⟩

/-- A comparison that does not depend on the side a value stands on. -/
def Flips (cmp : α → α → Comparison) : Prop := ∀ x y, cmp y x = (cmp x y).flip

theorem Tame.subset {F : List α} (h : Tame cmp F) (hsub : E ⊆ F) : Tame cmp E where
  trans x hx y hy z hz := h.trans x (hsub hx) y (hsub hy) z (hsub hz)
  congr x hx y hy z hz := h.congr x (hsub hx) y (hsub hy) z (hsub hz)
  fork x hx y hy d hd e he := h.fork x (hsub hx) y (hsub hy) d (hsub hd) e (hsub he)
  alone x hx y hy d hd w hw := h.alone x (hsub hx) y (hsub hy) d (hsub hd) w (hsub hw)

/-- A list without forks is tame as soon as the comparison is an order on it. -/
theorem tame_of_no_forks
    (htrans : ∀ x ∈ E, ∀ y ∈ E, ∀ z ∈ E, cmp x y = .gt → cmp y z = .gt → cmp x z = .gt)
    (hcongr : ∀ x ∈ E, ∀ y ∈ E, ∀ z ∈ E, cmp x y = .eq → cmp x z = cmp y z)
    (hfork : ∀ x ∈ E, ∀ y ∈ E, ∀ d ∈ E, cmp x y = .nc → cmp x d = .gt → cmp y d ≠ .gt) :
    Tame cmp E where
  trans := htrans
  congr := hcongr
  fork x hx y hy d hd _ _ hnc hxd hyd := absurd hyd (hfork x hx y hy d hd hnc hxd)
  alone x hx y hy d hd _ _ hnc hxd hyd := absurd hyd (hfork x hx y hy d hd hnc hxd)

namespace Flips

variable (hflip : Flips cmp)
include hflip

theorem gt_iff {x y : α} : cmp y x = .gt ↔ cmp x y = .lt := by
  rw [hflip x y, Comparison.flip_eq_iff]; rfl

theorem eq_symm {x y : α} (h : cmp x y = .eq) : cmp y x = .eq := by
  rw [hflip x y, h]; rfl

theorem nc_symm {x y : α} (h : cmp x y = .nc) : cmp y x = .nc := by
  rw [hflip x y, h]; rfl

/-- Nothing is above itself. -/
theorem gt_irrefl (x : α) : cmp x x ≠ .gt := by
  intro h
  have hself := hflip x x
  rw [h] at hself
  exact absurd hself (by decide)

/-- A value compares with itself as equal, or not at all. -/
theorem self_eq_or_nc (x : α) : cmp x x = .eq ∨ cmp x x = .nc := by
  have hself := hflip x x
  cases h : cmp x x <;> rw [h] at hself <;> simp [Comparison.flip] at hself ⊢

/-- Of two values only one is above the other. -/
theorem gt_asymm {x y : α} (h : cmp x y = .gt) : cmp y x ≠ .gt := by
  rw [hflip x y, h]
  decide

end Flips

/-- A value that nothing is above equals no other one. -/
def Untied (cmp : α → α → Comparison) (values : Multiset α) : Prop :=
  ∀ x ∈ values, (∀ y ∈ values, cmp y x ≠ .gt) → ∀ y ∈ values, cmp x y = .eq → y = x

instance Untied.decidable [DecidableEq α] (values : Multiset α) : Decidable (Untied cmp values) :=
  inferInstanceAs (Decidable (∀ x ∈ values, (∀ y ∈ values, cmp y x ≠ .gt) →
    ∀ y ∈ values, cmp x y = .eq → y = x))

/-- Equal values compare alike on the right too. -/
theorem Tame.congr_right (h : Tame cmp E) (hflip : Flips cmp) {x y z : α} (hx : x ∈ E)
    (hy : y ∈ E) (hz : z ∈ E) (heq : cmp x y = .eq) : cmp z x = cmp z y := by
  rw [hflip x z, hflip y z, h.congr x hx y hy z hz heq]

/-- Some value of the list is beside `x` and above `d`: `d` may have been reached without `x`. -/
def Forked (cmp : α → α → Comparison) (E : List α) (x d : α) : Prop :=
  ∃ a ∈ E, cmp a x = .nc ∧ cmp a d = .gt

section Forks

variable (h : Tame cmp E) (hflip : Flips cmp)
include h hflip

/-- Nothing is below the foot of a fork. -/
theorem Forked.foot_lowest {x d e : α} (hf : Forked cmp E x d) (hx : x ∈ E) (hd : d ∈ E)
    (he : e ∈ E) (hxd : cmp x d = .gt) : cmp d e ≠ .gt := by
  obtain ⟨a, ha, hax, had⟩ := hf
  intro hde
  exact h.fork x hx a ha e he d hd (hflip.nc_symm hax) (h.trans x hx d hd e he hxd hde)
    (h.trans a ha d hd e he had hde) ⟨hxd, hde⟩

/-- Nothing is between a prong and the foot. -/
theorem Forked.not_between {x d e : α} (hf : Forked cmp E x d) (hx : x ∈ E) (hd : d ∈ E)
    (he : e ∈ E) (hxd : cmp x d = .gt) : ¬ (cmp x e = .gt ∧ cmp e d = .gt) := by
  obtain ⟨a, ha, hax, had⟩ := hf
  exact h.fork x hx a ha d hd e he (hflip.nc_symm hax) hxd had

/-- A value equal to a prong is the prong. -/
theorem Forked.prong_alone {x d w : α} (hf : Forked cmp E x d) (hx : x ∈ E) (hd : d ∈ E)
    (hw : w ∈ E) (hxd : cmp x d = .gt) (heq : cmp w x = .eq) : w = x := by
  obtain ⟨a, ha, hax, had⟩ := hf
  exact (h.alone x hx a ha d hd w hw (hflip.nc_symm hax) hxd had).1 heq

/-- A value equal to the foot is the foot. -/
theorem Forked.foot_alone {x d w : α} (hf : Forked cmp E x d) (hx : x ∈ E) (hd : d ∈ E)
    (hw : w ∈ E) (hxd : cmp x d = .gt) (heq : cmp w d = .eq) : w = d := by
  obtain ⟨a, ha, hax, had⟩ := hf
  exact (h.alone x hx a ha d hd w hw (hflip.nc_symm hax) hxd had).2 heq

end Forks

end Encoders.Lib
