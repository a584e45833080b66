import Encoders.Lib.Comparison
import Mathlib.Data.Set.Basic

/-!
# One comparison after another

Two comparisons with four outcomes can be asked in turn: the second one decides where the
first has nothing to say. Of total preorders this makes a lexicographic order. Of partial ones
it need not make an order at all, because being incomparable is not transitive: what the first
comparison puts apart, the second may join through a third value the first says nothing about.

`Respects` is what the two have to agree on. It is necessary and enough.
-/

namespace Encoders.Lib

/-- Above or as good as. -/
def Comparison.AtLeast (c : Comparison) : Prop := c = .gt ∨ c = .eq

instance Comparison.decidableAtLeast (c : Comparison) : Decidable c.AtLeast :=
  inferInstanceAs (Decidable (c = .gt ∨ c = .eq))

variable {α : Type} {S : Set α} {cmp high low : α → α → Comparison}

/-- A comparison that is a preorder on a set of values: at-least is transitive, and the outcome
is the same from both sides. -/
structure OrderOn (cmp : α → α → Comparison) (S : Set α) : Prop where
  flips : ∀ x ∈ S, ∀ y ∈ S, cmp y x = (cmp x y).flip
  trans : ∀ x ∈ S, ∀ y ∈ S, ∀ z ∈ S,
    (cmp x y).AtLeast → (cmp y z).AtLeast → (cmp x z).AtLeast

theorem OrderOn.mono {T : Set α} (h : OrderOn cmp S) (hsub : T ⊆ S) : OrderOn cmp T where
  flips x hx y hy := h.flips x (hsub hx) y (hsub hy)
  trans x hx y hy z hz := h.trans x (hsub hx) y (hsub hy) z (hsub hz)

/-- A comparison that is a total preorder on a list of values. -/
structure TotalOn (cmp : α → α → Comparison) (E : List α) : Prop where
  total : ∀ x ∈ E, ∀ y ∈ E, cmp x y ≠ .nc
  trans : ∀ x ∈ E, ∀ y ∈ E, ∀ z ∈ E,
    (cmp x y).AtLeast → (cmp y z).AtLeast → (cmp x z).AtLeast

/-- Of two values either one is at least as good as the other or the other is above it. -/
theorem TotalOn.atLeast_iff {E : List α} (h : TotalOn cmp E) (F : Flips cmp) {x y : α}
    (hx : x ∈ E) (hy : y ∈ E) : (cmp x y).AtLeast ↔ cmp y x ≠ .gt := by
  have hnc := h.total x hx y hy
  rw [F x y]
  cases hxy : cmp x y with
  | nc => exact absurd hxy hnc
  | lt => simp [Comparison.AtLeast, Comparison.flip]
  | gt => simp [Comparison.AtLeast, Comparison.flip]
  | eq => simp [Comparison.AtLeast, Comparison.flip]

/-- Where everything can be compared there are no forks. -/
theorem TotalOn.tame {E : List α} (h : TotalOn cmp E) (F : Flips cmp) : Tame cmp E := by
  have hgt : ∀ x ∈ E, ∀ y ∈ E, cmp x y = .gt ↔ ¬(cmp y x).AtLeast := by
    intro x hx y hy
    rw [h.atLeast_iff F hy hx, not_not]
  refine tame_of_no_forks ?_ ?_ ?_
  · intro x hx y hy z hz hxy hyz
    rw [hgt x hx y hy] at hxy
    rw [hgt x hx z hz]
    exact fun hzx => hxy (h.trans y hy z hz x hx (Or.inl hyz) hzx)
  · intro x hx y hy z hz hxy
    have hdown : (cmp x z).AtLeast ↔ (cmp y z).AtLeast :=
      ⟨h.trans y hy x hx z hz (Or.inr (F.eq_symm hxy)), h.trans x hx y hy z hz (Or.inr hxy)⟩
    have hup : (cmp z x).AtLeast ↔ (cmp z y).AtLeast :=
      ⟨fun hzx => h.trans z hz x hx y hy hzx (Or.inr hxy),
        fun hzy => h.trans z hz y hy x hx hzy (Or.inr (F.eq_symm hxy))⟩
    -- both outcomes are told by who is at least as good as whom
    have hx' := h.total x hx z hz
    have hy' := h.total y hy z hz
    rw [F x z, F y z] at hup
    revert hdown hup hx' hy'
    cases cmp x z <;> cases cmp y z <;> simp [Comparison.AtLeast, Comparison.flip]
  · intro x hx y hy d _ hnc
    exact absurd hnc (h.total x hx y hy)

/-- A comparison whose strict part is an order on a set of values. -/
structure StrictOn (cmp : α → α → Comparison) (S : Set α) : Prop where
  antisymm : ∀ x ∈ S, ∀ y ∈ S, cmp x y = .gt ↔ cmp y x = .lt
  trans : ∀ x ∈ S, ∀ y ∈ S, ∀ z ∈ S, cmp x y = .gt → cmp y z = .gt → cmp x z = .gt

/-- On a set only what the comparison says between its values matters. -/
theorem strictOn_congr {cmp' : α → α → Comparison}
    (h : ∀ x ∈ S, ∀ y ∈ S, cmp x y = cmp' x y) : StrictOn cmp S ↔ StrictOn cmp' S := by
  have hof : ∀ {c c' : α → α → Comparison}, (∀ x ∈ S, ∀ y ∈ S, c x y = c' x y) →
      StrictOn c S → StrictOn c' S := by
    intro c c' hcc hstrict
    refine ⟨fun x hx y hy => ?_, fun x hx y hy z hz => ?_⟩
    · rw [← hcc x hx y hy, ← hcc y hy x hx]
      exact hstrict.antisymm x hx y hy
    · rw [← hcc x hx y hy, ← hcc y hy z hz, ← hcc x hx z hz]
      exact hstrict.trans x hx y hy z hz
  exact ⟨hof h, hof (fun x hx y hy => (h x hx y hy).symm)⟩

/-- The second comparison where the first has nothing to say. -/
def inTurn (high low : α → α → Comparison) (x y : α) : Comparison :=
  if high x y ≠ .nc then high x y else low x y

/--
The second comparison respects the first: take a value `w` the first says nothing about, beside
`p` and beside `q`. If the first puts `p` above `q`, then by the second what is below `q` is
below `p`, and what is above `p` is above `q`. If the first has the two as equal, the second
does not put `w` between them.
-/
def Respects (high low : α → α → Comparison) (S : Set α) : Prop :=
  ∀ p ∈ S, ∀ q ∈ S, ∀ w ∈ S, high w p = .nc → high w q = .nc →
    (high p q = .gt →
      (low q w = .gt → low p w = .gt) ∧ (low w p = .gt → low w q = .gt)) ∧
    (high p q = .eq → ¬(low p w = .gt ∧ low w q = .gt))

theorem inTurn_of_nc {x y : α} (h : high x y = .nc) : inTurn high low x y = low x y :=
  if_neg (not_not.mpr h)

theorem inTurn_of_ne {x y : α} (h : high x y ≠ .nc) : inTurn high low x y = high x y := if_pos h

/-- Where the strict outcome comes from. -/
theorem inTurn_gt_iff {x y : α} :
    inTurn high low x y = .gt ↔ high x y = .gt ∨ high x y = .nc ∧ low x y = .gt := by
  unfold inTurn
  cases high x y <;> simp

namespace OrderOn

variable (h : OrderOn cmp S) {x y z : α} (hx : x ∈ S) (hy : y ∈ S) (hz : z ∈ S)
include h hx hy

theorem gt_iff : cmp y x = .gt ↔ cmp x y = .lt := by
  rw [h.flips x hx y hy, Comparison.flip_eq_iff]
  rfl

theorem nc_symm (hnc : cmp x y = .nc) : cmp y x = .nc := by
  rw [h.flips x hx y hy, hnc]
  rfl

theorem eq_symm (heq : cmp x y = .eq) : cmp y x = .eq := by
  rw [h.flips x hx y hy, heq]
  rfl

include hz

/-- Nothing at least as good as a value is below it. -/
theorem gt_of_gt_atLeast (hxy : cmp x y = .gt) (hyz : (cmp y z).AtLeast) : cmp x z = .gt := by
  rcases h.trans x hx y hy z hz (.inl hxy) hyz with hgt | heq
  · exact hgt
  · -- else `y` would be at least `x`
    have hback := h.trans y hy z hz x hx hyz (.inr (h.eq_symm hx hz heq))
    rw [h.flips x hx y hy, hxy] at hback
    rcases hback with hback | hback
    · cases hback
    · cases hback

/-- What is at least a value that is at least `z` is not incomparable to `z`. -/
theorem not_nc (hxy : (cmp x y).AtLeast) (hyz : (cmp y z).AtLeast) : cmp x z ≠ .nc := by
  intro hnc
  rcases h.trans x hx y hy z hz hxy hyz with hgt | heq
  · rw [hnc] at hgt
    cases hgt
  · rw [hnc] at heq
    cases heq

end OrderOn

section InTurn

variable (hhigh : OrderOn high S) (hlow : OrderOn low S)
include hhigh hlow

theorem inTurn_flips {x y : α} (hx : x ∈ S) (hy : y ∈ S) :
    inTurn high low y x = (inTurn high low x y).flip := by
  unfold inTurn
  rw [hhigh.flips x hx y hy, hlow.flips x hx y hy]
  cases high x y <;> rfl

/-- Respect makes the strict part of asking in turn transitive. -/
theorem inTurn_trans (hresp : Respects high low S) {x y z : α} (hx : x ∈ S) (hy : y ∈ S)
    (hz : z ∈ S) (hxy : inTurn high low x y = .gt) (hyz : inTurn high low y z = .gt) :
    inTurn high low x z = .gt := by
  rw [inTurn_gt_iff] at hxy hyz ⊢
  -- the four cases: which of the two comparisons decided about `x, y` and about `y, z`
  rcases hxy with hxy | ⟨hncxy, hxy⟩
  · rcases hyz with hyz | ⟨hncyz, hyz⟩
    · exact .inl (hhigh.gt_of_gt_atLeast hx hy hz hxy (.inl hyz))
    · cases hxz : high x z with
      | gt => exact .inl rfl
      | nc =>
          have hzx := hhigh.nc_symm hx hz hxz
          have hzy := hhigh.nc_symm hy hz hncyz
          exact .inr ⟨rfl, ((hresp x hx y hy z hz hzx hzy).1 hxy).1 hyz⟩
      | lt =>
          have hzx := (hhigh.gt_iff hx hz).mpr hxz
          exact absurd (hhigh.nc_symm hy hz hncyz) (hhigh.not_nc hz hx hy (.inl hzx) (.inl hxy))
      | eq =>
          have hzx := hhigh.eq_symm hx hz hxz
          exact absurd (hhigh.nc_symm hy hz hncyz) (hhigh.not_nc hz hx hy (.inr hzx) (.inl hxy))
  · rcases hyz with hyz | ⟨hncyz, hyz⟩
    · cases hxz : high x z with
      | gt => exact .inl rfl
      | nc => exact .inr ⟨rfl, ((hresp y hy z hz x hx hncxy hxz).1 hyz).2 hxy⟩
      | lt =>
          have hzx := (hhigh.gt_iff hx hz).mpr hxz
          exact absurd (hhigh.nc_symm hx hy hncxy) (hhigh.not_nc hy hz hx (.inl hyz) (.inl hzx))
      | eq =>
          have hzx := hhigh.eq_symm hx hz hxz
          exact absurd (hhigh.nc_symm hx hy hncxy) (hhigh.not_nc hy hz hx (.inl hyz) (.inr hzx))
    · have hyx := hhigh.nc_symm hx hy hncxy
      cases hxz : high x z with
      | gt => exact .inl rfl
      | nc => exact .inr ⟨rfl, hlow.gt_of_gt_atLeast hx hy hz hxy (.inl hyz)⟩
      | eq => exact absurd ⟨hxy, hyz⟩ ((hresp x hx z hz y hy hyx hncyz).2 hxz)
      | lt =>
          -- `z` above `x` by the first, and `x` above `y` by the second: so `z` above `y`
          have hzx := (hhigh.gt_iff hx hz).mpr hxz
          have hzy := ((hresp z hz x hx y hy hncyz hyx).1 hzx).1 hxy
          have hless := (hlow.gt_iff hy hz).mp hzy
          rw [hyz] at hless
          cases hless

/-- **Asking in turn gives an order just when the second comparison respects the first.** -/
theorem inTurn_strictOn_iff : StrictOn (inTurn high low) S ↔ Respects high low S := by
  constructor
  · intro h p hp q hq w hw hwp hwq
    have hpw := hhigh.nc_symm hw hp hwp
    have hqw := hhigh.nc_symm hw hq hwq
    refine ⟨fun hpq => ⟨fun hlow' => ?_, fun hlow' => ?_⟩, ?_⟩
    · have hgt := h.trans p hp q hq w hw (inTurn_gt_iff.mpr (.inl hpq))
        (inTurn_gt_iff.mpr (.inr ⟨hqw, hlow'⟩))
      rwa [inTurn_of_nc hpw] at hgt
    · have hgt := h.trans w hw p hp q hq (inTurn_gt_iff.mpr (.inr ⟨hwp, hlow'⟩))
        (inTurn_gt_iff.mpr (.inl hpq))
      rwa [inTurn_of_nc hwq] at hgt
    · rintro hpq ⟨hlpw, hlwq⟩
      have hgt := h.trans p hp w hw q hq (inTurn_gt_iff.mpr (.inr ⟨hpw, hlpw⟩))
        (inTurn_gt_iff.mpr (.inr ⟨hwq, hlwq⟩))
      rw [inTurn_of_ne (by rw [hpq]; decide), hpq] at hgt
      cases hgt
  · intro hresp
    refine ⟨fun x hx y hy => ?_, fun x hx y hy z hz => inTurn_trans hhigh hlow hresp hx hy hz⟩
    rw [inTurn_flips hhigh hlow hx hy, Comparison.flip_eq_iff]
    rfl

end InTurn

/-- Where the first comparison always has something to say, the second is respectful. -/
theorem respects_of_total (h : ∀ x ∈ S, ∀ y ∈ S, high x y ≠ .nc) : Respects high low S :=
  fun p hp _ _ w hw hwp _ => absurd hwp (h w hw p hp)

end Encoders.Lib
