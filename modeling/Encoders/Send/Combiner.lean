import Encoders.Lib.InTurn
import Encoders.Send.Order

/-!
# `PartialOrderCombinerOrdered`

The combiner asks the high order first, and the low one where the high one answers `NC`. It is
promised to be a partial order, as every subclass of `PartialOrder` is. It is one just when the
low order respects the high one. A number in an attribute, then the age, do not: an element
without the number can be older than one element and younger than another, whichever number
these have.
-/

namespace Encoders.Send

open Encoders.Lib Encoders.Data

variable {high low : PartialOrderElement → PartialOrderElement → Comparison}
  {a b : PartialOrderElement} {S : Set PartialOrderElement}

/-- `PartialOrderCombinerOrdered::compare`, of any two orders. -/
def compareCombined (high low : PartialOrderElement → PartialOrderElement → Comparison)
    (a b : PartialOrderElement) : Comparison :=
  if a.isInf then .gt
  else if b.isInf then .lt
  else if high a b ≠ .nc then high a b
  else low a b

/-- The combiners that the configuration makes are of this form. -/
theorem PartialOrder.compare_combinerOrdered (high low : PartialOrder) :
    (PartialOrder.combinerOrdered high low).compare = compareCombined high.compare low.compare := by
  funext a b
  unfold compareCombined PartialOrder.compare
  by_cases ha : a.isInf = true
  · rw [if_pos ha, if_pos ha]
  by_cases hb : b.isInf = true
  · rw [if_neg ha, if_neg ha, if_pos hb, if_pos hb]
  simp only [if_neg ha, if_neg hb]
  cases a.equivObjs.head? with
  | none => rfl
  | some x =>
      cases b.equivObjs.head? with
      | none => rfl
      | some y => rfl

/-- Between elements that are queued, the combiner asks in turn. -/
theorem compareCombined_eq_inTurn (ha : a.isInf = false) (hb : b.isInf = false) :
    compareCombined high low a b = inTurn high low a b := by
  unfold compareCombined inTurn
  rw [ha, hb]
  simp only [Bool.false_eq_true, if_false]

/-- The root is above every element that is queued, and compares with itself as above. -/
theorem not_strictOn_inf (ha : a ∈ S) (hinf : a.isInf = true) :
    ¬StrictOn (compareCombined high low) S := by
  intro h
  have hself : compareCombined high low a a = .gt := if_pos hinf
  have hlt := (h.antisymm a ha a ha).mp hself
  rw [hself] at hlt
  cases hlt

/-- Between queued elements the first of those that are equivalent speak. -/
theorem PartialOrder.compare_queued (po : PartialOrder) (ha : a.isInf = false)
    (hb : b.isInf = false) :
    po.compare a b =
      (a.equivObjs.head?.bind
        (fun x => b.equivObjs.head?.map (po.compareElements x))).getD .nc := by
  unfold PartialOrder.compare
  rw [ha, hb]
  simp only [Bool.false_eq_true, if_false]
  cases a.equivObjs.head? with
  | none => rfl
  | some x => cases b.equivObjs.head? <;> rfl

/-- The simple orders are orders between queued elements. -/
theorem strictOn_of_tame {po : PartialOrder} (htame : ∀ E, Tame po.compareElements E)
    (hS : ∀ a ∈ S, a.isInf = false) : StrictOn po.compare S := by
  refine ⟨fun a ha b hb => ?_, fun a ha b hb c hc => ?_⟩
  · rw [po.compare_queued (hS a ha) (hS b hb), po.compare_queued (hS b hb) (hS a ha)]
    cases a.equivObjs.head? with
    | none => cases b.equivObjs.head? <;> simp
    | some x =>
        cases b.equivObjs.head? with
        | none => simp
        | some y => exact po.flips.gt_iff
  · rw [po.compare_queued (hS a ha) (hS b hb), po.compare_queued (hS b hb) (hS c hc),
      po.compare_queued (hS a ha) (hS c hc)]
    cases a.equivObjs.head? with
    | none => exact fun hab => nomatch hab
    | some x =>
        cases b.equivObjs.head? with
        | none => exact fun hab => nomatch hab
        | some y =>
            cases c.equivObjs.head? with
            | none => exact fun _ hbc => nomatch hbc
            | some z => exact (htame [x, y, z]).trans x (by simp) y (by simp) z (by simp)

/--
**When the combination is an order.** Let two comparisons be orders up to equivalence between the
elements of a set that are queued. Their combination, and the comparison by any priority attribute,
are antisymmetric and transitive on the set just when the root is not in it and the low comparison
respects the high one.
-/
theorem combined_strictOn_iff
    (high low : PartialOrderElement → PartialOrderElement → Comparison)
    (S : Set PartialOrderElement)
    (hhigh : OrderOn high {a ∈ S | a.isInf = false})
    (hlow : OrderOn low {a ∈ S | a.isInf = false}) :
    (StrictOn (compareCombined high low) S ∧
      ∀ name, StrictOn (PartialOrder.priorityAttribute name).compare S) ↔
    (∀ a ∈ S, a.isInf = false) ∧ Respects high low S := by
  by_cases hS : ∀ a ∈ S, a.isInf = false
  · have hqueued : {a ∈ S | a.isInf = false} = S := by
      ext a
      exact ⟨fun ha => ha.1, fun ha => ⟨ha, hS a ha⟩⟩
    rw [hqueued] at hhigh hlow
    have hinTurn : StrictOn (compareCombined high low) S ↔ StrictOn (inTurn high low) S :=
      strictOn_congr (fun a ha b hb => compareCombined_eq_inTurn (hS a ha) (hS b hb))
    rw [hinTurn, inTurn_strictOn_iff hhigh hlow]
    exact ⟨fun h => ⟨hS, h.1⟩,
      fun h => ⟨h.2, fun name => strictOn_of_tame (tame_priority name) hS⟩⟩
  · refine iff_of_false (fun h => hS (fun a ha => ?_)) (fun h => hS h.1)
    cases hinf : a.isInf with
    | false => rfl
    | true => exact absurd h.1 (not_strictOn_inf ha hinf)

/-! ### A number, then the age -/

theorem age_lo (sec : Nat) : -9223372036854775808 ≤ ((sec % 10 : Nat) : Int) := by omega

theorem age_hi (sec : Nat) : ((sec % 10 : Nat) : Int) ≤ 9223372036854775807 := by omega

/-- A queued element of an age, with some attributes. -/
def aged (addr sec : Nat) (attrs : List Attribute) : PartialOrderElement :=
  ⟨false, [⟨addr, some ⟨addr, [UInt8.ofNat addr], attrs⟩, none,
    ⟨((sec % 10 : Nat) : Int), 0, age_lo sec, age_hi sec, Timeval.whole_usec⟩, 1⟩]⟩

/-- The youngest has the number 5. -/
def youngest : PartialOrderElement := aged 1 3 [⟨lit "Level", lit "5", 1⟩]

/-- No number. -/
def unnumbered : PartialOrderElement := aged 2 2 []

/-- The oldest has the number 3. -/
def oldest : PartialOrderElement := aged 3 1 [⟨lit "Level", lit "3", 1⟩]

/-- The number decides, and every element is as good as itself. -/
def compareLevel (a b : PartialOrderElement) : Comparison :=
  if a.equivObjs = b.equivObjs then .eq
  else (PartialOrder.priorityAttribute (lit "Level")).compare a b

theorem orderOn_level : OrderOn compareLevel {a | a ∈ [youngest, unnumbered, oldest]} :=
  ⟨(by decide +kernel : ∀ x ∈ [youngest, unnumbered, oldest],
      ∀ y ∈ [youngest, unnumbered, oldest], compareLevel y x = (compareLevel x y).flip),
    (by decide +kernel : ∀ x ∈ [youngest, unnumbered, oldest],
      ∀ y ∈ [youngest, unnumbered, oldest], ∀ z ∈ [youngest, unnumbered, oldest],
        (compareLevel x y).AtLeast → (compareLevel y z).AtLeast → (compareLevel x z).AtLeast)⟩

theorem orderOn_age :
    OrderOn PartialOrder.fifo.compare {a | a ∈ [youngest, unnumbered, oldest]} :=
  ⟨(by decide +kernel : ∀ x ∈ [youngest, unnumbered, oldest],
      ∀ y ∈ [youngest, unnumbered, oldest],
        PartialOrder.fifo.compare y x = (PartialOrder.fifo.compare x y).flip),
    (by decide +kernel : ∀ x ∈ [youngest, unnumbered, oldest],
      ∀ y ∈ [youngest, unnumbered, oldest], ∀ z ∈ [youngest, unnumbered, oldest],
        (PartialOrder.fifo.compare x y).AtLeast → (PartialOrder.fifo.compare y z).AtLeast →
          (PartialOrder.fifo.compare x z).AtLeast)⟩

theorem numbered_subset :
    {a | a ∈ ({a | a ∈ [youngest, oldest]} : Set PartialOrderElement) ∧ a.isInf = false} ⊆
      {a | a ∈ [youngest, unnumbered, oldest]} :=
  fun _ ha => (by simp : [youngest, oldest] ⊆ [youngest, unnumbered, oldest]) ha.1

/-- Elements that all have the number are in order. -/
theorem combined_strictOn_numbered :
    StrictOn (compareCombined compareLevel PartialOrder.fifo.compare) {a | a ∈ [youngest, oldest]} :=
  ((combined_strictOn_iff compareLevel PartialOrder.fifo.compare {a | a ∈ [youngest, oldest]}
    (orderOn_level.mono numbered_subset) (orderOn_age.mono numbered_subset)).mpr
    ⟨(by decide +kernel : ∀ a ∈ [youngest, oldest], a.isInf = false),
      respects_of_total (by decide +kernel : ∀ x ∈ [youngest, oldest],
        ∀ y ∈ [youngest, oldest], compareLevel x y ≠ .nc)⟩).1

/-- An element without the number stands between two that have one, the wrong way round: the three
go round in a circle. The comparisons are orders, and the configuration can ask for them. -/
theorem combined_goes_round :
    (¬ ∀ (high low : PartialOrderElement → PartialOrderElement → Comparison)
      (S : Set PartialOrderElement), (∀ a ∈ S, a.isInf = false) →
        (∀ a ∈ S, high a a = .eq) → (∀ a ∈ S, low a a = .eq) → OrderOn high S → OrderOn low S →
          StrictOn (compareCombined high low) S) ∧
      (PartialOrder.combinerOrdered (.priorityAttribute (lit "Level")) .fifo).compare
        youngest oldest = .gt ∧
      (PartialOrder.combinerOrdered (.priorityAttribute (lit "Level")) .fifo).compare
        oldest unnumbered = .gt ∧
      (PartialOrder.combinerOrdered (.priorityAttribute (lit "Level")) .fifo).compare
        unnumbered youngest = .gt := by
  refine ⟨fun h => ?_, by decide +kernel, by decide +kernel, by decide +kernel⟩
  have horder := h compareLevel PartialOrder.fifo.compare {a | a ∈ [youngest, unnumbered, oldest]}
    (by decide +kernel : ∀ a ∈ [youngest, unnumbered, oldest], a.isInf = false)
    (by decide +kernel : ∀ a ∈ [youngest, unnumbered, oldest], compareLevel a a = .eq)
    (by decide +kernel : ∀ a ∈ [youngest, unnumbered, oldest],
      PartialOrder.fifo.compare a a = .eq)
    orderOn_level orderOn_age
  have hround := horder.trans youngest (by simp) oldest (by simp) unnumbered (by simp)
    (by decide +kernel) (by decide +kernel)
  exact absurd hround (by decide +kernel)

end Encoders.Send
