import Encoders.Send.AddElement

/-!
# Priorities and deliveries

What a run of `addElement` and `popTop` keeps: the sorter is sound, and what came out and
what it holds are what was put in (`Accounts`). While the elements of the run are tame,
every call keeps it, so `popTop` returns nothing while something above it waits
(`popTop_unbeaten`), and every element comes out as often as it went in
(`delivered_exactly`).

Where the elements are not tame both fail. With the order that puts an attribute first
and the number in another second, an object without a number is beside every other that
has the attribute, and still above what has it not. Taking it out brings that up, past
elements that are above it (`prong_leaves_early`). And an element that equals one prong is
linked a second time beside it (`linked_twice`).
-/

namespace Encoders.Send

open Encoders.Lib Encoders.Data TopologicalSorter

variable {se : SendPriorityElement} {fuel : Nat}

/-- What was put in has come out or is held. -/
structure Accounts (E : List SendPriorityElement) (po : PartialOrder) (r : SorterRun) : Prop where
  sound : ∃ N, Sound E N r.sorter
  order : r.sorter.partialOrder = po
  balance : (r.popped : Multiset SendPriorityElement) + r.sorter.held = r.added
  size : r.sorter.numElements = r.added.length - r.popped.length

variable {E : List SendPriorityElement} {po : PartialOrder}

theorem accounts_start (E : List SendPriorityElement) (po : PartialOrder) :
    Accounts E po (.start po) where
  sound := ⟨∅, sound_new po E⟩
  order := rfl
  balance := by
    show (0 : Multiset SendPriorityElement) + (new po).held = 0
    rw [(sound_new po E).held_eq, Finset.sum_empty, add_zero]
  size := rfl

/-- A pointer that may be added is not in the sorter. -/
theorem Accounts.notHeld {r : SorterRun} (h : Accounts E po r) (hfresh : r.Fresh (.addElement se)) :
    ∀ e ∈ r.sorter.held, e.addr ≠ se.addr := by
  have hcount := congrArg (Multiset.countP (fun e => e.addr = se.addr)) h.balance
  rw [Multiset.countP_add, Multiset.coe_countP, Multiset.coe_countP] at hcount
  have hfresh' : r.added.countP (fun e => e.addr = se.addr) =
      r.popped.countP (fun e => e.addr = se.addr) := hfresh
  have hzero : Multiset.countP (fun e => e.addr = se.addr) r.sorter.held = 0 := by omega
  exact Multiset.countP_eq_zero.mp hzero

/-- **One call keeps the accounts.** -/
theorem accounts_step (T : Tame po.compareElements E) {r : SorterRun} {op : SorterOp}
    (h : Accounts E po r) (hfresh : r.Fresh op) (hE : ∀ se, op = .addElement se → se ∈ E) :
    ∃ r', Accounts E po r' ∧ ∃ n, ∀ fuel, n ≤ fuel → r.step fuel op = some r' := by
  obtain ⟨N, hsound⟩ := h.sound
  have T' : Tame r.sorter.partialOrder.compareElements E := by
    rw [h.order]
    exact T
  cases op with
  | addElement se =>
      obtain ⟨s', N', hsound', hheld, hpo, hnum, -, n, hn⟩ :=
        addElement_spec hsound T' (hE se rfl) (h.notHeld hfresh)
      -- what comes in is on the balance, what goes out leaves it
      refine ⟨⟨s', se :: r.added, r.popped⟩, ⟨⟨N', hsound'⟩, hpo.trans h.order, ?_, ?_⟩, n, ?_⟩
      · rw [hheld, Multiset.add_cons, h.balance]
        rfl
      · show s'.numElements = _
        rw [hnum, h.size, List.length_cons]
        push_cast
        omega
      · intro fuel hfuel
        rw [SorterRun.step, hn fuel hfuel]
        rfl
  | popTop =>
      rcases hsound.popTop_spec T' with ⟨hpop, -⟩ | ⟨e, s', N', hpop, hsound', hheld, hpo, hnum, -⟩
      · refine ⟨r, h, 0, ?_⟩
        intro fuel _
        rw [SorterRun.step, hpop]
        rfl
      · refine ⟨⟨s', r.added, e :: r.popped⟩, ⟨⟨N', hsound'⟩, hpo.trans h.order, ?_, ?_⟩, 0, ?_⟩
        · rw [← h.balance, hheld, Multiset.add_cons, ← Multiset.cons_coe, Multiset.cons_add]
        · show s'.numElements = _
          rw [hnum, h.size, List.length_cons]
          push_cast
          omega
        · intro fuel _
          rw [SorterRun.step, hpop]
          rfl

/-- What a run adds is what its calls add. -/
theorem added_after : ∀ {ops : List SorterOp} {r r' : SorterRun},
    run (SorterRun.step fuel) r ops = some r' → r'.added = (addedBy ops).reverse ++ r.added
  | [], r, r', h => by
      simp only [run, Option.some.injEq] at h
      rw [h]
      rfl
  | op :: ops, r, r', h => by
      rw [run, Option.bind_eq_some_iff] at h
      obtain ⟨t, ht, h⟩ := h
      rw [added_after h]
      cases op with
      | addElement se =>
          simp only [SorterRun.step, Option.map_eq_some_iff] at ht
          obtain ⟨s', -, rfl⟩ := ht
          simp [addedBy]
      | popTop =>
          simp only [SorterRun.step, Option.map_eq_some_iff] at ht
          obtain ⟨p, -, rfl⟩ := ht
          simp [addedBy]

/-- **Every run over tame elements keeps the accounts.** -/
theorem accounts_after (po : PartialOrder) (ops : List SorterOp)
    (T : Tame po.compareElements (addedBy ops)) : ∃ n, ∀ fuel, n ≤ fuel →
      Guarded (SorterRun.step fuel) SorterRun.Fresh (.start po) ops →
      ∃ r, SorterRun.after fuel po ops = some r ∧ Accounts (addedBy ops) po r := by
  have hstep : ∀ r op, Accounts (addedBy ops) po r →
      (r.Fresh op ∧ ∀ se, op = .addElement se → se ∈ addedBy ops) →
      ∃ r', Accounts (addedBy ops) po r' ∧
        ∃ n, ∀ fuel, n ≤ fuel → SorterRun.step fuel r op = some r' :=
    fun r op h hok => accounts_step T h hok.1 hok.2
  obtain ⟨n, hn⟩ := @run_converges _ _ SorterRun.step
    (fun r op => r.Fresh op ∧ ∀ se, op = .addElement se → se ∈ addedBy ops) _ hstep ops
    (.start po) (accounts_start _ po)
  refine ⟨n, ?_⟩
  intro fuel hfuel hg
  refine hn fuel hfuel ?_
  rw [guarded_iff] at hg ⊢
  intro pre op post heq r hr
  refine ⟨hg pre op post heq r hr, ?_⟩
  rintro se rfl
  rw [heq]
  simp [addedBy]

/-! ## Priorities -/

/--
**Nothing leaves the sorter while something above it waits.** This holds in every run over
elements that are tame for the configured order, with pointers added only when they are not
in the sorter.
-/
theorem popTop_unbeaten (po : PartialOrder) (ops : List SorterOp)
    (T : Tame po.compareElements (addedBy ops)) : ∃ n, ∀ fuel, n ≤ fuel →
      Guarded (SorterRun.step fuel) SorterRun.Fresh (.start po) ops →
      ∃ r, SorterRun.after fuel po ops = some r ∧ ∃ top s', r.sorter.popTop = some (top, s') ∧
        ∀ x, top = some x → ∀ y ∈ s'.held, po.compareElements y x ≠ .gt := by
  obtain ⟨n, hn⟩ := accounts_after po ops T
  refine ⟨n, ?_⟩
  intro fuel hfuel hg
  obtain ⟨r, hr, hacc⟩ := hn fuel hfuel hg
  refine ⟨r, hr, ?_⟩
  obtain ⟨N, hsound⟩ := hacc.sound
  have T' : Tame r.sorter.partialOrder.compareElements (addedBy ops) := by
    rw [hacc.order]
    exact T
  rcases hsound.popTop_spec T' with ⟨hpop, -⟩ | ⟨e, s', N', hpop, -, hheld, -, -, hbest, -⟩
  · refine ⟨none, r.sorter, hpop, ?_⟩
    intro x hx
    exact absurd hx (by simp)
  · refine ⟨some e, s', hpop, ?_⟩
    intro x hx y hy
    injection hx with hx
    rw [← hx, ← hacc.order]
    exact hbest y (by rw [hheld]; exact Multiset.mem_cons_of_mem hy)

/-- With more fuel an `addElement` that has returned returns the same. -/
theorem addElement_more {fuel' : Nat} (hle : fuel ≤ fuel') {s s' : TopologicalSorter}
    (h : s.addElement fuel se = some s') : s.addElement fuel' se = some s' := by
  simp only [addElement, Option.bind_eq_some_iff] at h ⊢
  obtain ⟨comparable, hcomp, h⟩ := h
  refine ⟨comparable, hcomp, ?_⟩
  by_cases hnil : comparable = []
  · rwa [if_pos hnil] at h ⊢
  · rw [if_neg hnil, Option.map_eq_some_iff] at h ⊢
    obtain ⟨s₁, hs₁, heq⟩ := h
    exact ⟨s₁, worklist_more hle hs₁, heq⟩

/-- With more fuel a call that has returned returns the same. -/
theorem step_more {fuel' : Nat} (hle : fuel ≤ fuel') (r : SorterRun) (op : SorterOp)
    (r' : SorterRun) (h : r.step fuel op = some r') : r.step fuel' op = some r' := by
  cases op with
  | popTop => exact h
  | addElement se =>
      simp only [SorterRun.step, Option.map_eq_some_iff] at h ⊢
      obtain ⟨s', hs', hr⟩ := h
      exact ⟨s', addElement_more hle hs', hr⟩

/-- The order of an attribute first and of the number in another second. -/
def markedThenNumber : PartialOrder :=
  .combinerOrdered (.attribute (lit "Urgent")) (.priorityAttribute (lit "Level"))

/-- An element at an address, with a data object of some attributes. -/
def elementOf (addr : Nat) (attrs : List Attribute) : SendPriorityElement :=
  ⟨addr, some ⟨addr, [UInt8.ofNat addr], attrs⟩, none, noTime, 1⟩

/-- Has the attribute, and no number. -/
def urgent : SendPriorityElement := elementOf 1 [⟨lit "Urgent", lit "yes", 1⟩]

/-- Has both. -/
def urgentLevel (addr : Nat) (level : String) : SendPriorityElement :=
  elementOf addr [⟨lit "Level", lit level, 1⟩, ⟨lit "Urgent", lit "yes", 1⟩]

/-- Has neither. -/
def plain : SendPriorityElement := elementOf 4 []

/-- A run over a chain, inserted from below. -/
def chainRun : List SorterOp :=
  [.addElement plain, .addElement (urgentLevel 3 "1"), .addElement (urgentLevel 2 "2"), .popTop]

/-- The chain is in order with any fuel that is enough. -/
theorem guarded_chainRun (hfuel : 9 ≤ fuel) :
    Guarded (SorterRun.step fuel) SorterRun.Fresh (.start markedThenNumber) chainRun := by
  have hran : (SorterRun.after 9 markedThenNumber chainRun).isSome = true := by decide +kernel
  obtain ⟨r, hr⟩ := Option.isSome_iff_exists.mp hran
  exact guarded_more (step_more hfuel) hr (by decide +kernel)

/-- `popTop_unbeaten` applied to a chain. -/
theorem popTop_unbeaten_chain : ∃ fuel,
    Guarded (SorterRun.step fuel) SorterRun.Fresh (.start markedThenNumber) chainRun ∧
    ∃ r, SorterRun.after fuel markedThenNumber chainRun = some r ∧
      ∃ top s', r.sorter.popTop = some (top, s') ∧
        ∀ x, top = some x → ∀ y ∈ s'.held, markedThenNumber.compareElements y x ≠ .gt := by
  obtain ⟨n, hn⟩ := popTop_unbeaten markedThenNumber chainRun (by decide +kernel)
  exact ⟨max n 9, guarded_chainRun (Nat.le_max_right n 9), hn _ (Nat.le_max_left n 9)
    (guarded_chainRun (Nat.le_max_right n 9))⟩

/-- Two incomparable elements above `plain`, one of them with something in between. -/
def prongRun : List SorterOp :=
  [.addElement urgent, .addElement (urgentLevel 2 "2"), .addElement (urgentLevel 3 "1"),
    .addElement plain, .popTop, .popTop]

/-- **`popTop` returns `plain` while an element above it waits.** -/
theorem prong_leaves_early : ∃ r s' x y, SorterRun.after 9 markedThenNumber prongRun = some r ∧
    r.sorter.popTop = some (some x, s') ∧ y ∈ s'.held ∧
    markedThenNumber.compareElements y x = .gt := by
  have hran : ((SorterRun.after 9 markedThenNumber prongRun).bind
      (fun r => r.sorter.popTop)).map (fun p => (p.1, p.2.children root, p.2.equivObjs 3, p.2.next)) =
      some (some plain, [3], [urgentLevel 3 "1"], 5) := by decide +kernel
  simp only [Option.map_eq_some_iff, Option.bind_eq_some_iff, Prod.mk.injEq] at hran
  obtain ⟨⟨top, s'⟩, ⟨r, hr, hpop⟩, htop, hroot, hobjs, hnext⟩ := hran
  dsimp only at htop hroot hobjs hnext
  subst htop
  refine ⟨r, s', plain, urgentLevel 3 "1", hr, hpop, ?_, by decide +kernel⟩
  refine mem_held_of_linked (n := 3) (by omega) ?_ (by rw [hobjs]; exact List.mem_cons_self)
  exact Relation.ReflTransGen.single (by rw [hroot]; exact List.mem_cons_self)

/-! ## Deliveries -/

/--
**What comes out and what is left is what was put in, and `getSize` counts what is left.** This
holds in every run over elements that are tame for the configured order, with pointers added only
when they are not in the sorter.
-/
theorem delivered_exactly (po : PartialOrder) (ops : List SorterOp)
    (T : Tame po.compareElements (addedBy ops)) : ∃ n, ∀ fuel, n ≤ fuel →
      Guarded (SorterRun.step fuel) SorterRun.Fresh (.start po) ops →
      ∃ r, SorterRun.after fuel po ops = some r ∧
        (r.popped : Multiset SendPriorityElement) + r.sorter.held = addedBy ops ∧
        r.sorter.getSize = (addedBy ops).length - r.popped.length := by
  obtain ⟨n, hn⟩ := accounts_after po ops T
  refine ⟨n, ?_⟩
  intro fuel hfuel hg
  obtain ⟨r, hr, hacc⟩ := hn fuel hfuel hg
  have hadded : r.added = (addedBy ops).reverse := by
    rw [added_after hr]
    exact List.append_nil _
  refine ⟨r, hr, ?_, ?_⟩
  · rw [hacc.balance, hadded]
    exact Multiset.coe_eq_coe.mpr (List.reverse_perm _)
  · rw [getSize, hacc.size, hadded, List.length_reverse]

/-- `delivered_exactly` applied to a chain. -/
theorem delivered_exactly_chain : ∃ fuel,
    Guarded (SorterRun.step fuel) SorterRun.Fresh (.start markedThenNumber) chainRun ∧
    ∃ r, SorterRun.after fuel markedThenNumber chainRun = some r ∧
      (r.popped : Multiset SendPriorityElement) + r.sorter.held = addedBy chainRun ∧
      r.sorter.getSize = (addedBy chainRun).length - r.popped.length := by
  obtain ⟨n, hn⟩ := delivered_exactly markedThenNumber chainRun (by decide +kernel)
  exact ⟨max n 9, guarded_chainRun (Nat.le_max_right n 9), hn _ (Nat.le_max_left n 9)
    (guarded_chainRun (Nat.le_max_right n 9))⟩

/-- A prong is taken out, and an equal of the other comes in. -/
def twiceRun : List SorterOp :=
  [.addElement urgent, .addElement (urgentLevel 2 "1"), .addElement plain, .popTop,
    .addElement (urgentLevel 3 "1"), .popTop, .popTop, .popTop]

/-- **An element that was added once comes out twice.** -/
theorem linked_twice : ∃ r, SorterRun.after 9 markedThenNumber twiceRun = some r ∧
    (r.popped : Multiset SendPriorityElement) + r.sorter.held ≠ addedBy twiceRun := by
  have hran : (SorterRun.after 9 markedThenNumber twiceRun).map
      (fun r => r.popped.count (urgentLevel 3 "1")) = some 2 := by decide +kernel
  obtain ⟨r, hr, hpopped⟩ := Option.map_eq_some_iff.mp hran
  refine ⟨r, hr, ?_⟩
  intro heq
  have hcount := congrArg (Multiset.count (urgentLevel 3 "1")) heq
  rw [Multiset.count_add, Multiset.coe_count, Multiset.coe_count, hpopped] at hcount
  have hadded : (addedBy twiceRun).count (urgentLevel 3 "1") = 1 := by decide +kernel
  omega

end Encoders.Send
