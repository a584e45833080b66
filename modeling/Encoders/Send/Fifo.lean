import Encoders.Lib.InTurn
import Encoders.Send.QueueAccounts

/-!
# First in, first out

Elements of one priority stand in one node of the sorter, in the order they were added, and
`popTop` takes the first of them. What breaks the order is `startSend`: it takes the top
element out before it looks whether a station is free, and if none is it adds the element
again, which puts it behind the others of its priority.

`Passed` already says what a call does to each line, and when. So a run in which no element is
ever put back past another dispatches the elements of a line in the order they were added
(`dispatched_in_order`). Three elements are enough to see it fail (`overtaken`).

A queue without stations is different: every call throws its state away, and nothing is sent.
-/

namespace Encoders.Send

open Encoders.Lib Encoders.Data TopologicalSorter

/-- What a call has put on the stations of a node: it stands behind what was there. -/
def SendQueue.dispatched (q q' : SendQueue) (name : CString) (op : QueueOp) :
    List SendPriorityElement :=
  (q'.stations name).drop (q.remaining name op).length

/-- A queue, with what was put on the stations of each node, in this order. -/
structure FifoRun where
  run : QueueRun
  sent : CString → List SendPriorityElement

namespace FifoRun

/-- An empty queue. -/
def start (partialOrder : Option PartialOrder) (parallelFactor : Int) : FifoRun :=
  ⟨.start partialOrder parallelFactor, fun _ => []⟩

/-- One call. -/
def step (fuel : Nat) (w : FifoRun) (op : QueueOp) : Option FifoRun :=
  (w.run.step fuel op).map (fun r =>
    ⟨r, fun name => w.sent name ++ w.run.queue.dispatched r.queue name op⟩)

/-- The calls of a list. -/
def after (fuel : Nat) (partialOrder : Option PartialOrder) (parallelFactor : Int)
    (ops : List QueueOp) : Option FifoRun :=
  Lib.run (step fuel) (start partialOrder parallelFactor) ops

/-- What was added for a node and not put on a station. -/
def waiting (w : FifoRun) (name : CString) : List SendPriorityElement :=
  (forNode name w.run.added).reverse.diff (w.sent name)

/-- A call that finds all stations of its node in use puts the top element back; of what waits
then, no other equals it. -/
def NoneBehind (po : PartialOrder) (w : FifoRun) (op : QueueOp) : Prop :=
  ∀ name, op.element.target = some name →
    w.run.queue.parallelFactor ≤ (w.run.queue.remaining name op).length →
    Untied po.compareElements (w.waiting name ++ forNode name op.added.toList : List _)

instance decidableNoneBehind (po : PartialOrder) (w : FifoRun) (op : QueueOp) :
    Decidable (w.NoneBehind po op) :=
  inferInstanceAs (Decidable (∀ name, op.element.target = some name →
    w.run.queue.parallelFactor ≤ (w.run.queue.remaining name op).length →
    Untied po.compareElements (w.waiting name ++ forNode name op.added.toList : List _)))

/-- A call that meets what its callers promise, and puts nothing back past an equal. -/
def Fit (po : PartialOrder) (w : FifoRun) (op : QueueOp) : Prop :=
  w.run.Meets op ∧ w.NoneBehind po op

instance decidableFit (po : PartialOrder) (w : FifoRun) (op : QueueOp) :
    Decidable (w.Fit po op) :=
  inferInstanceAs (Decidable (_ ∧ _))

/-- Of every priority the first that were added have been sent, and in the order they were
added. -/
def InOrder (po : PartialOrder) (w : FifoRun) : Prop :=
  ∀ name, ∀ c ∈ forNode name w.run.added,
    (w.sent name).filter (po.equals c) <+: (forNode name w.run.added).reverse.filter (po.equals c)

end FifoRun

variable {w : FifoRun} {op : QueueOp}

/-! ## A step -/

variable {po : PartialOrder} {P : Int} {E : CString → List SendPriorityElement}

/-- What a run keeps: what was sent and what stands in line is what was added, line by line. -/
structure FifoInv (po : PartialOrder) (P : Int) (E : CString → List SendPriorityElement)
    (w : FifoRun) : Prop where
  queue : QueueInv po P E w.run
  known : ∀ name, ∀ e ∈ forNode name w.run.added, e ∈ E name
  balance : ∀ name, (w.sent name : Multiset SendPriorityElement) + w.run.queue.pending name =
    (forNode name w.run.added : Multiset SendPriorityElement)
  lines : ∀ name, ∀ c ∈ E name, (w.sent name).filter (po.equals c) ++ w.run.queue.line name c =
    (forNode name w.run.added).reverse.filter (po.equals c)

theorem fifoInv_start (po : PartialOrder) (P : Int) (E : CString → List SendPriorityElement) :
    FifoInv po P E (.start (some po) P) where
  queue := queueInv_start po P E
  known _ _ he := absurd he List.not_mem_nil
  balance _ := rfl
  lines _ _ _ := rfl

theorem FifoInv.inOrder (h : FifoInv po P E w) : w.InOrder po :=
  fun name c hc => ⟨_, h.lines name c (h.known name c hc)⟩

/-- What the history says is waiting is what the sorter holds. -/
theorem FifoInv.waiting_eq (h : FifoInv po P E w) (name : CString) :
    (w.waiting name : Multiset SendPriorityElement) = w.run.queue.pending name := by
  unfold FifoRun.waiting
  rw [← Multiset.coe_sub, Multiset.coe_reverse, ← h.balance name, add_tsub_cancel_left]

/-- A call adds what it is given. -/
theorem added_step {fuel : Nat} {r r' : QueueRun} (h : r.step fuel op = some r') :
    r'.added = op.added.toList ++ r.added := by
  cases op with
  | add se =>
      simp only [QueueRun.step, Option.map_eq_some_iff] at h
      obtain ⟨_, _, rfl⟩ := h
      rfl
  | remove se =>
      simp only [QueueRun.step, Option.map_eq_some_iff] at h
      obtain ⟨_, _, rfl⟩ := h
      rfl

theorem forNode_toList_reverse (name : CString) (se : Option SendPriorityElement) :
    (forNode name se.toList).reverse = forNode name se.toList := by
  cases se with
  | none => rfl
  | some se =>
      unfold forNode
      rw [← List.filter_reverse]
      rfl

/-- **A call that puts nothing back past an equal keeps every line.** -/
theorem FifoInv.passed (h : FifoInv po P E w) {r' : QueueRun} (hbehind : w.NoneBehind po op)
    (hE : ∀ name, ∀ e ∈ forNode name op.added.toList, e ∈ E name) (hinv : QueueInv po P E r')
    (hadded : r'.added = op.added.toList ++ w.run.added)
    (hpassed : ∀ name, ∃ out, Passed po P (E name) w.run.queue r'.queue op name out) :
    FifoInv po P E
      ⟨r', fun name => w.sent name ++ w.run.queue.dispatched r'.queue name op⟩ := by
  have hnew : ∀ name, forNode name r'.added =
      forNode name op.added.toList ++ forNode name w.run.added := by
    intro name
    rw [hadded, forNode_append]
  have hsent : ∀ {name out}, Passed po P (E name) w.run.queue r'.queue op name out →
      w.run.queue.dispatched r'.queue name op = out := by
    intro name out hpass
    unfold SendQueue.dispatched
    rw [hpass.stations, List.drop_left]
  refine ⟨hinv, fun name e he => ?_, fun name => ?_, fun name c hc => ?_⟩
  · rw [hnew name] at he
    rcases List.mem_append.mp he with he | he
    · exact hE name e he
    · exact h.known name e he
  · obtain ⟨out, hpass⟩ := hpassed name
    dsimp only
    rw [hsent hpass, hnew name, ← Multiset.coe_add, ← Multiset.coe_add, add_assoc, ← hpass.pending,
      ← add_assoc, h.balance name, add_comm]
  · obtain ⟨out, hpass⟩ := hpassed name
    -- the guard on the call says it for what waits, the lines ask for what was added as well
    have huntied : op.element.target = some name → P ≤ (w.run.queue.remaining name op).length →
        Untied po.compareElements (w.run.queue.pending name +
          (forNode name op.added.toList : List SendPriorityElement)) := by
      intro htarget hfull
      have hnone := hbehind name htarget (h.queue.factor.symm ▸ hfull)
      rwa [← Multiset.coe_add, h.waiting_eq name] at hnone
    calc (w.sent name ++ w.run.queue.dispatched r'.queue name op).filter (po.equals c) ++
          r'.queue.line name c
        = (w.sent name).filter (po.equals c) ++
            (out.filter (po.equals c) ++ r'.queue.line name c) := by
          rw [hsent hpass, List.filter_append, List.append_assoc]
      _ = ((w.sent name).filter (po.equals c) ++ w.run.queue.line name c) ++
            (forNode name op.added.toList).filter (po.equals c) := by
          rw [← hpass.lines huntied c hc, List.append_assoc]
      _ = (forNode name r'.added).reverse.filter (po.equals c) := by
          rw [h.lines name c hc, hnew name, List.reverse_append, List.filter_append,
            forNode_toList_reverse]

/-! ## A queue without stations -/

/-- Nothing is kept, and nothing has been sent. -/
structure Idle (po : PartialOrder) (P : Int) (w : FifoRun) : Prop where
  order : w.run.queue.partialOrder = some po
  factor : w.run.queue.parallelFactor = P
  nothing : ∀ name, w.run.queue.senders name = none
  unsent : ∀ name, w.sent name = []

theorem idle_start (po : PartialOrder) (P : Int) : Idle po P (.start (some po) P) where
  order := rfl
  factor := rfl
  nothing _ := rfl
  unsent _ := rfl

theorem Idle.inOrder (h : Idle po P w) : w.InOrder po := by
  intro name c _
  rw [h.unsent name]
  exact List.nil_prefix

/-- The sorter of one element. -/
def single (po : PartialOrder) (se : SendPriorityElement) : TopologicalSorter :=
  (((TopologicalSorter.new po).alloc se).addChild root 1).elim (.new po) counted

/-- The element that came into an empty sorter leaves it, and goes back. -/
theorem startSend_idle (hP : P ≤ 0) (fuel : Nat) (po : PartialOrder) (se : SendPriorityElement) :
    (TopologicalSorter.new po).addElement fuel se = some (single po se) ∧
    ∃ s', SendQueue.startSend fuel P ⟨single po se, [], 0⟩ = some (⟨s', [], 0⟩, none) := by
  have hfull : ¬(0 : Int) < P := by omega
  obtain ⟨s, hpop, hback⟩ : ∃ s, (single po se).popTop = some (some se, s) ∧
      (s.addElement fuel se).isSome = true := ⟨_, rfl, rfl⟩
  refine ⟨rfl, ?_⟩
  cases hev : se.event with
  | none =>
      refine ⟨s, ?_⟩
      simp only [SendQueue.startSend, hpop, Option.bind_some, hev]
  | some ev =>
      obtain ⟨s', hs'⟩ := Option.isSome_iff_exists.mp hback
      refine ⟨s', ?_⟩
      simp only [SendQueue.startSend, hpop, Option.bind_some, hev, if_neg hfull, hs',
        Option.map_some]

theorem Idle.step {w : FifoRun} (hP : P ≤ 0) (h : Idle po P w) (fuel : Nat) (op : QueueOp) :
    ∃ w', w.step fuel op = some w' ∧ Idle po P w' := by
  -- it is enough that the queue stays empty
  have hkeep : ∀ r', w.run.step fuel op = some r' → r'.queue.partialOrder = some po →
      r'.queue.parallelFactor = P → (∀ name, r'.queue.senders name = none) →
      ∃ w', w.step fuel op = some w' ∧ Idle po P w' := by
    intro r' hr' horder hfactor hnothing
    refine ⟨_, by rw [FifoRun.step, hr']; rfl, horder, hfactor, hnothing, fun name => ?_⟩
    have hnone : r'.queue.stations name = [] := by
      simp only [SendQueue.stations, hnothing name]
    show w.sent name ++ w.run.queue.dispatched r'.queue name op = []
    rw [h.unsent name, SendQueue.dispatched, hnone, List.drop_nil]
    rfl
  cases op with
  | remove se =>
      have hsame : w.run.queue.removeSendPriorityElement fuel se = some (w.run.queue, false) := by
        unfold SendQueue.removeSendPriorityElement
        cases se.dObj with
        | none => rfl
        | some dObj =>
            cases se.node with
            | none => rfl
            | some node => simp only [h.nothing node.name]
      have hstep : w.run.step fuel (.remove se) = some ⟨w.run.queue, w.run.added,
          (w.run.queue.leaving se).toList ++ w.run.finished⟩ := by
        rw [QueueRun.step, hsame]
        rfl
      exact hkeep _ hstep h.order h.factor h.nothing
  | add se =>
      have hmap : ∀ q, w.run.queue.addSendPriorityElement fuel se = some q →
          w.run.step fuel (.add se) = some ⟨q, se :: w.run.added, w.run.finished⟩ := by
        intro q hq
        rw [QueueRun.step, hq]
        rfl
      cases hdObj : se.dObj with
      | none =>
          have hsame : w.run.queue.addSendPriorityElement fuel se = some w.run.queue := by
            simp only [SendQueue.addSendPriorityElement, hdObj]
          exact hkeep _ (hmap _ hsame) h.order h.factor h.nothing
      | some dObj =>
      cases hnode : se.node with
      | none =>
          have hsame : w.run.queue.addSendPriorityElement fuel se = some w.run.queue := by
            simp only [SendQueue.addSendPriorityElement, hdObj, hnode]
          exact hkeep _ (hmap _ hsame) h.order h.factor h.nothing
      | some node =>
          -- the state is made, and thrown away at the end of the call
          obtain ⟨hadd, s', hstart⟩ := startSend_idle hP fuel po se
          have hsettled : w.run.queue.addSendPriorityElement fuel se =
              some (w.run.queue.settle node.name (⟨s', [], 0⟩, none)) := by
            simp only [SendQueue.addSendPriorityElement, hdObj, hnode, h.nothing node.name,
              SendQueue.createSendState, h.order, h.factor, Option.map_some, Option.none_or, hadd,
              Option.bind_some, hstart]
          refine hkeep _ (hmap _ hsettled) h.order h.factor fun name => ?_
          show (w.run.queue.settle node.name (⟨s', [], 0⟩, none)).senders name = none
          by_cases hname : name = node.name
          · rw [hname, settle_senders]
            rfl
          · rw [settle_senders_ne _ hname]
            exact h.nothing name

/-! ## Runs -/

/-- What is added for a name by a call of a run. -/
theorem mem_of_added {pre post : List QueueOp} {name : CString} {se : SendPriorityElement}
    (hse : se ∈ forNode name op.added.toList) : se ∈ addedFor name (pre ++ op :: post) := by
  obtain ⟨hadded, hname⟩ := List.mem_filter.mp hse
  refine List.mem_filter.mpr ⟨List.mem_filterMap.mpr ⟨op, ?_, ?_⟩, hname⟩
  · exact List.mem_append_right _ List.mem_cons_self
  · exact Option.mem_toList.mp hadded

/--
**Equals are dispatched in the order in which they were added**, in every run in which no
element is put back past an equal one. For every node the elements that are added for it have
to be ordered totally.
-/
theorem dispatched_in_order (po : PartialOrder) (P : Int) (ops : List QueueOp)
    (T : ∀ name, TotalOn po.compareElements (addedFor name ops)) : ∃ n, ∀ fuel, n ≤ fuel →
      Guarded (FifoRun.step fuel) (FifoRun.Fit po) (.start (some po) P) ops →
      ∃ w, FifoRun.after fuel (some po) P ops = some w ∧ w.InOrder po := by
  by_cases hP : 1 ≤ P
  · let E := fun name => addedFor name ops
    let ok := fun (w : FifoRun) op => w.Fit po op ∧
      ∀ name, ∀ e ∈ forNode name op.added.toList, e ∈ E name
    have hE : ∀ name, ∀ se ∈ E name, ∀ node, se.node = some node → node.name = name :=
      fun name se hse node hnode => node_of_addedFor hse hnode
    have T' : ∀ name, Tame po.compareElements (E name) := fun name => (T name).tame po.flips
    have hstep : ∀ w op, FifoInv po P E w → ok w op →
        ∃ w', FifoInv po P E w' ∧ ∃ n, ∀ fuel, n ≤ fuel → FifoRun.step fuel w op = some w' := by
      intro w op h hok
      obtain ⟨⟨hmeets, hbehind⟩, hadded⟩ := hok
      have hcall : ∃ r', QueueInv po P E r' ∧
          (∀ name, ∃ out, Passed po P (E name) w.run.queue r'.queue op name out) ∧
          ∃ n, ∀ fuel, n ≤ fuel → w.run.step fuel op = some r' := by
        cases op with
        | add se =>
            refine h.queue.add hP T' hE hmeets fun node hnode => hadded node.name se ?_
            rw [show (QueueOp.add se).added.toList = [se] from rfl, forNode_one hnode, if_pos rfl]
            exact List.mem_singleton.mpr rfl
        | remove se => exact h.queue.remove hP T' hE se
      obtain ⟨r', hinv, hpassed, n, hn⟩ := hcall
      refine ⟨_, h.passed hbehind hadded hinv (added_step (hn n (Nat.le_refl n))) hpassed, n, ?_⟩
      intro fuel hfuel
      rw [FifoRun.step, hn fuel hfuel]
      rfl
    obtain ⟨n, hn⟩ := run_converges hstep ops (.start (some po) P) (fifoInv_start po P E)
    refine ⟨n, ?_⟩
    intro fuel hfuel hg
    have hg' : Guarded (FifoRun.step fuel) ok (.start (some po) P) ops := by
      rw [guarded_iff] at hg ⊢
      intro pre op post heq w hw
      refine ⟨hg pre op post heq w hw, fun name se hse => ?_⟩
      show se ∈ addedFor name ops
      rw [heq]
      exact mem_of_added hse
    obtain ⟨w, hw, hinv⟩ := hn fuel hfuel hg'
    exact ⟨w, hw, hinv.inOrder⟩
  · -- without a station nothing is ever sent
    refine ⟨0, ?_⟩
    intro fuel _ hg
    obtain ⟨w, hw, hidle⟩ := run_invariant (fun w op (h : Idle po P w) (_ : w.Fit po op) =>
      h.step (by omega) fuel op) ops (.start (some po) P) (idle_start po P) hg
    exact ⟨w, hw, hidle.inOrder⟩

/-- With more fuel a call that has returned returns the same. -/
theorem fifo_step_more {fuel fuel' : Nat} (hle : fuel ≤ fuel') (w : FifoRun) (op : QueueOp)
    (w' : FifoRun) (h : w.step fuel op = some w') : w.step fuel' op = some w' := by
  rw [FifoRun.step, Option.map_eq_some_iff] at h ⊢
  obtain ⟨r, hr, hw⟩ := h
  exact ⟨r, queue_step_more hle w.run op r hr, hw⟩

/-- An element for the node, as old as the others. -/
def asOld (addr : Nat) : SendPriorityElement := toReceiver (elementOf addr [])

/-- Three equals, of which each waits alone. -/
def aloneSends : List QueueOp :=
  [.add (asOld 1), .add (asOld 2), .remove (asOld 1), .add (asOld 3), .remove (asOld 2),
    .remove (asOld 3)]

/-- Three equals, of which two wait together. -/
def togetherSends : List QueueOp :=
  [.add (asOld 1), .add (asOld 2), .add (asOld 3), .remove (asOld 1)]

/-- They are ordered totally. -/
theorem totalOn_asOld {ops : List QueueOp}
    (hall : TotalOn PartialOrder.fifo.compareElements (ops.filterMap QueueOp.added))
    (name : CString) : TotalOn PartialOrder.fifo.compareElements (addedFor name ops) where
  total x hx y hy := hall.total x (List.mem_of_mem_filter hx) y (List.mem_of_mem_filter hy)
  trans x hx y hy z hz := hall.trans x (List.mem_of_mem_filter hx) y (List.mem_of_mem_filter hy) z
    (List.mem_of_mem_filter hz)

/-- `dispatched_in_order` applied to equals that wait alone. -/
theorem dispatched_in_order_alone : ∃ fuel,
    Guarded (FifoRun.step fuel) (FifoRun.Fit .fifo) (.start (some .fifo) 1) aloneSends ∧
    ∃ w, FifoRun.after fuel (some .fifo) 1 aloneSends = some w ∧ w.InOrder .fifo := by
  obtain ⟨n, hn⟩ := dispatched_in_order .fifo 1 aloneSends
    (totalOn_asOld ⟨by decide +kernel, by decide +kernel⟩)
  have hran : (FifoRun.after 9 (some .fifo) 1 aloneSends).isSome = true := by decide +kernel
  obtain ⟨w, hw⟩ := Option.isSome_iff_exists.mp hran
  have hguard : Guarded (FifoRun.step (max n 9)) (FifoRun.Fit .fifo) (.start (some .fifo) 1)
      aloneSends :=
    guarded_more (fifo_step_more (Nat.le_max_right n 9)) hw (by decide +kernel)
  exact ⟨max n 9, hguard, hn _ (Nat.le_max_left n 9) hguard⟩

/--
**An element is overtaken by its equal.** The second and the third wait while the first is sent.
When the third is added the second is taken out, finds no station, and goes back behind it.
-/
theorem overtaken :
    (∀ name, TotalOn PartialOrder.fifo.compareElements (addedFor name togetherSends)) ∧
    Guarded (FifoRun.step 9) (fun w op => w.run.Meets op) (.start (some .fifo) 1) togetherSends ∧
    (FifoRun.after 9 (some .fifo) 1 togetherSends).isSome = true ∧
    ¬ ∃ fuel w, FifoRun.after fuel (some .fifo) 1 togetherSends = some w ∧ w.InOrder .fifo := by
  refine ⟨totalOn_asOld ⟨by decide +kernel, by decide +kernel⟩, by decide +kernel,
    by decide +kernel, ?_⟩
  rintro ⟨fuel, w, hw, horder⟩
  have hsent : (FifoRun.after 9 (some .fifo) 1 togetherSends).map (fun w =>
      (w.run.added, w.sent receiver.name)) =
      some ([asOld 3, asOld 2, asOld 1], [asOld 1, asOld 3]) := by decide +kernel
  obtain ⟨w', hw', hpair⟩ := Option.map_eq_some_iff.mp hsent
  -- the run has the same result whatever the fuel
  have hmore := run_more (fifo_step_more (Nat.le_max_left fuel 9)) hw
  have hmore' := run_more (fifo_step_more (Nat.le_max_right fuel 9)) hw'
  rw [hmore] at hmore'
  injection hmore' with hsame
  subst hsame
  obtain ⟨hadded, hput⟩ := Prod.mk.inj hpair
  have hprefix := horder receiver.name (asOld 1) (by rw [hadded]; decide +kernel)
  rw [hadded, hput] at hprefix
  exact absurd hprefix (by decide +kernel)

end Encoders.Send
