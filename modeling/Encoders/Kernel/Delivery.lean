import Encoders.Kernel.EventQueue

/-!
# What the event queue delivers

A request to cancel is meant for the events that are in the queue when it is made, and for
those of them that have everything it names. The queue takes note of it and acts later.
By then there may be other events, and the test it makes is a looser one: an event without
a node passes for one with the right node, and a delay is counted from the time of the
test. A queue that is empty keeps its requests for the events to come.

`QueueRun` runs the queue beside the book it should keep: `waiting` are the events that
were added and have neither been delivered nor been named by a request. The queue follows
the book as long as each test comes out as the book says (`Timely`), and is not asked for
an event when none is waiting.
-/

namespace Encoders.Kernel

open Encoders.Lib Encoders.Container Encoders.Send

/-! ## What a request names -/

/-- A part that a request names is there and equal. -/
def named {α : Type} (eq : α → α → Bool) (asked has : Option α) : Bool :=
  match asked, has with
  | none, _ => true
  | some x, some y => eq x y
  | some _, none => false

/-- The event has every part that the request names, the delay counted from when the
request was made. -/
def EventCancellationRequest.names (made : Int) (req : EventCancellationRequest) (e : Event) :
    Bool :=
  (req.etype = -1 || e.type = req.etype) &&
    named DataObjectRef.eq req.dObj e.dObj && named NodeRef.eq req.node e.node &&
    (req.after ≤ 0 || made + req.after < e.timeout)

/-! ## Runs, with the book -/

/-- The queue, and what became of the events that were added. -/
structure QueueRun where
  queue : EventQueue
  waiting : List Event
  added : List Event
  delivered : List Event
  matched : List Event

namespace QueueRun

/-- Nothing was added yet. -/
def init : QueueRun := ⟨EventQueue.init, [], [], [], []⟩

/-- Book what `getNextEvent` returned. -/
def took (r : QueueRun) (next : NextEvent × EventQueue) : QueueRun :=
  match next.1 with
  | .shutdown => { r with queue := next.2 }
  | .event e => { r with
      queue := next.2
      waiting := r.waiting.erase e
      delivered := e :: r.delivered }

/-- One call. -/
def step (r : QueueRun) : QueueOp → Option QueueRun
  | .addEvent e => some { r with
      queue := r.queue.addEvent e
      waiting := e :: r.waiting
      added := e :: r.added }
  | .cancelEvents now c => some { r with
      queue := r.queue.cancelEvents c
      waiting := r.waiting.filter (fun e => !c.request.names now e)
      matched := r.waiting.filter (fun e => c.request.names now e) ++ r.matched }
  | .hasNextEvent now => some { r with queue := (r.queue.hasNextEvent now).2 }
  | .getNextEventTime now => some { r with queue := (r.queue.getNextEventTime now).2 }
  | .getNextEvent now => (r.queue.getNextEvent now).map r.took

/-- The pending requests, tested now, select among the events without a mark just those
that were named when a request was made. -/
def Timely (now : Int) (r : QueueRun) : Prop :=
  ∀ e ∈ r.queue.heap, e.canceled = false →
    (r.queue.cancellations.any (fun req => req.selects now e) = true ↔ e ∉ r.waiting)

/--
What a call must find. An event is added without a mark, and while it is not in the queue;
a call that clears the queue comes when the tests are right; and `getNextEvent` is called
while something is waiting.
-/
def ok (r : QueueRun) : QueueOp → Prop
  | .addEvent e => e.canceled = false ∧ ∀ f ∈ r.queue.heap, f.addr ≠ e.addr
  | .cancelEvents _ _ => True
  | .hasNextEvent now => r.Timely now
  | .getNextEventTime now => r.Timely now
  | .getNextEvent now => r.Timely now ∧ r.waiting ≠ []

instance (now : Int) (r : QueueRun) : Decidable (r.Timely now) :=
  inferInstanceAs (Decidable (∀ e ∈ r.queue.heap, _))

instance (r : QueueRun) : ∀ op, Decidable (r.ok op)
  | .addEvent _ => inferInstanceAs (Decidable (_ ∧ _))
  | .cancelEvents _ _ => isTrue trivial
  | .hasNextEvent now => inferInstanceAs (Decidable (r.Timely now))
  | .getNextEventTime now => inferInstanceAs (Decidable (r.Timely now))
  | .getNextEvent now => inferInstanceAs (Decidable (r.Timely now ∧ r.waiting ≠ []))

end QueueRun

variable {r : QueueRun}
variable {now : Int}

/-- What is promised in every state of a run. -/
structure Delivering (r : QueueRun) : Prop where
  /-- Every event added was delivered once, or named by a request, or is waiting. -/
  accounts : r.added.Perm (r.delivered ++ r.matched ++ r.waiting)
  /-- What is waiting is in the queue and not cancelled. -/
  present : ∀ e ∈ r.waiting, e ∈ r.queue.heap ∧ e.canceled = false
  /-- The next event is a waiting one of least timeout. -/
  next : ∀ now, r.Timely now → r.waiting ≠ [] →
    ∃ e r', r.step (.getNextEvent now) = some r' ∧ e ∈ r.waiting ∧
      (∀ f ∈ r.waiting, e.timeout ≤ f.timeout) ∧
      r'.delivered = e :: r.delivered ∧ r'.waiting = r.waiting.erase e
  /-- Asking for as many events as are waiting delivers them all. -/
  drains : ∀ now, r.Timely now →
    ∃ r', run QueueRun.step r (List.replicate r.waiting.length (.getNextEvent now)) = some r' ∧
      r'.waiting = [] ∧ r'.delivered.Perm (r.waiting ++ r.delivered) ∧ r'.matched = r.matched

/-- The invariant behind it. -/
structure BookInv (r : QueueRun) : Prop where
  queue : QueueInv r.queue
  accounts : r.added.Perm (r.delivered ++ r.matched ++ r.waiting)
  distinct : (r.queue.heap.map Event.addr).Nodup
  nodup : r.waiting.Nodup
  present : ∀ e ∈ r.waiting, e ∈ r.queue.heap ∧ e.canceled = false
  settled : r.queue.cancellations = [] →
    ∀ e ∈ r.queue.heap, e.canceled = false → e ∈ r.waiting

theorem BookInv.init : BookInv QueueRun.init :=
  ⟨QueueInv.init, List.Perm.refl _, List.nodup_nil, List.nodup_nil,
    (by intro e he; cases he), (by intro _ e he; cases he)⟩

/-- While the tests are right, what is not cancelled is what is waiting. -/
theorem BookInv.uncancelled_iff (h : BookInv r) (ht : r.Timely now) (e : Event) :
    e ∈ r.queue.uncancelled now ↔ e ∈ r.waiting := by
  unfold EventQueue.uncancelled
  rw [List.mem_filter, Bool.and_eq_true, Bool.not_eq_true', Bool.not_eq_true']
  constructor
  · intro hlive
    obtain ⟨hmem, hmark, hselected⟩ := hlive
    by_contra hnot
    rw [(ht e hmem hmark).mpr hnot] at hselected
    cases hselected
  · intro hwaiting
    obtain ⟨hmem, hmark⟩ := h.present e hwaiting
    refine ⟨hmem, hmark, ?_⟩
    by_contra hselected
    rw [Bool.not_eq_false] at hselected
    exact (ht e hmem hmark).mp hselected hwaiting

/-- A right clearing leaves just the waiting events without a mark. -/
theorem BookInv.cleared_iff {q : EventQueue} (h : BookInv r) (ht : r.Timely now)
    (hq : Cleared now r.queue q) (e : Event) :
    (e ∈ q.heap ∧ e.canceled = false) ↔ e ∈ r.waiting := by
  rw [← h.uncancelled_iff ht, ← hq.live.mem_iff, List.mem_filter, Bool.not_eq_true']

/-- A right clearing keeps the book. -/
theorem BookInv.clear (h : BookInv r) (ht : r.Timely now) :
    BookInv { r with queue := (r.queue.clearCanceledEvents now).2 } := by
  obtain ⟨_, hcleared⟩ := clearCanceledEvents_spec now h.queue.heap
  refine ⟨h.queue.cleared now, h.accounts, ?_, h.nodup, ?_, ?_⟩
  · obtain ⟨kept, hperm, hsub⟩ := hcleared.addrs
    exact hperm.nodup_iff.mp (hsub.nodup h.distinct)
  · intro e he
    exact (h.cleared_iff ht hcleared e).mpr he
  · intro _ e he hmark
    exact (h.cleared_iff ht hcleared e).mp ⟨he, hmark⟩

/-- With no request pending the tests are right at any time. -/
theorem BookInv.timely_of_settled (h : BookInv r) (hnone : r.queue.cancellations = []) (now : Int) :
    r.Timely now := by
  intro e he hmark
  rw [hnone]
  simp [h.settled hnone e he hmark]

theorem BookInv.addEvent {e : Event} (h : BookInv r) (hok : r.ok (.addEvent e)) :
    ∃ r', r.step (.addEvent e) = some r' ∧ BookInv r' := by
  obtain ⟨hmark, hfresh⟩ := hok
  obtain ⟨hheap, hperm⟩ := @insert_spec _ _ _ _ e _ h.queue.heap
  have hnot : e ∉ r.waiting := fun hmem => hfresh e (h.present e hmem).1 rfl
  refine ⟨_, rfl, ⟨hheap, h.queue.running⟩, ?_, ?_, List.nodup_cons.mpr ⟨hnot, h.nodup⟩, ?_, ?_⟩
  · exact (h.accounts.cons e).trans List.perm_middle.symm
  · refine (hperm.map Event.addr).nodup_iff.mpr (List.nodup_cons.mpr ⟨?_, h.distinct⟩)
    intro hmem
    obtain ⟨f, hf, haddr⟩ := List.mem_map.mp hmem
    exact hfresh f hf haddr
  · intro f hf
    rcases List.mem_cons.mp hf with hnew | hold
    · rw [hnew]
      exact ⟨hperm.mem_iff.mpr List.mem_cons_self, hmark⟩
    · exact ⟨hperm.mem_iff.mpr (List.mem_cons_of_mem e (h.present f hold).1),
        (h.present f hold).2⟩
  · intro hnone f hf hfmark
    rcases List.mem_cons.mp (hperm.mem_iff.mp hf) with hnew | hold
    · rw [hnew]
      exact List.mem_cons_self
    · exact List.mem_cons_of_mem e (h.settled hnone f hold hfmark)

theorem BookInv.cancelEvents (now : Int) (c : Cancel) (h : BookInv r) :
    ∃ r', r.step (.cancelEvents now c) = some r' ∧ BookInv r' := by
  refine ⟨_, rfl, ⟨h.queue.heap, h.queue.running⟩, ?_, h.distinct, h.nodup.filter _, ?_, ?_⟩
  · refine h.accounts.trans ?_
    have hsplit := List.filter_append_perm (fun e => c.request.names now e) r.waiting
    rw [List.append_assoc, List.append_assoc]
    refine List.Perm.append_left _ ?_
    refine (List.Perm.append_left r.matched hsplit.symm).trans ?_
    rw [← List.append_assoc]
    exact List.Perm.append_right _ List.perm_append_comm
  · intro e he
    exact h.present e (List.mem_filter.mp he).1
  · intro hnone
    exact absurd hnone (by
      unfold EventQueue.cancelEvents
      exact List.append_ne_nil_of_right_ne_nil _ (List.cons_ne_nil _ _))

/-- What a right call of `getNextEvent` does while something is waiting. -/
theorem BookInv.getNextEvent (h : BookInv r) (ht : r.Timely now) (hne : r.waiting ≠ []) :
    ∃ e r', r.step (.getNextEvent now) = some r' ∧ BookInv r' ∧
      r'.queue.cancellations = [] ∧ e ∈ r.waiting ∧ (∀ f ∈ r.waiting, e.timeout ≤ f.timeout) ∧
      r'.delivered = e :: r.delivered ∧ r'.waiting = r.waiting.erase e ∧
      r'.matched = r.matched := by
  obtain ⟨_, hcleared⟩ := clearCanceledEvents_spec now h.queue.heap
  have hclear := h.clear ht
  have hiff := h.cleared_iff ht hcleared
  obtain ⟨w, hw⟩ := List.exists_mem_of_ne_nil _ hne
  -- the heap held `w` before, so the requests are used up
  have hrequests : (r.queue.clearCanceledEvents now).2.cancellations = [] :=
    hcleared.requests.resolve_right (List.ne_nil_of_mem (h.present w hw).1)
  cases hheap : (r.queue.clearCanceledEvents now).2.heap with
  | nil =>
      have hmem := ((hiff w).mpr hw).1
      rw [hheap] at hmem
      cases hmem
  | cons e rest =>
      have hfront : e.canceled = false := hcleared.front e (by rw [hheap]; rfl)
      have he : e ∈ r.waiting := (hiff e).mp ⟨by rw [hheap]; exact List.mem_cons_self, hfront⟩
      have hisheap := hcleared.heap
      rw [hheap] at hisheap
      obtain ⟨ys, hys, hheap', hperm⟩ := extractFirst_spec hisheap
      have hdistinct := hclear.distinct
      simp only [hheap, List.map_cons, List.nodup_cons] at hdistinct
      refine ⟨e, ⟨{ (r.queue.clearCanceledEvents now).2 with heap := ys }, r.waiting.erase e,
        r.added, e :: r.delivered, r.matched⟩, ?_, ⟨⟨hheap', hclear.queue.running⟩, ?_, ?_,
        h.nodup.erase e, ?_, ?_⟩, hrequests, he, ?_, rfl, rfl, rfl⟩
      · change (r.queue.getNextEvent now).map r.took = _
        rw [getNextEvent_eq h.queue.running, hheap, hys]
        rfl
      · refine h.accounts.trans ?_
        rw [List.cons_append, List.cons_append]
        exact (List.Perm.append_left _ (List.perm_cons_erase he)).trans List.perm_middle
      · exact (hperm.map Event.addr).nodup_iff.mpr hdistinct.2
      · intro f hf
        obtain ⟨hfe, hfw⟩ := (List.Nodup.mem_erase_iff h.nodup).mp hf
        obtain ⟨hmem, hmark⟩ := (hiff f).mpr hfw
        rw [hheap] at hmem
        exact ⟨hperm.mem_iff.mpr ((List.mem_cons.mp hmem).resolve_left hfe), hmark⟩
      · intro _ f hf hmark
        have hmem : f ∈ rest := hperm.mem_iff.mp hf
        refine (List.Nodup.mem_erase_iff h.nodup).mpr ⟨?_, (hiff f).mp ⟨?_, hmark⟩⟩
        · intro hfe
          exact hdistinct.1 (List.mem_map.mpr ⟨f, hmem, by rw [hfe]⟩)
        · rw [hheap]
          exact List.mem_cons_of_mem e hmem
      · intro f hf
        have hmem := ((hiff f).mpr hf).1
        rw [hheap] at hmem
        exact hisheap.front_le hmem

theorem BookInv.step {r : QueueRun} {op : QueueOp} (h : BookInv r) (hok : r.ok op) :
    ∃ r', r.step op = some r' ∧ BookInv r' := by
  cases op with
  | addEvent e => exact h.addEvent hok
  | cancelEvents now c => exact h.cancelEvents now c
  | hasNextEvent now =>
      refine ⟨_, rfl, ?_⟩
      rw [hasNextEvent_queue h.queue.running]
      exact h.clear hok
  | getNextEventTime now =>
      refine ⟨_, rfl, ?_⟩
      rw [getNextEventTime_queue h.queue.running]
      exact h.clear hok
  | getNextEvent now =>
      obtain ⟨_, r', hstep, hinv, _⟩ := h.getNextEvent hok.1 hok.2
      exact ⟨r', hstep, hinv⟩

/-- One call after the other, all that waits is delivered. -/
theorem BookInv.drains : ∀ (n : Nat) {r : QueueRun} {now : Int}, BookInv r → r.Timely now →
    r.waiting.length = n →
    ∃ r', run QueueRun.step r (List.replicate n (.getNextEvent now)) = some r' ∧
      r'.waiting = [] ∧ r'.delivered.Perm (r.waiting ++ r.delivered) ∧ r'.matched = r.matched
  | 0, r, _, _, _, hlen => by
      have hnil := List.length_eq_zero_iff.mp hlen
      refine ⟨r, rfl, hnil, ?_, rfl⟩
      rw [hnil]
      exact List.Perm.refl _
  | n + 1, r, now, h, ht, hlen => by
      have hne : r.waiting ≠ [] := by
        intro hnil
        rw [hnil] at hlen
        cases hlen
      obtain ⟨e, r', hstep, hinv, hnone, he, _, hdelivered, hwaiting, hmatched⟩ :=
        h.getNextEvent ht hne
      have hlen' : r'.waiting.length = n := by
        rw [hwaiting, List.length_erase_of_mem he, hlen]
        rfl
      obtain ⟨r'', hrun, hempty, hperm, hmatched'⟩ :=
        BookInv.drains n hinv (hinv.timely_of_settled hnone now) hlen'
      refine ⟨r'', ?_, hempty, ?_, hmatched'.trans hmatched⟩
      · rw [List.replicate_succ, run, hstep]
        exact hrun
      · rw [hwaiting, hdelivered] at hperm
        refine hperm.trans (List.perm_middle.trans ?_)
        exact List.Perm.append_right _ (List.perm_cons_erase he).symm

theorem BookInv.delivering (h : BookInv r) : Delivering r := by
  refine ⟨h.accounts, h.present, ?_, fun now ht => BookInv.drains _ h ht rfl⟩
  intro now ht hne
  obtain ⟨e, r', hstep, _, _, he, hleast, hdelivered, hwaiting, _⟩ := h.getNextEvent ht hne
  exact ⟨e, r', hstep, he, hleast, hdelivered, hwaiting⟩

/--
**A queue whose tests are right delivers what it should.** In every run in which each
clearing finds the pending requests selecting just the events they named when they were
made, and `getNextEvent` is called while something is waiting, nothing gets stuck, and in
every state the events are accounted for and the next one is a waiting one of least timeout.
-/
theorem run_delivering (ops : List QueueOp)
    (h : Guarded QueueRun.step QueueRun.ok QueueRun.init ops) :
    ∃ r, run QueueRun.step QueueRun.init ops = some r ∧ Delivering r := by
  obtain ⟨r, hrun, hinv⟩ := run_invariant (fun s op hs hok => BookInv.step hs hok) ops _
    BookInv.init h
  exact ⟨r, hrun, hinv.delivering⟩

/-- A peer. -/
def peer : NodeRef := ⟨100, [1], [112], false, []⟩

/-- A second timer, for the peer. -/
def peerTimer : Event := ⟨2, 7, none, some peer, 1000000, false⟩

theorem run_delivering_timers :
    ∃ r, run QueueRun.step QueueRun.init [.addEvent peerTimer,
      .cancelEvents 0 (.typeNode 7 (some peer)), .getNextEventTime 0, .addEvent timer,
      .addEvent peerTimer, .hasNextEvent 1, .getNextEvent 2] = some r ∧ Delivering r :=
  run_delivering _ (by decide +kernel)

/-- What waits and is not in the queue will not be delivered. -/
theorem not_delivering {e : Event} (he : e ∈ r.waiting) (hempty : r.queue.heap = []) :
    ¬ Delivering r := by
  intro h
  have hmem := (h.present e he).1
  rw [hempty] at hmem
  cases hmem

/--
A timer without a node falls to a request that names one; a timer that is added later, to
a request made on an empty queue. Neither is in the queue any more. And an empty queue says
that it has an event and then follows a null pointer.
-/
theorem unnamed_are_cancelled :
    (∃ r, run QueueRun.step QueueRun.init [.addEvent timer, .cancelEvents 0 (.node (some peer)),
        .getNextEventTime 0] = some r ∧ timer ∈ r.waiting ∧ ¬ Delivering r) ∧
    (∃ r, run QueueRun.step QueueRun.init [.cancelEvents 0 (.type 7), .addEvent timer,
        .getNextEventTime 0] = some r ∧ timer ∈ r.waiting ∧ ¬ Delivering r) ∧
    (EventQueue.init.hasNextEvent 0).1 = .event ∧
    run QueueRun.step QueueRun.init [.hasNextEvent 0, .getNextEvent 0] = none := by
  refine ⟨⟨⟨⟨[], [], false⟩, [timer], [timer], [], []⟩, by rfl, List.mem_cons_self,
    not_delivering List.mem_cons_self rfl⟩, ⟨⟨⟨[], [], false⟩, [timer], [timer], [], []⟩, by rfl,
    List.mem_cons_self, not_delivering List.mem_cons_self rfl⟩, rfl, rfl⟩

end Encoders.Kernel
