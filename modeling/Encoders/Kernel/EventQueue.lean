import Encoders.Container.Heap
import Encoders.Lib.Run
import Encoders.Send.Order
import Mathlib.Data.List.Perm.Subperm

/-!
# `EventQueue`

`EventQueue.h`: events wait in a heap, least timeout first. Cancelling only leaves a
request; `clearCanceledEvents` applies the requests that are pending to the whole heap,
drops them, and takes cancelled events off the front. Cancelled events further down stay
until they reach the front.

`clearCanceledEvents` has a result, and the two status functions read it differently:
for a heap that was empty beforehand it is false, which `hasNextEvent` takes for a sign of
an event.

Times are counted in microseconds, and the clock is read once in each call: it is the
argument `now`. A delay in a request is a number of microseconds, of which only a
positive one counts. `getNextEventTime` is given a place for the time.
-/

namespace Encoders.Kernel

open Encoders.Lib Encoders.Container Encoders.Send

/-! ## Events and requests -/

/-- `class Event` at its address, as far as the queue reads it. -/
structure Event where
  addr : Nat
  type : Int
  dObj : Option DataObjectRef
  node : Option NodeRef
  timeout : Int
  canceled : Bool
deriving DecidableEq

/-- `struct EventCancellationRequest` -/
structure EventCancellationRequest where
  etype : Int
  dObj : Option DataObjectRef
  node : Option NodeRef
  after : Int

/-- The overloads of `cancelEvents`, with their arguments. -/
inductive Cancel where
  | type (type : Int)
  | node (node : Option NodeRef)
  | dObj (dObj : Option DataObjectRef)
  | typeNode (type : Int) (node : Option NodeRef)
  | typeDObj (type : Int) (dObj : Option DataObjectRef)
  | after (after : Int)
  | typeAfter (type : Int) (after : Int)

/-- The request each of them leaves. -/
def Cancel.request : Cancel → EventCancellationRequest
  | .type t => ⟨t, none, none, -1000000⟩
  | .node n => ⟨-1, none, n, -1000000⟩
  | .dObj d => ⟨-1, d, none, -1000000⟩
  | .typeNode t n => ⟨t, none, n, -1000000⟩
  | .typeDObj t d => ⟨t, d, none, -1000000⟩
  | .after delay => ⟨-1, none, none, delay⟩
  | .typeAfter t delay => ⟨t, none, none, delay⟩

/-- Both references are set, and they differ. -/
def differ {α : Type} (eq : α → α → Bool) (a b : Option α) : Bool :=
  match a, b with
  | some x, some y => !eq x y
  | _, _ => false

/-- The event passes all four tests, so that the request cancels it. -/
def EventCancellationRequest.selects (now : Int) (req : EventCancellationRequest) (e : Event) :
    Bool :=
  if req.etype ≠ -1 ∧ e.type ≠ req.etype then false
  else if differ DataObjectRef.eq req.dObj e.dObj then false
  else if differ NodeRef.eq req.node e.node then false
  else if req.after > 0 ∧ e.timeout ≤ now + req.after then false
  else true

/-! ## The queue -/

/-- `EQEvent_t`, of which no function of the queue answers `EQ_TIMEOUT`. -/
inductive EQEvent where
  | error
  | timeout
  | event
  | empty
  | eventShutdown
deriving DecidableEq

/-- `class EventQueue` -/
structure EventQueue where
  heap : List Event
  cancellations : List EventCancellationRequest
  shutdownEvent : Bool

/-- What `getNextEvent` returns: an event of the queue, or one made for the shutdown. -/
inductive NextEvent where
  | shutdown
  | event (e : Event)

namespace EventQueue

/-- An empty queue. -/
def init : EventQueue := ⟨[], [], false⟩

/-- The walk over the heap: an event that some request selects is marked. -/
def mark (now : Int) (requests : List EventCancellationRequest) (e : Event) : Event :=
  if requests.any (fun req => req.selects now e) then { e with canceled := true } else e

/-- The loop that takes cancelled events off the front. -/
def dropCanceled : Nat → List Event → List Event
  | 0, heap => heap
  | fuel + 1, heap =>
      match heap with
      | [] => []
      | e :: rest =>
          if e.canceled then
            match extractFirst Event.timeout (e :: rest) with
            | some (_, heap') => dropCanceled fuel heap'
            | none => []
          else e :: rest

/-- `clearCanceledEvents` -/
def clearCanceledEvents (now : Int) (q : EventQueue) : Bool × EventQueue :=
  if q.heap.isEmpty then (false, q)
  else (true, { q with
    heap := dropCanceled q.heap.length (q.heap.map (mark now q.cancellations))
    cancellations := [] })

/-- `hasNextEvent` -/
def hasNextEvent (now : Int) (q : EventQueue) : EQEvent × EventQueue :=
  if q.shutdownEvent then (.eventShutdown, q)
  else
    let (cleared, q') := q.clearCanceledEvents now
    if cleared && q'.heap.isEmpty then (.empty, q') else (.event, q')

/-- `getNextEventTime`: the answer, and the time if one is set. -/
def getNextEventTime (now : Int) (q : EventQueue) : (EQEvent × Option Int) × EventQueue :=
  if q.shutdownEvent then ((.eventShutdown, some 0), q)
  else
    let (cleared, q') := q.clearCanceledEvents now
    match q'.heap with
    | e :: _ => if cleared then ((.event, some e.timeout), q') else ((.empty, none), q')
    | [] => ((.empty, none), q')

/-- `getNextEvent`. An empty heap gives a null pointer, which is followed. -/
def getNextEvent (now : Int) (q : EventQueue) : Option (NextEvent × EventQueue) :=
  if q.shutdownEvent then some (.shutdown, { q with shutdownEvent := false })
  else
    let (_, q') := q.clearCanceledEvents now
    (extractFirst Event.timeout q'.heap).map (fun p => (.event p.1, { q' with heap := p.2 }))

/-- `addEvent` -/
def addEvent (e : Event) (q : EventQueue) : EventQueue :=
  { q with heap := insert Event.timeout e q.heap }

/-- `cancelEvents` -/
def cancelEvents (c : Cancel) (q : EventQueue) : EventQueue :=
  { q with cancellations := q.cancellations ++ [c.request] }

/-- The events in the queue that are not cancelled, neither by a mark nor by a request
that is pending. -/
def uncancelled (now : Int) (q : EventQueue) : List Event :=
  q.heap.filter (fun e => !e.canceled && !q.cancellations.any (fun req => req.selects now e))

end EventQueue

variable {q : EventQueue}

/-! ## Clearing -/

theorem mark_timeout (now : Int) (requests : List EventCancellationRequest) (e : Event) :
    (EventQueue.mark now requests e).timeout = e.timeout := by
  unfold EventQueue.mark
  by_cases h : requests.any (fun req => req.selects now e) = true
  · rw [if_pos h]
  · rw [if_neg h]

theorem mark_addr (now : Int) (requests : List EventCancellationRequest) (e : Event) :
    (EventQueue.mark now requests e).addr = e.addr := by
  unfold EventQueue.mark
  by_cases h : requests.any (fun req => req.selects now e) = true
  · rw [if_pos h]
  · rw [if_neg h]

/-- Marking moves nothing, so a heap stays a heap. -/
theorem isHeap_mark {now : Int} {requests : List EventCancellationRequest} {xs : List Event}
    (h : IsHeap Event.timeout xs) :
    IsHeap Event.timeout (xs.map (EventQueue.mark now requests)) := by
  have hkey : keyAt Event.timeout (xs.map (EventQueue.mark now requests)) =
      keyAt Event.timeout xs := by
    funext i
    unfold keyAt
    rw [List.getElem?_map]
    cases xs[i]? with
    | none => rfl
    | some e => simp [mark_timeout]
  unfold IsHeap
  rw [hkey]
  exact h

/-- What is left without a mark is what was without one and is not selected. -/
theorem filter_mark (now : Int) (requests : List EventCancellationRequest) (xs : List Event) :
    (xs.map (EventQueue.mark now requests)).filter (fun e => !e.canceled) =
      xs.filter (fun e => !e.canceled && !requests.any (fun req => req.selects now e)) := by
  induction xs with
  | nil => rfl
  | cons x xs ih =>
      rw [List.map_cons, List.filter_cons, List.filter_cons, ih]
      unfold EventQueue.mark
      by_cases h : requests.any (fun req => req.selects now x) = true
      · simp [h]
      · simp [h]

/-- Taking cancelled events off the front takes no other, and ends at one that is none. -/
theorem dropCanceled_spec : ∀ (fuel : Nat) (xs : List Event), xs.length ≤ fuel →
    IsHeap Event.timeout xs →
    IsHeap Event.timeout (EventQueue.dropCanceled fuel xs) ∧
    ((EventQueue.dropCanceled fuel xs).filter (fun e => !e.canceled)).Perm
      (xs.filter (fun e => !e.canceled)) ∧
    (EventQueue.dropCanceled fuel xs).Subperm xs ∧
    ∀ e ∈ (EventQueue.dropCanceled fuel xs).head?, e.canceled = false
  | 0, xs, hlen, hheap => by
      rw [List.length_eq_zero_iff.mp (Nat.le_zero.mp hlen)]
      exact ⟨isHeap_nil, List.Perm.refl _, List.Subperm.refl _, by intro e he; cases he⟩
  | fuel + 1, [], _, _ =>
      ⟨isHeap_nil, List.Perm.refl _, List.Subperm.refl _, by intro e he; cases he⟩
  | fuel + 1, x :: rest, hlen, hheap => by
      by_cases hx : x.canceled = true
      · -- the front is canceled: it goes and the loop looks again
        obtain ⟨ys, hys, hheap', hperm⟩ := extractFirst_spec hheap
        have hlen' : ys.length ≤ fuel := by
          rw [hperm.length_eq]
          rw [List.length_cons] at hlen
          omega
        obtain ⟨hh, hlive, hsub, hfront⟩ := dropCanceled_spec fuel ys hlen' hheap'
        unfold EventQueue.dropCanceled
        simp only [hx, if_true, hys]
        refine ⟨hh, hlive.trans ?_, ?_, hfront⟩
        · rw [List.filter_cons_of_neg (by simp [hx])]
          exact hperm.filter _
        · exact hsub.trans (hperm.subperm.trans (List.sublist_cons_self x rest).subperm)
      · -- a live front ends the loop
        unfold EventQueue.dropCanceled
        simp only [Bool.not_eq_true] at hx
        simp only [hx, Bool.false_eq_true, if_false]
        refine ⟨hheap, List.Perm.refl _, List.Subperm.refl _, ?_⟩
        intro e he
        injection he with he
        rw [← he]
        exact hx

/-- What a call of `clearCanceledEvents` makes of a heap. -/
structure Cleared (now : Int) (q q' : EventQueue) : Prop where
  heap : IsHeap Event.timeout q'.heap
  live : (q'.heap.filter (fun e => !e.canceled)).Perm (q.uncancelled now)
  front : ∀ e ∈ q'.heap.head?, e.canceled = false
  addrs : (q'.heap.map Event.addr).Subperm (q.heap.map Event.addr)
  requests : q'.cancellations = [] ∨ q.heap = []
  shutdown : q'.shutdownEvent = q.shutdownEvent

theorem clearCanceledEvents_spec (now : Int) (h : IsHeap Event.timeout q.heap) :
    (q.clearCanceledEvents now).1 = !q.heap.isEmpty ∧
      Cleared now q (q.clearCanceledEvents now).2 := by
  unfold EventQueue.clearCanceledEvents
  cases hheap : q.heap with
  | nil =>
      refine ⟨rfl, ?_⟩
      have hnone : q.uncancelled now = [] := by
        unfold EventQueue.uncancelled
        rw [hheap]
        rfl
      simp only [List.isEmpty_nil, if_true]
      refine ⟨h, ?_, ?_, List.Subperm.refl _, Or.inr hheap, rfl⟩
      · rw [hnone, hheap]
        exact List.Perm.refl _
      · rw [hheap]
        intro e he
        cases he
  | cons x rest =>
      rw [← hheap]
      have hne : q.heap.isEmpty = false := by rw [hheap]; rfl
      rw [hne]
      refine ⟨rfl, ?_⟩
      obtain ⟨hh, hlive, hsub, hfront⟩ := dropCanceled_spec q.heap.length
        (q.heap.map (EventQueue.mark now q.cancellations)) (by rw [List.length_map])
        (isHeap_mark h)
      rw [filter_mark] at hlive
      have haddrs : (q.heap.map (EventQueue.mark now q.cancellations)).map Event.addr =
          q.heap.map Event.addr := by
        rw [List.map_map]
        exact List.map_congr_left (fun e _ => mark_addr now q.cancellations e)
      refine ⟨hh, hlive, hfront, ?_, Or.inl rfl, rfl⟩
      rw [← haddrs]
      obtain ⟨kept, hperm, hsublist⟩ := hsub
      exact ⟨kept.map Event.addr, hperm.map Event.addr, hsublist.map Event.addr⟩

/-- After a clearing, a heap with anything in it shows an event that is not cancelled. -/
theorem Cleared.isEmpty_iff {now : Int} {q' : EventQueue} (h : Cleared now q q') :
    q'.heap = [] ↔ q.uncancelled now = [] := by
  constructor
  · intro hnil
    have hperm := h.live
    rw [hnil] at hperm
    exact List.nil_perm.mp hperm
  · intro hnone
    have hperm := h.live
    rw [hnone] at hperm
    cases hheap : q'.heap with
    | nil => rfl
    | cons e rest =>
        have hfront := h.front e (by rw [hheap]; rfl)
        rw [hheap, List.filter_cons_of_pos (by simp [hfront])] at hperm
        exact absurd hperm (List.not_perm_cons_nil)

/-! ## Runs -/

/-- The calls, each with the time its clock shows. -/
inductive QueueOp where
  | addEvent (e : Event)
  | cancelEvents (now : Int) (c : Cancel)
  | hasNextEvent (now : Int)
  | getNextEventTime (now : Int)
  | getNextEvent (now : Int)

/-- One call; the queue has no more to say once a null pointer is followed. -/
def EventQueue.step (q : EventQueue) : QueueOp → Option EventQueue
  | .addEvent e => some (q.addEvent e)
  | .cancelEvents _ c => some (q.cancelEvents c)
  | .hasNextEvent now => some (q.hasNextEvent now).2
  | .getNextEventTime now => some (q.getNextEventTime now).2
  | .getNextEvent now => (q.getNextEvent now).map Prod.snd

/-- The heap is one, and nobody has asked for a shutdown. -/
structure QueueInv (q : EventQueue) : Prop where
  heap : IsHeap Event.timeout q.heap
  running : q.shutdownEvent = false

theorem QueueInv.init : QueueInv EventQueue.init := ⟨isHeap_nil, rfl⟩

theorem QueueInv.cleared (h : QueueInv q) (now : Int) : QueueInv (q.clearCanceledEvents now).2 := by
  obtain ⟨_, hcleared⟩ := clearCanceledEvents_spec now h.heap
  exact ⟨hcleared.heap, hcleared.shutdown.trans h.running⟩

/-- Asking clears, and does nothing else. -/
theorem hasNextEvent_queue (h : q.shutdownEvent = false) (now : Int) :
    (q.hasNextEvent now).2 = (q.clearCanceledEvents now).2 := by
  unfold EventQueue.hasNextEvent
  rw [h]
  simp only [Bool.false_eq_true, if_false]
  split <;> rfl

theorem getNextEventTime_queue (h : q.shutdownEvent = false) (now : Int) :
    (q.getNextEventTime now).2 = (q.clearCanceledEvents now).2 := by
  unfold EventQueue.getNextEventTime
  rw [h]
  simp only [Bool.false_eq_true, if_false]
  split
  · split <;> rfl
  · rfl

/-- The next event is the front of the cleared heap. -/
theorem getNextEvent_eq (h : q.shutdownEvent = false) (now : Int) :
    q.getNextEvent now = (extractFirst Event.timeout (q.clearCanceledEvents now).2.heap).map
      (fun p => (.event p.1, { (q.clearCanceledEvents now).2 with heap := p.2 })) := by
  unfold EventQueue.getNextEvent
  rw [h]
  rfl

theorem QueueInv.step {q q' : EventQueue} {op : QueueOp} (h : QueueInv q)
    (hstep : q.step op = some q') : QueueInv q' := by
  cases op with
  | addEvent e =>
      injection hstep with hstep
      rw [← hstep]
      exact ⟨(insert_spec h.heap).1, h.running⟩
  | cancelEvents _ c =>
      injection hstep with hstep
      rw [← hstep]
      exact ⟨h.heap, h.running⟩
  | hasNextEvent now =>
      injection hstep with hstep
      rw [← hstep, hasNextEvent_queue h.running]
      exact h.cleared now
  | getNextEventTime now =>
      injection hstep with hstep
      rw [← hstep, getNextEventTime_queue h.running]
      exact h.cleared now
  | getNextEvent now =>
      -- canceled events go first, then the front one
      have hcleared := h.cleared now
      change (q.getNextEvent now).map Prod.snd = some q' at hstep
      rw [getNextEvent_eq h.running] at hstep
      cases hheap : (q.clearCanceledEvents now).2.heap with
      | nil =>
          rw [hheap] at hstep
          cases hstep
      | cons e rest =>
          have hh := hcleared.heap
          rw [hheap] at hstep hh
          obtain ⟨ys, hys, hheap', _⟩ := extractFirst_spec hh
          rw [hys] at hstep
          injection hstep with hstep
          rw [← hstep]
          exact ⟨hheap', hcleared.running⟩

theorem queueInv_run : ∀ {ops : List QueueOp} {q q' : EventQueue}, QueueInv q →
    run EventQueue.step q ops = some q' → QueueInv q'
  | [], q, q', h, hrun => by
      injection hrun with hrun
      exact hrun ▸ h
  | op :: ops, q, q', h, hrun => by
      obtain ⟨q'', hstep, hrest⟩ := Option.bind_eq_some_iff.mp hrun
      exact queueInv_run (h.step hstep) hrest

/-! ## What the status says -/

/-- The status functions tell whether there is an event, and with one there is a next. -/
structure StatusHonest (now : Int) (q : EventQueue) : Prop where
  event : (q.hasNextEvent now).1 = .event ↔ q.uncancelled now ≠ []
  empty : (q.hasNextEvent now).1 = .empty ↔ q.uncancelled now = []
  agrees : (q.getNextEventTime now).1.1 = (q.hasNextEvent now).1
  next : (q.hasNextEvent now).1 = .event →
    ∀ later, ((q.hasNextEvent now).2.getNextEvent later).isSome = true

/-- The answer of `hasNextEvent`. -/
theorem hasNextEvent_answer (h : QueueInv q) (now : Int) :
    (q.hasNextEvent now).1 = if q.heap ≠ [] ∧ q.uncancelled now = [] then .empty else .event := by
  obtain ⟨hresult, hcleared⟩ := clearCanceledEvents_spec now h.heap
  have hiff := hcleared.isEmpty_iff
  unfold EventQueue.hasNextEvent
  rw [h.running]
  simp only [Bool.false_eq_true, if_false, hresult]
  by_cases hboth : q.heap ≠ [] ∧ q.uncancelled now = []
  · rw [if_pos hboth, if_pos]
    rw [hiff.mpr hboth.2]
    simpa using hboth.1
  · rw [if_neg hboth, if_neg]
    intro hand
    rw [Bool.and_eq_true, Bool.not_eq_true', List.isEmpty_eq_false_iff, List.isEmpty_iff] at hand
    exact hboth ⟨hand.1, hiff.mp hand.2⟩

/-- The answer of `getNextEventTime`. -/
theorem getNextEventTime_answer (h : QueueInv q) (now : Int) :
    (q.getNextEventTime now).1.1 = if q.uncancelled now = [] then .empty else .event := by
  obtain ⟨hresult, hcleared⟩ := clearCanceledEvents_spec now h.heap
  have hiff := hcleared.isEmpty_iff
  unfold EventQueue.getNextEventTime
  rw [h.running]
  simp only [Bool.false_eq_true, if_false, hresult]
  cases hheap : (q.clearCanceledEvents now).2.heap with
  | nil => rw [if_pos (hiff.mp hheap)]
  | cons e rest =>
      have hsome : q.uncancelled now ≠ [] := by
        intro hnone
        rw [hiff.mpr hnone] at hheap
        cases hheap
      have hold : q.heap.isEmpty = false := by
        rw [List.isEmpty_eq_false_iff]
        intro hnil
        refine hsome ?_
        unfold EventQueue.uncancelled
        rw [hnil]
        rfl
      rw [if_neg hsome, hold]
      rfl

/--
**In every state a run reaches, the status is honest exactly if the heap is not empty.**
A heap with nothing but cancelled events counts as one that is not empty.
-/
theorem status_honest_iff (ops : List QueueOp) (q : EventQueue) (now : Int)
    (hrun : run EventQueue.step EventQueue.init ops = some q) :
    StatusHonest now q ↔ q.heap ≠ [] := by
  have hinv := queueInv_run QueueInv.init hrun
  have hanswer := hasNextEvent_answer hinv now
  have htime := getNextEventTime_answer hinv now
  constructor
  · intro hhonest hnil
    have hnone : q.uncancelled now = [] := by
      unfold EventQueue.uncancelled
      rw [hnil]
      rfl
    rw [if_neg (fun h => h.1 hnil)] at hanswer
    exact hhonest.event.mp hanswer hnone
  · intro hne
    refine ⟨?_, ?_, ?_, ?_⟩
    · rw [hanswer]
      by_cases hnone : q.uncancelled now = []
      · rw [if_pos ⟨hne, hnone⟩]
        simp [hnone]
      · rw [if_neg (fun h => hnone h.2)]
        simp [hnone]
    · rw [hanswer]
      by_cases hnone : q.uncancelled now = []
      · rw [if_pos ⟨hne, hnone⟩]
        simp [hnone]
      · rw [if_neg (fun h => hnone h.2)]
        simp [hnone]
    · rw [htime, hanswer]
      by_cases hnone : q.uncancelled now = []
      · rw [if_pos hnone, if_pos ⟨hne, hnone⟩]
      · rw [if_neg hnone, if_neg (fun h => hnone h.2)]
    · intro hevent later
      have hsome : q.uncancelled now ≠ [] := by
        intro hnone
        rw [hanswer, if_pos ⟨hne, hnone⟩] at hevent
        cases hevent
      obtain ⟨_, hcleared⟩ := clearCanceledEvents_spec now hinv.heap
      have hinv' := hinv.cleared now
      have hrequests : (q.clearCanceledEvents now).2.cancellations = [] :=
        hcleared.requests.resolve_right hne
      obtain ⟨_, hcleared'⟩ := clearCanceledEvents_spec later hinv'.heap
      -- nothing is pending any more, so the second clearing cancels nothing
      have hagain : (q.clearCanceledEvents now).2.uncancelled later =
          (q.clearCanceledEvents now).2.heap.filter (fun e => !e.canceled) := by
        unfold EventQueue.uncancelled
        rw [hrequests]
        simp
      have hfull : ((q.clearCanceledEvents now).2.clearCanceledEvents later).2.heap ≠ [] := by
        intro hnil
        have hnone := hcleared'.isEmpty_iff.mp hnil
        rw [hagain] at hnone
        have hperm := hcleared.live
        rw [hnone] at hperm
        exact hsome (List.nil_perm.mp hperm)
      rw [hasNextEvent_queue hinv.running, getNextEvent_eq hinv'.running]
      cases hheap : ((q.clearCanceledEvents now).2.clearCanceledEvents later).2.heap with
      | nil => exact absurd hheap hfull
      | cons e rest => rfl

/-- A timer event, two seconds from the start. -/
def timer : Event := ⟨1, 7, none, none, 2000000, false⟩

theorem status_honest_timer :
    run EventQueue.step EventQueue.init [.addEvent timer, .cancelEvents 0 (.type 7)] =
        some ⟨[timer], [⟨7, none, none, -1000000⟩], false⟩ ∧
      StatusHonest 5 ⟨[timer], [⟨7, none, none, -1000000⟩], false⟩ :=
  ⟨by rfl, (status_honest_iff [.addEvent timer, .cancelEvents 0 (.type 7)] _ 5 (by rfl)).mpr
    (by simp)⟩

/-- A queue that was never used has an event, if `hasNextEvent` is to be believed. -/
theorem empty_queue_has_event :
    run EventQueue.step EventQueue.init [] = some EventQueue.init ∧
    (EventQueue.init.hasNextEvent 5).1 = .event ∧
    EventQueue.init.uncancelled 5 = [] ∧
    (EventQueue.init.getNextEventTime 5).1.1 = .empty ∧
    (EventQueue.init.hasNextEvent 5).2.getNextEvent 5 = none := by
  refine ⟨rfl, rfl, rfl, rfl, rfl⟩

end Encoders.Kernel
