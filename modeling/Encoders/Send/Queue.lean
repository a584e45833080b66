import Encoders.Send.Priority

/-!
# `SendQueue`

Each node with something to send has a `send_state_t`: a sorter with what waits, and
stations, as many as `parallel_factor` allows, with what is on its way. Every call of
`addSendPriorityElement` and of `removeSendPriorityElement` ends in `startSend`, which
takes the top element from the sorter and puts it on a station, or back when all stations
are in use. A state without stations in use is thrown away, sorter and all.

`senders` maps the name of a node to its state. What `getPartialOrderForConfig` makes of
the configuration is a part of the queue here; without an order there is no state.
-/

namespace Encoders.Send

open Encoders.Lib Encoders.Data TopologicalSorter

/-- An event of a callback, with its data object and the only node of its list. -/
structure SendEvent where
  type : Int
  dObj : DataObjectRef
  node : NodeRef
deriving DecidableEq

/-- The event that an element asks for. -/
def SendPriorityElement.event (se : SendPriorityElement) : Option SendEvent :=
  match se.dObj, se.node with
  | some dObj, some node =>
      if se.sendCallback = 0 then none else some ⟨se.sendCallback, dObj, node⟩
  | _, _ => none

/-- `send_state_t` -/
structure SendState where
  topSorter : TopologicalSorter
  sendStations : List SendPriorityElement
  numActiveSendStations : Int

/-- `class SendQueue`; `kernel` is what was given to `addEvent`, the last first. -/
structure SendQueue where
  partialOrder : Option PartialOrder
  parallelFactor : Int
  senders : CString → Option SendState
  kernel : List SendEvent

namespace SendQueue

/-- `startSend`, and the event it raises. -/
def startSend (fuel : Nat) (parallelFactor : Int) (sendState : SendState) :
    Option (SendState × Option SendEvent) :=
  sendState.topSorter.popTop.bind (fun p =>
    let rest := { sendState with topSorter := p.2 }
    match p.1 with
    | none => some (rest, none)
    | some se =>
        match se.event with
        -- without a data object, a node or a callback the element is gone
        | none => some (rest, none)
        | some e =>
            if sendState.numActiveSendStations < parallelFactor then
              some ({ rest with
                sendStations := sendState.sendStations ++ [se]
                numActiveSendStations := sendState.numActiveSendStations + 1 }, some e)
            else
              (p.2.addElement fuel se).map (fun topSorter =>
                ({ rest with topSorter := topSorter }, none)))

/-- `createSendState`, for a node without a state. -/
def createSendState (q : SendQueue) : Option SendState :=
  q.partialOrder.map (fun po => ⟨.new po, [], 0⟩)

/-- What was started is written down, and a state without a station in use is removed. -/
def settle (q : SendQueue) (name : CString) (r : SendState × Option SendEvent) : SendQueue :=
  { q with
    senders := Function.update q.senders name
      (if r.1.numActiveSendStations = 0 then none else some r.1)
    kernel := r.2.toList ++ q.kernel }

/-- `addSendPriorityElement` -/
def addSendPriorityElement (fuel : Nat) (q : SendQueue) (se : SendPriorityElement) :
    Option SendQueue :=
  match se.dObj, se.node with
  | some _, some node =>
      match (q.senders node.name).or q.createSendState with
      | none => some q
      | some sendState =>
          (sendState.topSorter.addElement fuel se).bind (fun topSorter =>
            (startSend fuel q.parallelFactor { sendState with topSorter := topSorter }).map
              (q.settle node.name))
  | _, _ => some q

/-- An element is for a data object and a node. -/
def isFor (dObj : DataObjectRef) (node : NodeRef) (se : SendPriorityElement) : Bool :=
  se.dObj.any dObj.eq && se.node.any node.eq

/-- The first station with the pair is freed, and its element deleted. -/
def freeStation (dObj : DataObjectRef) (node : NodeRef) (sendState : SendState) : SendState :=
  if sendState.sendStations.any (isFor dObj node) then
    { sendState with
      sendStations := sendState.sendStations.eraseP (isFor dObj node)
      numActiveSendStations := sendState.numActiveSendStations - 1 }
  else sendState

/-- `removeSendPriorityElement` -/
def removeSendPriorityElement (fuel : Nat) (q : SendQueue) (se : SendPriorityElement) :
    Option (SendQueue × Bool) :=
  match se.dObj, se.node with
  | some dObj, some node =>
      match q.senders node.name with
      | none => some (q, false)
      | some sendState =>
          (startSend fuel q.parallelFactor (freeStation dObj node sendState)).map (fun r =>
            (q.settle node.name r, sendState.sendStations.any (isFor dObj node)))
  | _, _ => some (q, false)

/-- The element that `removeSendPriorityElement` deletes. -/
def leaving (q : SendQueue) (se : SendPriorityElement) : Option SendPriorityElement :=
  match se.dObj, se.node with
  | some dObj, some node =>
      (q.senders node.name).bind (fun sendState => sendState.sendStations.find? (isFor dObj node))
  | _, _ => none

/-- What waits for a node. -/
noncomputable def pending (q : SendQueue) (name : CString) : Multiset SendPriorityElement :=
  match q.senders name with
  | none => 0
  | some sendState => sendState.topSorter.held

/-- What waits for a node and equals an element, in the order it stands in. -/
noncomputable def line (q : SendQueue) (name : CString) (c : SendPriorityElement) :
    List SendPriorityElement :=
  match q.senders name with
  | none => []
  | some sendState => sendState.topSorter.line c

/-- What is on its way to a node. -/
def stations (q : SendQueue) (name : CString) : List SendPriorityElement :=
  match q.senders name with
  | none => []
  | some sendState => sendState.sendStations

end SendQueue

/-! ## Runs -/

/-- What is done to a queue. -/
inductive QueueOp where
  | add (se : SendPriorityElement)
  | remove (se : SendPriorityElement)

/-- An element is as good as another. -/
def PartialOrder.equals (po : PartialOrder) (c se : SendPriorityElement) : Bool :=
  po.compareElements c se = .eq

/-- The name of the node that an element is for, if it also has a data object. -/
def SendPriorityElement.target (se : SendPriorityElement) : Option CString :=
  match se.dObj, se.node with
  | some _, some node => some node.name
  | _, _ => none

/-- The element that a call is about. -/
def QueueOp.element : QueueOp → SendPriorityElement
  | .add se => se
  | .remove se => se

/-- What a call adds. -/
def QueueOp.added : QueueOp → Option SendPriorityElement
  | .add se => some se
  | .remove _ => none

/-- The stations of a node that are in use before a call starts something. -/
def SendQueue.remaining (q : SendQueue) (name : CString) : QueueOp → List SendPriorityElement
  | .add _ => q.stations name
  | .remove se =>
      match se.dObj, se.node with
      | some dObj, some node =>
          if node.name = name then (q.stations name).eraseP (isFor dObj node) else q.stations name
      | _, _ => q.stations name

/-- A queue, with what was added and what was sent to its end, the last first. -/
structure QueueRun where
  queue : SendQueue
  added : List SendPriorityElement
  finished : List SendPriorityElement

/-- The elements for the node of a name. -/
def forNode (name : CString) (ses : List SendPriorityElement) : List SendPriorityElement :=
  ses.filter (fun se => se.node.any (fun node => node.name = name))

/-- The events for the node of a name. -/
def eventsFor (name : CString) (events : List SendEvent) : List SendEvent :=
  events.filter (fun e => e.node.name = name)

namespace QueueRun

/-- An empty queue. -/
def start (partialOrder : Option PartialOrder) (parallelFactor : Int) : QueueRun :=
  ⟨⟨partialOrder, parallelFactor, fun _ => none, []⟩, [], []⟩

/-- One call. -/
def step (fuel : Nat) (r : QueueRun) : QueueOp → Option QueueRun
  | .add se =>
      (r.queue.addSendPriorityElement fuel se).map (fun q => ⟨q, se :: r.added, r.finished⟩)
  | .remove se =>
      (r.queue.removeSendPriorityElement fuel se).map (fun p =>
        ⟨p.1, r.added, (r.queue.leaving se).toList ++ r.finished⟩)

/-- The calls of a list. -/
def after (fuel : Nat) (partialOrder : Option PartialOrder) (parallelFactor : Int)
    (ops : List QueueOp) : Option QueueRun :=
  run (step fuel) (start partialOrder parallelFactor) ops

/-- What is added asks for an event, and its pointer is not one that still waits or is on
its way. -/
def Meets (r : QueueRun) : QueueOp → Prop
  | .add se => se.event ≠ none ∧ ∀ node, se.node = some node →
      (forNode node.name r.added).countP (fun e => e.addr = se.addr) =
        (forNode node.name r.finished).countP (fun e => e.addr = se.addr)
  | .remove _ => True

instance instDecidableMeets (r : QueueRun) : ∀ op, Decidable (r.Meets op)
  | .add _ => inferInstanceAs (Decidable (_ ∧ _))
  | .remove _ => inferInstanceAs (Decidable True)

/--
All stations of a node are counted and are in use while something waits for it, and what was
added for it waits, is on a station, or has been sent to its end. Its events are those of
what is on a station or has been.
-/
structure Accounted (r : QueueRun) : Prop where
  counted : ∀ name st, r.queue.senders name = some st →
    st.numActiveSendStations = st.sendStations.length
  within : ∀ name st, r.queue.senders name = some st →
    st.numActiveSendStations ≤ r.queue.parallelFactor
  busy : ∀ name st, r.queue.senders name = some st → st.topSorter.held ≠ 0 →
    st.numActiveSendStations = r.queue.parallelFactor
  kept : ∀ name,
    r.queue.pending name + (r.queue.stations name ++ forNode name r.finished : List _) =
      (forNode name r.added : Multiset SendPriorityElement)
  raised : ∀ name, ((r.queue.stations name ++ forNode name r.finished).map
    SendPriorityElement.event).Perm ((eventsFor name r.queue.kernel).map some)

end QueueRun

/-- What a list of calls adds for the node of a name. -/
def addedFor (name : CString) (ops : List QueueOp) : List SendPriorityElement :=
  forNode name (ops.filterMap QueueOp.added)

end Encoders.Send
