import Encoders.Data.Object
import Encoders.Forwarding.Contacts

/-!
# The send list

`ForwardingManager` remembers in `forwardedObjects` which object it has given to the protocols
for which node, until it hears how that went. Requests to forward come from five sides: a
forward event, the results of two kinds of queries, the delegates of the forwarding module and
the routing information it generates. All of them add to the list what is not in it yet, and
raise a send event for what they have added.

An outcome takes the entry out again. After a failure, and after a block or fragment with more
to come, it may go back in at once, with the count of failures so far, and then it is sent
again. A deletion takes out all entries of the object, and the outcome of a send under way then
finds none.

What is in it is a matter of `operator==`, and nodes have an odd one: a neighbour of which only
interfaces are known equals every node with one of these, so that two neighbours that differ
may both equal a third node. No two entries are ever for pairs that are equal, but such a third
node has two.

A count is an `int`. Its overflow has no meaning, and such a step is none.
-/

namespace Encoders.Forwarding

open Encoders.Lib Encoders.Data Encoders.Connectivity Encoders.Nodes

/-! ## What the handlers read -/

/-- A reference to a node: which one, and what `operator==` looks at. -/
structure NodeRef where
  node : Nat
  type : NodeType
  id : NodeId
  interfaces : List InterfaceKey
deriving DecidableEq

/-- `operator==` of references to nodes. -/
def NodeRef.same (n₁ n₂ : NodeRef) : Bool :=
  n₁.node = n₂.node ||
    if n₁.type = .undefined ∨ n₂.type = .undefined then
      n₁.interfaces.any (fun i => n₂.interfaces.any (fun j => i = j))
    else n₁.id = n₂.id

/-- A reference to the node of a record of the store. -/
def NodeRef.ofRecord (r : NodeRecord) : NodeRef :=
  ⟨r.ref, r.node.type, r.node.id, r.node.interfaces.keys⟩

/-- It is the comparison the node store makes. -/
theorem NodeRef.same_ofRecord (r₁ r₂ : NodeRecord) :
    (ofRecord r₁).same (ofRecord r₂) = r₁.eqRef r₂ := by
  unfold same ofRecord NodeRecord.eqRef Node.eqNode NodeInterfaces.keys
  simp only [List.any_map, Function.comp_def]

theorem NodeRef.same_self (n : NodeRef) : n.same n = true := by
  unfold same
  rw [decide_eq_true rfl, Bool.true_or]

theorem NodeRef.same_comm (n₁ n₂ : NodeRef) : n₁.same n₂ = n₂.same n₁ := by
  have hshared : ∀ m₁ m₂ : NodeRef,
      m₁.interfaces.any (fun i => m₂.interfaces.any (fun j => i = j)) = true →
        m₂.interfaces.any (fun i => m₁.interfaces.any (fun j => i = j)) = true := by
    intro m₁ m₂ h
    obtain ⟨i, hi, h⟩ := List.any_eq_true.mp h
    obtain ⟨j, hj, heq⟩ := List.any_eq_true.mp h
    exact List.any_eq_true.mpr ⟨j, hj, List.any_eq_true.mpr
      ⟨i, hi, decide_eq_true (of_decide_eq_true heq).symm⟩⟩
  unfold same
  congr 1
  · exact decide_eq_decide.mpr eq_comm
  · by_cases hundef : n₁.type = .undefined ∨ n₂.type = .undefined
    · rw [if_pos hundef, if_pos hundef.symm]
      exact Bool.eq_iff_iff.mpr ⟨hshared n₁ n₂, hshared n₂ n₁⟩
    · rw [if_neg hundef, if_neg (fun hcon => hundef hcon.symm)]
      exact decide_eq_decide.mpr eq_comm

/-- An object and the node it is for. -/
abbrev SendPair := DataHash × NodeRef

/-- The comparison of the manager: the same object, and `operator==` of the nodes. -/
def samePair (p q : SendPair) : Bool := decide (p.1 = q.1) && p.2.same q.2

theorem samePair_self (p : SendPair) : samePair p p = true := by
  unfold samePair
  rw [decide_eq_true rfl, NodeRef.same_self, Bool.true_and]

theorem samePair_comm (p q : SendPair) : samePair p q = samePair q p := by
  unfold samePair
  rw [NodeRef.same_comm]
  congr 1
  exact decide_eq_decide.mpr eq_comm

theorem samePair_object {p q : SendPair} (h : samePair p q = true) : p.1 = q.1 :=
  of_decide_eq_true (Bool.and_eq_true_iff.mp h).1

/-- An element of `forwardedObjects`. -/
structure SendEntry where
  pair : SendPair
  repeatCount : Int
deriving DecidableEq

/-- The settings that the handlers read. -/
structure ForwardConfig where
  thisNode : NodeId
  neighborForwardingShortcut : Bool
  firstClassApplications : Bool
  enableMultihopBloomfilters : Bool
  dataObjectRetries : UInt64
  dataObjectRetriesShortCircuit : UInt64
  nodeDescriptionRetries : UInt64

/-- What a handler sees of the manager, the objects and the nodes when its event arrives. -/
structure ForwardView where
  /-- `getState() <= MANAGER_STATE_RUNNING` -/
  running : Bool
  forwardingModule : Bool
  isNodeDescription : DataHash → Bool
  /-- The node that a node description describes. -/
  described : DataHash → Option NodeRef
  /-- `useNewDataObjectShortCircuit` of the module. -/
  shortCircuit : DataHash → Bool
  proxyId : NodeRef → NodeId
  /-- `retrieve`, by id. -/
  retrieve : NodeId → Option NodeRef
  /-- `hasThisOrParentDataObject` of the node in the store, or else of the node itself. -/
  hasThisOrParentDataObject : NodeRef → DataHash → Bool
  /-- `node->isNeighbor()` -/
  available : NodeRef → Bool
  /-- `retrieve(node, true)` -/
  retrieveNeighbor : NodeRef → Option NodeRef
  isLocalApplication : NodeRef → Bool

/-- What a handler asks of others. -/
inductive ForwardCall where
  /-- `EVENT_TYPE_DATAOBJECT_SEND`, now or with a delay. -/
  | send (pair : SendPair)
  /-- `addDataObjectEventWithDelay`, for the next block or fragment. -/
  | sendNext (pair : SendPair)
  | sendToApp (pair : SendPair)
  | routeToApp (pair : SendPair)
  | generateDelegatesFor (dObj : DataHash) (target : NodeRef)
      (otherTargets : List NodeRef)
deriving DecidableEq

/-- The send events among the calls. -/
def sends (calls : List ForwardCall) : List SendPair :=
  calls.filterMap (fun call =>
    match call with
    | .send pair | .sendNext pair => some pair
    | _ => none)

/-! ## Tests -/

/-- `isNeighbor` of the manager. -/
def isNeighbor (v : ForwardView) (node : NodeRef) : Bool :=
  v.available node || (node.type = .peer && (v.retrieveNeighbor node).isSome)

/-- `shouldForward`, and the node that the object actually goes to. -/
def shouldForward (c : ForwardConfig) (v : ForwardView) (dObj : DataHash) (node : NodeRef) :
    Option NodeRef :=
  if v.isNodeDescription dObj ∧ (v.described dObj).any (fun descNode => descNode.same node) then
    none
  else if v.hasThisOrParentDataObject node dObj then none
  else if c.firstClassApplications ∧ node.type = .application ∧ v.proxyId node ≠ c.thisNode then
    match v.retrieve (v.proxyId node) with
    | some proxy => if v.hasThisOrParentDataObject proxy dObj then none else some proxy
    | none => if c.enableMultihopBloomfilters then none else some node
  else some node

/-- `addToSendList`: `none` if the pair is in the list. -/
def addToSendList (l : List SendEntry) (pair : SendPair) (repeatCount : Int) :
    Option (List SendEntry) :=
  if l.any (fun e => samePair e.pair pair) then none else some (⟨pair, repeatCount⟩ :: l)

/-- `forwardByDelegate` -/
def forwardByDelegate (v : ForwardView) (dObj : DataHash) (target : NodeRef)
    (otherTargets : List NodeRef) : List ForwardCall :=
  if v.forwardingModule then [.generateDelegatesFor dObj target otherTargets] else []

/-- `getDataObjectRetries` -/
def getDataObjectRetries (c : ForwardConfig) (v : ForwardView) (dObj : DataHash) : UInt64 :=
  if v.isNodeDescription dObj then c.nodeDescriptionRetries
  else if v.forwardingModule && v.shortCircuit dObj then c.dataObjectRetriesShortCircuit
  else c.dataObjectRetries

/-- An `unsigned long` as an `int`. -/
def castInt (n : UInt64) : Int := Int.bmod n.toNat 4294967296

/-! ## Requests -/

/-- Sending to a node that is to have the object, if the pair is not in the list. -/
def sendTo (pair : SendPair) (l : List SendEntry) : List SendEntry × List ForwardCall :=
  match addToSendList l pair 0 with
  | none => (l, [])
  | some l' => (l', [.send pair])

/-- `EVENT_TYPE_ROUTE_TO_APP` -/
def routeToApp (dObj : DataHash) (target : NodeRef) : List ForwardCall :=
  if target.type = .application then [.routeToApp (dObj, target)] else []

/-- `onDataObjectForward` -/
def onDataObjectForward (c : ForwardConfig) (v : ForwardView) (dObj : DataHash)
    (target : NodeRef) (l : List SendEntry) : List SendEntry × List ForwardCall :=
  if v.running = false then (l, [])
  else
    match shouldForward c v dObj target with
    | none => (l, routeToApp dObj target)
    | some actualTarget =>
        if c.neighborForwardingShortcut && isNeighbor v actualTarget then
          let (l', calls) := sendTo (dObj, actualTarget) l
          (l', routeToApp dObj target ++ calls)
        else (l, routeToApp dObj target ++ forwardByDelegate v dObj actualTarget [])

/-- The body of the loop in `onDataObjectQueryResult`. -/
def considerResult (c : ForwardConfig) (v : ForwardView) (delegate target : NodeRef)
    (dObj : DataHash) (l : List SendEntry) : List SendEntry × List ForwardCall :=
  if c.neighborForwardingShortcut && isNeighbor v delegate then
    match shouldForward c v dObj delegate with
    | none => (l, [])
    | some actualDelegate => sendTo (dObj, actualDelegate) l
  else
    match shouldForward c v dObj target with
    | none => (l, [])
    | some actualTarget =>
        if c.neighborForwardingShortcut && isNeighbor v actualTarget then
          sendTo (dObj, actualTarget) l
        else if c.firstClassApplications && v.isLocalApplication actualTarget then
          (l, [.sendToApp (dObj, actualTarget)])
        else (l, forwardByDelegate v dObj actualTarget [])

/-- The loop: a target in the result stands for the objects after it too. -/
def queryLoop (c : ForwardConfig) (v : ForwardView) (delegate : NodeRef) :
    NodeRef → List (DataHash × Option NodeRef) → List SendEntry → List SendEntry × List ForwardCall
  | _, [], l => (l, [])
  | target, (dObj, optionalTarget) :: results, l =>
      let target := optionalTarget.getD target
      let (l', calls) := considerResult c v delegate target dObj l
      let (l'', calls') := queryLoop c v delegate target results l'
      (l'', calls ++ calls')

/-- `onDataObjectQueryResult`: the first node of the result, and the objects with theirs. -/
def onDataObjectQueryResult (c : ForwardConfig) (v : ForwardView) (target : Option NodeRef)
    (results : List (DataHash × Option NodeRef)) (l : List SendEntry) :
    List SendEntry × List ForwardCall :=
  if v.running = false then (l, [])
  else
    match target with
    | none => (l, [])
    | some delegate => queryLoop c v delegate delegate results l

/-- The nodes to which an object goes now, added to the list and put in front of one another. -/
def collect (dObj : DataHash) : List NodeRef → List SendEntry → List NodeRef →
    List SendEntry × List NodeRef
  | [], l, ns => (l, ns)
  | node :: nodes, l, ns =>
      match addToSendList l (dObj, node) 0 with
      | none => collect dObj nodes l ns
      | some l' => collect dObj nodes l' (node :: ns)

/-- What `onNodeQueryResult` does with a target that is no neighbour. -/
def handOn (c : ForwardConfig) (v : ForwardView) (dObj : DataHash) (actualTargets : List NodeRef)
    (actualTarget : NodeRef) : List ForwardCall :=
  if c.neighborForwardingShortcut && isNeighbor v actualTarget then []
  else if c.firstClassApplications && v.isLocalApplication actualTarget then
    [.sendToApp (dObj, actualTarget)]
  else if actualTarget.type = .peer ∨ actualTarget.type = .gateway ∨
      (c.firstClassApplications ∧ actualTarget.type = .application) then
    forwardByDelegate v dObj actualTarget actualTargets
  else []

/-- `onNodeQueryResult`. Handing on a target does not look at the list. -/
def onNodeQueryResult (c : ForwardConfig) (v : ForwardView) (dObj : DataHash)
    (targets : List NodeRef) (l : List SendEntry) : List SendEntry × List ForwardCall :=
  if v.running = false then (l, [])
  else
    let actualTargets := targets.filterMap (shouldForward c v dObj)
    let (l', targetNeighbors) := collect dObj
      (actualTargets.filter (fun n => c.neighborForwardingShortcut && isNeighbor v n)) l []
    (l', targets.flatMap (routeToApp dObj) ++
      actualTargets.flatMap (handOn c v dObj actualTargets) ++
      targetNeighbors.map (fun n => .send (dObj, n)))

/-- The neighbour that a delegate is, or its proxy, if it is to have the object. -/
def actualDelegate (c : ForwardConfig) (v : ForwardView) (dObj : DataHash) (delegate : NodeRef) :
    Option NodeRef :=
  (v.retrieveNeighbor delegate).bind (fun actualDelegate =>
    (shouldForward c v dObj actualDelegate).filter (fun n => isNeighbor v n))

/-- `onDelegateNodes`, also while the manager shuts down. -/
def onDelegateNodes (c : ForwardConfig) (v : ForwardView) (dObj : DataHash)
    (intendedTarget : Option NodeRef) (delegates : List NodeRef) (l : List SendEntry) :
    List SendEntry × List ForwardCall :=
  let (l', ns) := collect dObj (delegates.filterMap (actualDelegate c v dObj)) l []
  (l', ns.flatMap (fun n =>
    (match intendedTarget with
    | none => []
    | some target => routeToApp dObj target) ++ [.send (dObj, n)]))

/-- `onForwardingTaskComplete`, for routing information. -/
def onRoutingInfoComplete (c : ForwardConfig) (v : ForwardView) (dObj : DataHash)
    (node : NodeRef) (l : List SendEntry) : List SendEntry × List ForwardCall :=
  if isNeighbor v node && v.forwardingModule then
    match shouldForward c v dObj node with
    | none => (l, [])
    | some actualTarget => sendTo (dObj, actualTarget) l
  else (l, [])

/-! ## Outcomes and deletions -/

/-- The outcomes of a send event. -/
inductive SendOutcome where
  | networkCodingSuccessful
  | fragmentationSuccessful
  | successful
  | failure
deriving DecidableEq

/-- Sending once more, with a count. -/
def resend (c : ForwardConfig) (v : ForwardView) (dObj : DataHash) (node : NodeRef)
    (repeatCount : Int) (call : SendPair → ForwardCall) (l : List SendEntry) :
    List SendEntry × List ForwardCall :=
  match (shouldForward c v dObj node).filter (fun n => isNeighbor v n) with
  | none => (l, [])
  | some actualTarget =>
      match addToSendList l (dObj, actualTarget) repeatCount with
      | none => (l, [])
      | some l' => (l', [call (dObj, actualTarget)])

/-- The greatest `int`. -/
def intMax : Int := 2147483647

/-- `onSendDataObjectResult` -/
def onSendDataObjectResult (c : ForwardConfig) (v : ForwardView) (outcome : SendOutcome)
    (dObj : DataHash) (node : NodeRef) (l : List SendEntry) :
    Option (List SendEntry × List ForwardCall) :=
  if v.running = false then some (l, [])
  else
    match l.find? (fun e => samePair e.pair (dObj, node)) with
    | none => some (l, [])
    | some e =>
        let rest := l.eraseP (fun e => samePair e.pair (dObj, node))
        match outcome with
        | .networkCodingSuccessful | .fragmentationSuccessful =>
            some (resend c v dObj node e.repeatCount .sendNext rest)
        | .successful => some (rest, [])
        | .failure =>
            if e.repeatCount = intMax then none
            else if e.repeatCount + 1 ≤ castInt (getDataObjectRetries c v dObj) then
              some (resend c v dObj node (e.repeatCount + 1) .send rest)
            else some (rest, [])

/-- `onDeletedDataObject`: the iterator knows the next entry before one is erased under it. -/
def onDeletedDataObject (dObjs : List DataHash) (l : List SendEntry) : List SendEntry :=
  dObjs.foldl (fun l dObj => l.filter (fun e => e.pair.1 ≠ dObj)) l

/-! ## Events -/

/-- What the manager handles, in any order. -/
inductive ForwardOp where
  | forward (v : ForwardView) (dObj : DataHash) (target : NodeRef)
  | queryResult (v : ForwardView) (target : Option NodeRef)
      (results : List (DataHash × Option NodeRef))
  | nodeQueryResult (v : ForwardView) (dObj : DataHash) (targets : List NodeRef)
  | delegateNodes (v : ForwardView) (dObj : DataHash) (intendedTarget : Option NodeRef)
      (delegates : List NodeRef)
  | routingInfoComplete (v : ForwardView) (dObj : DataHash) (node : NodeRef)
  | outcome (v : ForwardView) (outcome : SendOutcome) (dObj : DataHash) (node : NodeRef)
  | deleted (dObjs : List DataHash)

/-- An event, handled. -/
def handleForward (c : ForwardConfig) (l : List SendEntry) :
    ForwardOp → Option (List SendEntry × List ForwardCall)
  | .forward v dObj target => some (onDataObjectForward c v dObj target l)
  | .queryResult v target results => some (onDataObjectQueryResult c v target results l)
  | .nodeQueryResult v dObj targets => some (onNodeQueryResult c v dObj targets l)
  | .delegateNodes v dObj intendedTarget delegates =>
      some (onDelegateNodes c v dObj intendedTarget delegates l)
  | .routingInfoComplete v dObj node => some (onRoutingInfoComplete c v dObj node l)
  | .outcome v outcome dObj node => onSendDataObjectResult c v outcome dObj node l
  | .deleted dObjs => some (onDeletedDataObject dObjs l, [])

namespace ForwardOp

/-- The objects that an event asks to be forwarded. -/
def requested : ForwardOp → List DataHash
  | .forward _ dObj _ | .nodeQueryResult _ dObj _ | .delegateNodes _ dObj _ _
  | .routingInfoComplete _ dObj _ => [dObj]
  | .queryResult _ _ results => results.map Prod.fst
  | .outcome _ _ _ _ | .deleted _ => []

/-- The objects that are deleted. -/
def deletes : ForwardOp → List DataHash
  | .deleted dObjs => dObjs
  | _ => []

/-- Is this the outcome of a send of the pair? It is reported for a node that equals the pair's. -/
def settles : ForwardOp → SendPair → Bool
  | .outcome _ _ dObj node, p => samePair (dObj, node) p
  | _, _ => false

end ForwardOp

/-- A deleted object is not forwarded again. -/
def NotForwardedAgain (ops : List ForwardOp) : Prop :=
  ops.Pairwise (fun op later => ∀ dObj ∈ op.deletes, dObj ∉ later.requested)

/-! ## What is under way -/

/-- How many failures an outcome is. -/
def SendOutcome.failures (outcome : SendOutcome) : Nat := if outcome = .failure then 1 else 0

/-- The list, and a record of the sends, the failures and the deletions so far. -/
structure SendWorld where
  forwardedObjects : List SendEntry
  /-- The pairs of the send events that have had no outcome. -/
  waiting : List SendPair
  /-- How often failures have led to the pair being sent again since a request put it in. -/
  resends : SendPair → Nat
  deleted : DataHash → Bool
  /-- A failure has led to one resend more than `getDataObjectRetries` allows. -/
  overrun : Bool
  /-- The pairs of the send events that the last event raised. -/
  raised : List SendPair

namespace SendWorld

/-- Before the first event. -/
def init : SendWorld := ⟨[], [], fun _ => 0, fun _ => false, false, []⟩

/-- The failures that a pair has behind it when an event has it sent: those of the entry that the
event takes out, and its own. -/
def resendsAfter (w : SendWorld) : ForwardOp → Nat
  | .outcome _ outcome dObj node =>
      ((w.forwardedObjects.find? (fun e => samePair e.pair (dObj, node))).elim 0
        (fun e => w.resends e.pair)) + outcome.failures
  | _ => 0

/-- Does the event send a pair again although it has failed too often? -/
def overruns (c : ForwardConfig) (w : SendWorld) (op : ForwardOp) (raised : List SendPair) :
    Bool :=
  match op with
  | .outcome v .failure dObj _ =>
      !raised.isEmpty && decide ((getDataObjectRetries c v dObj).toNat < w.resendsAfter op)
  | _ => false

/-- One event, and what the record says after it. -/
def step (c : ForwardConfig) (w : SendWorld) (op : ForwardOp) : Option SendWorld :=
  (handleForward c w.forwardedObjects op).map (fun r =>
    { forwardedObjects := r.1
      waiting := sends r.2 ++ w.waiting.filter (fun p => !op.settles p)
      resends := fun p => if p ∈ sends r.2 then w.resendsAfter op else w.resends p
      deleted := fun dObj => w.deleted dObj || decide (dObj ∈ op.deletes)
      overrun := w.overrun || w.overruns c op (sends r.2)
      raised := sends r.2 })

/-- The pairs in the list that equal a pair. -/
def entriesFor (w : SendWorld) (p : SendPair) : List SendPair :=
  (w.forwardedObjects.map SendEntry.pair).filter (fun q => samePair q p)

/-- The pairs under way that equal a pair. -/
def waitingFor (w : SendWorld) (p : SendPair) : List SendPair :=
  w.waiting.filter (fun q => samePair q p)

end SendWorld

variable {l : List SendEntry} {calls : List ForwardCall} {dObjs : List DataHash}
variable {p q : SendPair} {dObj : DataHash} {w' : SendWorld}
  {r : List SendEntry × List ForwardCall} {c : ForwardConfig} {w : SendWorld}

/-- Of these pairs, those that equal `p` equal each other. -/
def Unambiguous (p : SendPair) (l : List SendPair) : Prop :=
  ∀ q ∈ l, ∀ q' ∈ l, samePair q p = true → samePair q' p = true → samePair q q' = true

/-- No two of the pairs are equal. -/
def Apart (l : List SendPair) : Prop := l.Pairwise (fun p q => samePair p q = false)

/-- What is wanted of the list. -/
structure SendLaw (w : SendWorld) : Prop where
  /-- No two entries are for equal pairs. -/
  apart : Apart (w.forwardedObjects.map SendEntry.pair)
  /-- No two send events that wait for their outcome are for equal pairs. -/
  waiting_apart : Apart w.waiting
  /-- A pair has one entry at most, unless it equals two that differ. -/
  one_entry : ∀ p, Unambiguous p (w.forwardedObjects.map SendEntry.pair) →
    (w.entriesFor p).length ≤ 1
  /-- And one send event at most that waits for its outcome. -/
  one_waiting : ∀ p, Unambiguous p w.waiting → (w.waitingFor p).length ≤ 1
  /-- No failure has led to more resends than there are retries. -/
  within : w.overrun = false
  /-- There is no entry of a deleted object. -/
  gone : ∀ e ∈ w.forwardedObjects, w.deleted e.pair.1 = false
  /-- No event has a deleted object sent. -/
  quiet : ∀ p ∈ w.raised, w.deleted p.1 = false

/-- **Pairs that are apart** hold one at most that equals an unambiguous one. -/
theorem Apart.length_filter_le {l : List SendPair} (h : Apart l) (hclear : Unambiguous p l) :
    (l.filter (fun q => samePair q p)).length ≤ 1 := by
  have hsub := h.sublist (List.filter_sublist (p := fun q => samePair q p))
  cases hfound : l.filter (fun q => samePair q p) with
  | nil => exact Nat.zero_le 1
  | cons q rest =>
      cases rest with
      | nil => exact Nat.le_refl 1
      | cons q' rest =>
          rw [hfound] at hsub
          have hq := List.mem_filter.mp (by rw [hfound]; exact List.mem_cons_self)
          have hq' := List.mem_filter.mp
            (by rw [hfound]; exact List.mem_cons_of_mem q List.mem_cons_self)
          -- two that equal `p` equal each other, but they are apart
          have hdiffer := (List.pairwise_cons.mp hsub).1 q' List.mem_cons_self
          rw [hclear q hq.1 q' hq'.1 hq.2 hq'.2] at hdiffer
          cases hdiffer

/-! ## Adding -/

/-- The pairs in the list. -/
def pairs (l : List SendEntry) : List SendPair := l.map SendEntry.pair

theorem addToSendList_none_iff {pair : SendPair} {repeatCount : Int} :
    addToSendList l pair repeatCount = none ↔ ∃ q ∈ pairs l, samePair q pair = true := by
  unfold addToSendList pairs
  split
  · rename_i h
    obtain ⟨e, he, heq⟩ := List.any_eq_true.mp h
    exact iff_of_true rfl ⟨e.pair, List.mem_map_of_mem he, heq⟩
  · rename_i h
    refine iff_of_false (fun hcon => by cases hcon) (fun hmem => h ?_)
    obtain ⟨q, hq, hsame⟩ := hmem
    obtain ⟨e, he, rfl⟩ := List.mem_map.mp hq
    exact List.any_eq_true.mpr ⟨e, he, hsame⟩

theorem addToSendList_some {l' : List SendEntry} {pair : SendPair} {repeatCount : Int}
    (h : addToSendList l pair repeatCount = some l') :
    (∀ q ∈ pairs l, samePair pair q = false) ∧ l' = ⟨pair, repeatCount⟩ :: l := by
  constructor
  · intro q hq
    rw [samePair_comm, ← Bool.not_eq_true]
    intro hsame
    rw [addToSendList_none_iff.mpr ⟨q, hq, hsame⟩] at h
    cases h
  · unfold addToSendList at h
    split at h
    · cases h
    · exact (Option.some.inj h).symm

/-- What a request does: some pairs that differ from those in the list and from each other are put
in front of it, and these are what is sent. -/
def Inserts (l : List SendEntry) (r : List SendEntry × List ForwardCall) (dObjs : List DataHash) :
    Prop :=
  ∃ new : List SendPair, r.1 = new.map (fun p => ⟨p, 0⟩) ++ l ∧ (sends r.2).Perm new ∧
    Apart new ∧ (∀ p ∈ new, ∀ q ∈ pairs l, samePair p q = false) ∧ ∀ p ∈ new, p.1 ∈ dObjs

/-- The pairs after some were put in front. -/
theorem pairs_inserted (new : List SendPair) (l : List SendEntry) :
    pairs (new.map (fun p => ⟨p, 0⟩) ++ l) = new ++ pairs l := by
  unfold pairs
  rw [List.map_append, List.map_map]
  exact congrArg (· ++ _) (List.map_id new)

theorem sends_append (calls calls' : List ForwardCall) :
    sends (calls ++ calls') = sends calls ++ sends calls' := List.filterMap_append

theorem Inserts.nothing (h : sends calls = []) : Inserts l (l, calls) dObjs :=
  ⟨[], rfl, by rw [h], List.Pairwise.nil, fun p hp => (by cases hp), fun p hp => (by cases hp)⟩

/-- One request after the other. -/
theorem Inserts.append {l' l'' : List SendEntry} {calls' : List ForwardCall}
    {dObjs' : List DataHash} (h : Inserts l (l', calls) dObjs)
    (h' : Inserts l' (l'', calls') dObjs') :
    Inserts l (l'', calls ++ calls') (dObjs ++ dObjs') := by
  obtain ⟨new, hlist, hperm, hapart, hout, hin⟩ := h
  obtain ⟨new', hlist', hperm', hapart', hout', hin'⟩ := h'
  dsimp only at hlist hlist' hperm hperm'
  have hpairs : pairs l' = new ++ pairs l := by rw [hlist, pairs_inserted]
  refine ⟨new' ++ new, ?_, ?_, ?_, ?_, ?_⟩
  · dsimp only
    rw [hlist', hlist, List.map_append, List.append_assoc]
  · dsimp only
    rw [sends_append]
    exact (hperm.append hperm').trans List.perm_append_comm
  · -- what comes later differs from all that is in the list by then
    refine List.pairwise_append.mpr ⟨hapart', hapart, fun p hp q hq => hout' p hp q ?_⟩
    rw [hpairs]
    exact List.mem_append_left _ hq
  · intro p hp q hq
    rcases List.mem_append.mp hp with hnew | hold
    · refine hout' p hnew q ?_
      rw [hpairs]
      exact List.mem_append_right _ hq
    · exact hout p hold q hq
  · intro p hp
    rcases List.mem_append.mp hp with hnew | hold
    · exact List.mem_append_right _ (hin' p hnew)
    · exact List.mem_append_left _ (hin p hold)

/-- Calls in front that send nothing. -/
theorem Inserts.after (h : Inserts l r dObjs) (hcalls : sends calls = []) :
    Inserts l (r.1, calls ++ r.2) dObjs := by
  obtain ⟨new, hlist, hperm, hrest⟩ := h
  refine ⟨new, hlist, ?_, hrest⟩
  dsimp only
  rw [sends_append, hcalls]
  exact hperm

theorem sendTo_inserts (l : List SendEntry) (pair : SendPair) :
    Inserts l (sendTo pair l) [pair.1] := by
  unfold sendTo
  cases hadd : addToSendList l pair 0 with
  | none => exact Inserts.nothing rfl
  | some l' =>
      obtain ⟨hout, rfl⟩ := addToSendList_some hadd
      refine ⟨[pair], rfl, List.Perm.refl _, List.pairwise_singleton _ _, ?_, ?_⟩
      · intro p hp
        rw [List.mem_singleton.mp hp]
        exact hout
      · intro p hp
        rw [List.mem_singleton.mp hp]
        exact List.mem_cons_self

theorem sends_routeToApp (dObj : DataHash) (target : NodeRef) :
    sends (routeToApp dObj target) = [] := by
  unfold routeToApp
  split <;> rfl

theorem sends_forwardByDelegate (v : ForwardView) (dObj : DataHash) (target : NodeRef)
    (others : List NodeRef) : sends (forwardByDelegate v dObj target others) = [] := by
  unfold forwardByDelegate
  split <;> rfl

theorem sends_handOn (c : ForwardConfig) (v : ForwardView) (dObj : DataHash)
    (actualTargets : List NodeRef) (n : NodeRef) :
    sends (handOn c v dObj actualTargets n) = [] := by
  unfold handOn
  split
  · rfl
  · split
    · rfl
    · split
      · exact sends_forwardByDelegate v dObj n actualTargets
      · rfl

theorem sends_flatMap_nil {f : NodeRef → List ForwardCall} (hf : ∀ n, sends (f n) = [])
    (nodes : List NodeRef) : sends (nodes.flatMap f) = [] := by
  induction nodes with
  | nil => rfl
  | cons n nodes ih => rw [List.flatMap_cons, sends_append, hf, ih, List.nil_append]

/-! ## The five requests -/

theorem onDataObjectForward_inserts (c : ForwardConfig) (v : ForwardView) (dObj : DataHash)
    (target : NodeRef) (l : List SendEntry) :
    Inserts l (onDataObjectForward c v dObj target l) [dObj] := by
  unfold onDataObjectForward
  split
  · exact Inserts.nothing rfl
  · cases shouldForward c v dObj target with
    | none => exact Inserts.nothing (sends_routeToApp dObj target)
    | some actualTarget =>
        dsimp only
        split
        · exact (sendTo_inserts l (dObj, actualTarget)).after (sends_routeToApp dObj target)
        · refine Inserts.nothing ?_
          rw [sends_append, sends_routeToApp, sends_forwardByDelegate]
          rfl

theorem considerResult_inserts (c : ForwardConfig) (v : ForwardView) (delegate target : NodeRef)
    (dObj : DataHash) (l : List SendEntry) :
    Inserts l (considerResult c v delegate target dObj l) [dObj] := by
  unfold considerResult
  split
  · cases shouldForward c v dObj delegate with
    | none => exact Inserts.nothing rfl
    | some actualDelegate => exact sendTo_inserts l (dObj, actualDelegate)
  · cases shouldForward c v dObj target with
    | none => exact Inserts.nothing rfl
    | some actualTarget =>
        dsimp only
        split
        · exact sendTo_inserts l (dObj, actualTarget)
        · split
          · exact Inserts.nothing rfl
          · exact Inserts.nothing (sends_forwardByDelegate v dObj actualTarget [])

theorem queryLoop_inserts (c : ForwardConfig) (v : ForwardView) (delegate : NodeRef)
    (results : List (DataHash × Option NodeRef)) : ∀ (target : NodeRef) (l : List SendEntry),
    Inserts l (queryLoop c v delegate target results l) (results.map Prod.fst) := by
  induction results with
  | nil =>
      intro target l
      exact Inserts.nothing rfl
  | cons result results ih =>
      intro target l
      obtain ⟨dObj, optionalTarget⟩ := result
      have hfirst := considerResult_inserts c v delegate (optionalTarget.getD target) dObj l
      exact hfirst.append (ih (optionalTarget.getD target) _)

theorem onDataObjectQueryResult_inserts (c : ForwardConfig) (v : ForwardView)
    (target : Option NodeRef) (results : List (DataHash × Option NodeRef)) (l : List SendEntry) :
    Inserts l (onDataObjectQueryResult c v target results l) (results.map Prod.fst) := by
  unfold onDataObjectQueryResult
  split
  · exact Inserts.nothing rfl
  · cases target with
    | none => exact Inserts.nothing rfl
    | some delegate => exact queryLoop_inserts c v delegate results delegate l

/-- The nodes collected are those whose pairs were put in the list. -/
theorem collect_spec (dObj : DataHash) (nodes : List NodeRef) :
    ∀ (l : List SendEntry) (ns : List NodeRef), ∃ new : List NodeRef,
      (collect dObj nodes l ns).2 = new ++ ns ∧
      (collect dObj nodes l ns).1 = (new.map (fun n => (dObj, n))).map (fun p => ⟨p, 0⟩) ++ l ∧
      Apart (new.map (fun n => (dObj, n))) ∧
      ∀ n ∈ new, ∀ q ∈ pairs l, samePair (dObj, n) q = false := by
  induction nodes with
  | nil =>
      intro l ns
      exact ⟨[], rfl, rfl, List.Pairwise.nil, fun n hn => (by cases hn)⟩
  | cons node nodes ih =>
      intro l ns
      unfold collect
      cases hadd : addToSendList l (dObj, node) 0 with
      | none => exact ih l ns
      | some l' =>
          obtain ⟨hout, rfl⟩ := addToSendList_some hadd
          -- the later nodes are entered over a list that has this one
          obtain ⟨new, hns, hl, hapart, hnew⟩ := ih (⟨(dObj, node), 0⟩ :: l) (node :: ns)
          refine ⟨new ++ [node], ?_, ?_, ?_, ?_⟩
          · rw [hns, List.append_assoc]
            rfl
          · rw [hl, List.map_append, List.map_append, List.append_assoc]
            rfl
          · rw [List.map_append]
            refine List.pairwise_append.mpr
              ⟨hapart, List.pairwise_singleton _ _, fun p hp q hq => ?_⟩
            obtain ⟨n, hn, rfl⟩ := List.mem_map.mp hp
            rw [List.mem_singleton.mp hq]
            exact hnew n hn _ List.mem_cons_self
          · intro n hn q hq
            rcases List.mem_append.mp hn with hlater | hfirst
            · exact hnew n hlater q (List.mem_cons_of_mem _ hq)
            · rw [List.mem_singleton.mp hfirst]
              exact hout q hq

/-- If the nodes collected are sent to, and nothing else is, that inserts their pairs. -/
theorem collect_inserts {nodes : List NodeRef}
    (hcalls : (sends calls).Perm ((collect dObj nodes l []).2.map (fun n => (dObj, n)))) :
    Inserts l ((collect dObj nodes l []).1, calls) [dObj] := by
  obtain ⟨new, hns, hl, hapart, hout⟩ := collect_spec dObj nodes l []
  rw [hns, List.append_nil] at hcalls
  refine ⟨new.map (fun n => (dObj, n)), hl, hcalls, hapart, ?_, ?_⟩
  · intro p hp
    obtain ⟨n, hn, rfl⟩ := List.mem_map.mp hp
    exact hout n hn
  · intro p hp
    obtain ⟨n, -, rfl⟩ := List.mem_map.mp hp
    exact List.mem_cons_self

theorem sends_map_send (dObj : DataHash) (nodes : List NodeRef) :
    sends (nodes.map (fun n => .send (dObj, n))) = nodes.map (fun n => (dObj, n)) := by
  induction nodes with
  | nil => rfl
  | cons n nodes ih => exact congrArg ((dObj, n) :: ·) ih

theorem onNodeQueryResult_inserts (c : ForwardConfig) (v : ForwardView) (dObj : DataHash)
    (targets : List NodeRef) (l : List SendEntry) :
    Inserts l (onNodeQueryResult c v dObj targets l) [dObj] := by
  unfold onNodeQueryResult
  split
  · exact Inserts.nothing rfl
  · refine collect_inserts ?_
    rw [sends_append, sends_append, sends_flatMap_nil (sends_routeToApp dObj),
      sends_flatMap_nil (sends_handOn c v dObj _), sends_map_send]
    exact List.Perm.refl _

theorem onDelegateNodes_inserts (c : ForwardConfig) (v : ForwardView) (dObj : DataHash)
    (intendedTarget : Option NodeRef) (delegates : List NodeRef) (l : List SendEntry) :
    Inserts l (onDelegateNodes c v dObj intendedTarget delegates l) [dObj] := by
  unfold onDelegateNodes
  refine collect_inserts (List.Perm.of_eq ?_)
  generalize (collect dObj (delegates.filterMap (actualDelegate c v dObj)) l []).2 = ns
  induction ns with
  | nil => rfl
  | cons n ns ih =>
      rw [List.flatMap_cons, sends_append, ih, sends_append, List.map_cons]
      cases intendedTarget with
      | none => rfl
      | some target =>
          dsimp only
          rw [sends_routeToApp]
          rfl

theorem onRoutingInfoComplete_inserts (c : ForwardConfig) (v : ForwardView) (dObj : DataHash)
    (node : NodeRef) (l : List SendEntry) :
    Inserts l (onRoutingInfoComplete c v dObj node l) [dObj] := by
  unfold onRoutingInfoComplete
  split
  · cases shouldForward c v dObj node with
    | none => exact Inserts.nothing rfl
    | some actualTarget => exact sendTo_inserts l (dObj, actualTarget)
  · exact Inserts.nothing rfl

/-! ## Outcomes -/

/-- `resend` sends nothing, or to one node, whose pair differs from all in the list. -/
theorem resend_cases (c : ForwardConfig) (v : ForwardView) (dObj : DataHash) (node : NodeRef)
    (k : Int) (call : SendPair → ForwardCall) (hcall : ∀ p, sends [call p] = [p])
    (rest : List SendEntry) :
    resend c v dObj node k call rest = (rest, []) ∨
      ∃ n, (∀ q ∈ pairs rest, samePair (dObj, n) q = false) ∧
        (resend c v dObj node k call rest).1 = ⟨(dObj, n), k⟩ :: rest ∧
        sends (resend c v dObj node k call rest).2 = [(dObj, n)] := by
  unfold resend
  cases (shouldForward c v dObj node).filter (fun n => isNeighbor v n) with
  | none => exact Or.inl rfl
  | some n =>
      dsimp only
      cases hadd : addToSendList rest (dObj, n) k with
      | none => exact Or.inl rfl
      | some l' =>
          obtain ⟨hout, rfl⟩ := addToSendList_some hadd
          exact Or.inr ⟨n, hout, rfl, hcall _⟩

/-- The list without the first entry that equals a pair. -/
def without (p : SendPair) (l : List SendEntry) : List SendEntry :=
  l.eraseP (fun e => samePair e.pair p)

/--
**What an outcome does**: nothing, or it takes the first entry that equals its pair out, or it
takes it out and puts one in for the node that the object goes to now, with the count that belongs
to it, and sends that; after a failure only while the count is within the retries.
-/
theorem onSendDataObjectResult_cases {v : ForwardView} {outcome : SendOutcome} {node : NodeRef}
    (h : onSendDataObjectResult c v outcome dObj node l = some r) :
    r = (l, []) ∨ ∃ e, l.find? (fun e => samePair e.pair (dObj, node)) = some e ∧
      (r = (without (dObj, node) l, []) ∨
        ∃ n, (∀ q ∈ pairs (without (dObj, node) l), samePair (dObj, n) q = false) ∧
          r.1 = ⟨(dObj, n), e.repeatCount + outcome.failures⟩ :: without (dObj, node) l ∧
          sends r.2 = [(dObj, n)] ∧
          (outcome = .failure →
            e.repeatCount + 1 ≤ castInt (getDataObjectRetries c v dObj))) := by
  unfold onSendDataObjectResult at h
  split at h
  · exact Or.inl (Option.some.inj h).symm
  · cases hfind : l.find? (fun e => samePair e.pair (dObj, node)) with
    | none =>
        rw [hfind] at h
        exact Or.inl (Option.some.inj h).symm
    | some e =>
        rw [hfind] at h
        refine Or.inr ⟨e, rfl, ?_⟩
        -- a block or fragment with more to come leaves the count as it is
        have hmore : some (resend c v dObj node e.repeatCount .sendNext
            (without (dObj, node) l)) = some r → outcome.failures = 0 → outcome ≠ .failure →
            r = (without (dObj, node) l, []) ∨
            ∃ n, (∀ q ∈ pairs (without (dObj, node) l), samePair (dObj, n) q = false) ∧
              r.1 = ⟨(dObj, n), e.repeatCount + outcome.failures⟩ :: without (dObj, node) l ∧
              sends r.2 = [(dObj, n)] ∧
              (outcome = .failure →
                e.repeatCount + 1 ≤ castInt (getDataObjectRetries c v dObj)) := by
          intro hr hzero hne
          obtain rfl := Option.some.inj hr
          rcases resend_cases c v dObj node e.repeatCount .sendNext (fun _ => rfl)
            (without (dObj, node) l) with hnone | ⟨n, hout, hlist, hsends⟩
          · exact Or.inl hnone
          · refine Or.inr ⟨n, hout, ?_, hsends, fun hcon => absurd hcon hne⟩
            rw [hlist, hzero]
            exact congrArg (fun k => SendEntry.mk (dObj, n) k :: without (dObj, node) l)
              (Int.add_zero _).symm
        cases outcome with
        | networkCodingSuccessful => exact hmore h rfl SendOutcome.noConfusion
        | fragmentationSuccessful => exact hmore h rfl SendOutcome.noConfusion
        | successful => exact Or.inl (Option.some.inj h).symm
        | failure =>
            dsimp only at h
            split at h
            · cases h
            · split at h
              · rename_i hle
                obtain rfl := Option.some.inj h
                rcases resend_cases c v dObj node (e.repeatCount + 1) .send (fun _ => rfl)
                  (without (dObj, node) l) with hnone | ⟨n, hout, hlist, hsends⟩
                · exact Or.inl hnone
                · exact Or.inr ⟨n, hout, hlist, hsends, fun _ => hle⟩
              · exact Or.inl (Option.some.inj h).symm

theorem mem_without {e : SendEntry} (h : e ∈ without p l) :
    e ∈ l := List.mem_of_mem_eraseP h

theorem pairs_without_sublist (p : SendPair) (l : List SendEntry) :
    (pairs (without p l)).Sublist (pairs l) := List.eraseP_sublist.map SendEntry.pair

/-- What does not equal the pair stays. -/
theorem mem_pairs_without (h : q ∈ pairs l) (hne : samePair p q = false) :
    q ∈ pairs (without p l) := by
  obtain ⟨e, he, rfl⟩ := List.mem_map.mp h
  refine List.mem_map_of_mem ((List.mem_eraseP_of_neg ?_).mpr he)
  rw [samePair_comm, hne]
  exact Bool.false_ne_true

/-! ## Counts -/

/-- An `int` is no more than what it was cast from. -/
theorem castInt_le (n : UInt64) : castInt n ≤ n.toNat := by
  unfold castInt
  rw [Int.bmod_def]
  split <;> omega

/-- The most failures that a pair is sent again after. -/
def maxRetries (c : ForwardConfig) : Int :=
  max (castInt c.nodeDescriptionRetries)
    (max (castInt c.dataObjectRetriesShortCircuit) (castInt c.dataObjectRetries))

theorem castInt_retries_le (c : ForwardConfig) (v : ForwardView) (dObj : DataHash) :
    castInt (getDataObjectRetries c v dObj) ≤ maxRetries c := by
  unfold getDataObjectRetries maxRetries
  split
  · exact le_max_left _ _
  · split
    · exact (le_max_left _ _).trans (le_max_right _ _)
    · exact (le_max_right _ _).trans (le_max_right _ _)

/-! ## The invariant -/

/-- What holds of the list and its record after every event. -/
structure SendInv (c : ForwardConfig) (w : SendWorld) : Prop where
  unique : Apart (pairs w.forwardedObjects)
  one_waiting : Apart w.waiting
  /-- What is under way is in the list, unless its object was deleted meanwhile. -/
  listed : ∀ p ∈ w.waiting, w.deleted p.1 = false → p ∈ pairs w.forwardedObjects
  /-- The count of an entry is that of its failures. -/
  counts : ∀ e ∈ w.forwardedObjects, e.repeatCount = w.resends e.pair
  small : ∀ e ∈ w.forwardedObjects, e.repeatCount ≤ max 0 (maxRetries c)
  gone : ∀ e ∈ w.forwardedObjects, w.deleted e.pair.1 = false
  within : w.overrun = false
  quiet : ∀ p ∈ w.raised, w.deleted p.1 = false

theorem SendInv.law (h : SendInv c w) : SendLaw w where
  apart := h.unique
  waiting_apart := h.one_waiting
  one_entry := fun _ hclear => Apart.length_filter_le h.unique hclear
  one_waiting := fun _ hclear => h.one_waiting.length_filter_le hclear
  within := h.within
  gone := h.gone
  quiet := h.quiet

theorem sendInv_init (c : ForwardConfig) : SendInv c SendWorld.init where
  unique := List.Pairwise.nil
  one_waiting := List.Pairwise.nil
  listed := fun p hp => (by cases hp)
  counts := fun e he => (by cases he)
  small := fun e he => (by cases he)
  gone := fun e he => (by cases he)
  within := rfl
  quiet := fun p hp => (by cases hp)

/-- Pairs that are apart stay so in any order. -/
theorem apart_perm {l l' : List SendPair} (h : l.Perm l') : Apart l ↔ Apart l' :=
  h.pairwise_iff (fun {p q} hpq => by rw [samePair_comm]; exact hpq)

/-- A pair that differs from all in a list is none of them. -/
theorem ne_of_apart {l : List SendPair} (h : ∀ q ∈ l, samePair p q = false) (hq : q ∈ l) :
    q ≠ p := by
  rintro rfl
  have hself := h q hq
  rw [samePair_self] at hself
  cases hself

/-- What is sent differs from what is under way, if it differs from what is listed and its object
was not deleted. -/
theorem SendInv.waiting_differs (h : SendInv c w) {l : List SendPair}
    (hdeleted : w.deleted p.1 = false) (hout : ∀ q ∈ l, samePair p q = false) (hq : q ∈ w.waiting)
    (hlisted : q ∈ pairs w.forwardedObjects → q ∈ l) : samePair p q = false := by
  rw [← Bool.not_eq_true]
  intro hsame
  have hobject : w.deleted q.1 = false := by rw [← samePair_object hsame]; exact hdeleted
  have hdiffer := hout q (hlisted (h.listed q hq hobject))
  rw [hsame] at hdiffer
  cases hdiffer

/-- **A request keeps the invariant**, if it is for no deleted object. -/
theorem SendInv.request (h : SendInv c w) {op : ForwardOp}
    (hhandle : handleForward c w.forwardedObjects op = some r)
    (hins : Inserts w.forwardedObjects r op.requested)
    (hreq : ∀ dObj ∈ op.requested, w.deleted dObj = false) (hsettles : ∀ p, op.settles p = false)
    (hdeletes : op.deletes = []) (hafter : w.resendsAfter op = 0)
    (hoverruns : w.overruns c op (sends r.2) = false) (hstep : w.step c op = some w') :
    SendInv c w' := by
  obtain ⟨new, hlist, hperm, hapart, hout, hin⟩ := hins
  have hkeep : w.waiting.filter (fun p => !op.settles p) = w.waiting :=
    List.filter_eq_self.mpr (fun p _ => by rw [hsettles]; rfl)
  unfold SendWorld.step at hstep
  rw [hhandle, Option.map_some, hkeep, hdeletes, hafter, hoverruns] at hstep
  obtain rfl := Option.some.inj hstep
  have hpairs : pairs r.1 = new ++ pairs w.forwardedObjects := by rw [hlist, pairs_inserted]
  have hdeleted : ∀ dObj, (w.deleted dObj || decide (dObj ∈ ([] : List DataHash))) =
      w.deleted dObj := fun dObj => by simp
  have hraised : ∀ p, p ∈ sends r.2 ↔ p ∈ new := fun p => hperm.mem_iff
  refine ⟨?_, ?_, ?_, ?_, ?_, ?_, ?_, ?_⟩
  · dsimp only
    rw [hpairs]
    exact List.pairwise_append.mpr ⟨hapart, h.unique, hout⟩
  · refine List.pairwise_append.mpr ⟨(apart_perm hperm).mpr hapart, h.one_waiting, ?_⟩
    -- what is under way is listed, and what is put in differs from that
    intro p hp q hq
    have hnew := (hraised p).mp hp
    exact h.waiting_differs (hreq _ (hin p hnew)) (hout p hnew) hq id
  · intro p hp hnot
    dsimp only at hp hnot ⊢
    rw [hdeleted] at hnot
    rw [hpairs]
    rcases List.mem_append.mp hp with hnew | hold
    · exact List.mem_append_left _ ((hraised p).mp hnew)
    · exact List.mem_append_right _ (h.listed p hold hnot)
  · intro e he
    dsimp only at he ⊢
    rw [hlist] at he
    rcases List.mem_append.mp he with hnew | hold
    · obtain ⟨p, hp, rfl⟩ := List.mem_map.mp hnew
      rw [if_pos ((hraised p).mpr hp)]
      rfl
    · rw [if_neg (fun hcon => ne_of_apart (hout _ ((hraised _).mp hcon))
        (List.mem_map_of_mem hold) rfl)]
      exact h.counts e hold
  · intro e he
    dsimp only at he
    rw [hlist] at he
    rcases List.mem_append.mp he with hnew | hold
    · obtain ⟨p, -, rfl⟩ := List.mem_map.mp hnew
      exact le_max_left _ _
    · exact h.small e hold
  · intro e he
    dsimp only at he ⊢
    rw [hdeleted]
    rw [hlist] at he
    rcases List.mem_append.mp he with hnew | hold
    · obtain ⟨p, hp, rfl⟩ := List.mem_map.mp hnew
      exact hreq _ (hin p hp)
    · exact h.gone e hold
  · dsimp only
    rw [h.within]
    rfl
  · intro p hp
    dsimp only at hp ⊢
    rw [hdeleted]
    exact hreq _ (hin p ((hraised p).mp hp))

/-- **An outcome keeps the invariant.** -/
theorem SendInv.outcome (h : SendInv c w) {v : ForwardView} {outcome : SendOutcome} {node : NodeRef}
    (hstep : w.step c (.outcome v outcome dObj node) = some w') : SendInv c w' := by
  obtain ⟨r, hhandle, rfl⟩ := Option.map_eq_some_iff.mp hstep
  have hdeleted : ∀ o, (w.deleted o || decide (o ∈ (ForwardOp.outcome v outcome dObj node).deletes))
      = w.deleted o := fun o => by simp [ForwardOp.deletes]
  -- the outcome settles the sends of the pairs that equal its own
  have hwaiting : ∀ p, p ∈ w.waiting.filter
      (fun p => !(ForwardOp.outcome v outcome dObj node).settles p) ↔
        p ∈ w.waiting ∧ samePair (dObj, node) p = false := by
    intro p
    rw [List.mem_filter, Bool.not_eq_true']
    rfl
  have hstill := h.one_waiting.sublist (List.filter_sublist
    (p := fun p => !(ForwardOp.outcome v outcome dObj node).settles p))
  rcases onSendDataObjectResult_cases hhandle with rfl | ⟨e, hfind, hcases⟩
  · refine ⟨h.unique, hstill, ?_, h.counts, h.small, ?_, ?_, fun p hp => (by cases hp)⟩
    · intro p hp hnot
      dsimp only at hp hnot ⊢
      rw [hdeleted] at hnot
      exact h.listed p ((hwaiting p).mp hp).1 hnot
    · intro e' he'
      dsimp only
      rw [hdeleted]
      exact h.gone e' he'
    · dsimp only
      rw [h.within]
      cases outcome <;> rfl
  · have he := List.mem_of_find?_eq_some hfind
    have hpair : samePair e.pair (dObj, node) = true := by
      have hsome := List.find?_some hfind
      exact hsome
    have hgone : w.deleted dObj = false := by
      have := h.gone e he
      rw [samePair_object hpair] at this
      exact this
    have hunique : Apart (pairs (without (dObj, node) w.forwardedObjects)) :=
      h.unique.sublist (pairs_without_sublist _ _)
    -- what is still under way keeps its entry
    have hlisted : ∀ p ∈ w.waiting, samePair (dObj, node) p = false → w.deleted p.1 = false →
        p ∈ pairs (without (dObj, node) w.forwardedObjects) :=
      fun p hp hne hnot => mem_pairs_without (h.listed p hp hnot) hne
    rcases hcases with rfl | ⟨n, hout, hlist, hsends, hlimit⟩
    · refine ⟨hunique, hstill, ?_, ?_, ?_, ?_, ?_, fun p hp => (by cases hp)⟩
      · intro p hp hnot
        dsimp only at hp hnot
        rw [hdeleted] at hnot
        obtain ⟨hold, hne⟩ := (hwaiting p).mp hp
        exact hlisted p hold hne hnot
      · exact fun e' he' => h.counts e' (mem_without he')
      · exact fun e' he' => h.small e' (mem_without he')
      · intro e' he'
        dsimp only
        rw [hdeleted]
        exact h.gone e' (mem_without he')
      · dsimp only
        rw [h.within]
        cases outcome <;> rfl
    · have hcounted : e.repeatCount = (w.resends e.pair : Int) := h.counts e he
      have hafter : w.resendsAfter (.outcome v outcome dObj node) =
          w.resends e.pair + outcome.failures := by
        dsimp only [SendWorld.resendsAfter]
        rw [hfind]
        rfl
      refine ⟨?_, ?_, ?_, ?_, ?_, ?_, ?_, ?_⟩
      · dsimp only
        rw [hlist]
        exact List.pairwise_cons.mpr ⟨hout, hunique⟩
      · dsimp only
        rw [hsends]
        refine List.pairwise_cons.mpr ⟨fun q hq => ?_, hstill⟩
        obtain ⟨hold, hne⟩ := (hwaiting q).mp hq
        exact h.waiting_differs hgone hout hold (fun hq => mem_pairs_without hq hne)
      · intro p hp hnot
        dsimp only at hp hnot ⊢
        rw [hdeleted] at hnot
        rw [hsends] at hp
        rw [hlist]
        rcases List.mem_cons.mp hp with rfl | hold
        · exact List.mem_cons_self
        · obtain ⟨hold, hne⟩ := (hwaiting p).mp hold
          exact List.mem_cons_of_mem _ (hlisted p hold hne hnot)
      · intro e' he'
        dsimp only at he' ⊢
        rw [hlist] at he'
        rw [hsends, hafter]
        rcases List.mem_cons.mp he' with rfl | hold
        · rw [if_pos List.mem_cons_self]
          dsimp only
          rw [hcounted, Nat.cast_add]
        · have hne : e'.pair ≠ (dObj, n) := ne_of_apart hout (List.mem_map_of_mem hold)
          rw [if_neg (fun hin => hne (List.mem_singleton.mp hin))]
          exact h.counts e' (mem_without hold)
      · intro e' he'
        dsimp only at he'
        rw [hlist] at he'
        rcases List.mem_cons.mp he' with rfl | hold
        · dsimp only
          by_cases hfail : outcome = .failure
          · have hle := (hlimit hfail).trans (castInt_retries_le c v dObj)
            rw [hfail]
            exact hle.trans (le_max_right _ _)
          · unfold SendOutcome.failures
            rw [if_neg hfail]
            exact (Int.add_zero _).le.trans (h.small e he)
        · exact h.small e' (mem_without hold)
      · intro e' he'
        dsimp only at he' ⊢
        rw [hdeleted]
        rw [hlist] at he'
        rcases List.mem_cons.mp he' with rfl | hold
        · exact hgone
        · exact h.gone e' (mem_without hold)
      · dsimp only
        rw [h.within, Bool.false_or]
        by_cases hfail : outcome = .failure
        · have hle := (hlimit hfail).trans (castInt_le _)
          rw [hcounted] at hle
          subst hfail
          dsimp only [SendWorld.overruns]
          rw [hafter, Bool.and_eq_false_iff]
          refine Or.inr (decide_eq_false ?_)
          have : SendOutcome.failure.failures = 1 := rfl
          omega
        · cases outcome with
          | failure => exact absurd rfl hfail
          | networkCodingSuccessful => rfl
          | fragmentationSuccessful => rfl
          | successful => rfl
      · intro p hp
        dsimp only at hp ⊢
        rw [hsends] at hp
        rw [hdeleted, List.mem_singleton.mp hp]
        exact hgone

/-! ## Deletions -/

/-- **No entry of a deleted object is left**, and every other one is. -/
theorem mem_onDeletedDataObject (dObjs : List DataHash) : ∀ (l : List SendEntry) (e : SendEntry),
    e ∈ onDeletedDataObject dObjs l ↔ e ∈ l ∧ e.pair.1 ∉ dObjs := by
  unfold onDeletedDataObject
  induction dObjs with
  | nil =>
      intro l e
      exact ⟨fun h => ⟨h, List.not_mem_nil⟩, fun h => h.1⟩
  | cons dObj dObjs ih =>
      intro l e
      rw [List.foldl_cons, ih, List.mem_filter, List.mem_cons, not_or, decide_eq_true_iff,
        and_assoc]

theorem onDeletedDataObject_sublist (dObjs : List DataHash) : ∀ l : List SendEntry,
    (onDeletedDataObject dObjs l).Sublist l := by
  unfold onDeletedDataObject
  induction dObjs with
  | nil => exact fun l => List.Sublist.refl l
  | cons dObj dObjs ih => exact fun l => (ih _).trans List.filter_sublist

/-- **A deletion keeps the invariant.** -/
theorem SendInv.deletion (h : SendInv c w) (hstep : w.step c (.deleted dObjs) = some w') :
    SendInv c w' := by
  obtain rfl := Option.some.inj hstep
  have hold : ∀ e ∈ onDeletedDataObject dObjs w.forwardedObjects, e ∈ w.forwardedObjects :=
    fun e he => ((mem_onDeletedDataObject dObjs _ e).mp he).1
  have hkeep : w.waiting.filter (fun p => !(ForwardOp.deleted dObjs).settles p) = w.waiting :=
    List.filter_eq_self.mpr (fun _ _ => rfl)
  refine ⟨?_, ?_, ?_, ?_, ?_, ?_, ?_, fun p hp => (by cases hp)⟩
  · exact h.unique.sublist ((onDeletedDataObject_sublist dObjs _).map _)
  · dsimp only
    rw [hkeep]
    exact h.one_waiting
  · intro p hp hnot
    dsimp only at hp
    rw [hkeep] at hp
    obtain ⟨hnot, hnotin⟩ := Bool.or_eq_false_iff.mp hnot
    obtain ⟨e, he, rfl⟩ := List.mem_map.mp (h.listed p hp hnot)
    exact List.mem_map_of_mem ((mem_onDeletedDataObject dObjs _ e).mpr
      ⟨he, of_decide_eq_false hnotin⟩)
  · exact fun e he => h.counts e (hold e he)
  · exact fun e he => h.small e (hold e he)
  · intro e he
    obtain ⟨hin, hnot⟩ := (mem_onDeletedDataObject dObjs _ e).mp he
    exact Bool.or_eq_false_iff.mpr ⟨h.gone e hin, decide_eq_false hnot⟩
  · dsimp only
    rw [h.within]
    rfl

/-! ## Runs -/

/-- **Every event keeps the invariant.** -/
theorem SendInv.step {c : ForwardConfig} {w : SendWorld} (h : SendInv c w) {op : ForwardOp}
    (hreq : ∀ dObj ∈ op.requested, w.deleted dObj = false) {w' : SendWorld}
    (hstep : w.step c op = some w') : SendInv c w' := by
  cases op with
  | forward v dObj target =>
      exact h.request rfl (onDataObjectForward_inserts c v dObj target _) hreq (fun _ => rfl) rfl rfl
        rfl hstep
  | queryResult v target results =>
      exact h.request rfl (onDataObjectQueryResult_inserts c v target results _) hreq
        (fun _ => rfl) rfl rfl rfl hstep
  | nodeQueryResult v dObj targets =>
      exact h.request rfl (onNodeQueryResult_inserts c v dObj targets _) hreq (fun _ => rfl) rfl rfl
        rfl hstep
  | delegateNodes v dObj intendedTarget delegates =>
      exact h.request rfl (onDelegateNodes_inserts c v dObj intendedTarget delegates _) hreq
        (fun _ => rfl) rfl rfl rfl hstep
  | routingInfoComplete v dObj node =>
      exact h.request rfl (onRoutingInfoComplete_inserts c v dObj node _) hreq (fun _ => rfl) rfl
        rfl rfl hstep
  | outcome v outcome dObj node => exact h.outcome hstep
  | deleted dObjs => exact h.deletion hstep

/-- While no setting is the greatest `int`, every event can be handled. -/
theorem SendInv.handles (h : SendInv c w) (hfits : maxRetries c < intMax) (op : ForwardOp) :
    ∃ w', w.step c op = some w' := by
  suffices hsome : (handleForward c w.forwardedObjects op).isSome = true by
    obtain ⟨r, hr⟩ := Option.isSome_iff_exists.mp hsome
    exact ⟨_, by rw [SendWorld.step, hr, Option.map_some]⟩
  cases op with
  | outcome v outcome dObj node =>
      dsimp only [handleForward]
      unfold onSendDataObjectResult
      split
      · rfl
      · cases hfind : w.forwardedObjects.find? (fun e => samePair e.pair (dObj, node)) with
        | none => rfl
        | some e =>
            have hsmall := h.small e (List.mem_of_find?_eq_some hfind)
            have hne : e.repeatCount ≠ intMax := by
              unfold intMax at hfits ⊢
              omega
            cases outcome with
            | failure =>
                dsimp only
                rw [if_neg hne]
                split <;> rfl
            | networkCodingSuccessful => rfl
            | fragmentationSuccessful => rfl
            | successful => rfl
  | _ => rfl

/-- The invariant along a run in which a deleted object is not forwarded again. -/
theorem SendInv.run {c : ForwardConfig} : ∀ {ops : List ForwardOp} {w : SendWorld},
    SendInv c w → NotForwardedAgain ops →
    (∀ op ∈ ops, ∀ dObj ∈ op.requested, w.deleted dObj = false) →
    (∀ w', run (SendWorld.step c) w ops = some w' → SendInv c w') ∧
      (maxRetries c < intMax → ∃ w', run (SendWorld.step c) w ops = some w') := by
  intro ops
  induction ops with
  | nil =>
      intro w h _ _
      refine ⟨fun w' hrun => ?_, fun _ => ⟨w, rfl⟩⟩
      obtain rfl := Option.some.inj hrun
      exact h
  | cons op ops ih =>
      intro w h hnot hreq
      obtain ⟨hlater, hnot⟩ := List.pairwise_cons.mp hnot
      have hnext : ∀ t, w.step c op = some t → SendInv c t ∧
          ∀ op' ∈ ops, ∀ dObj ∈ op'.requested, t.deleted dObj = false := by
        intro t ht
        refine ⟨h.step (hreq op List.mem_cons_self) ht, fun op' hop' dObj hdObj => ?_⟩
        obtain ⟨r, -, rfl⟩ := Option.map_eq_some_iff.mp ht
        refine Bool.or_eq_false_iff.mpr ⟨hreq op' (List.mem_cons_of_mem _ hop') dObj hdObj, ?_⟩
        exact decide_eq_false (fun hdeleted => hlater op' hop' dObj hdeleted hdObj)
      constructor
      · intro w' hrun
        obtain ⟨t, ht, hrun⟩ := Option.bind_eq_some_iff.mp hrun
        obtain ⟨hinv, hreq'⟩ := hnext t ht
        exact (ih hinv hnot hreq').1 w' hrun
      · intro hfits
        obtain ⟨t, ht⟩ := h.handles hfits op
        obtain ⟨hinv, hreq'⟩ := hnext t ht
        obtain ⟨w', hrun⟩ := (ih hinv hnot hreq').2 hfits
        exact ⟨w', by rw [Lib.run, ht]; exact hrun⟩

/--
**The send list after every run in which a deleted object is not forwarded again**: one entry and
one send under way for pairs that are equal, and so for any pair that does not equal two that
differ; no more resends than retries, and nothing of a deleted object. And there is such a run for
any events, unless a setting is the greatest `int`.
-/
theorem send_list_lawful (c : ForwardConfig) {ops : List ForwardOp}
    (hnot : NotForwardedAgain ops) :
    (∀ w, run (SendWorld.step c) SendWorld.init ops = some w → SendLaw w) ∧
      (maxRetries c < intMax → ∃ w, run (SendWorld.step c) SendWorld.init ops = some w) := by
  have hrun := (sendInv_init c).run hnot (fun _ _ _ _ => rfl)
  exact ⟨fun w hw => (hrun.1 w hw).law, hrun.2⟩

/-- Some settings, and a moment at which every node is a neighbour that lacks every object. -/
def fewRetries : ForwardConfig where
  thisNode := Vector.replicate 20 9
  neighborForwardingShortcut := true
  firstClassApplications := false
  enableMultihopBloomfilters := false
  dataObjectRetries := 4
  dataObjectRetriesShortCircuit := 0
  nodeDescriptionRetries := 1

def allInReach : ForwardView where
  running := true
  forwardingModule := true
  isNodeDescription := fun _ => false
  described := fun _ => none
  shortCircuit := fun _ => false
  proxyId := fun _ => Vector.replicate 20 0
  retrieve := fun _ => none
  hasThisOrParentDataObject := fun _ _ => false
  available := fun _ => true
  retrieveNeighbor := some
  isLocalApplication := fun _ => false

/-- A node with some Ethernet interfaces. -/
def nodeRefOn (node : Nat) (type : NodeType) (id : UInt8) (macs : List UInt8) : NodeRef :=
  ⟨node, type, Vector.replicate 20 id, macs.map (fun mac => ⟨.ethernet, [2, 0, 0, 0, 0, mac]⟩)⟩

/-- An object is forwarded to a peer and to two neighbours of which only an interface is known,
fails for the peer and is sent again, is deleted, and fails again. -/
def failsTwice : List ForwardOp :=
  [.delegateNodes allInReach zeroHash none
      [nodeRefOn 1 .undefined 0 [1], nodeRefOn 2 .undefined 0 [2]],
    .forward allInReach zeroHash (nodeRefOn 3 .peer 1 [3]),
    .outcome allInReach .failure zeroHash (nodeRefOn 3 .peer 1 [3]), .deleted [zeroHash],
    .outcome allInReach .failure zeroHash (nodeRefOn 3 .peer 1 [3])]

theorem failsTwice_lawful :
    ∃ w, run (SendWorld.step fewRetries) SendWorld.init failsTwice = some w ∧ SendLaw w := by
  have hboth := send_list_lawful fewRetries
    (show NotForwardedAgain failsTwice by unfold NotForwardedAgain; decide)
  obtain ⟨w, hw⟩ := hboth.2 (by decide)
  exact ⟨w, hw, hboth.1 w hw⟩

/-- Two neighbours of which one interface each is known are delegates for an object, and then the
object is to go to the peer that has both interfaces. -/
def foundTwice : List ForwardOp :=
  [.delegateNodes allInReach zeroHash none
      [nodeRefOn 1 .undefined 0 [1], nodeRefOn 2 .undefined 0 [2]],
    .forward allInReach zeroHash (nodeRefOn 3 .peer 1 [1, 2])]

/-- The pair of the object and the peer has two entries, and two sends under way. -/
theorem pair_with_two_entries :
    ¬ ∀ ops, NotForwardedAgain ops → ∀ w,
      run (SendWorld.step fewRetries) SendWorld.init ops = some w →
        ∀ p, (w.entriesFor p).length ≤ 1 ∧ (w.waitingFor p).length ≤ 1 := by
  intro h
  have hboth := h foundTwice (by unfold NotForwardedAgain; decide) _ rfl
    (zeroHash, nodeRefOn 3 .peer 1 [1, 2])
  exact absurd hboth.1 (by decide)

end Encoders.Forwarding
