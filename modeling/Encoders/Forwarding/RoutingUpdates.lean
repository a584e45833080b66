import Mathlib.Algebra.Group.Action.Defs
import Mathlib.Algebra.Order.BigOperators.Group.List
import Mathlib.Data.Finset.Card
import Encoders.Forwarding.Contacts
import Encoders.Interest.Aggregate
import Encoders.Lib.Worklist
import Encoders.Nodes.NodeManager

/-!
# Recursive routing updates

A node whose metrics changed because a neighbour went away tells its other neighbours, and
each of them tells its own. What keeps such updates from going round for ever is a list in the
update of the nodes that have had it. The list is built in `recursiveRoutingUpdate`, copied
into a task of the forwarding module, written into the data object when the task comes back,
and read again by the next node, which adds to it the neighbours that are not in it yet and
sends the update to those.

So along a chain of updates the list grows by the destination of each, and with finitely many
nodes the chain ends. An update without a list is answered as if it had carried its sender.
-/

namespace Encoders.Forwarding

open Encoders.Lib Encoders.Data Encoders.Interest Encoders.Nodes

variable {metadata : Metadata} {t : ForwardingTask}
variable {l : List Node} {p : RoutingPeer} {cause : List RoutingUpdate}

/-! ## Ids in metadata -/

/-- One digit in `create_with_id`. A `char` above 127 is negative. -/
def hexDigit (c : UInt8) : UInt8 :=
  if 128 ≤ c ∨ c ≤ 57 then c - 48 else if c ≤ 71 then c - 65 + 10 else c - 97 + 10

/-- `create_with_id`, from a string. -/
def createWithId (type : NodeType) (idStr : CString) : Option Node :=
  if idStr.length ≠ 40 then none
  else
    some { Node.create with
      type := type
      id := Vector.ofFn (fun i =>
        hexDigit (idStr.getD (2 * i) 0) <<< 4 + hexDigit (idStr.getD (2 * i + 1) 0)) }

/-- `getIdStr` -/
def getIdStr (node : Node) : CString :=
  if node.type = .undefined then lit "[Unknown id]" else idString node.id.toList

/-- `metadataToRecurseList`, of the element `RecurseList` if there is one. -/
def metadataToRecurseList (m : Option Metadata) : List Node :=
  match m with
  | none => []
  | some m => (m.getAll (lit "Node")).filterMap
      (fun tm => (tm.getParameter (lit "node_id")).bind (createWithId .peer))

/-- The element of a node in the list. -/
def recurseElement (node : Node) : Metadata :=
  (Metadata.leaf []).setParameter (lit "node_id") (getIdStr node)

/-- `recurseListToMetadata`: the element `RecurseList`, added to `m`. -/
def recurseListToMetadata (m : Metadata) (recurseList : List Node) : Metadata :=
  m.addMetadata (lit "RecurseList")
    (recurseList.foldl (fun tm node => tm.addMetadata (lit "Node") (recurseElement node))
      (Metadata.leaf []))

/-! ## Forwarding modules -/

/-- The modules that have a task queue. The others never generate routing information. -/
inductive RoutingModule where
  | prophet
  | alphaDirect

/-- `getName` -/
def RoutingModule.getName : RoutingModule → CString
  | .prophet => lit "Prophet"
  | .alphaDirect => lit "AlphaDirect"

/-- A `ForwardingTask` of the type `FWD_TASK_GENERATE_ROUTING_INFO_DATA_OBJECT`. -/
structure ForwardingTask where
  forwarder : RoutingModule
  node : Node
  nodes : Option (List Node)

/-- A node, with what its store says of the others. -/
structure RoutingPeer where
  thisNode : Node
  /-- `retrieveNeighbors` -/
  neighbors : List Node
  /-- The forwarding module, or the modules in it if it is a `ForwarderAggregate`. -/
  forwarders : List RoutingModule
  recursiveRoutingUpdates : Bool
  /-- The node whose interface an update of that node came in on. -/
  retrieve : NodeId → Option Node
  retrieve_peer : ∀ id node, retrieve id = some node → node.type = .peer

/-- `generateRoutingInformationDataObject`: a task for each module. -/
def generateRoutingInformationDataObject (p : RoutingPeer) (node : Node)
    (triggerList : Option (List Node)) : List ForwardingTask :=
  p.forwarders.map (fun f => ⟨f, node, triggerList⟩)

/-- The loop over the neighbours: the recurse list after it, and `notify_list`. -/
def notifyLoop : List Node → List Node → List Node × List Node
  | recurseList, [] => (recurseList, [])
  | recurseList, neighbor :: neighbors =>
      if neighbor.type ≠ .peer then notifyLoop recurseList neighbors
      else if recurseList.any (fun n => neighbor.eqNode n) then notifyLoop recurseList neighbors
      else
        let (recurseList', notifyList) := notifyLoop (recurseList ++ [neighbor]) neighbors
        (recurseList', neighbor :: notifyList)

/-- The list that `recursiveRoutingUpdate` starts with. -/
def startList (peer : Node) (m : Option Metadata) : List Node :=
  let recurseList := metadataToRecurseList (m.bind (fun m => m.getMetadata (lit "RecurseList")))
  if recurseList.length = 0 then [peer] else recurseList

/-- `recursiveRoutingUpdate` -/
def recursiveRoutingUpdate (p : RoutingPeer) (peer : Node) (m : Option Metadata) :
    List ForwardingTask :=
  let (recurseList, notifyList) := notifyLoop (startList peer m) p.neighbors
  -- all of them are sent the whole list
  notifyList.flatMap (fun neighbor =>
    generateRoutingInformationDataObject p neighbor (some recurseList))

/-- `getName` of the manager. -/
def managerName : CString := lit "ForwardingManager"

/-- `addRoutingInformation`, with the metrics that `rib` holds for nodes. -/
def addRoutingInformation (thisNode : Node) (rib : List (CString × CString)) :
    RoutingModule → Metadata → Option Metadata
  | .prophet, parent =>
      some (rib.foldl (fun m metric =>
        m.addMetadata (lit "Metric")
          ((Metadata.leaf metric.2).setParameter (lit "node_id") metric.1))
        (parent.setParameter (lit "node_id") (getIdStr thisNode)))
  | .alphaDirect, _ => none

/-- `createRoutingInformationDataObject`: the metadata of the new object. -/
def createRoutingInformationDataObject (thisNode : Node) (rib : List (CString × CString))
    (f : RoutingModule) : Option Metadata :=
  (addRoutingInformation thisNode rib f
    ((Metadata.leaf []).setParameter (lit "node_id") (getIdStr thisNode))).map
    (fun md => (Metadata.leaf []).addMetadata managerName
      ((Metadata.leaf []).addMetadata f.getName md))

/-! ## The parts of an update's way -/

/-- A routing update on its way from node to node. -/
structure RoutingUpdate where
  sender : NodeId
  dest : NodeId
  metadata : Metadata

/-- What is under way: a task, a task that has come back, or an update. -/
inductive RoutingStage where
  | task (owner : RoutingPeer) (task : ForwardingTask)
  | taskComplete (owner : RoutingPeer) (task : ForwardingTask) (dObj : Option Metadata)
  | update (u : RoutingUpdate)

/-- What the handlers find when one of these is next. -/
structure RoutingMoment where
  /-- `getState() <= MANAGER_STATE_RUNNING` -/
  running : Bool
  /-- The update does not arrive. -/
  lost : Bool
  /-- `isNeighbor`, for the node of the task. -/
  isNeighbor : Bool
  /-- There is a forwarding module. -/
  forwardingModule : Bool
  /-- What Prophet has in `rib`. -/
  rib : List (CString × CString)
  shouldForward : Bool
  addToSendList : Bool

/-- The case `FWD_TASK_GENERATE_ROUTING_INFO_DATA_OBJECT` of `ForwarderAsynchronous::run`. -/
def runTask (m : RoutingMoment) (owner : RoutingPeer) (task : ForwardingTask) :
    List RoutingStage :=
  if m.isNeighbor ∧ task.node.type = .peer then
    [.taskComplete owner task
      (createRoutingInformationDataObject owner.thisNode m.rib task.forwarder)]
  else []

/-- The metadata that is sent: with the task's list, if it has one. -/
def withRecurseList (nodes : Option (List Node)) (metadata : Metadata) : Metadata :=
  match nodes with
  | none => metadata
  | some l =>
      match metadata.getMetadata managerName with
      | none => metadata
      | some _ => metadata.modify managerName (fun m => recurseListToMetadata m l)

/-- `onForwardingTaskComplete`. The target of a peer is the peer itself. -/
def onForwardingTaskComplete (m : RoutingMoment) (owner : RoutingPeer) (task : ForwardingTask)
    (dObj : Option Metadata) : List RoutingStage :=
  match dObj with
  | none => []
  | some metadata =>
      if m.isNeighbor ∧ m.forwardingModule ∧ m.shouldForward ∧ m.addToSendList then
        [.update ⟨owner.thisNode.id, task.node.id, withRecurseList task.nodes metadata⟩]
      else []

/-- `onRoutingInformation`, for the objects of an event and the nodes they are from. -/
def onRoutingInformation (m : RoutingMoment) (p : RoutingPeer) :
    List (Option Node × Metadata) → List ForwardingTask
  | [] => []
  | (none, _) :: _ => []
  | (some peer, metadata) :: dObjs =>
      if peer.eqNode p.thisNode then []
      else
        (if p.recursiveRoutingUpdates && m.forwardingModule then
          recursiveRoutingUpdate p peer (metadata.getMetadata managerName) else []) ++
        onRoutingInformation m p dObjs

/-- An update arrives, or is lost. -/
def deliver (m : RoutingMoment) (net : List RoutingPeer) (u : RoutingUpdate) :
    List RoutingStage :=
  if m.lost ∨ m.running = false then []
  else
    match net.find? (fun p => p.thisNode.id = u.dest) with
    | none => []
    | some p => (onRoutingInformation m p [(p.retrieve u.sender, u.metadata)]).map (.task p)

/-! ## A network -/

/-- Something under way, and the updates that led to it, the last one first. -/
structure RoutingItem where
  stage : RoutingStage
  cause : List RoutingUpdate

/-- What comes of it, in one step. -/
def process (net : List RoutingPeer) (m : RoutingMoment) (x : RoutingItem) : List RoutingItem :=
  match x.stage with
  | .task owner task => (runTask m owner task).map (fun y => ⟨y, x.cause⟩)
  | .taskComplete owner task dObj =>
      (onForwardingTaskComplete m owner task dObj).map (fun y => ⟨y, x.cause⟩)
  | .update u => (deliver m net u).map (fun y => ⟨y, u :: x.cause⟩)

/-- The chain that ends with an update under way. -/
def RoutingItem.sentChain (x : RoutingItem) : Option (List RoutingUpdate) :=
  match x.stage with
  | .update u => some (u :: x.cause)
  | _ => none

/-- What is under way, and the chains of all updates sent so far. -/
abbrev RoutingWorld := List RoutingItem × List (List RoutingUpdate)

/-- Any of the things under way is next. -/
def routingStep (net : List RoutingPeer) :
    RoutingWorld → Nat × RoutingMoment → Option RoutingWorld :=
  beside (anyNext (process net)) (fun s sent op _ =>
    sent ++ ((s[op.1]?).toList.flatMap (process net op.2)).filterMap RoutingItem.sentChain)

/-- What starts updates. -/
inductive RoutingTrigger where
  /-- A contact with a defined node has ended. -/
  | endContact (node : Node) (defined : node.type ≠ .undefined)
  /-- A node is to be told of the metrics: on a new contact, an update of it, or periodically. -/
  | announce (node : Node)

/-- The tasks of a trigger at a node. -/
def triggered (p : RoutingPeer) : RoutingTrigger → RoutingWorld
  | .endContact node _ =>
      ((if p.recursiveRoutingUpdates then recursiveRoutingUpdate p node none else []).map
        (fun t => ⟨.task p t, []⟩), [])
  | .announce node =>
      ((generateRoutingInformationDataObject p node none).map (fun t => ⟨.task p t, []⟩), [])

/-! ## Chains of updates -/

/-- The element that carries the list. -/
def RoutingUpdate.listElement (u : RoutingUpdate) : Option Metadata :=
  (u.metadata.getMetadata managerName).bind (fun m => m.getMetadata (lit "RecurseList"))

/-- The ids in the list that the update carries. -/
def RoutingUpdate.recurseList (u : RoutingUpdate) : List NodeId :=
  (metadataToRecurseList u.listElement).map Node.id

/-- Every update of a chain has a larger list than the one before it, and is in its list. -/
def Grows : List RoutingUpdate → Prop
  | [] => True
  | [u] => u.listElement.isSome = true → u.dest ∈ u.recurseList
  | v :: u :: earlier =>
      u.recurseList.toFinset ⊂ v.recurseList.toFinset ∧ v.dest ∈ v.recurseList ∧
        Grows (u :: earlier)

/-- The destinations of those updates of a chain that carry a list. -/
def listed (chain : List RoutingUpdate) : List NodeId :=
  (chain.filter (fun u => u.listElement.isSome)).map RoutingUpdate.dest

/-! ## What is written is read -/

theorem hexDigit_digitChar : ∀ n : Fin 16,
    hexDigit (UInt8.ofNat (Nat.digitChar n).toNat) = UInt8.ofNat n := by decide

theorem join_nibbles : ∀ n : Fin 256,
    UInt8.ofNat (n / 16) <<< 4 + UInt8.ofNat (n % 16) = UInt8.ofNat n := by decide +kernel

/-- The two digits of a byte give the byte. -/
theorem hexDigit_byte (b : UInt8) :
    hexDigit (UInt8.ofNat (Nat.digitChar (b.toNat / 16)).toNat) <<< 4 +
      hexDigit (UInt8.ofNat (Nat.digitChar (b.toNat % 16)).toNat) = b := by
  have hlt : b.toNat < 256 := b.toNat_lt
  have hhigh := hexDigit_digitChar ⟨b.toNat / 16, by omega⟩
  have hlow := hexDigit_digitChar ⟨b.toNat % 16, by omega⟩
  dsimp only at hhigh hlow
  rw [hhigh, hlow]
  exact (join_nibbles ⟨b.toNat, hlt⟩).trans (UInt8.ofNat_toNat)

theorem length_idString (id : List UInt8) : (idString id).length = 2 * id.length := by
  unfold idString
  induction id with
  | nil => rfl
  | cons b id ih =>
      rw [List.flatMap_cons, List.length_append, ih, List.length_cons]
      have : (ascii [Nat.digitChar (b.toNat / 16), Nat.digitChar (b.toNat % 16)]).length = 2 := rfl
      omega

/-- The digits of a byte stand at twice its place. -/
theorem getD_idString (id : List UInt8) : ∀ i < id.length,
    hexDigit ((idString id).getD (2 * i) 0) <<< 4 + hexDigit ((idString id).getD (2 * i + 1) 0) =
      id.getD i 0 := by
  induction id with
  | nil =>
      intro i hi
      exact absurd hi (Nat.not_lt_zero i)
  | cons b id ih =>
      intro i hi
      cases i with
      | zero => exact hexDigit_byte b
      | succ i =>
          have hrest := ih i (Nat.lt_of_succ_lt_succ hi)
          unfold idString at hrest ⊢
          rw [List.flatMap_cons]
          exact hrest

/-- A node that is read back has the id of the one that was written. -/
theorem createWithId_getIdStr {node : Node} (h : node.type ≠ .undefined) :
    ∃ node', createWithId .peer (getIdStr node) = some node' ∧ node'.id = node.id ∧
      node'.type = .peer := by
  unfold createWithId getIdStr
  rw [if_neg h, if_neg (by rw [length_idString, Vector.length_toList]; decide)]
  refine ⟨_, rfl, ?_, rfl⟩
  ext i hi
  dsimp only
  rw [Vector.getElem_ofFn, getD_idString _ _ (by rw [Vector.length_toList]; exact hi)]
  rw [List.getD_eq_getElem?_getD, Vector.getElem?_toList, Vector.getElem?_eq_getElem hi]
  rfl

/-- The nodes of a list that have an id. -/
def AllDefined (l : List Node) : Prop := ∀ node ∈ l, node.type ≠ .undefined

theorem filterMap_createWithId (h : AllDefined l) :
    ((l.map recurseElement).filterMap
      (fun tm => (tm.getParameter (lit "node_id")).bind (createWithId .peer))).map Node.id =
        l.map Node.id := by
  induction l with
  | nil => rfl
  | cons node l ih =>
      obtain ⟨node', hcreate, hid, -⟩ := createWithId_getIdStr (h node List.mem_cons_self)
      have hrest := ih (fun n hn => h n (List.mem_cons_of_mem _ hn))
      rw [List.map_cons, List.filterMap_cons_some (b := node')]
      · rw [List.map_cons, List.map_cons, hid, hrest]
      · rw [recurseElement, Metadata.getParameter_setParameter, if_pos rfl, Option.bind_some,
          hcreate]

/-- **The list that a node reads is the list that was written into the task's object.** -/
theorem metadataToRecurseList_recurseListToMetadata {m : Metadata}
    (hm : m.getMetadata (lit "RecurseList") = none) (h : AllDefined l) :
    (metadataToRecurseList ((recurseListToMetadata m l).getMetadata (lit "RecurseList"))).map
      Node.id = l.map Node.id := by
  have hnil : m.getAll (lit "RecurseList") = [] := List.head?_eq_none_iff.mp hm
  unfold recurseListToMetadata Metadata.getMetadata
  rw [Metadata.addMetadata, Metadata.getAll_setAll, if_pos rfl, hnil, List.nil_append,
    List.head?_cons]
  unfold metadataToRecurseList
  dsimp only
  rw [(foldl_addChildren (lit "Node") recurseElement l (Metadata.leaf [])).2.2,
    Metadata.getAll_leaf, List.nil_append, filterMap_createWithId h]

/-- All nodes read from a list are peers. -/
theorem metadataToRecurseList_peers (m : Option Metadata) :
    ∀ node ∈ metadataToRecurseList m, node.type = .peer := by
  intro node hnode
  cases m with
  | none => cases hnode
  | some m =>
      obtain ⟨tm, -, htm⟩ := List.mem_filterMap.mp hnode
      obtain ⟨idStr, -, hcreate⟩ := Option.bind_eq_some_iff.mp htm
      unfold createWithId at hcreate
      split at hcreate
      · cases hcreate
      · obtain rfl := Option.some.inj hcreate
        rfl

/-! ## What is sent -/

/-- A new object: the manager's element is there, without a list. -/
def Blank (metadata : Metadata) : Prop :=
  ∃ child, metadata.getAll managerName = [child] ∧ child.getMetadata (lit "RecurseList") = none

theorem getName_ne_recurseList (f : RoutingModule) : lit "RecurseList" ≠ f.getName := by
  cases f with
  | prophet => decide
  | alphaDirect => decide

theorem createRoutingInformationDataObject_blank {thisNode : Node} {rib : List (CString × CString)}
    {f : RoutingModule} (h : createRoutingInformationDataObject thisNode rib f = some metadata) :
    Blank metadata := by
  obtain ⟨md, -, rfl⟩ := Option.map_eq_some_iff.mp h
  refine ⟨(Metadata.leaf []).addMetadata f.getName md, ?_, ?_⟩
  · rw [Metadata.addMetadata, Metadata.getAll_setAll, if_pos rfl]
    rfl
  · unfold Metadata.getMetadata
    rw [Metadata.addMetadata, Metadata.getAll_setAll, if_neg (getName_ne_recurseList f),
      Metadata.getAll_leaf]
    rfl

/-- Without a list in the task there is none in the update. -/
theorem listElement_of_none (h : Blank metadata) (sender dest : NodeId) :
    (RoutingUpdate.mk sender dest (withRecurseList none metadata)).listElement = none := by
  obtain ⟨child, hchild, hlist⟩ := h
  unfold RoutingUpdate.listElement withRecurseList Metadata.getMetadata
  dsimp only
  rw [hchild]
  exact hlist

/-- **An update carries the list of its task.** -/
theorem recurseList_of_some (h : Blank metadata) (sender dest : NodeId) (hl : AllDefined l) :
    (RoutingUpdate.mk sender dest (withRecurseList (some l) metadata)).listElement.isSome = true ∧
      (RoutingUpdate.mk sender dest (withRecurseList (some l) metadata)).recurseList =
        l.map Node.id := by
  obtain ⟨child, hchild, hlist⟩ := h
  have helement : (RoutingUpdate.mk sender dest (withRecurseList (some l) metadata)).listElement =
      (recurseListToMetadata child l).getMetadata (lit "RecurseList") := by
    have hget : metadata.getMetadata managerName = some child := by
      unfold Metadata.getMetadata
      rw [hchild]
      rfl
    unfold RoutingUpdate.listElement withRecurseList
    dsimp only
    rw [hget]
    dsimp only
    obtain ⟨rest, hmodify⟩ :=
      head_modify metadata managerName (fun m => recurseListToMetadata m l)
    unfold Metadata.getMetadata
    rw [hmodify, hchild]
    rfl
  constructor
  · rw [helement]
    unfold recurseListToMetadata Metadata.getMetadata
    rw [Metadata.addMetadata, Metadata.getAll_setAll, if_pos rfl]
    cases child.getAll (lit "RecurseList") <;> rfl
  · unfold RoutingUpdate.recurseList
    rw [helement]
    exact metadataToRecurseList_recurseListToMetadata hlist hl

/-! ## Who is told -/

/-- The loop adds the nodes it is going to tell, which were not in the list. -/
theorem notifyLoop_spec (neighbors : List Node) : ∀ recurseList : List Node,
    (notifyLoop recurseList neighbors).1 = recurseList ++ (notifyLoop recurseList neighbors).2 ∧
    (notifyLoop recurseList neighbors).2.length ≤ neighbors.length ∧
    ∀ n ∈ (notifyLoop recurseList neighbors).2, n ∈ neighbors ∧ n.type = .peer ∧
      ∀ r ∈ recurseList, n.eqNode r = false := by
  induction neighbors with
  | nil =>
      intro recurseList
      exact ⟨(List.append_nil _).symm, Nat.le_refl _, fun n hn => (by cases hn)⟩
  | cons neighbor neighbors ih =>
      intro recurseList
      have hskip : ∀ n, n ∈ neighbors ∧ n.type = .peer ∧ (∀ r ∈ recurseList, n.eqNode r = false) →
          n ∈ neighbor :: neighbors ∧ n.type = .peer ∧ ∀ r ∈ recurseList, n.eqNode r = false :=
        fun n h => ⟨List.mem_cons_of_mem _ h.1, h.2⟩
      obtain ⟨hlist, hlength, hmem⟩ := ih recurseList
      unfold notifyLoop
      -- no peer, or in the list already: passed over. Otherwise told, and put into the list
      by_cases hpeer : neighbor.type ≠ .peer
      · rw [if_pos hpeer]
        exact ⟨hlist, Nat.le_succ_of_le hlength, fun n hn => hskip n (hmem n hn)⟩
      · rw [if_neg hpeer]
        by_cases hknown : recurseList.any (fun n => neighbor.eqNode n) = true
        · rw [if_pos hknown]
          exact ⟨hlist, Nat.le_succ_of_le hlength, fun n hn => hskip n (hmem n hn)⟩
        · rw [if_neg hknown]
          obtain ⟨hlist', hlength', hmem'⟩ := ih (recurseList ++ [neighbor])
          dsimp only
          refine ⟨?_, Nat.succ_le_succ hlength', ?_⟩
          · rw [hlist', List.append_assoc]
            rfl
          · intro n hn
            rcases List.mem_cons.mp hn with rfl | hrest
            · refine ⟨List.mem_cons_self, not_not.mp hpeer, fun r hr => ?_⟩
              by_contra heq
              exact hknown (List.any_eq_true.mpr ⟨r, hr, by simpa using heq⟩)
            · obtain ⟨hin, htype, hout⟩ := hmem' n hrest
              exact ⟨List.mem_cons_of_mem _ hin, htype,
                fun r hr => hout r (List.mem_append_left _ hr)⟩

/-- The list starts with what was received, and has defined nodes only. -/
theorem startList_spec {peer : Node} (hpeer : peer.type ≠ .undefined) (m : Option Metadata) :
    AllDefined (startList peer m) ∧
      metadataToRecurseList (m.bind (fun m => m.getMetadata (lit "RecurseList"))) ⊆
        startList peer m := by
  have hread : AllDefined (metadataToRecurseList
      (m.bind (fun m => m.getMetadata (lit "RecurseList")))) := by
    intro node hnode
    rw [metadataToRecurseList_peers _ node hnode]
    exact NodeType.noConfusion
  unfold startList
  dsimp only
  split
  · rename_i hnil
    rw [List.length_eq_zero_iff.mp hnil]
    refine ⟨fun node hnode => ?_, List.nil_subset _⟩
    rw [List.mem_singleton.mp hnode]
    exact hpeer
  · exact ⟨hread, fun _ h => h⟩

/-- The ids in the list of a task. -/
def ForwardingTask.ids (t : ForwardingTask) : List NodeId := (t.nodes.getD []).map Node.id

/-- A task with a list, for a neighbour that the received list does not have. -/
structure Continues (p : RoutingPeer) (received : List NodeId) (t : ForwardingTask) : Prop where
  isSome : t.nodes.isSome = true
  defined : AllDefined (t.nodes.getD [])
  neighbor : t.node ∈ p.neighbors
  peer : t.node.type = .peer
  mem : t.node.id ∈ t.ids
  larger : received ⊆ t.ids
  fresh : t.node.id ∉ received

/-- **What one node makes of a list**: tasks that continue it, as many as it has neighbours and
modules for at most, all with the same list. -/
theorem recursiveRoutingUpdate_spec (p : RoutingPeer) {peer : Node}
    (hpeer : peer.type ≠ .undefined) (m : Option Metadata) :
    (∀ t ∈ recursiveRoutingUpdate p peer m, Continues p ((metadataToRecurseList
      (m.bind (fun m => m.getMetadata (lit "RecurseList")))).map Node.id) t) ∧
    (recursiveRoutingUpdate p peer m).length ≤ p.neighbors.length * p.forwarders.length := by
  obtain ⟨hdef, hsub⟩ := startList_spec hpeer m
  obtain ⟨hlist, hlength, hmem⟩ := notifyLoop_spec p.neighbors (startList peer m)
  have hall : AllDefined (notifyLoop (startList peer m) p.neighbors).1 := by
    rw [hlist]
    intro node hnode
    rcases List.mem_append.mp hnode with hold | hnew
    · exact hdef node hold
    · rw [(hmem node hnew).2.1]
      exact NodeType.noConfusion
  unfold recursiveRoutingUpdate
  dsimp only
  constructor
  · intro t ht
    obtain ⟨neighbor, hneighbor, ht⟩ := List.mem_flatMap.mp ht
    obtain ⟨f, -, rfl⟩ := List.mem_map.mp ht
    obtain ⟨hin, htype, hout⟩ := hmem neighbor hneighbor
    refine ⟨rfl, hall, hin, htype, ?_, ?_, ?_⟩
    · refine List.mem_map_of_mem ?_
      dsimp only [Option.getD_some]
      rw [hlist]
      exact List.mem_append_right _ hneighbor
    · refine List.map_subset _ (fun n hn => ?_)
      dsimp only [Option.getD_some]
      rw [hlist]
      exact List.mem_append_left _ (hsub hn)
    -- nodes are compared by their ids, as both are defined
    · intro hreceived
      obtain ⟨r, hr, hid⟩ := List.mem_map.mp hreceived
      have hne := hout r (hsub hr)
      unfold Node.eqNode at hne
      rw [htype, if_neg (by
        rintro (h | h)
        · cases h
        · exact hdef r (hsub hr) h)] at hne
      exact of_decide_eq_false hne hid.symm
  · rw [List.length_flatMap]
    simp only [generateRoutingInformationDataObject, List.length_map, List.map_const',
      List.sum_replicate_nat]
    exact Nat.mul_le_mul_right _ hlength

/-! ## Chains that grow -/

/-- The list of the last update has the destinations of all updates of the chain that carry one. -/
theorem listed_subset (earlier : List RoutingUpdate) : ∀ u : RoutingUpdate,
    Grows (u :: earlier) → listed (u :: earlier) ⊆ u.recurseList := by
  induction earlier with
  | nil =>
      intro u h d hd
      obtain ⟨v, hv, rfl⟩ := List.mem_map.mp hd
      obtain ⟨hmem, hlist⟩ := List.mem_filter.mp hv
      rw [List.mem_singleton.mp hmem] at hlist ⊢
      exact h hlist
  | cons v earlier ih =>
      intro u h d hd
      obtain ⟨w, hw, rfl⟩ := List.mem_map.mp hd
      obtain ⟨hmem, hlist⟩ := List.mem_filter.mp hw
      rcases List.mem_cons.mp hmem with rfl | hearlier
      · exact h.2.1
      · -- the list before it had the destination already
        have hold := ih v h.2.2
          (List.mem_map_of_mem (List.mem_filter.mpr ⟨hearlier, hlist⟩))
        exact List.mem_toFinset.mp (h.1.1 (List.mem_toFinset.mpr hold))

/-- A chain that grows, in which no node is told twice by an update with a list. -/
structure GoodChain (chain : List RoutingUpdate) : Prop where
  grows : Grows chain
  once : (listed chain).Nodup

/-- The first update of a chain. -/
theorem goodChain_first {u : RoutingUpdate}
    (h : u.listElement.isSome = true → u.dest ∈ u.recurseList) : GoodChain [u] := by
  refine ⟨h, ?_⟩
  unfold listed
  rw [List.filter_cons]
  split
  · exact List.nodup_singleton _
  · exact List.nodup_nil

/-- **One update more**, with a larger list and to a node that the list did not have. -/
theorem GoodChain.next {u v : RoutingUpdate} {earlier : List RoutingUpdate}
    (h : GoodChain (u :: earlier)) (hlist : v.listElement.isSome = true)
    (hlarger : u.recurseList ⊆ v.recurseList) (hmem : v.dest ∈ v.recurseList)
    (hfresh : v.dest ∉ u.recurseList) : GoodChain (v :: u :: earlier) := by
  constructor
  · refine ⟨Finset.ssubset_iff_of_subset ?_ |>.mpr ?_, hmem, h.grows⟩
    · intro id hid
      exact List.mem_toFinset.mpr (hlarger (List.mem_toFinset.mp hid))
    · exact ⟨v.dest, List.mem_toFinset.mpr hmem, fun hin => hfresh (List.mem_toFinset.mp hin)⟩
  · unfold listed
    rw [List.filter_cons, if_pos hlist, List.map_cons]
    refine List.nodup_cons.mpr ⟨fun hin => hfresh (listed_subset earlier u h.grows hin), h.once⟩

/-! ## What is under way -/

/-- The task continues the chain: it has a list that is larger than the last one, or it is the
first of all, with a list that has its node or without one. -/
def FitsCause (p : RoutingPeer) (t : ForwardingTask) : List RoutingUpdate → Prop
  | [] => AllDefined (t.nodes.getD []) ∧ (t.nodes.isSome = true → t.node.id ∈ t.ids)
  | u :: _ => Continues p u.recurseList t

theorem FitsCause.defined (h : FitsCause p t cause) : AllDefined (t.nodes.getD []) := by
  cases cause with
  | nil => exact h.1
  | cons u earlier => exact Continues.defined h

/-- The invariant of each thing under way. -/
structure ItemInv (x : RoutingItem) : Prop where
  cause : GoodChain x.cause
  stage : match x.stage with
    | .task p t => FitsCause p t x.cause
    | .taskComplete p t dObj => FitsCause p t x.cause ∧ ∀ metadata ∈ dObj, Blank metadata
    | .update u => GoodChain (u :: x.cause)

/-- The update that a finished task becomes carries its list. -/
theorem recurseList_eq_ids (h : Blank metadata) (sender dest : NodeId)
    (hdef : AllDefined (t.nodes.getD [])) :
    (RoutingUpdate.mk sender dest (withRecurseList t.nodes metadata)).listElement.isSome =
        t.nodes.isSome ∧
      (RoutingUpdate.mk sender dest (withRecurseList t.nodes metadata)).recurseList = t.ids := by
  unfold ForwardingTask.ids
  cases hnodes : t.nodes with
  | none =>
      have hnone := listElement_of_none h sender dest
      refine ⟨by rw [hnone]; rfl, ?_⟩
      unfold RoutingUpdate.recurseList
      rw [hnone]
      rfl
  | some l =>
      rw [hnodes] at hdef
      exact recurseList_of_some h sender dest hdef

/-- A finished task whose update goes out adds a good link to its chain. -/
theorem FitsCause.sent (h : FitsCause p t cause) (hcause : GoodChain cause)
    (hblank : Blank metadata) (sender : NodeId) :
    GoodChain (⟨sender, t.node.id, withRecurseList t.nodes metadata⟩ :: cause) := by
  obtain ⟨hlist, hids⟩ := recurseList_eq_ids hblank sender t.node.id h.defined
  cases cause with
  | nil =>
      refine goodChain_first (fun hsome => ?_)
      rw [hlist] at hsome
      rw [hids]
      exact h.2 hsome
  | cons u earlier =>
      have hcont : Continues p u.recurseList t := h
      refine hcause.next (hlist.trans hcont.isSome) ?_ ?_ hcont.fresh
      · rw [hids]
        exact hcont.larger
      · rw [hids]
        exact hcont.mem

/-- What a delivery makes: nothing, or at a node of the network tasks that continue the list. -/
theorem deliver_cases (m : RoutingMoment) (net : List RoutingPeer) (u : RoutingUpdate) :
    deliver m net u = [] ∨ ∃ p ∈ net, ∃ tasks : List ForwardingTask,
      deliver m net u = tasks.map (.task p) ∧ (∀ t ∈ tasks, Continues p u.recurseList t) ∧
      tasks.length ≤ p.neighbors.length * p.forwarders.length := by
  unfold deliver
  split
  · exact Or.inl rfl
  · cases hfind : net.find? (fun p => p.thisNode.id = u.dest) with
    | none => exact Or.inl rfl
    | some p =>
        refine Or.inr ⟨p, List.mem_of_find?_eq_some hfind, _, rfl, ?_⟩
        cases hpeer : p.retrieve u.sender with
        | none => exact ⟨fun t ht => (by cases ht), Nat.zero_le _⟩
        | some peer =>
            have hdef : peer.type ≠ .undefined := by
              rw [p.retrieve_peer _ _ hpeer]
              exact NodeType.noConfusion
            have hspec := recursiveRoutingUpdate_spec p hdef (u.metadata.getMetadata managerName)
            unfold onRoutingInformation
            split
            · exact ⟨fun t ht => (by cases ht), Nat.zero_le _⟩
            · rw [onRoutingInformation, List.append_nil]
              split
              · exact hspec
              · exact ⟨fun t ht => (by cases ht), Nat.zero_le _⟩

/-- **Every step keeps the invariant of what is under way.** -/
theorem ItemInv.process {x : RoutingItem} (h : ItemInv x) (net : List RoutingPeer)
    (m : RoutingMoment) : ∀ y ∈ process net m x, ItemInv y := by
  intro y hy
  obtain ⟨stage, cause⟩ := x
  obtain ⟨hcause, hstage⟩ := h
  unfold Forwarding.process at hy
  cases stage with
  | task p t =>
      obtain ⟨z, hz, rfl⟩ := List.mem_map.mp hy
      unfold runTask at hz
      split at hz
      · rw [List.mem_singleton.mp hz]
        exact ⟨hcause, hstage, fun metadata hmetadata =>
          createRoutingInformationDataObject_blank hmetadata⟩
      · cases hz
  | taskComplete p t dObj =>
      obtain ⟨z, hz, rfl⟩ := List.mem_map.mp hy
      cases dObj with
      | none => cases hz
      | some metadata =>
          -- what is sent carries the chain of the update that caused it
          unfold onForwardingTaskComplete at hz
          dsimp only at hz
          split at hz
          · rw [List.mem_singleton.mp hz]
            exact ⟨hcause, hstage.1.sent hcause (hstage.2 metadata rfl) p.thisNode.id⟩
          · cases hz
  | update u =>
      obtain ⟨z, hz, rfl⟩ := List.mem_map.mp hy
      rcases deliver_cases m net u with hnil | ⟨p, -, tasks, htasks, hcont, -⟩
      · rw [hnil] at hz
        cases hz
      · rw [htasks] at hz
        obtain ⟨t, ht, rfl⟩ := List.mem_map.mp hz
        exact ⟨hstage, hcont t ht⟩

/-! ## Weights -/

/-- The nodes that anyone has for a neighbour. -/
def everyone (net : List RoutingPeer) : Finset NodeId :=
  ((net.flatMap RoutingPeer.neighbors).map Node.id).toFinset

/-- How many of them a list does not have. -/
def unheard (net : List RoutingPeer) (l : List NodeId) : Nat := (everyone net \ l.toFinset).card

/-- No delivery makes more tasks than this. -/
def fanOut (net : List RoutingPeer) : Nat :=
  (net.map (fun p => p.neighbors.length * p.forwarders.length)).sum

/-- The steps that an update can cause when its list lacks so many nodes, and its delivery. -/
def updateWeight (fan : Nat) : Nat → Nat
  | 0 => 1
  | k + 1 => 1 + fan * (2 + updateWeight fan k)

/-- A task has two steps more to go, one that is finished one. -/
def RoutingItem.weight (net : List RoutingPeer) (x : RoutingItem) : Nat :=
  match x.stage with
  | .task _ t => 2 + updateWeight (fanOut net) (unheard net t.ids)
  | .taskComplete _ t _ => 1 + updateWeight (fanOut net) (unheard net t.ids)
  | .update u => updateWeight (fanOut net) (unheard net u.recurseList)

theorem updateWeight_pos (fan k : Nat) : 0 < updateWeight fan k := by
  cases k with
  | zero => exact Nat.one_pos
  | succ k => exact Nat.lt_of_lt_of_le Nat.one_pos (Nat.le_add_right _ _)

theorem updateWeight_mono (fan : Nat) : Monotone (updateWeight fan) := by
  refine monotone_nat_of_le_succ (fun k => ?_)
  induction k with
  | zero => exact Nat.le_add_right _ _
  | succ k ih => exact Nat.add_le_add_left (Nat.mul_le_mul_left _ (Nat.add_le_add_left ih _)) _

/-- A list that was continued lacks fewer nodes. -/
theorem Continues.unheard_lt {net : List RoutingPeer} (hp : p ∈ net) {received : List NodeId}
    (h : Continues p received t) : unheard net t.ids < unheard net received := by
  refine Finset.card_lt_card (Finset.ssubset_iff_of_subset ?_ |>.mpr ⟨t.node.id, ?_, ?_⟩)
  · refine Finset.sdiff_subset_sdiff (Finset.Subset.refl _) (fun id hid => ?_)
    exact List.mem_toFinset.mpr (h.larger (List.mem_toFinset.mp hid))
  · refine Finset.mem_sdiff.mpr ⟨?_, fun hin => h.fresh (List.mem_toFinset.mp hin)⟩
    refine List.mem_toFinset.mpr (List.mem_map_of_mem ?_)
    exact List.mem_flatMap.mpr ⟨p, hp, h.neighbor⟩
  · intro hin
    exact (Finset.mem_sdiff.mp hin).2 (List.mem_toFinset.mpr h.mem)

/-- All tasks of a delivery together weigh less than the update. -/
theorem tasks_lighter {net : List RoutingPeer} (hp : p ∈ net) {received : List NodeId}
    {tasks : List ForwardingTask} (hcont : ∀ t ∈ tasks, Continues p received t)
    (hlength : tasks.length ≤ p.neighbors.length * p.forwarders.length) :
    (tasks.map (fun t => 2 + updateWeight (fanOut net) (unheard net t.ids))).sum <
      updateWeight (fanOut net) (unheard net received) := by
  cases hk : unheard net received with
  | zero =>
      -- a list that has everyone is not continued
      cases tasks with
      | nil => exact updateWeight_pos _ _
      | cons t tasks =>
          have hlt := (hcont t List.mem_cons_self).unheard_lt hp
          omega
  | succ k =>
      have hfan : tasks.length ≤ fanOut net :=
        hlength.trans (List.single_le_sum (fun n _ => Nat.zero_le n) _ (List.mem_map_of_mem hp))
      have hsum := List.sum_le_card_nsmul
        (tasks.map (fun t => 2 + updateWeight (fanOut net) (unheard net t.ids)))
        (2 + updateWeight (fanOut net) k) (by
          intro n hn
          obtain ⟨t, ht, rfl⟩ := List.mem_map.mp hn
          have hlt := (hcont t ht).unheard_lt hp
          exact Nat.add_le_add_left (updateWeight_mono _ (by omega)) _)
      rw [List.length_map, smul_eq_mul] at hsum
      have hmul := Nat.mul_le_mul_right (2 + updateWeight (fanOut net) k) hfan
      rw [updateWeight]
      omega

/-- **Every step leaves less to do.** -/
theorem ItemInv.lighter {x : RoutingItem} (h : ItemInv x) (net : List RoutingPeer)
    (m : RoutingMoment) :
    ((Forwarding.process net m x).map (RoutingItem.weight net)).sum < x.weight net := by
  obtain ⟨stage, cause⟩ := x
  unfold Forwarding.process
  cases stage with
  | task p t =>
      dsimp only [runTask]
      split
      · simp only [List.map_cons, List.map_nil, List.sum_cons, List.sum_nil, RoutingItem.weight]
        omega
      · exact Nat.lt_of_lt_of_le Nat.two_pos (Nat.le_add_right _ _)
  | taskComplete p t dObj =>
      cases dObj with
      | none => exact Nat.lt_of_lt_of_le Nat.one_pos (Nat.le_add_right _ _)
      | some metadata =>
          obtain ⟨hfits, hblank⟩ := h.stage
          dsimp only [onForwardingTaskComplete]
          split
          · obtain ⟨-, hids⟩ := recurseList_eq_ids (hblank metadata rfl) p.thisNode.id t.node.id
              hfits.defined
            -- the list that goes out is the one that came in, and this node
            simp only [List.map_cons, List.map_nil, List.sum_cons, List.sum_nil,
              RoutingItem.weight, hids]
            omega
          · exact Nat.lt_of_lt_of_le Nat.one_pos (Nat.le_add_right _ _)
  | update u =>
      dsimp only
      rcases deliver_cases m net u with hnil | ⟨p, hp, tasks, htasks, hcont, hlength⟩
      · rw [hnil]
        exact updateWeight_pos _ _
      · rw [htasks, List.map_map, List.map_map]
        exact tasks_lighter hp hcont hlength

/-- One step sends one update at most. -/
theorem sent_le_one (net : List RoutingPeer) (m : RoutingMoment) (x : RoutingItem) :
    ((Forwarding.process net m x).filterMap RoutingItem.sentChain).length ≤ 1 := by
  obtain ⟨stage, cause⟩ := x
  unfold Forwarding.process
  cases stage with
  | task p t =>
      dsimp only [runTask]
      split
      · exact Nat.zero_le 1
      · exact Nat.zero_le 1
  | taskComplete p t dObj =>
      cases dObj with
      | none => exact Nat.zero_le 1
      | some metadata =>
          dsimp only [onForwardingTaskComplete]
          split
          · exact Nat.le_refl 1
          · exact Nat.zero_le 1
  | update u =>
      dsimp only
      rcases deliver_cases m net u with hnil | ⟨p, -, tasks, htasks, -, -⟩
      · rw [hnil]
        exact Nat.zero_le 1
      · have hnone : ((tasks.map (RoutingStage.task p)).map
            (fun y => (⟨y, u :: cause⟩ : RoutingItem))).filterMap RoutingItem.sentChain = [] := by
          rw [List.filterMap_eq_nil_iff]
          intro y hy
          obtain ⟨z, hz, rfl⟩ := List.mem_map.mp hy
          obtain ⟨t, -, rfl⟩ := List.mem_map.mp hz
          rfl
        rw [htasks, hnone]
        exact Nat.zero_le 1

/-! ## Runs -/

/-- The invariant of the network, for a bound on what is sent. -/
structure RoutingInv (net : List RoutingPeer) (bound : Nat) (w : RoutingWorld) : Prop where
  items : ∀ x ∈ w.1, ItemInv x
  sent : ∀ chain ∈ w.2, GoodChain chain
  bounded : w.2.length + (w.1.map (RoutingItem.weight net)).sum ≤ bound

theorem RoutingInv.step {net : List RoutingPeer} {bound : Nat} {w : RoutingWorld}
    (h : RoutingInv net bound w) {op : Nat × RoutingMoment} {w' : RoutingWorld}
    (hstep : routingStep net w op = some w') : RoutingInv net bound w' ∧
      (w'.1.map (RoutingItem.weight net)).sum < (w.1.map (RoutingItem.weight net)).sum := by
  obtain ⟨l, hl, rfl⟩ := Option.map_eq_some_iff.mp hstep
  have hlighter := anyNext_lighter hl (fun x hx => (h.items x hx).lighter net op.2)
  obtain ⟨x, hx, hk, rfl, hmem⟩ := mem_of_anyNext hl
  have hnew := sent_le_one net op.2 x
  refine ⟨⟨?_, ?_, ?_⟩, hlighter⟩
  · intro y hy
    rcases hmem y hy with hold | hnew
    · exact h.items y hold
    · exact (h.items x hx).process net op.2 y hnew
  · intro chain hchain
    rcases List.mem_append.mp hchain with hold | hnew
    · exact h.sent chain hold
    · rw [hk] at hnew
      obtain ⟨y, hy, hsent⟩ := List.mem_filterMap.mp hnew
      rw [Option.toList_some, List.flatMap_singleton] at hy
      have hinv := (h.items x hx).process net op.2 y hy
      obtain ⟨stage, cause⟩ := y
      cases stage with
      | task p t => cases hsent
      | taskComplete p t dObj => cases hsent
      | update u =>
          obtain rfl := Option.some.inj hsent
          exact hinv.stage
  · have hbound := h.bounded
    dsimp only at hlighter ⊢
    rw [List.length_append, hk, Option.toList_some, List.flatMap_singleton]
    omega

/-- What a trigger starts fits an empty chain. -/
theorem triggered_inv (net : List RoutingPeer) (p : RoutingPeer) (t : RoutingTrigger) :
    ∃ bound, RoutingInv net bound (triggered p t) := by
  refine ⟨_, ?_, ?_, Nat.le_refl _⟩
  · intro x hx
    cases t with
    | endContact node defined =>
        obtain ⟨task, htask, rfl⟩ := List.mem_map.mp hx
        split at htask
        · have hcont := (recursiveRoutingUpdate_spec p defined none).1 task htask
          exact ⟨⟨trivial, List.nodup_nil⟩, hcont.defined, fun _ => hcont.mem⟩
        · cases htask
    | announce node =>
        obtain ⟨task, htask, rfl⟩ := List.mem_map.mp hx
        obtain ⟨f, -, rfl⟩ := List.mem_map.mp htask
        exact ⟨⟨trivial, List.nodup_nil⟩, fun n hn => (by cases hn), fun h => (by cases h)⟩
  · intro chain hchain
    cases t with
    | endContact node defined => cases hchain
    | announce node => cases hchain

/--
**Recursive routing updates die out.** Whatever starts them, wherever and in whatever order
tasks are done and updates arrive or get lost: along every chain of updates the lists grow and
have their destinations, no node is told twice, and there is a bound on what one trigger causes.
-/
theorem recursive_updates_die_out (net : List RoutingPeer) (p : RoutingPeer)
    (t : RoutingTrigger) : ∃ bound, ∀ ops w, run (routingStep net) (triggered p t) ops = some w →
      ops.length ≤ bound ∧ w.2.length ≤ bound ∧
      ∀ chain ∈ w.2, Grows chain ∧ (listed chain).Nodup := by
  obtain ⟨bound, hinv⟩ := triggered_inv net p t
  refine ⟨bound, fun ops w hrun => ?_⟩
  obtain ⟨hinv', hlength⟩ := @run_measured RoutingWorld (Nat × RoutingMoment) (routingStep net)
    (RoutingInv net bound) _ (fun s op s' hs hstep => hs.step hstep) ops _ w hinv hrun
  have hstart := hinv.bounded
  have hend := hinv'.bounded
  refine ⟨by omega, by omega, fun chain hchain => ?_⟩
  exact ⟨(hinv'.sent chain hchain).grows, (hinv'.sent chain hchain).once⟩

/-! ## Peers that all know each other -/

/-- The peer whose id is one byte repeated. -/
def numberedPeer (b : UInt8) : Node :=
  { Node.create with
    type := .peer
    id := Vector.replicate 20 b }

/-- One of some peers that are all neighbours, and that can all tell whom an update is from. -/
def meshPeer (bytes : List UInt8) (b : UInt8) : RoutingPeer where
  thisNode := numberedPeer b
  neighbors := (bytes.erase b).map numberedPeer
  forwarders := [.prophet]
  recursiveRoutingUpdates := true
  retrieve id := (bytes.map numberedPeer).find? (fun node => node.id = id)
  retrieve_peer := by
    intro id node hfound
    obtain ⟨b, -, rfl⟩ := List.mem_map.mp (List.mem_of_find?_eq_some hfound)
    rfl

/-- Every handler does its part, and nothing is lost. -/
def clearMoment : RoutingMoment := ⟨true, false, true, true, [], true, true⟩

-- a fourth peer goes away: the first tells the other two, each of them answers, and that is all
example :
    (run (routingStep ([1, 2, 3].map (meshPeer [1, 2, 3])))
      (triggered (meshPeer [1, 2, 3] 1) (.endContact (numberedPeer 4) (by decide)))
      (List.replicate 12 (0, clearMoment))).map
        (fun w => (w.1.length, w.2.map (fun chain => chain.map RoutingUpdate.dest))) =
      some (0, [[2], [3], [1, 2], [1, 3]].map (fun chain =>
        chain.map (fun b => (numberedPeer b).id))) := by decide +kernel

end Encoders.Forwarding
