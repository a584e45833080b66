import Encoders.Replication.ConcurrentSend
import Encoders.Replication.Optimizer

/-!
# `ReplicationManagerUtility`

The handlers of the replication manager that touch its tokens, each run to its end by one
thread. A node and an object come as what the handlers look at when they run: a peer may have
become unavailable since its event was raised.

What `replicateToNeighbor` finds outside (the clock, the connection's estimate and the optimizer
as it is then) comes with each handler, as a function of the round. The optimizer's own
notifications, the error counter and the log are left out.
-/

namespace Encoders.Replication

open Encoders.Lib Encoders.Data Encoders.Store

/-! ## Nodes and objects -/

/-- A `NodeRef` as `isInterestingNode` sees it. The id of a node is not empty. -/
structure PeerNode where
  id : CString
  isThisNode : Bool
  isLocalApplication : Bool
  isAvailable : Bool
  isNeighbor : Bool
  isPeer : Bool
  id_ne : id ≠ []

/-- A `DataObjectRef`, and what the store's configurations say of it. -/
structure SentObject where
  id : CString
  isNodeDescription : Bool
  isNetworkCodingEnabled : Bool
  originalOfBlock : Option CString
  isFragmentationEnabled : Bool
  originalOfFragment : Option CString

/-- `getIdOrParentId` -/
def SentObject.getIdOrParentId (dObj : SentObject) : CString :=
  let parentOfFragment :=
    if dObj.isFragmentationEnabled then dObj.originalOfFragment.getD dObj.id else dObj.id
  if dObj.isNetworkCodingEnabled then dObj.originalOfBlock.getD parentOfFragment
  else parentOfFragment

/-- What `replicateToNeighbor` finds outside, round by round. -/
structure Surroundings where
  now : Int
  later : Int
  estimatedBytesLeft : Nat → Int
  replicationOptimizer : Nat → ReplicationOptimizer

/-! ## The state -/

/-- `class ReplicationManagerUtility`; `sent` are the send events given to the kernel. -/
structure ReplicationManagerUtility where
  enabled : Bool
  concurrentSend : ReplicationConcurrentSend
  extSendMap : List (CString × CString × Int)
  lastReplication : Int
  replCooldownMs : Int
  sent : List (CString × CString)

namespace ReplicationManagerUtility

/-- `getExtSendCost`; the entries of a node are together, in order. -/
def getExtSendCost (s : ReplicationManagerUtility) (nodeId : CString) : Int :=
  if nodeId = [] then 0
  else ((s.extSendMap.filter (fun e => e.1 = nodeId)).map (fun e => e.2.2)).sum

/-- `inExtSendMap` -/
def inExtSendMap (s : ReplicationManagerUtility) (nodeId dobjId : CString) : Bool :=
  if nodeId = [] then false
  else if dobjId = [] then false
  else s.extSendMap.any (fun e => e.1 = nodeId ∧ e.2.1 = dobjId)

/-- `addToExtSendMap` -/
def addToExtSendMap (s : ReplicationManagerUtility) (nodeId dobjId : CString) (dobjCost : Int) :
    ReplicationManagerUtility :=
  if s.inExtSendMap nodeId dobjId then s
  else
    { s with
      extSendMap := s.extSendMap.takeWhile (fun e => e.1 < nodeId) ++
        (nodeId, dobjId, dobjCost) :: s.extSendMap.dropWhile (fun e => e.1 < nodeId) }

/-- `removeFromExtSendMap` -/
def removeFromExtSendMap (s : ReplicationManagerUtility) (nodeId dobjId : CString) :
    ReplicationManagerUtility :=
  if s.inExtSendMap nodeId dobjId then
    { s with extSendMap := s.extSendMap.eraseP (fun e => e.1 = nodeId ∧ e.2.1 = dobjId) }
  else s

/-- `concurrentSend->freeToken` -/
def freeToken (s : ReplicationManagerUtility) (nodeId dobjId : CString) :
    ReplicationManagerUtility :=
  { s with concurrentSend := s.concurrentSend.freeToken nodeId dobjId }

/-- `isInterestingNode` -/
def isInterestingNode (s : ReplicationManagerUtility) (node : PeerNode) : Bool :=
  s.enabled && !node.isThisNode && !node.isLocalApplication && node.isAvailable &&
    node.isNeighbor && node.isPeer

/-- `isInterestingDataObject` -/
def isInterestingDataObject (s : ReplicationManagerUtility) (dObj : SentObject) : Bool :=
  s.enabled && !dObj.isNodeDescription

/-- `sendDataObjectToNode` -/
def sendDataObjectToNode (s : ReplicationManagerUtility) (nodeId dobjId : CString) :
    ReplicationManagerUtility :=
  if s.enabled then { s with sent := s.sent ++ [(nodeId, dobjId)] } else s

/-- The loop of `replicateToNeighbor`, in a round; the first number bounds the rounds to come. -/
def replicateLoop (around : Surroundings) (nodeId : CString) :
    Nat → Nat → ReplicationManagerUtility → Option ReplicationManagerUtility
  | 0, _, _ => none
  | n + 1, round, s =>
      if s.concurrentSend.tokenAvailable nodeId then
        let blacklist := s.concurrentSend.getReservedDataObjectsForNode nodeId
        let estimate := around.estimatedBytesLeft round
        let bytesRemaining :=
          if 0 < estimate then estimate - s.getExtSendCost nodeId else estimate
        match (around.replicationOptimizer round).getNextDataObject nodeId blacklist bytesRemaining with
        | none => some s
        | some nextDobjId =>
            let s := { s with concurrentSend := s.concurrentSend.reserveToken nodeId nextDobjId }
            replicateLoop around nodeId n (round + 1) (s.sendDataObjectToNode nodeId nextDobjId)
      else
        -- `hadToken` is that a round came before this one
        some (if 0 < round then { s with lastReplication := around.later } else s)

/-- `replicateToNeighbor`: no more rounds than tokens. -/
def replicateToNeighbor (around : Surroundings) (nodeId : CString)
    (s : ReplicationManagerUtility) : Option ReplicationManagerUtility :=
  if around.now < s.lastReplication + s.replCooldownMs then some s
  else s.replicateLoop around nodeId (s.concurrentSend.maxTokens.toNat + 1) 0

/-- What all three handlers of sends do for the parent of a fragment or block. -/
def removeParent (s : ReplicationManagerUtility) (nodeId : CString) (dObj : SentObject) :
    ReplicationManagerUtility :=
  let parentId := dObj.getIdOrParentId
  if parentId ≠ dObj.id then
    let s := if s.inExtSendMap nodeId parentId then s.removeFromExtSendMap nodeId parentId else s
    if s.concurrentSend.tokenExists nodeId parentId then s.freeToken nodeId parentId else s
  else s

/-- One node of `_notifySendDataObject`. -/
def notifySendTo (dObj : SentObject) (cost : CString → Int) (s : ReplicationManagerUtility)
    (node : PeerNode) : ReplicationManagerUtility :=
  if s.isInterestingNode node then
    if s.concurrentSend.tokenExists node.id dObj.id then s
    else
      let s :=
        if s.inExtSendMap node.id dObj.id then s
        else s.addToExtSendMap node.id dObj.id (cost node.id)
      s.removeParent node.id dObj
  else s

/-- `_notifySendDataObject` -/
def notifySendDataObject (s : ReplicationManagerUtility) (dObj : SentObject)
    (nl : List PeerNode) (cost : CString → Int) : ReplicationManagerUtility :=
  if s.isInterestingDataObject dObj then nl.foldl (notifySendTo dObj cost) s else s

/-- What success and failure have in common; the flag is that the send was the manager's own. -/
def concludeSend (s : ReplicationManagerUtility) (dObj : SentObject) (node : PeerNode) :
    ReplicationManagerUtility × Bool :=
  let s := s.removeParent node.id dObj
  if s.concurrentSend.tokenExists node.id dObj.id then (s.freeToken node.id dObj.id, true)
  else if s.inExtSendMap node.id dObj.id then (s.removeFromExtSendMap node.id dObj.id, false)
  else (s, false)

/-- `_notifySendSuccess` -/
def notifySendSuccess (around : Surroundings) (s : ReplicationManagerUtility) (dObj : SentObject)
    (node : PeerNode) : Option ReplicationManagerUtility :=
  if !s.isInterestingNode node then some s
  else if !s.isInterestingDataObject dObj then some s
  else
    match s.concludeSend dObj node with
    | (s, true) => s.replicateToNeighbor around node.id
    | (s, false) => some s

/-- `_notifySendFailure` -/
def notifySendFailure (s : ReplicationManagerUtility) (dObj : SentObject) (node : PeerNode) :
    ReplicationManagerUtility :=
  if !s.isInterestingNode node then s
  else if !s.isInterestingDataObject dObj then s
  else (s.concludeSend dObj node).1

/-- `_notifyNewContact` and `_notifyUpdatedContact`, which differ in what they log. -/
def notifyContact (around : Surroundings) (s : ReplicationManagerUtility) (node : PeerNode) :
    Option ReplicationManagerUtility :=
  if !s.isInterestingNode node then some s else s.replicateToNeighbor around node.id

/-- `_notifyDownContact` tells the connection state and the optimizer. -/
def notifyDownContact (s : ReplicationManagerUtility) (_node : PeerNode) :
    ReplicationManagerUtility := s

/-! ## Handlers -/

/-- A notification, or a run of `replicateToNeighbor` that another one leads to. -/
inductive Notification where
  | send (dObj : SentObject) (nl : List PeerNode) (cost : CString → Int)
  | sendSuccess (dObj : SentObject) (node : PeerNode)
  | sendFailure (dObj : SentObject) (node : PeerNode)
  | newContact (node : PeerNode)
  | updatedContact (node : PeerNode)
  | downContact (node : PeerNode)
  | replicate (nodeId : CString)

/-- One notification, with what the handler finds outside. -/
def step (s : ReplicationManagerUtility) (n : Notification × Surroundings) :
    Option ReplicationManagerUtility :=
  match n.1 with
  | .send dObj nl cost => some (s.notifySendDataObject dObj nl cost)
  | .sendSuccess dObj node => s.notifySendSuccess n.2 dObj node
  | .sendFailure dObj node => some (s.notifySendFailure dObj node)
  | .newContact node => s.notifyContact n.2 node
  | .updatedContact node => s.notifyContact n.2 node
  | .downContact node => some (s.notifyDownContact node)
  | .replicate nodeId => s.replicateToNeighbor n.2 nodeId

end ReplicationManagerUtility

end Encoders.Replication
