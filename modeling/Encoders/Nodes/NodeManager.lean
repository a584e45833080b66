import Encoders.Nodes.Unique

/-!
# Node descriptions and neighbours

`NodeManager.cpp`, as far as it changes the node store: a received node description, a
neighbour's interface that comes up, and the answer of the data store that is asked for the
owner of an interface nobody in the store has. Descriptions are not merged in the data store
(`MERGE_BLOOMFILTERS` is off), so a description goes into the node store in one step.

Events, data store and applications are left out; a node comes as `Node::create` makes it of a
description, or as the data store returns it, under a number of its own.
-/

namespace Encoders.Nodes

open Encoders.Lib Encoders.Data Encoders.Bloom Encoders.Connectivity

/-! ## Nodes -/

/-- The loop of `addInterface` replaces the reference where there is one. -/
def replaceInterface (i : NodeInterface) (l : List NodeInterface) : List NodeInterface :=
  l.map (fun j => if j.key = i.key then i else j)

theorem map_key_replaceInterface (i : NodeInterface) (l : List NodeInterface) :
    (replaceInterface i l).map NodeInterface.key = l.map NodeInterface.key := by
  unfold replaceInterface
  rw [List.map_map]
  refine List.map_congr_left (fun j _ => ?_)
  rw [Function.comp_apply]
  split
  · rename_i h
    exact h.symm
  · rfl

theorem nodup_replaceInterface (i : NodeInterface) (s : NodeInterfaces) :
    ((replaceInterface i s.list).map NodeInterface.key).Nodup := by
  rw [map_key_replaceInterface]
  exact s.distinct

theorem nodup_append_interface {i : NodeInterface} {s : NodeInterfaces}
    (h : ¬ s.has i.key = true) : ((s.list ++ [i]).map NodeInterface.key).Nodup := by
  rw [List.map_append, List.map_singleton]
  refine List.nodup_append.mpr ⟨s.distinct, List.nodup_singleton _, ?_⟩
  intro k hk k' hk' heq
  rw [List.mem_singleton.mp hk'] at heq
  obtain ⟨j, hj, rfl⟩ := List.mem_map.mp hk
  exact h (List.any_eq_true.mpr ⟨j, hj, decide_eq_true heq⟩)

namespace Node

/-- `isAvailable` -/
def isAvailable (n : Node) : Bool := n.interfaces.list.any (fun i => i.isUp)

/-- `isNeighbor` -/
def isNeighbor (n : Node) : Bool :=
  (n.type = .peer || n.type = .undefined || n.type = .gateway) && n.isAvailable

/-- `addInterface` -/
def addInterface (now : Timeval) (n : Node) (i : NodeInterface) : Node :=
  if h : n.interfaces.has i.key = true then
    { n with interfaces := ⟨replaceInterface i n.interfaces.list, nodup_replaceInterface i n.interfaces⟩ }
  else
    (({ n with interfaces := ⟨n.interfaces.list ++ [i], nodup_append_interface h⟩
      }).setNodeDescriptionCreateTime now).setNodeDescriptionUpdateTime now

/-- `Node::create()` -/
def create : Node where
  type := .undefined
  id := Vector.replicate 20 0
  proxyId := Vector.replicate 20 0
  interfaces := ⟨[], List.nodup_nil⟩
  doBF := none
  doBF2 := none
  nodeDescriptionCreateTime := Timeval.invalid
  nodeDescriptionUpdateTime := Timeval.invalid
  localApplication := false
  matchThreshold := 0
  numberOfDataObjectsPerMatch := 10
  deleteStateOnDeRegister := false
  nodeDescExch := false
  stored := false

end Node

/-! ## The node store, as the manager asks it -/

namespace NodeStore

/-- `retrieve(node)` -/
def retrieve (s : NodeStore) (n : Node) : Option NodeRecord := s.find? (fun nr => nr.node.eqNode n)

/-- `retrieve(iface, true)`, and `setInterfaceUp` of what it finds. -/
def setNeighborUp (now : Timeval) (iface : InterfaceKey) : NodeStore → Option NodeStore
  | [] => none
  | nr :: s =>
      if nr.node.isNeighbor && nr.node.interfaces.has iface then
        some ({ nr with node := nr.node.setInterfaceUp now iface } :: s)
      else (setNeighborUp now iface s).map (nr :: ·)

end NodeStore

/-! ## The manager -/

/-- What does not change while the manager runs. -/
structure ManagerConfig where
  store : StoreConfig
  thisNode : Node
  acceptNeighborNodeDescriptionsFromThirdParty : Bool

/-- What a handler finds besides its arguments: what `update` reads, and the interface store. -/
structure ManagerEnv extends UpdateEnv where
  interfaceStored : InterfaceKey → Bool

/-- The node store, and a number no node has yet. -/
structure NodeManager where
  nodeStore : NodeStore
  nextRef : Nat

/-- A description `Node::create` makes a node of, and the interface it came in on. -/
structure Description where
  node : Node
  remoteInterface : Option InterfaceKey
  defined : node.type ≠ .undefined

namespace NodeManager

/-- The node as `onReceiveNodeDescription` looks for it in the store: `none` where it is this
node's own, or an application's that did not come from its port. -/
def namedNode (cfg : ManagerConfig) (d : Description) : Option Node :=
  if d.node.eqNode cfg.thisNode then none
  else if d.node.proxyId = cfg.thisNode.id then
    if d.remoteInterface.any (fun k => k.type ≠ .applicationPort) then none
    else some { d.node with localApplication := true }
  else some d.node

/-- What becomes of the node then; `neighbor` is the first stored node equal to it. A third
party's description of a neighbour may be ignored. -/
def interfacedNode (cfg : ManagerConfig) (now : Timeval) (d : Description) (node : Node)
    (neighbor : Option NodeRecord) : Option Node :=
  match d.remoteInterface with
  | some remoteIface =>
      if node.interfaces.has remoteIface then some (node.setInterfaceUp now remoteIface)
      else if (neighbor.any (fun nr => nr.node.isNeighbor)) &&
          !cfg.acceptNeighborNodeDescriptionsFromThirdParty then none
      else some node
  | none =>
      match neighbor with
      | none => some node
      | some nr =>
          if nr.node.localApplication then
            some (nr.node.interfaces.list.foldl (Node.addInterface now)
              { node with localApplication := true, proxyId := nr.node.proxyId })
          else some node

/-- The description is not older than what the store found, if that is defined. -/
def youngEnough (node : Node) (neighbor : Option NodeRecord) : Bool :=
  neighbor.all (fun nr => nr.node.type = .undefined ||
    !(node.nodeDescriptionCreateTime.lt nr.node.nodeDescriptionCreateTime))

/-- The node of a description that is taken in. -/
def acceptedNode (cfg : ManagerConfig) (now : Timeval) (s : NodeStore) (d : Description) :
    Option Node :=
  (namedNode cfg d).bind fun node =>
    let neighbor := s.retrieve node
    (interfacedNode cfg now d node neighbor).filter (fun node => youngEnough node neighbor)

/-- `nodeUpdate` -/
def nodeUpdate (cfg : ManagerConfig) (env : ManagerEnv) (s : NodeStore) (r : NodeRecord) :
    NodeStore :=
  let updated := NodeStore.update cfg.store env.toUpdateEnv s (some r)
  if updated.found then updated.store
  else if r.node.localApplication then s
  else
    let node := r.node.interfaces.list.foldl
      (fun n i => if env.interfaceStored i.key then n.setInterfaceUp env.now i.key else n) r.node
    (NodeStore.addRef s (some ⟨r.ref, node⟩)).1

/-- `onReceiveNodeDescription`, for one description. -/
def onReceiveNodeDescription (cfg : ManagerConfig) (env : ManagerEnv) (m : NodeManager)
    (d : Description) : NodeManager :=
  match acceptedNode cfg env.now m.nodeStore d with
  | none => m
  | some node => ⟨nodeUpdate cfg env m.nodeStore ⟨m.nextRef, node⟩, m.nextRef + 1⟩

/-- `onNeighborInterfaceUp`. Where no neighbour has the interface, the data store is asked. -/
def onNeighborInterfaceUp (now : Timeval) (m : NodeManager) (iface : InterfaceKey) : NodeManager :=
  { m with nodeStore := (m.nodeStore.setNeighborUp now iface).getD m.nodeStore }

/-- The node `onRetrieveNode` works with: the one returned, or a new one with the interface. -/
def retrievedNode (now : Timeval) : Node ⊕ NodeInterface → Node
  | .inl node => node
  | .inr iface => Node.create.addInterface now iface

/-- `onRetrieveNode` -/
def onRetrieveNode (cfg : ManagerConfig) (env : ManagerEnv) (m : NodeManager)
    (answer : Node ⊕ NodeInterface) : NodeManager :=
  let r : NodeRecord := ⟨m.nextRef, retrievedNode env.now answer⟩
  let updated := NodeStore.update cfg.store env.toUpdateEnv m.nodeStore (some r)
  ⟨if updated.found then updated.store else (NodeStore.addRef m.nodeStore (some r)).1,
    m.nextRef + 1⟩

/-! ## Events -/

/-- The events that change the stored nodes. -/
inductive NodeEvent where
  | received (d : Description)
  | interfaceUp (iface : InterfaceKey)
  | retrieved (answer : Node ⊕ NodeInterface)

/-- One event, handled. -/
def step (cfg : ManagerConfig) (m : NodeManager) (e : NodeEvent × ManagerEnv) : NodeManager :=
  match e.1 with
  | .received d => m.onReceiveNodeDescription cfg e.2 d
  | .interfaceUp iface => m.onNeighborInterfaceUp e.2.now iface
  | .retrieved answer => m.onRetrieveNode cfg e.2 answer

/-- `NodeManager` at its start. -/
def start : NodeManager := ⟨[], 0⟩

end NodeManager

end Encoders.Nodes
