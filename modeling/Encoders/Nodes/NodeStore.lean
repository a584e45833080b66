import Encoders.Connectivity.InterfaceStore
import Encoders.Bloom.Merge

/-!
# The node store

`NodeStore.cpp`, and of `Node.cpp` what it uses. The store keeps one record for each node
this one has heard of. A neighbour of which only an interface is known is kept as an
undefined node, and nodes are compared in two ways: two defined nodes by their ids, and an
undefined node with any other by their interfaces. So a node description may stand for
several records at once: the one with its id, and one for each interface found before its
owner was known. `update` replaces them all by the new node.

What the old records knew is handed on. Interfaces that were up are up in the new node; a
local application keeps its state; and of any other node the Bloom filter is taken over,
either into the filter of the new node or next to it.
-/

namespace Encoders.Nodes

open Encoders.Lib Encoders.Data Encoders.Bloom Encoders.Connectivity

/-! ## Nodes -/

/-- `Node::Type_t` -/
inductive NodeType where
  | undefined
  | localDevice
  | application
  | peer
  | gateway
deriving DecidableEq

/-- An interface of a node, and whether it is up. -/
structure NodeInterface where
  key : InterfaceKey
  isUp : Bool
deriving DecidableEq

/-- The loop of `setInterfaceUp`: `none` when there is nothing to do. -/
def raise (iface : InterfaceKey) : List NodeInterface → Option (List NodeInterface)
  | [] => none
  | i :: l =>
      if i.key = iface ∧ i.isUp = false then some ({ i with isUp := true } :: l)
      else (raise iface l).map (fun l' => i :: l')

theorem map_key_raise {iface : InterfaceKey} : ∀ {l l' : List NodeInterface},
    raise iface l = some l' → l'.map NodeInterface.key = l.map NodeInterface.key
  | [], _, h => nomatch h
  | i :: l, l', h => by
      rw [raise] at h
      by_cases hi : i.key = iface ∧ i.isUp = false
      · rw [if_pos hi, Option.some.injEq] at h
        rw [← h, List.map_cons, List.map_cons]
      · rw [if_neg hi] at h
        obtain ⟨t, ht, rfl⟩ := Option.map_eq_some_iff.mp h
        rw [List.map_cons, List.map_cons, map_key_raise ht]

/-- The interfaces of a node. `addInterface` is the only way in, and never adds one twice. -/
structure NodeInterfaces where
  list : List NodeInterface
  distinct : (list.map NodeInterface.key).Nodup

namespace NodeInterfaces

/-- What `operator==` sees of them. -/
def keys (s : NodeInterfaces) : List InterfaceKey := s.list.map NodeInterface.key

/-- `hasInterface` -/
def has (s : NodeInterfaces) (iface : InterfaceKey) : Bool := s.list.any (fun i => i.key = iface)

/-- The interfaces after `setInterfaceUp`, if it does anything. -/
def setUp (iface : InterfaceKey) (s : NodeInterfaces) : Option NodeInterfaces :=
  (raise iface s.list).pmap
    (fun l (hl : l.map NodeInterface.key = s.list.map NodeInterface.key) =>
      ⟨l, by rw [hl]; exact s.distinct⟩)
    (fun _ hl => map_key_raise hl)

end NodeInterfaces

/-- `Node`, as far as the store reads or writes it. -/
structure Node where
  type : NodeType
  id : Vector UInt8 20
  proxyId : Vector UInt8 20
  interfaces : NodeInterfaces
  doBF : Option KernelFilter
  doBF2 : Option KernelFilter
  nodeDescriptionCreateTime : Timeval
  nodeDescriptionUpdateTime : Timeval
  localApplication : Bool
  matchThreshold : UInt64
  numberOfDataObjectsPerMatch : UInt64
  deleteStateOnDeRegister : Bool
  nodeDescExch : Bool
  stored : Bool

namespace Node

/-- `operator==` of nodes. -/
def eqNode (n₁ n₂ : Node) : Bool :=
  if n₁.type = .undefined ∨ n₂.type = .undefined then
    n₁.interfaces.list.any (fun i => n₂.interfaces.list.any (fun j => i.key = j.key))
  else n₁.id = n₂.id

/-- `isLocalDevice` -/
def isLocalDevice (n : Node) : Bool := n.type = .localDevice

/-- `setNodeDescriptionCreateTime` -/
def setNodeDescriptionCreateTime (t : Timeval) (n : Node) : Node :=
  if n.isLocalDevice || n.localApplication then { n with nodeDescriptionCreateTime := t } else n

/-- `setNodeDescriptionUpdateTime` -/
def setNodeDescriptionUpdateTime (t : Timeval) (n : Node) : Node :=
  if n.isLocalDevice then { n with nodeDescriptionUpdateTime := t } else n

/-- `setInterfaceUp` -/
def setInterfaceUp (now : Timeval) (iface : InterfaceKey) (n : Node) : Node :=
  match n.interfaces.setUp iface with
  | none => n
  | some l => (({ n with interfaces := l }).setNodeDescriptionCreateTime
      now).setNodeDescriptionUpdateTime now

/-- `getBloomfilter`; `fresh` is the filter it makes where there is none. -/
def getBloomfilter (fresh : KernelFilter) (n : Node) : KernelFilter := n.doBF.getD fresh

/-- `bf && bf->has(id)`, of a filter there may not be. -/
def filterHas (sha1 : Digest) (f : Option KernelFilter) (key : Key) : Option Bool :=
  match f with
  | none => some false
  | some bf => bf.has sha1 key

/-- `has`: the one filter, then the other. -/
def has (sha1 : Digest) (n : Node) (key : Key) : Option Bool :=
  (filterHas sha1 n.doBF key).bind (fun first =>
    if first then some true else filterHas sha1 n.doBF2 key)

end Node

/-- A record of the store: the node, and which one it is. -/
structure NodeRecord where
  ref : Nat
  node : Node

/-- `operator==` of references: the same node, or equal ones. -/
def NodeRecord.eqRef (r₁ r₂ : NodeRecord) : Bool := r₁.ref = r₂.ref || r₁.node.eqNode r₂.node

abbrev NodeStore := List NodeRecord

/-! ## The store -/

/-- What the store is configured to do. -/
structure StoreConfig where
  preemptObsoleteNodeDesc : Bool
  continuousBloomfilters : Bool
  continuousBloomfilterUpdateInterval : UInt64

/-- What `update` reads besides its arguments: the clock, the filters that are made for nodes
without one, and which of the old nodes have the same description as the new one. -/
structure UpdateEnv where
  now : Timeval
  fresh : Nat → KernelFilter
  sameDescription : Nat → Bool

/-- `getTimeAsMilliSeconds` -/
def milliSeconds (t : Timeval) : Int := t.sec * 1000 + t.usec / 1000

namespace NodeStore

/-- `_stored(node)`, of a reference. -/
def storedRef (s : NodeStore) (r : NodeRecord) : Bool := s.any (fun nr => nr.eqRef r)

/-- `_stored(node)`, of a node. -/
def storedNode (s : NodeStore) (n : Node) : Bool := s.any (fun nr => nr.node.eqNode n)

/-- `add(NodeRef&)` -/
def addRef (s : NodeStore) (r : Option NodeRecord) : NodeStore × Bool :=
  match r with
  | none => (s, false)
  | some r =>
      if storedRef s r then (s, false)
      else (s ++ [⟨r.ref, { r.node with stored := true }⟩], true)

/-- `add(Node *)` -/
def addPtr (s : NodeStore) (r : Option NodeRecord) : NodeStore × Bool :=
  match r with
  | none => (s, false)
  | some r =>
      if storedNode s r.node then (s, false)
      else (s ++ [⟨r.ref, { r.node with stored := true }⟩], true)

/-! ### Updating -/

/-- The loop of `update` over the interfaces of an old node. -/
def takeInterfaces (now : Timeval) (old : List NodeInterface) (n : Node) : Node :=
  old.foldl (fun n i =>
    if n.interfaces.has i.key && i.isUp then n.setInterfaceUp now i.key else n) n

/-- The description is so much younger than the old one that its filter is taken to replace the
old filter. The sum is one of unsigned longs, and so is the comparison. -/
def muchYounger (cfg : StoreConfig) (n old : Node) : Bool :=
  milliSeconds n.nodeDescriptionCreateTime % 18446744073709551616 >
    (milliSeconds old.nodeDescriptionCreateTime +
      cfg.continuousBloomfilterUpdateInterval.toNat) % 18446744073709551616

/-- What `update` takes over from an old node besides its interfaces. `ref` is the new node's,
and `oldRef` the old one's. -/
def takeState (cfg : StoreConfig) (env : UpdateEnv) (ref oldRef : Nat) (old n : Node) : Node :=
  if old.localApplication then
    { n with
      localApplication := true
      proxyId := old.proxyId
      doBF := some (old.getBloomfilter (env.fresh oldRef)).copy
      matchThreshold := old.matchThreshold
      numberOfDataObjectsPerMatch := old.numberOfDataObjectsPerMatch
      deleteStateOnDeRegister := old.deleteStateOnDeRegister }
  else if cfg.continuousBloomfilters then
    if muchYounger cfg n old then
      { n with doBF2 := some (old.getBloomfilter (env.fresh oldRef)).copy }
    else
      { n with
        doBF2 := match old.doBF2 with
          | none => n.doBF2
          | some bf2 => some bf2.copy
        doBF := some ((n.getBloomfilter (env.fresh ref)).merge
          (old.getBloomfilter (env.fresh oldRef))).1 }
  else n

/-- What `update` takes over from an old node. -/
def takeOver (cfg : StoreConfig) (env : UpdateEnv) (ref oldRef : Nat) (old n : Node) : Node :=
  { takeState cfg env ref oldRef old (takeInterfaces env.now old.interfaces.list n) with
    nodeDescExch := old.nodeDescExch }

/-- What the loop of `update` leaves: the new node, the records that stay, the nodes for the
list, and those whose descriptions are marked obsolete. -/
structure Swept where
  node : Node
  kept : NodeStore
  nl : List NodeRecord
  obsolete : List NodeRecord

/-- The loop of `update`. An old record may hold the very node that is given. -/
def updateLoop (cfg : StoreConfig) (env : UpdateEnv) (ref : Nat) : Node → NodeStore → Swept
  | n, [] => ⟨n, [], [], []⟩
  | n, nr :: s =>
      if NodeRecord.eqRef ⟨ref, n⟩ nr then
        let old := if nr.ref = ref then n else nr.node
        let rest := updateLoop cfg env ref (takeOver cfg env ref nr.ref old n) s
        { rest with
          nl := ⟨nr.ref, { old with stored := false }⟩ :: rest.nl
          obsolete :=
            if cfg.preemptObsoleteNodeDesc && !env.sameDescription nr.ref then
              nr :: rest.obsolete
            else rest.obsolete }
      else
        let rest := updateLoop cfg env ref n s
        { rest with kept := nr :: rest.kept }

/-- What `update` leaves, and what it returns. -/
structure Updated where
  store : NodeStore
  nl : List NodeRecord
  obsolete : List NodeRecord
  found : Bool

/-- `update` -/
def update (cfg : StoreConfig) (env : UpdateEnv) (s : NodeStore) (r : Option NodeRecord) :
    Updated :=
  match r with
  | none => ⟨s, [], [], false⟩
  | some r =>
      let swept := updateLoop cfg env r.ref r.node s
      if swept.nl.isEmpty then ⟨swept.kept, [], [], false⟩
      else ⟨swept.kept ++ [⟨r.ref, { swept.node with stored := true }⟩], swept.nl,
        swept.obsolete, true⟩

/-! ### Removing -/

/-- `remove(const InterfaceRef&)`: the first node with the interface. -/
def removeIface (s : NodeStore) (iface : Option InterfaceKey) : NodeStore × Option NodeRecord :=
  match iface with
  | none => (s, none)
  | some k =>
      (s.eraseP (fun nr => nr.node.interfaces.has k),
        s.find? (fun nr => nr.node.interfaces.has k))

/-- `remove(type)`: how many there were. -/
def removeType (s : NodeStore) (type : NodeType) : NodeStore × Nat :=
  (s.filter (fun nr => !decide (nr.node.type = type)),
    (s.filter (fun nr => nr.node.type = type)).length)

/-- `remove(const NodeRef&)`: the first node that is equal. -/
def removeNode (s : NodeStore) (r : Option NodeRecord) : NodeStore × Bool :=
  match r with
  | none => (s, false)
  | some r => (s.eraseP (fun nr => nr.eqRef r), s.any (fun nr => nr.eqRef r))

end NodeStore

/-! ### Runs -/

/-- The calls on the store, and what happens to its nodes between them. -/
inductive NodeOp where
  | addRef (r : Option NodeRecord)
  | addPtr (r : Option NodeRecord)
  | update (env : UpdateEnv) (r : Option NodeRecord)
  | removeIface (iface : Option InterfaceKey)
  | removeType (type : NodeType)
  | removeNode (r : Option NodeRecord)
  | meanwhile (s : NodeStore)

/-- What a call leaves in the store. -/
def NodeStore.step (cfg : StoreConfig) (s : NodeStore) : NodeOp → NodeStore
  | .addRef r => (addRef s r).1
  | .addPtr r => (addPtr s r).1
  | .update env r => (NodeStore.update cfg env s r).store
  | .removeIface iface => (removeIface s iface).1
  | .removeType type => (removeType s type).1
  | .removeNode r => (removeNode s r).1
  | .meanwhile s' => s'

end Encoders.Nodes
