import Mathlib.Data.Rat.Defs
import Mathlib.Algebra.Order.Ring.Unbundled.Rat
import Encoders.Data.Object
import Encoders.Store.Table

/-!
# `MemoryCache`

The in-memory database of the kernel: data objects, nodes and filters, each with indices over
its attributes, and a repository of the managers. An attribute goes into an index as one
string, its name and its value with a colon between them, which is taken apart again at the
last colon. An interest in any value of a name has the value `*` and goes into an index of
its own, from the name to the ids.

The queries look up candidates in the indices, compute for each how much of the wanted weight
it satisfies, and list those that reach a threshold, the best first.

A cached node or data object is not changed while it is cached. Satisfaction is an exact
quotient where the source has a `double`. Counters of errors and of freed pairs, and the
wrappers that look an object up by the id a query returns, are left out.
-/

namespace Encoders.Store

open Encoders.Lib Encoders.Container Encoders.Data

/-! ## Joined strings -/

/-- `createHash` -/
def createHash (key val : CString) : CString := key ++ lit ":" ++ val

/-- `extractVal`: what stands behind the last colon. -/
def extractVal (hash : CString) : CString := (hash.reverse.takeWhile (· ≠ 58)).reverse

/-- `extractKey`: what stands before the last colon, or all of it if there is none. -/
def extractKey (hash : CString) : CString :=
  if 58 ∈ hash then ((hash.reverse.dropWhile (· ≠ 58)).drop 1).reverse else hash

theorem createHash_eq (key val : CString) : createHash key val = key ++ 58 :: val := by
  unfold createHash
  rw [show lit ":" = [58] from rfl, List.append_assoc, List.singleton_append]

/-- A value without a colon comes out of the joined string as it went in. -/
theorem extractVal_createHash (key : CString) {val : CString} (h : 58 ∉ val) :
    extractVal (createHash key val) = val := by
  unfold extractVal
  rw [createHash_eq, List.reverse_append, List.reverse_cons, List.append_assoc,
    List.takeWhile_append_of_pos, List.singleton_append, List.takeWhile_cons_of_neg (by simp),
    List.append_nil, List.reverse_reverse]
  intro b hb
  rw [List.mem_reverse] at hb
  have hne : b ≠ 58 := fun heq => h (heq ▸ hb)
  simpa using hne

/-- So does its name. -/
theorem extractKey_createHash (key : CString) {val : CString} (h : 58 ∉ val) :
    extractKey (createHash key val) = key := by
  unfold extractKey
  rw [createHash_eq, if_pos (by simp), List.reverse_append, List.reverse_cons, List.append_assoc,
    List.dropWhile_append_of_pos, List.singleton_append, List.dropWhile_cons_of_neg (by simp),
    List.drop_succ_cons, List.drop_zero, List.reverse_reverse]
  intro b hb
  rw [List.mem_reverse] at hb
  have hne : b ≠ 58 := fun heq => h (heq ▸ hb)
  simpa using hne

/-! ## What is cached -/

/-- `unsigned long` made an `int`. -/
def toInt (n : UInt64) : Int := (n.toNat : Int).bmod 4294967296

/-- `Node::Type_t` -/
inductive NodeType where
  | undefined
  | localDevice
  | application
  | peer
  | gateway
deriving DecidableEq

/-- The string of one character that a type becomes as a key. -/
def NodeType.key : NodeType → CString
  | .undefined => []
  | .localDevice => [1]
  | .application => [2]
  | .peer => [3]
  | .gateway => [4]

/-- `class AbstractNode` around a node; `dataObject` is the id of the description it came in. -/
structure AbstractNode where
  id : CString
  interfaces : List CString
  attributes : List Attribute
  maxDataObjectsInMatch : UInt64
  matchThreshold : UInt64
  type : NodeType
  dataObject : Option CString
deriving DecidableEq

namespace AbstractNode

/-- `getInterests` -/
def getInterests (n : AbstractNode) : List (CString × Int) :=
  n.attributes.map (fun a => (createHash a.name a.value, toInt a.weight))

/-- `getMatchThreshold` -/
def getMatchThreshold (n : AbstractNode) : Int := toInt n.matchThreshold

/-- `getMaxDataObjectsInMatch` -/
def getMaxDataObjectsInMatch (n : AbstractNode) : Int := toInt n.maxDataObjectsInMatch

end AbstractNode

/-- `class AbstractDataObject`; `node` is the id of the node that a description describes. -/
structure AbstractDataObject where
  id : CString
  attributes : List Attribute
  node : Option CString
deriving DecidableEq

/-- `getAttributes` -/
def AbstractDataObject.getAttributes (d : AbstractDataObject) : List CString :=
  d.attributes.map (fun a => createHash a.name a.value)

/-- `filter_t` -/
structure Filter where
  matchThreshold : Int
  maxMatches : Int
deriving DecidableEq

/-- `attribute_t` -/
structure AttributeT where
  keyval : CString
  weight : Int
deriving DecidableEq

/-- `RepositoryEntry::ValueType` -/
inductive ValueType where
  | string
  | blob
deriving DecidableEq

/-- `class RepositoryEntry`, and where in memory its key is. -/
structure RepositoryEntry where
  address : Nat
  type : ValueType
  authority : CString
  key : CString
  value : CString
  id : UInt32
deriving DecidableEq

/-- `getKey`, the pointer: no key is a null pointer. -/
def RepositoryEntry.getKey (re : RepositoryEntry) : Option Nat :=
  if re.key = [] then none else some re.address

/-! ## The cache -/

/-- `class MemoryCache` -/
structure MemoryCache where
  excludeZeroWeightAttributes : Bool
  enableCompaction : Bool
  doIdToDo : Table CString AbstractDataObject
  nodeIdToNode : Table CString AbstractNode
  nodeIdToDoId : Table CString CString
  ifaceToNodeId : Table CString CString
  keyvalToNodeId : Table CString CString
  keyStarToNodeIds : Table CString (HashMap CString Int)
  typeToNodeId : Table CString CString
  keyvalToDoId : Table CString CString
  keyStarToDoIds : Table CString (HashMap CString CString)
  filters : Table Int Filter
  filterIdToAttribute : Table Int AttributeT
  keyvalToFilterId : Table CString Int
  keyStarToFilterId : Table CString (HashMap Int Int)
  availableFilterId : Int
  maxNodesToMatch : Int
  authorityToRepository : Table CString RepositoryEntry

namespace MemoryCache

/-- `MemoryCache()`, with compaction on or off. -/
def new (enableCompaction : Bool) : MemoryCache where
  excludeZeroWeightAttributes := false
  enableCompaction := enableCompaction
  doIdToDo := Table.empty
  nodeIdToNode := Table.empty
  nodeIdToDoId := Table.empty
  ifaceToNodeId := Table.empty
  keyvalToNodeId := Table.empty
  keyStarToNodeIds := Table.empty
  typeToNodeId := Table.empty
  keyvalToDoId := Table.empty
  keyStarToDoIds := Table.empty
  filters := Table.empty
  filterIdToAttribute := Table.empty
  keyvalToFilterId := Table.empty
  keyStarToFilterId := Table.empty
  availableFilterId := 9223372036854775807
  maxNodesToMatch := 0
  authorityToRepository := Table.empty

/-- `compact` -/
def compact (s : MemoryCache) : MemoryCache :=
  if s.enableCompaction then
    { s with
      doIdToDo := s.doIdToDo.compact
      nodeIdToNode := s.nodeIdToNode.compact
      nodeIdToDoId := s.nodeIdToDoId.compact
      ifaceToNodeId := s.ifaceToNodeId.compact
      keyvalToNodeId := s.keyvalToNodeId.compact
      keyStarToNodeIds := s.keyStarToNodeIds.compact
      typeToNodeId := s.typeToNodeId.compact
      keyvalToDoId := s.keyvalToDoId.compact
      keyStarToDoIds := s.keyStarToDoIds.compact
      filters := s.filters.compact
      filterIdToAttribute := s.filterIdToAttribute.compact
      keyvalToFilterId := s.keyvalToFilterId.compact
      keyStarToFilterId := s.keyStarToFilterId.compact
      authorityToRepository := s.authorityToRepository.compact }
  else s

/-! ### Data objects -/

/-- `isDataObjectCached` -/
def isDataObjectCached (s : MemoryCache) (dobjId : CString) : Bool :=
  (s.doIdToDo.find dobjId).isSome

/-- `getDataObjectFromId` -/
def getDataObjectFromId (s : MemoryCache) (dobjId : CString) : Option AbstractDataObject :=
  s.doIdToDo.find dobjId

/-- `isNodeCached` -/
def isNodeCached (s : MemoryCache) (nodeId : CString) : Bool := (s.nodeIdToNode.find nodeId).isSome

/-- The body of `unCacheDataObject`, for an object that was found. -/
def dropDataObject (s : MemoryCache) (ad : AbstractDataObject) (dobjId : CString) : MemoryCache :=
  { s with
    doIdToDo := s.doIdToDo.eraseFirst dobjId
    keyvalToDoId := ad.getAttributes.foldl
      (fun t keyval => t.eraseAll keyval (fun id => id = dobjId)) s.keyvalToDoId
    keyStarToDoIds := ad.getAttributes.foldl
      (fun t keyval => t.starEraseAll (extractKey keyval) dobjId) s.keyStarToDoIds
    nodeIdToDoId :=
      match ad.node with
      | none => s.nodeIdToDoId
      | some nodeId => s.nodeIdToDoId.eraseOne nodeId (fun id => id = dobjId) }

/-- `unCacheDataObject`; `none` if there is no such object, and the cache is left as it is. -/
def unCacheDataObject (s : MemoryCache) (dobjId : CString) : Option MemoryCache :=
  match s.doIdToDo.find dobjId with
  | none => none
  | some ad => some (s.dropDataObject ad dobjId).compact

/-- The body of `cacheDataObject`, for an object that is not there. -/
def putDataObject (s : MemoryCache) (ad : AbstractDataObject) : MemoryCache :=
  { s with
    doIdToDo := s.doIdToDo.insert ad.id ad
    keyvalToDoId := ad.getAttributes.foldl (fun t keyval => t.insert keyval ad.id) s.keyvalToDoId
    keyStarToDoIds := ad.getAttributes.foldl
      (fun t keyval => t.starInsert (extractKey keyval) ad.id (extractVal keyval))
      s.keyStarToDoIds
    nodeIdToDoId :=
      match ad.node with
      | none => s.nodeIdToDoId
      | some nodeId =>
          if s.isNodeCached nodeId then s.nodeIdToDoId.insert nodeId ad.id else s.nodeIdToDoId }

/-- `cacheDataObject` -/
def cacheDataObject (s : MemoryCache) (ad : AbstractDataObject) : MemoryCache :=
  if s.isDataObjectCached ad.id then
    ((s.unCacheDataObject ad.id).getD s).putDataObject ad
  else s.putDataObject ad

/-! ### Nodes -/

/-- Is it an interest in any value? -/
def isStar (keyval : CString) : Bool := extractVal keyval = wildcard

/-- The body of `unCacheNode`, for a node that was found. -/
def dropNode (s : MemoryCache) (node : AbstractNode) (nodeId : CString) : MemoryCache :=
  { s with
    nodeIdToNode := s.nodeIdToNode.eraseFirst nodeId
    -- the first pair of the interface, whichever node it names
    ifaceToNodeId := node.interfaces.foldl (fun t iface => t.eraseFirst iface) s.ifaceToNodeId
    keyvalToNodeId := node.getInterests.foldl
      (fun t i => if isStar i.1 then t else t.eraseAll i.1 (fun id => id = nodeId))
      s.keyvalToNodeId
    keyStarToNodeIds := node.getInterests.foldl
      (fun t i => if isStar i.1 then t.starEraseOne (extractKey i.1) nodeId else t)
      s.keyStarToNodeIds
    typeToNodeId := s.typeToNodeId.eraseAll node.type.key (fun id => id = nodeId)
    nodeIdToDoId := s.nodeIdToDoId.eraseAll nodeId (fun _ => true) }

/-- `unCacheNode`; `none` if there is no such node, and the cache is left as it is. -/
def unCacheNode (s : MemoryCache) (nodeId : CString) : Option MemoryCache :=
  match s.nodeIdToNode.find nodeId with
  | none => none
  | some node => some (s.dropNode node nodeId).compact

/-- The body of `cacheNode`, for a node that is not there. -/
def putNode (s : MemoryCache) (node : AbstractNode) : MemoryCache :=
  { s with
    nodeIdToNode := s.nodeIdToNode.insert node.id node
    ifaceToNodeId := node.interfaces.foldl (fun t iface => t.insert iface node.id) s.ifaceToNodeId
    keyvalToNodeId := node.getInterests.foldl
      (fun t i => if isStar i.1 then t else t.insert i.1 node.id) s.keyvalToNodeId
    keyStarToNodeIds := node.getInterests.foldl
      (fun t i => if isStar i.1 then t.starInsert (extractKey i.1) node.id 1 else t)
      s.keyStarToNodeIds
    typeToNodeId := s.typeToNodeId.insert node.type.key node.id
    nodeIdToDoId :=
      match node.dataObject with
      | none => s.nodeIdToDoId
      | some dobjId =>
          if s.isDataObjectCached dobjId then s.nodeIdToDoId.insert node.id dobjId
          else s.nodeIdToDoId }

/-- `cacheNode` -/
def cacheNode (s : MemoryCache) (node : AbstractNode) : MemoryCache :=
  if s.isNodeCached node.id then ((s.unCacheNode node.id).getD s).putNode node
  else s.putNode node

/-- `getNodeFromId` -/
def getNodeFromId (s : MemoryCache) (nodeId : CString) : Option AbstractNode :=
  s.nodeIdToNode.find nodeId

/-- `getNodeFromIfaceId` -/
def getNodeFromIfaceId (s : MemoryCache) (ifaceId : CString) : Option AbstractNode :=
  match s.ifaceToNodeId.find ifaceId with
  | none => none
  | some nodeId => s.getNodeFromId nodeId

/-- `getNodesFromType` -/
def getNodesFromType (s : MemoryCache) (type : NodeType) : List AbstractNode :=
  (s.typeToNodeId.values type.key).filterMap s.getNodeFromId

/-! ### Filters -/

/-- `getTemporaryFilterId`: an id, and the cache that will not give it again. -/
def getTemporaryFilterId (s : MemoryCache) : Int × MemoryCache :=
  (s.availableFilterId, { s with availableFilterId := s.availableFilterId - 1 })

/-- `unCacheFilter` -/
def unCacheFilter (s : MemoryCache) (filterId : Int) : MemoryCache :=
  let attrs := s.filterIdToAttribute.values filterId
  MemoryCache.compact
    { s with
      filterIdToAttribute := s.filterIdToAttribute.eraseAll filterId (fun _ => true)
      keyvalToFilterId := attrs.foldl
        (fun t a => if isStar a.keyval then t else t.eraseOne a.keyval (fun id => id = filterId))
        s.keyvalToFilterId
      keyStarToFilterId := attrs.foldl
        (fun t a => if isStar a.keyval then t.starEraseOne (extractKey a.keyval) filterId else t)
        s.keyStarToFilterId
      filters := s.filters.eraseFirst filterId }

/-- `setFilterSettings` -/
def setFilterSettings (s : MemoryCache) (filterId matchThreshold maxMatches : Int) : MemoryCache :=
  { s with filters := (s.filters.eraseFirst filterId).insert filterId ⟨matchThreshold, maxMatches⟩ }

/-- `isFilterCached` -/
def isFilterCached (s : MemoryCache) (filterId : Int) : Bool :=
  (s.filterIdToAttribute.find filterId).isSome

/-- `cacheFilter`; `none` for the id that is the next to be given out. -/
def cacheFilter (s : MemoryCache) (filterId : Int) (key val : CString) (weight : Int) :
    Option MemoryCache :=
  if filterId = s.availableFilterId then none
  else
    some { s with
      filterIdToAttribute := s.filterIdToAttribute.insert filterId ⟨createHash key val, weight⟩
      keyvalToFilterId :=
        if val ≠ wildcard then s.keyvalToFilterId.insert (createHash key val) filterId
        else s.keyvalToFilterId
      keyStarToFilterId :=
        if val ≠ wildcard then s.keyStarToFilterId
        else s.keyStarToFilterId.starInsert key filterId 1
      filters :=
        match s.filters.find filterId with
        | none => s.filters.insert filterId ⟨100, 0⟩
        | some _ => s.filters }

/-! ### The repository -/

/-- `insertRepository`: an earlier entry goes if its key is at the same place in memory. -/
def insertRepository (s : MemoryCache) (re : RepositoryEntry) : MemoryCache :=
  { s with
    authorityToRepository :=
      (s.authorityToRepository.eraseOne re.authority
        (fun c => c.getKey = re.getKey && c.type = re.type)).insert re.authority re }

/-- `readRepository`; `none` where a key is compared with a null pointer. -/
def readRepository (s : MemoryCache) (auth key : CString) (id : UInt32) :
    Option (List RepositoryEntry) :=
  if auth = [] then some []
  else if 0 < id then some []
  else if key = [] then some (s.authorityToRepository.values auth)
  else if (s.authorityToRepository.values auth).any (fun c => c.getKey = none) then none
  else some ((s.authorityToRepository.values auth).filter (fun c => c.key = key))

/-- `deleteRepository`; `none` if the authority or the key is missing, or an id is given. -/
def deleteRepository (s : MemoryCache) (auth key : CString) (id : UInt32) : Option MemoryCache :=
  if auth = [] then none
  else if key = [] then none
  else if 0 < id then none
  else
    some (MemoryCache.compact
      { s with
        authorityToRepository := s.authorityToRepository.eraseAll auth (fun _ => true) })

/-! ### All of it -/

/-- `getAllDataObjects` -/
def getAllDataObjects (s : MemoryCache) : List AbstractDataObject := s.doIdToDo.map.toList.map Prod.snd

/-- `getAllNodes` -/
def getAllNodes (s : MemoryCache) : List AbstractNode := s.nodeIdToNode.map.toList.map Prod.snd

/-- `getAllRepository` -/
def getAllRepository (s : MemoryCache) : List RepositoryEntry :=
  s.authorityToRepository.map.toList.map Prod.snd

/-! ### Runs -/

/-- The calls that change the cache. -/
inductive Op where
  | cacheDataObject (ad : AbstractDataObject)
  | unCacheDataObject (dobjId : CString)
  | cacheNode (node : AbstractNode)
  | unCacheNode (nodeId : CString)
  | cacheFilter (filterId : Int) (key val : CString) (weight : Int)
  | setFilterSettings (filterId matchThreshold maxMatches : Int)
  | unCacheFilter (filterId : Int)
  | getTemporaryFilterId
  | insertRepository (re : RepositoryEntry)
  | deleteRepository (auth key : CString) (id : UInt32)
  | setExcludeZeroWeightAttributes (status : Bool)
  | setMaxNodesToMatch (maxNodesToMatch : Int)
  | compact

/-- One call. A call that fails leaves the cache as it is. -/
def step (s : MemoryCache) : Op → MemoryCache
  | .cacheDataObject ad => s.cacheDataObject ad
  | .unCacheDataObject dobjId => (s.unCacheDataObject dobjId).getD s
  | .cacheNode node => s.cacheNode node
  | .unCacheNode nodeId => (s.unCacheNode nodeId).getD s
  | .cacheFilter filterId key val weight => (s.cacheFilter filterId key val weight).getD s
  | .setFilterSettings filterId matchThreshold maxMatches =>
      s.setFilterSettings filterId matchThreshold maxMatches
  | .unCacheFilter filterId => s.unCacheFilter filterId
  | .getTemporaryFilterId => s.getTemporaryFilterId.2
  | .insertRepository re => s.insertRepository re
  | .deleteRepository auth key id => (s.deleteRepository auth key id).getD s
  | .setExcludeZeroWeightAttributes status => { s with excludeZeroWeightAttributes := status }
  | .setMaxNodesToMatch maxNodesToMatch => { s with maxNodesToMatch := maxNodesToMatch }
  | .compact => s.compact

/-- The cache after some calls. -/
def after (enableCompaction : Bool) (ops : List Op) : MemoryCache :=
  ops.foldl step (new enableCompaction)

end MemoryCache

end Encoders.Store
