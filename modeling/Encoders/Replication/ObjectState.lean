import Encoders.Store.MemoryCache

/-!
# `ReplicationManagerObjectState`

How strongly each cached data object matches each cached node, under a key that joins the
name of the node and the id of the object. Two reverse indices list the keys by node and by
object, so that the matches of either can be removed with it.

The indices are `BasicMap`s that hold several entries under one key: an array in order of the
keys, where an entry goes in before those of its key. An iterator is a position in the array,
and erasing the entry under it moves the ones behind it down. So the `it++` of a loop that
has erased passes over an entry, and a loop up to `end()` goes on to other keys.

The other maps are the finite maps that `Map` is. Counters are left out. A difference of two
`int`s that is no `int` has no meaning, and leaves no state.
-/

namespace Encoders.Replication

open Encoders.Lib Encoders.Data Encoders.Store

/-! ## Keys -/

/-- `getKey` -/
def getKey (dobjId nodeName : CString) : CString := nodeName ++ lit ":" ++ dobjId

/-- `nodeIdFromKey`: what stands before the last colon. -/
def nodeIdFromKey (key : CString) : CString :=
  if 58 ∈ key then ((key.reverse.dropWhile (· ≠ 58)).drop 1).reverse else key

/-! ## Indices -/

/-- The entries of a `BasicMap<string, string>`, in the order of the array. -/
abbrev Index := List (CString × CString)

namespace Index

/-- `insert`: before the entries of the key. -/
def insert (index : Index) (entry : CString × CString) : Index :=
  index.takeWhile (fun e => e.1 < entry.1) ++ entry :: index.dropWhile (fun e => e.1 < entry.1)

/-- `find`: the first entry of the key, or `end()`, which is behind all entries. -/
def find (index : Index) (key : CString) : Nat :=
  (index.findIdx? (fun e => e.1 = key)).getD index.length

/-- The loop from a position that erases the first entry of a value it meets. -/
def eraseValue (index : Index) (start : Nat) (value : CString) : Index :=
  index.take start ++ (index.drop start).eraseP (fun e => e.2 = value)

end Index

/-- `match_t` -/
structure Match where
  ratio : Int
  threshold : Int
deriving DecidableEq

/-- `ratio - threshold`, if it is an `int`. -/
def Match.strength (m : Match) : Option Int :=
  if -2147483648 ≤ m.ratio - m.threshold ∧ m.ratio - m.threshold ≤ 2147483647 then
    some (m.ratio - m.threshold)
  else none

/-- A `NodeRef`, as far as it is looked at. -/
structure NamedNode where
  name : CString
  id : CString
deriving DecidableEq

/-! ## The state -/

/-- `class ReplicationManagerObjectState` -/
structure ObjectState where
  cachedDataObjects : CString → Bool
  cachedNodes : CString → Option NamedNode
  proxyIdToNodeName : CString → Option CString
  dataObjectIdMatchIndex : Index
  nodeIdMatchIndex : Index
  dataObjectIdMatch : CString → Option Match

namespace ObjectState

/-- `ReplicationManagerObjectState()` -/
def new : ObjectState where
  cachedDataObjects := fun _ => false
  cachedNodes := fun _ => none
  proxyIdToNodeName := fun _ => none
  dataObjectIdMatchIndex := []
  nodeIdMatchIndex := []
  dataObjectIdMatch := fun _ => none

/-- `dataObjectIdMatch.erase(key)` -/
def eraseMatch (s : ObjectState) (key : CString) : ObjectState :=
  { s with dataObjectIdMatch := fun k => if k = key then none else s.dataObjectIdMatch k }

/-- `cacheNode` -/
def cacheNode (s : ObjectState) (node : NamedNode) : ObjectState :=
  if (s.cachedNodes node.name).isSome then s
  else
    { s with
      cachedNodes := fun name => if name = node.name then some node else s.cachedNodes name
      proxyIdToNodeName := fun id =>
        if id = node.id ∧ s.proxyIdToNodeName id = none then some node.name
        else s.proxyIdToNodeName id }

/-- The loop of `unCacheNode`, at a position of the node index; `n` bounds the rounds. -/
def unCacheNodeLoop : Nat → Nat → ObjectState → ObjectState
  | 0, _, s => s
  | n + 1, it, s =>
      match s.nodeIdMatchIndex[it]? with
      | none => s
      | some entry =>
          let matchKey := entry.2
          let s := { s with nodeIdMatchIndex := s.nodeIdMatchIndex.eraseIdx it }
          match s.dataObjectIdMatch matchKey with
          | none => s
          | some _ =>
              let s := s.eraseMatch matchKey
              let s := { s with
                dataObjectIdMatchIndex := s.dataObjectIdMatchIndex.eraseValue 0 matchKey }
              unCacheNodeLoop n (it + 1) s

/-- `unCacheNode` -/
def unCacheNode (s : ObjectState) (nodeName : CString) : ObjectState :=
  match s.cachedNodes nodeName with
  | none => s
  | some node =>
      let s := { s with
        cachedNodes := fun name => if name = nodeName then none else s.cachedNodes name }
      match s.proxyIdToNodeName node.id with
      | none => s
      | some _ =>
          let s := { s with
            proxyIdToNodeName := fun id => if id = node.id then none else s.proxyIdToNodeName id }
          unCacheNodeLoop (s.nodeIdMatchIndex.length + 1) (s.nodeIdMatchIndex.find nodeName) s

/-- `cacheDataObject` -/
def cacheDataObject (s : ObjectState) (dobjId : CString) : ObjectState :=
  if s.cachedDataObjects dobjId then s
  else
    { s with cachedDataObjects := fun id => if id = dobjId then true else s.cachedDataObjects id }

/-- The loop of `unCacheDataObject`, at a position of the object index. -/
def unCacheDataObjectLoop : Nat → Nat → ObjectState → ObjectState
  | 0, _, s => s
  | n + 1, it, s =>
      match s.dataObjectIdMatchIndex[it]? with
      | none => s
      | some entry =>
          let matchKey := entry.2
          let s := { s with dataObjectIdMatchIndex := s.dataObjectIdMatchIndex.eraseIdx it }
          match s.dataObjectIdMatch matchKey with
          | none => s
          | some _ =>
              let s := s.eraseMatch matchKey
              let s := { s with
                nodeIdMatchIndex := s.nodeIdMatchIndex.eraseValue
                  (s.nodeIdMatchIndex.find (nodeIdFromKey matchKey)) matchKey }
              unCacheDataObjectLoop n (it + 1) s

/-- `unCacheDataObject` -/
def unCacheDataObject (s : ObjectState) (dobjId : CString) : ObjectState :=
  if s.cachedDataObjects dobjId then
    let s := { s with
      cachedDataObjects := fun id => if id = dobjId then false else s.cachedDataObjects id }
    unCacheDataObjectLoop (s.dataObjectIdMatchIndex.length + 1)
      (s.dataObjectIdMatchIndex.find dobjId) s
  else s

/-- The end of `setMatchStrength`. -/
def putMatch (s : ObjectState) (key : CString) (m : Match) : ObjectState :=
  { s with dataObjectIdMatch := fun k => if k = key then some m else s.dataObjectIdMatch k }

/-- `setMatchStrength` -/
def setMatchStrength (s : ObjectState) (dobjId nodeName : CString) (ratio threshold : Int) :
    Option ObjectState :=
  let key := getKey dobjId nodeName
  match s.dataObjectIdMatch key with
  | some m => do
      let newMatch ← Match.strength ⟨ratio, threshold⟩
      let oldMatch ← m.strength
      some (if newMatch ≤ oldMatch then s else s.putMatch key ⟨ratio, threshold⟩)
  | none =>
      some { s.putMatch key ⟨ratio, threshold⟩ with
        dataObjectIdMatchIndex := s.dataObjectIdMatchIndex.insert (dobjId, key)
        nodeIdMatchIndex := s.nodeIdMatchIndex.insert (nodeName, key) }

/-- `getMatchStrength` -/
def getMatchStrength (s : ObjectState) (dobjId nodeName : CString) : Int × Int :=
  match s.dataObjectIdMatch (getKey dobjId nodeName) with
  | some m => (m.ratio, m.threshold)
  | none => (0, 0)

/-! ## Calls -/

/-- The calls that change the state. -/
inductive Call where
  | cacheNode (node : NamedNode)
  | unCacheNode (nodeName : CString)
  | cacheDataObject (dobjId : CString)
  | unCacheDataObject (dobjId : CString)
  | setMatchStrength (dobjId nodeName : CString) (ratio threshold : Int)

/-- One call. -/
def step (s : ObjectState) : Call → Option ObjectState
  | .cacheNode node => some (s.cacheNode node)
  | .unCacheNode nodeName => some (s.unCacheNode nodeName)
  | .cacheDataObject dobjId => some (s.cacheDataObject dobjId)
  | .unCacheDataObject dobjId => some (s.unCacheDataObject dobjId)
  | .setMatchStrength dobjId nodeName ratio threshold =>
      s.setMatchStrength dobjId nodeName ratio threshold

end ObjectState

end Encoders.Replication
