import Encoders.Lib.Run
import Encoders.Store.Matching

/-!
# What the indices of the memory cache hold

`Contents` is what a cache is for: the data objects, the nodes and the attributes of filters
that are cached, in the order they were. Every index is derived from it: `ObjectsIndexed`,
`NodesIndexed`, `IfacesIndexed` and `FiltersIndexed` say which entries each table has, and in
which order under a key.

The indices of objects and the indices of the interests and types of nodes are right in
every run. Two are not. `unCacheNode` takes the first entry of each interface of the node
out, whichever node it belongs to: where an older node has the interface too, that node's
entry is lost and the entry of the node that went stays. `cacheFilter` looks at the value it
is given to see a wildcard, `unCacheFilter` at the end of the joined string: a value that
ends in `:*` is put in as one and looked for as the other. Both are right in every run in
which this does not happen.
-/

namespace Encoders.Store

open Encoders.Lib Encoders.Container Encoders.Data MemoryCache

/-! ## Contents -/

/-- An attribute of a filter, as given to `cacheFilter`. -/
structure FilterAttribute where
  filterId : Int
  key : CString
  val : CString
  weight : Int
deriving DecidableEq

/-- What is cached, the oldest first. -/
structure Contents where
  objects : List AbstractDataObject
  nodes : List AbstractNode
  filterAttributes : List FilterAttribute
  availableFilterId : Int

namespace Contents

/-- Nothing. -/
def empty : Contents := ⟨[], [], [], 9223372036854775807⟩

/-- Everything but the object of an id. -/
def objectsBut (c : Contents) (dobjId : CString) : List AbstractDataObject :=
  c.objects.filter (fun d => d.id ≠ dobjId)

/-- Everything but the node of an id. -/
def nodesBut (c : Contents) (nodeId : CString) : List AbstractNode :=
  c.nodes.filter (fun n => n.id ≠ nodeId)

/-- What each call is to do. -/
def step (c : Contents) : Op → Contents
  | .cacheDataObject ad => { c with objects := c.objectsBut ad.id ++ [ad] }
  | .unCacheDataObject dobjId => { c with objects := c.objectsBut dobjId }
  | .cacheNode node => { c with nodes := c.nodesBut node.id ++ [node] }
  | .unCacheNode nodeId => { c with nodes := c.nodesBut nodeId }
  | .cacheFilter filterId key val weight =>
      if filterId = c.availableFilterId then c
      else { c with filterAttributes := c.filterAttributes ++ [⟨filterId, key, val, weight⟩] }
  | .unCacheFilter filterId =>
      { c with filterAttributes := c.filterAttributes.filter (fun a => a.filterId ≠ filterId) }
  | .getTemporaryFilterId => { c with availableFilterId := c.availableFilterId - 1 }
  | .setFilterSettings _ _ _ => c
  | .insertRepository _ => c
  | .deleteRepository _ _ _ => c
  | .setExcludeZeroWeightAttributes _ => c
  | .setMaxNodesToMatch _ => c
  | .compact => c

/-- What is cached after some calls. -/
def after (ops : List Op) : Contents := ops.foldl step empty

/-- The nodes that were cached before the one of an id. -/
def olderNodes (nodes : List AbstractNode) (nodeId : CString) : List AbstractNode :=
  nodes.takeWhile (fun m => m.id ≠ nodeId)

/-- An older node has an interface of the node of an id. -/
def SharesOlder (nodes : List AbstractNode) (nodeId : CString) : Prop :=
  ∃ n ∈ nodes, n.id = nodeId ∧
    ∃ m ∈ olderNodes nodes nodeId, ∃ iface ∈ n.interfaces, iface ∈ m.interfaces

instance decidableSharesOlder (nodes : List AbstractNode) (nodeId : CString) :
    Decidable (SharesOlder nodes nodeId) :=
  inferInstanceAs (Decidable (∃ n ∈ nodes, n.id = nodeId ∧
    ∃ m ∈ olderNodes nodes nodeId, ∃ iface ∈ n.interfaces, iface ∈ m.interfaces))

/-- A filter attribute that is a wildcard by its value and by its joined string, or by neither. -/
def Plain (key val : CString) : Prop := val ≠ wildcard → isStar (createHash key val) = false

instance decidablePlain (key val : CString) : Decidable (Plain key val) :=
  inferInstanceAs (Decidable (_ → _))

/-- A call that puts no other filter attributes in. -/
def PlainOp : Op → Prop
  | .cacheFilter _ key val _ => Plain key val
  | _ => True

instance decidablePlainOp : ∀ op, Decidable (PlainOp op)
  | .cacheFilter _ key val _ => inferInstanceAs (Decidable (Plain key val))
  | .cacheDataObject _ => isTrue trivial
  | .unCacheDataObject _ => isTrue trivial
  | .cacheNode _ => isTrue trivial
  | .unCacheNode _ => isTrue trivial
  | .setFilterSettings _ _ _ => isTrue trivial
  | .unCacheFilter _ => isTrue trivial
  | .getTemporaryFilterId => isTrue trivial
  | .insertRepository _ => isTrue trivial
  | .deleteRepository _ _ _ => isTrue trivial
  | .setExcludeZeroWeightAttributes _ => isTrue trivial
  | .setMaxNodesToMatch _ => isTrue trivial
  | .compact => isTrue trivial

/-- The node that a call takes out, if it does. -/
def goes : Op → Option CString
  | .cacheNode node => some node.id
  | .unCacheNode nodeId => some nodeId
  | _ => none

/-- A node that goes shares no interface with an older one, and filter attributes are plain. -/
def Ok (c : Contents) (op : Op) : Prop :=
  PlainOp op ∧ ∀ nodeId ∈ goes op, ¬ SharesOlder c.nodes nodeId

instance decidableOk (c : Contents) (op : Op) : Decidable (c.Ok op) :=
  inferInstanceAs (Decidable (PlainOp op ∧ ∀ nodeId ∈ goes op, ¬ SharesOlder c.nodes nodeId))

end Contents

/-! ## Entries -/

/-- What an object puts into `keyval_to_do_id`. -/
def AbstractDataObject.entries (d : AbstractDataObject) : List (CString × CString) :=
  d.getAttributes.map (fun keyval => (keyval, d.id))

/-- What an object puts into `key_star_to_do_ids`. -/
def AbstractDataObject.starEntries (d : AbstractDataObject) : List (CString × CString × CString) :=
  d.getAttributes.map (fun keyval => (extractKey keyval, d.id, extractVal keyval))

/-- What a node puts into `iface_to_node_id`. -/
def AbstractNode.ifaceEntries (n : AbstractNode) : List (CString × CString) :=
  n.interfaces.map (fun iface => (iface, n.id))

/-- What a node puts into `keyval_to_node_id`. -/
def AbstractNode.entries (n : AbstractNode) : List (CString × CString) :=
  (n.getInterests.filter (fun i => !isStar i.1)).map (fun i => (i.1, n.id))

/-- What a node puts into `key_star_to_node_ids`. -/
def AbstractNode.starEntries (n : AbstractNode) : List (CString × CString × Int) :=
  (n.getInterests.filter (fun i => isStar i.1)).map (fun i => (extractKey i.1, n.id, 1))

/-- What a filter attribute puts into `filter_id_to_attribute`. -/
def FilterAttribute.entry (a : FilterAttribute) : Int × AttributeT :=
  (a.filterId, ⟨createHash a.key a.val, a.weight⟩)

/-- What a filter attribute puts into `keyval_to_filter_id`. -/
def FilterAttribute.entries (a : FilterAttribute) : List (CString × Int) :=
  if a.val ≠ wildcard then [(createHash a.key a.val, a.filterId)] else []

/-- What a filter attribute puts into `key_star_to_filter_id`. -/
def FilterAttribute.starEntries (a : FilterAttribute) : List (CString × Int × Int) :=
  if a.val ≠ wildcard then [] else [(a.key, a.filterId, 1)]

/-- The tables of data objects have what the objects put into them. -/
structure ObjectsIndexed (s : MemoryCache) (objects : List AbstractDataObject) : Prop where
  ids : (objects.map AbstractDataObject.id).Nodup
  doIdToDo : s.doIdToDo.Holds (objects.map (fun d => (d.id, d)))
  keyvalToDoId : s.keyvalToDoId.Holds (objects.flatMap AbstractDataObject.entries)
  keyStarToDoIds : s.keyStarToDoIds.StarHolds (objects.flatMap AbstractDataObject.starEntries)

/-- The tables of nodes, but for the one of interfaces, have what the nodes put into them. -/
structure NodesIndexed (s : MemoryCache) (nodes : List AbstractNode) : Prop where
  ids : (nodes.map AbstractNode.id).Nodup
  nodeIdToNode : s.nodeIdToNode.Holds (nodes.map (fun n => (n.id, n)))
  keyvalToNodeId : s.keyvalToNodeId.Holds (nodes.flatMap AbstractNode.entries)
  keyStarToNodeIds : s.keyStarToNodeIds.StarHolds (nodes.flatMap AbstractNode.starEntries)
  typeToNodeId : s.typeToNodeId.Holds (nodes.map (fun n => (n.type.key, n.id)))

/-- The table of interfaces has what the nodes put into it. -/
def IfacesIndexed (s : MemoryCache) (nodes : List AbstractNode) : Prop :=
  s.ifaceToNodeId.Holds (nodes.flatMap AbstractNode.ifaceEntries)

/-- The tables of filters have what their attributes put into them. -/
structure FiltersIndexed (s : MemoryCache) (attributes : List FilterAttribute) : Prop where
  plain : ∀ a ∈ attributes, Contents.Plain a.key a.val
  filterIdToAttribute : s.filterIdToAttribute.Holds (attributes.map FilterAttribute.entry)
  keyvalToFilterId : s.keyvalToFilterId.Holds (attributes.flatMap FilterAttribute.entries)
  keyStarToFilterId : s.keyStarToFilterId.StarHolds (attributes.flatMap FilterAttribute.starEntries)

/-- **Every index has exactly the entries derived from what is cached.** -/
structure Indexed (s : MemoryCache) (c : Contents) : Prop where
  objects : ObjectsIndexed s c.objects
  nodes : NodesIndexed s c.nodes
  ifaces : IfacesIndexed s c.nodes
  filters : FiltersIndexed s c.filterAttributes
  availableFilterId : s.availableFilterId = c.availableFilterId

end Encoders.Store
