import Mathlib.Data.List.Nodup
import Encoders.Store.Contents

/-!
# The indices of the memory cache are right

For each kind of thing that is cached, what putting one in and taking one out does to the
tables of its kind; then every call; then every run. A call that is about another kind of
thing changes the tables of this one at most by compacting them.
-/

namespace Encoders.Store

open Encoders.Lib Encoders.Container Encoders.Data MemoryCache

variable {s : MemoryCache}

/-! ## Calls about nothing that is indexed -/

theorem objects_cacheFilter (c : Contents) (filterId : Int) (key val : CString) (weight : Int) :
    (c.step (.cacheFilter filterId key val weight)).objects = c.objects := by
  simp only [Contents.step]
  split <;> rfl

theorem nodes_cacheFilter (c : Contents) (filterId : Int) (key val : CString) (weight : Int) :
    (c.step (.cacheFilter filterId key val weight)).nodes = c.nodes := by
  simp only [Contents.step]
  split <;> rfl

/-- What holds of a cache, and of it with a repository's entries gone, holds after the call. -/
theorem deleteRepository_keeps {P : MemoryCache → Prop} (h : P s) (auth key : CString)
    (id : UInt32) (hgone : P (MemoryCache.compact
      { s with
        authorityToRepository := s.authorityToRepository.eraseAll auth (fun _ => true) })) :
    P ((s.deleteRepository auth key id).getD s) := by
  unfold deleteRepository
  split_ifs
  · exact h
  · exact h
  · exact h
  · exact hgone

/-! ## Data objects -/

section Objects

variable {objects : List AbstractDataObject}

theorem ObjectsIndexed.find (h : ObjectsIndexed s objects) {dobjId : CString}
    {d : AbstractDataObject} : s.doIdToDo.find dobjId = some d ↔ d ∈ objects ∧ d.id = dobjId :=
  h.doIdToDo.find_record h.ids

theorem ObjectsIndexed.find_none (h : ObjectsIndexed s objects) {dobjId : CString} :
    s.doIdToDo.find dobjId = none ↔ ∀ d ∈ objects, d.id ≠ dobjId :=
  h.doIdToDo.find_record_none

theorem ObjectsIndexed.compact (h : ObjectsIndexed s objects) : ObjectsIndexed s.compact objects := by
  unfold MemoryCache.compact
  split
  · exact ⟨h.ids, h.doIdToDo.compact, h.keyvalToDoId.compact, h.keyStarToDoIds.compact⟩
  · exact h

/-- An object whose id is not cached comes in. -/
theorem ObjectsIndexed.put (h : ObjectsIndexed s objects) {ad : AbstractDataObject}
    (hnew : ∀ d ∈ objects, d.id ≠ ad.id) : ObjectsIndexed (s.putDataObject ad) (objects ++ [ad]) where
  ids := by
    rw [List.map_append, List.nodup_append]
    refine ⟨h.ids, by simp, ?_⟩
    intro id hid id' hid'
    obtain ⟨d, hd, rfl⟩ := List.mem_map.mp hid
    rw [List.map_singleton, List.mem_singleton] at hid'
    rw [hid']
    exact hnew d hd
  doIdToDo := by
    rw [List.map_append]
    exact h.doIdToDo.insert ad.id ad
  keyvalToDoId := by
    rw [List.flatMap_append, List.flatMap_singleton]
    exact h.keyvalToDoId.foldl_insert (fun keyval => keyval) (fun _ => ad.id) ad.getAttributes
  keyStarToDoIds := by
    rw [List.flatMap_append, List.flatMap_singleton]
    exact h.keyStarToDoIds.foldl_insert extractKey (fun _ => ad.id) extractVal ad.getAttributes

/-- An object goes, and all its entries with it. -/
theorem ObjectsIndexed.drop (h : ObjectsIndexed s objects) {ad : AbstractDataObject}
    (had : ad ∈ objects) :
    ObjectsIndexed (s.dropDataObject ad ad.id) (objects.filter (fun d => d.id ≠ ad.id)) where
  ids := h.ids.sublist (List.filter_sublist.map _)
  doIdToDo := h.doIdToDo.eraseFirst_record h.ids had
  keyvalToDoId := by
    have herase := h.keyvalToDoId.foldl_eraseAll (fun id => id = ad.id) ad.getAttributes
    rwa [filter_flatMap_eq (q := fun d => d.id ≠ ad.id)] at herase
    intro d hd e he
    obtain ⟨keyval, hkeyval, rfl⟩ := List.mem_map.mp he
    by_cases hid : d.id = ad.id
    · have hsame : d = ad := List.inj_on_of_nodup_map h.ids hd had hid
      subst hsame
      simp [hkeyval]
    · simp [hid]
  keyStarToDoIds := by
    have herase := h.keyStarToDoIds.foldl_eraseAll ad.id (ad.getAttributes.map extractKey)
    rw [List.foldl_map] at herase
    rwa [filter_flatMap_eq (q := fun d => d.id ≠ ad.id)] at herase
    intro d hd e he
    obtain ⟨keyval, hkeyval, rfl⟩ := List.mem_map.mp he
    by_cases hid : d.id = ad.id
    · have hsame : d = ad := List.inj_on_of_nodup_map h.ids hd had hid
      subst hsame
      have hmem : extractKey keyval ∈ d.getAttributes.map extractKey :=
        List.mem_map_of_mem hkeyval
      simp only [hmem, decide_true, Bool.and_true, Bool.not_true, ne_eq, not_true_eq_false,
        decide_false]
    · simp [hid]

theorem ObjectsIndexed.unCache (h : ObjectsIndexed s objects) (dobjId : CString) :
    ObjectsIndexed ((s.unCacheDataObject dobjId).getD s)
      (objects.filter (fun d => d.id ≠ dobjId)) := by
  unfold unCacheDataObject
  cases hfind : s.doIdToDo.find dobjId with
  | none =>
      have hnone := h.find_none.mp hfind
      rw [List.filter_eq_self.mpr (by simpa using hnone)]
      exact h
  | some ad =>
      obtain ⟨had, rfl⟩ := h.find.mp hfind
      exact (h.drop had).compact

theorem ObjectsIndexed.cache (h : ObjectsIndexed s objects) (ad : AbstractDataObject) :
    ObjectsIndexed (s.cacheDataObject ad) (objects.filter (fun d => d.id ≠ ad.id) ++ [ad]) := by
  unfold cacheDataObject isDataObjectCached
  split
  · exact (h.unCache ad.id).put (by simp)
  · next hcached =>
      have hnone : s.doIdToDo.find ad.id = none := by simpa using hcached
      have hnew := h.find_none.mp hnone
      rw [List.filter_eq_self.mpr (by simpa using hnew)]
      exact h.put hnew

/-- What else a call does, the tables of data objects stay as they are. -/
theorem ObjectsIndexed.frame (h : ObjectsIndexed s objects) {s' : MemoryCache}
    (hdo : s'.doIdToDo = s.doIdToDo) (hkeyval : s'.keyvalToDoId = s.keyvalToDoId)
    (hstar : s'.keyStarToDoIds = s.keyStarToDoIds) : ObjectsIndexed s' objects :=
  ⟨h.ids, hdo ▸ h.doIdToDo, hkeyval ▸ h.keyvalToDoId, hstar ▸ h.keyStarToDoIds⟩

theorem ObjectsIndexed.unCacheNode (h : ObjectsIndexed s objects) (nodeId : CString) :
    ObjectsIndexed ((s.unCacheNode nodeId).getD s) objects := by
  unfold MemoryCache.unCacheNode
  cases s.nodeIdToNode.find nodeId with
  | none => exact h
  | some n => exact ObjectsIndexed.compact (h.frame rfl rfl rfl)

/-- **Every call keeps the tables of data objects right.** -/
theorem objectsIndexed_step {c : Contents} (h : ObjectsIndexed s c.objects) (op : Op) :
    ObjectsIndexed (s.step op) (c.step op).objects := by
  cases op with
  | cacheDataObject ad => exact h.cache ad
  | unCacheDataObject dobjId => exact h.unCache dobjId
  | cacheNode node =>
      simp only [MemoryCache.step, cacheNode]
      split
      · exact (h.unCacheNode node.id).frame rfl rfl rfl
      · exact h.frame rfl rfl rfl
  | unCacheNode nodeId => exact h.unCacheNode nodeId
  | cacheFilter filterId key val weight =>
      rw [objects_cacheFilter]
      simp only [MemoryCache.step, cacheFilter]
      split
      · exact h
      · exact h.frame rfl rfl rfl
  | unCacheFilter filterId => exact ObjectsIndexed.compact (h.frame rfl rfl rfl)
  | deleteRepository auth key id =>
      refine deleteRepository_keeps (P := fun s => ObjectsIndexed s c.objects) h auth key id ?_
      exact ObjectsIndexed.compact (h.frame rfl rfl rfl)
  | compact => exact h.compact
  | setFilterSettings _ _ _ => exact h.frame rfl rfl rfl
  | getTemporaryFilterId => exact h.frame rfl rfl rfl
  | insertRepository _ => exact h.frame rfl rfl rfl
  | setExcludeZeroWeightAttributes _ => exact h.frame rfl rfl rfl
  | setMaxNodesToMatch _ => exact h.frame rfl rfl rfl

end Objects

/-! ## Nodes -/

section Nodes

variable {nodes : List AbstractNode}

theorem NodesIndexed.find (h : NodesIndexed s nodes) {nodeId : CString} {n : AbstractNode} :
    s.nodeIdToNode.find nodeId = some n ↔ n ∈ nodes ∧ n.id = nodeId :=
  h.nodeIdToNode.find_record h.ids

theorem NodesIndexed.find_none (h : NodesIndexed s nodes) {nodeId : CString} :
    s.nodeIdToNode.find nodeId = none ↔ ∀ n ∈ nodes, n.id ≠ nodeId :=
  h.nodeIdToNode.find_record_none

theorem NodesIndexed.compact (h : NodesIndexed s nodes) : NodesIndexed s.compact nodes := by
  unfold MemoryCache.compact
  split
  · exact ⟨h.ids, h.nodeIdToNode.compact, h.keyvalToNodeId.compact, h.keyStarToNodeIds.compact,
      h.typeToNodeId.compact⟩
  · exact h

/-- A node whose id is not cached comes in. -/
theorem NodesIndexed.put (h : NodesIndexed s nodes) {node : AbstractNode}
    (hnew : ∀ n ∈ nodes, n.id ≠ node.id) : NodesIndexed (s.putNode node) (nodes ++ [node]) where
  ids := by
    rw [List.map_append, List.nodup_append]
    refine ⟨h.ids, by simp, ?_⟩
    intro id hid id' hid'
    obtain ⟨n, hn, rfl⟩ := List.mem_map.mp hid
    rw [List.map_singleton, List.mem_singleton] at hid'
    rw [hid']
    exact hnew n hn
  nodeIdToNode := by
    rw [List.map_append]
    exact h.nodeIdToNode.insert node.id node
  keyvalToNodeId := by
    rw [List.flatMap_append, List.flatMap_singleton]
    unfold putNode
    dsimp only
    rw [foldl_unless (fun i : CString × Int => isStar i.1)]
    exact h.keyvalToNodeId.foldl_insert Prod.fst (fun _ => node.id) _
  keyStarToNodeIds := by
    rw [List.flatMap_append, List.flatMap_singleton]
    unfold putNode
    dsimp only
    rw [← List.foldl_filter]
    exact h.keyStarToNodeIds.foldl_insert (fun i : CString × Int => extractKey i.1) (fun _ => node.id)
      (fun _ => 1) _
  typeToNodeId := by
    rw [List.map_append]
    exact h.typeToNodeId.insert node.type.key node.id

/-- A node goes, and all its entries with it. -/
theorem NodesIndexed.drop (h : NodesIndexed s nodes) {node : AbstractNode} (hnode : node ∈ nodes) :
    NodesIndexed (s.dropNode node node.id) (nodes.filter (fun n => n.id ≠ node.id)) where
  ids := h.ids.sublist (List.filter_sublist.map _)
  nodeIdToNode := h.nodeIdToNode.eraseFirst_record h.ids hnode
  keyvalToNodeId := by
    have herase := h.keyvalToNodeId.foldl_eraseAll (fun id => id = node.id)
      ((node.getInterests.filter (fun i => !isStar i.1)).map Prod.fst)
    rw [List.foldl_map, ← foldl_unless (fun i : CString × Int => isStar i.1)] at herase
    rwa [filter_flatMap_eq (q := fun n => n.id ≠ node.id)] at herase
    intro n hn e he
    obtain ⟨i, hi, rfl⟩ := List.mem_map.mp he
    by_cases hid : n.id = node.id
    · have hsame : n = node := List.inj_on_of_nodup_map h.ids hn hnode hid
      subst hsame
      have hmem : i.1 ∈ (n.getInterests.filter (fun i => !isStar i.1)).map Prod.fst :=
        List.mem_map_of_mem hi
      simp only [hmem, decide_true, Bool.and_true, Bool.not_true, ne_eq, not_true_eq_false,
        decide_false]
    · simp [hid]
  -- one entry goes for each interest, and they all belong to this node
  keyStarToNodeIds := by
    have hg : ∀ n ∈ nodes, ∀ e ∈ n.starEntries, e.2.1 = n.id := by
      intro n _ e he
      obtain ⟨i, _, rfl⟩ := List.mem_map.mp he
      rfl
    have herase := h.keyStarToNodeIds.foldl_eraseOne node.id
      ((node.getInterests.filter (fun i => isStar i.1)).map (fun i => extractKey i.1)) ?_
    · rw [List.foldl_map, List.foldl_filter] at herase
      rwa [filter_flatMap_eq (q := fun n => n.id ≠ node.id)] at herase
      intro n hn e he
      rw [hg n hn e he]
      simp
    · intro k
      rw [countP_flatMap_key hg h.ids hnode, count_map_key]
      unfold AbstractNode.starEntries
      rw [List.countP_map]
      exact Nat.le_refl _
  typeToNodeId := by
    have herase := h.typeToNodeId.eraseAll node.type.key (fun id => id = node.id)
    rw [List.filter_map] at herase
    rwa [List.filter_congr (q := fun n => n.id ≠ node.id)] at herase
    intro n hn
    by_cases hid : n.id = node.id
    · have hsame : n = node := List.inj_on_of_nodup_map h.ids hn hnode hid
      simp [hsame]
    · simp [hid]

theorem NodesIndexed.unCache (h : NodesIndexed s nodes) (nodeId : CString) :
    NodesIndexed ((s.unCacheNode nodeId).getD s) (nodes.filter (fun n => n.id ≠ nodeId)) := by
  unfold unCacheNode
  cases hfind : s.nodeIdToNode.find nodeId with
  | none =>
      have hnone := h.find_none.mp hfind
      rw [List.filter_eq_self.mpr (by simpa using hnone)]
      exact h
  | some node =>
      obtain ⟨hnode, rfl⟩ := h.find.mp hfind
      exact (h.drop hnode).compact

theorem NodesIndexed.cache (h : NodesIndexed s nodes) (node : AbstractNode) :
    NodesIndexed (s.cacheNode node) (nodes.filter (fun n => n.id ≠ node.id) ++ [node]) := by
  unfold cacheNode isNodeCached
  split
  · exact (h.unCache node.id).put (by simp)
  · next hcached =>
      have hnone : s.nodeIdToNode.find node.id = none := by simpa using hcached
      have hnew := h.find_none.mp hnone
      rw [List.filter_eq_self.mpr (by simpa using hnew)]
      exact h.put hnew

theorem NodesIndexed.frame (h : NodesIndexed s nodes) {s' : MemoryCache}
    (hnode : s'.nodeIdToNode = s.nodeIdToNode) (hkeyval : s'.keyvalToNodeId = s.keyvalToNodeId)
    (hstar : s'.keyStarToNodeIds = s.keyStarToNodeIds) (htype : s'.typeToNodeId = s.typeToNodeId) :
    NodesIndexed s' nodes :=
  ⟨h.ids, hnode ▸ h.nodeIdToNode, hkeyval ▸ h.keyvalToNodeId, hstar ▸ h.keyStarToNodeIds,
    htype ▸ h.typeToNodeId⟩

theorem NodesIndexed.unCacheDataObject (h : NodesIndexed s nodes) (dobjId : CString) :
    NodesIndexed ((s.unCacheDataObject dobjId).getD s) nodes := by
  unfold MemoryCache.unCacheDataObject
  cases s.doIdToDo.find dobjId with
  | none => exact h
  | some d => exact NodesIndexed.compact (h.frame rfl rfl rfl rfl)

/-- **Every call keeps the tables of nodes right**, but for the one of interfaces. -/
theorem nodesIndexed_step {c : Contents} (h : NodesIndexed s c.nodes) (op : Op) :
    NodesIndexed (s.step op) (c.step op).nodes := by
  cases op with
  | cacheNode node => exact h.cache node
  | unCacheNode nodeId => exact h.unCache nodeId
  | cacheDataObject ad =>
      simp only [MemoryCache.step, cacheDataObject]
      split
      · exact (h.unCacheDataObject ad.id).frame rfl rfl rfl rfl
      · exact h.frame rfl rfl rfl rfl
  | unCacheDataObject dobjId => exact h.unCacheDataObject dobjId
  | cacheFilter filterId key val weight =>
      rw [nodes_cacheFilter]
      simp only [MemoryCache.step, cacheFilter]
      split
      · exact h
      · exact h.frame rfl rfl rfl rfl
  | unCacheFilter filterId => exact NodesIndexed.compact (h.frame rfl rfl rfl rfl)
  | deleteRepository auth key id =>
      refine deleteRepository_keeps (P := fun s => NodesIndexed s c.nodes) h auth key id ?_
      exact NodesIndexed.compact (h.frame rfl rfl rfl rfl)
  | compact => exact h.compact
  | setFilterSettings _ _ _ => exact h.frame rfl rfl rfl rfl
  | getTemporaryFilterId => exact h.frame rfl rfl rfl rfl
  | insertRepository _ => exact h.frame rfl rfl rfl rfl
  | setExcludeZeroWeightAttributes _ => exact h.frame rfl rfl rfl rfl
  | setMaxNodesToMatch _ => exact h.frame rfl rfl rfl rfl

end Nodes

/-! ## Interfaces -/

section Ifaces

variable {nodes : List AbstractNode}

theorem IfacesIndexed.compact (h : IfacesIndexed s nodes) : IfacesIndexed s.compact nodes := by
  unfold MemoryCache.compact
  split
  · exact Table.Holds.compact h
  · exact h

theorem IfacesIndexed.put (h : IfacesIndexed s nodes) (node : AbstractNode) :
    IfacesIndexed (s.putNode node) (nodes ++ [node]) := by
  unfold IfacesIndexed
  rw [List.flatMap_append, List.flatMap_singleton]
  exact Table.Holds.foldl_insert h (fun iface => iface) (fun _ => node.id) node.interfaces

/-- An interface that no node of a list has has no entries from it. -/
theorem atKey_ifaceEntries_eq_nil {iface : CString}
    (h : ∀ n ∈ nodes, iface ∉ n.interfaces) :
    atKey iface (nodes.flatMap AbstractNode.ifaceEntries) = [] := by
  rw [atKey_eq_nil]
  intro e he hiface
  obtain ⟨n, hn, he⟩ := List.mem_flatMap.mp he
  obtain ⟨i, hi, rfl⟩ := List.mem_map.mp he
  exact h n hn (hiface ▸ hi)

/-- A node goes. The first entries of its interfaces are its own, as no older node has them. -/
theorem IfacesIndexed.drop (h : IfacesIndexed s nodes) (hids : (nodes.map AbstractNode.id).Nodup)
    {node : AbstractNode} (hnode : node ∈ nodes)
    (hshares : ¬ Contents.SharesOlder nodes node.id) :
    IfacesIndexed (s.dropNode node node.id) (nodes.filter (fun n => n.id ≠ node.id)) := by
  obtain ⟨older, later, rfl⟩ := List.append_of_mem hnode
  rw [List.map_append, List.map_cons, List.nodup_middle, List.nodup_cons] at hids
  have hother : ∀ n ∈ older ++ later, n.id ≠ node.id := by
    intro n hn heq
    refine hids.1 ?_
    rw [← List.map_append, ← heq]
    exact List.mem_map_of_mem hn
  have hkept : (older ++ node :: later).filter (fun n => n.id ≠ node.id) = older ++ later := by
    rw [List.filter_append, List.filter_cons_of_neg (by simp), ← List.filter_append,
      List.filter_eq_self.mpr (by simpa using hother)]
  have holder : Contents.olderNodes (older ++ node :: later) node.id = older := by
    unfold Contents.olderNodes
    rw [List.takeWhile_append_of_pos, List.takeWhile_cons_of_neg (by simp), List.append_nil]
    intro n hn
    simpa using hother n (List.mem_append_left _ hn)
  rw [hkept]
  intro iface
  have hvalues : s.ifaceToNodeId.values iface =
      atKey iface (older.flatMap AbstractNode.ifaceEntries) ++ (atKey iface node.ifaceEntries ++
        atKey iface (later.flatMap AbstractNode.ifaceEntries)) := by
    rw [h iface, List.flatMap_append, List.flatMap_cons, atKey_append, atKey_append]
  have hlength : (atKey iface node.ifaceEntries).length = _ :=
    length_atKey_map node.id node.interfaces iface
  unfold dropNode
  dsimp only
  rw [Table.values_foldl_eraseFirst, hvalues, List.flatMap_append, atKey_append]
  by_cases hiface : iface ∈ node.interfaces
  · -- the older nodes do not have the interface
    have hnone : atKey iface (older.flatMap AbstractNode.ifaceEntries) = [] := by
      refine atKey_ifaceEntries_eq_nil ?_
      intro n hn hmem
      exact hshares ⟨node, hnode, rfl, n, by rw [holder]; exact hn, iface, hiface, hmem⟩
    rw [hnone, List.nil_append, List.nil_append, ← hlength, List.drop_left]
  · have hnone : atKey iface node.ifaceEntries = [] := by
      have hone : atKey iface ([node].flatMap AbstractNode.ifaceEntries) = [] :=
        atKey_ifaceEntries_eq_nil (by simpa using hiface)
      simpa using hone
    rw [← hlength, hnone, List.length_nil, List.nil_append, List.drop_zero]

theorem IfacesIndexed.unCache (h : IfacesIndexed s nodes) (hnodes : NodesIndexed s nodes)
    {nodeId : CString} (hshares : ¬ Contents.SharesOlder nodes nodeId) :
    IfacesIndexed ((s.unCacheNode nodeId).getD s) (nodes.filter (fun n => n.id ≠ nodeId)) := by
  unfold unCacheNode
  cases hfind : s.nodeIdToNode.find nodeId with
  | none =>
      have hnone := hnodes.find_none.mp hfind
      rw [List.filter_eq_self.mpr (by simpa using hnone)]
      exact h
  | some node =>
      obtain ⟨hnode, rfl⟩ := hnodes.find.mp hfind
      exact (h.drop hnodes.ids hnode hshares).compact

theorem IfacesIndexed.cache (h : IfacesIndexed s nodes) (hnodes : NodesIndexed s nodes)
    {node : AbstractNode} (hshares : ¬ Contents.SharesOlder nodes node.id) :
    IfacesIndexed (s.cacheNode node) (nodes.filter (fun n => n.id ≠ node.id) ++ [node]) := by
  unfold cacheNode isNodeCached
  split
  · exact (h.unCache hnodes hshares).put node
  · next hcached =>
      have hnone : s.nodeIdToNode.find node.id = none := by simpa using hcached
      have hnew := hnodes.find_none.mp hnone
      rw [List.filter_eq_self.mpr (by simpa using hnew)]
      exact h.put node

theorem IfacesIndexed.frame (h : IfacesIndexed s nodes) {s' : MemoryCache}
    (hiface : s'.ifaceToNodeId = s.ifaceToNodeId) : IfacesIndexed s' nodes := by
  unfold IfacesIndexed
  rw [hiface]
  exact h

theorem IfacesIndexed.unCacheDataObject (h : IfacesIndexed s nodes) (dobjId : CString) :
    IfacesIndexed ((s.unCacheDataObject dobjId).getD s) nodes := by
  unfold MemoryCache.unCacheDataObject
  cases s.doIdToDo.find dobjId with
  | none => exact h
  | some d => exact IfacesIndexed.compact (h.frame rfl)

/-- **A call keeps the table of interfaces right** if the node that goes shares none with an older
one. -/
theorem ifacesIndexed_step {c : Contents} (h : IfacesIndexed s c.nodes)
    (hnodes : NodesIndexed s c.nodes) {op : Op} (hok : c.Ok op) :
    IfacesIndexed (s.step op) (c.step op).nodes := by
  cases op with
  | cacheNode node => exact h.cache hnodes (hok.2 node.id rfl)
  | unCacheNode nodeId => exact h.unCache hnodes (hok.2 nodeId rfl)
  | cacheDataObject ad =>
      simp only [MemoryCache.step, cacheDataObject]
      split
      · exact (h.unCacheDataObject ad.id).frame rfl
      · exact h.frame rfl
  | unCacheDataObject dobjId => exact h.unCacheDataObject dobjId
  | cacheFilter filterId key val weight =>
      rw [nodes_cacheFilter]
      simp only [MemoryCache.step, cacheFilter]
      split
      · exact h
      · exact h.frame rfl
  | unCacheFilter filterId => exact IfacesIndexed.compact (h.frame rfl)
  | deleteRepository auth key id =>
      refine deleteRepository_keeps (P := fun s => IfacesIndexed s c.nodes) h auth key id ?_
      exact IfacesIndexed.compact (h.frame rfl)
  | compact => exact h.compact
  | setFilterSettings _ _ _ => exact h.frame rfl
  | getTemporaryFilterId => exact h.frame rfl
  | insertRepository _ => exact h.frame rfl
  | setExcludeZeroWeightAttributes _ => exact h.frame rfl
  | setMaxNodesToMatch _ => exact h.frame rfl

end Ifaces

/-! ## Filters -/

section Filters

variable {attributes : List FilterAttribute}
variable {l : List FilterAttribute}

theorem FiltersIndexed.compact (h : FiltersIndexed s attributes) :
    FiltersIndexed s.compact attributes := by
  unfold MemoryCache.compact
  split
  · exact ⟨h.plain, h.filterIdToAttribute.compact, h.keyvalToFilterId.compact,
      h.keyStarToFilterId.compact⟩
  · exact h

theorem FiltersIndexed.frame (h : FiltersIndexed s attributes) {s' : MemoryCache}
    (hattr : s'.filterIdToAttribute = s.filterIdToAttribute)
    (hkeyval : s'.keyvalToFilterId = s.keyvalToFilterId)
    (hstar : s'.keyStarToFilterId = s.keyStarToFilterId) : FiltersIndexed s' attributes :=
  ⟨h.plain, hattr ▸ h.filterIdToAttribute, hkeyval ▸ h.keyvalToFilterId,
    hstar ▸ h.keyStarToFilterId⟩

/-- One attribute more. -/
theorem FiltersIndexed.put (h : FiltersIndexed s attributes) {a : FilterAttribute}
    (hplain : Contents.Plain a.key a.val) {s' : MemoryCache}
    (hs' : s.cacheFilter a.filterId a.key a.val a.weight = some s') :
    FiltersIndexed s' (attributes ++ [a]) := by
  unfold cacheFilter at hs'
  split at hs'
  · cases hs'
  · injection hs' with hs'
    subst hs'
    refine ⟨?_, ?_, ?_, ?_⟩
    · intro b hb
      rcases List.mem_append.mp hb with hb | hb
      · exact h.plain b hb
      · rw [List.mem_singleton.mp hb]
        exact hplain
    · rw [List.map_append]
      exact h.filterIdToAttribute.insert a.filterId _
    · rw [List.flatMap_append, List.flatMap_singleton]
      unfold FilterAttribute.entries
      dsimp only
      split
      · exact h.keyvalToFilterId.insert _ _
      · rw [List.append_nil]
        exact h.keyvalToFilterId
    · rw [List.flatMap_append, List.flatMap_singleton]
      unfold FilterAttribute.starEntries
      dsimp only
      split
      · rw [List.append_nil]
        exact h.keyStarToFilterId
      · exact h.keyStarToFilterId.insert _ _ _

/-- A plain attribute is a wildcard by its joined string if it is by its value. -/
theorem isStar_of_plain {key val : CString} (h : Contents.Plain key val) :
    isStar (createHash key val) = decide (val = wildcard) := by
  by_cases hval : val = wildcard
  · rw [hval, decide_eq_true rfl]
    unfold isStar
    rw [extractVal_createHash key (by decide), decide_eq_true rfl]
  · rw [h hval, decide_eq_false hval]

/-- The keys under which plain attributes are put in are those under which they are looked for. -/
theorem keys_entries (h : ∀ a ∈ l, Contents.Plain a.key a.val) :
    (l.flatMap FilterAttribute.entries).map Prod.fst =
      ((l.map (fun a => a.entry.2)).filter (fun a => !isStar a.keyval)).map AttributeT.keyval := by
  induction l with
  | nil => rfl
  | cons a l ih =>
      have hstar := isStar_of_plain (h a List.mem_cons_self)
      rw [List.flatMap_cons, List.map_append, ih (fun b hb => h b (List.mem_cons_of_mem _ hb)),
        List.map_cons, List.filter_cons]
      unfold FilterAttribute.entries FilterAttribute.entry
      by_cases hval : a.val = wildcard
      · rw [hval] at hstar
        simp [hstar, hval]
      · simp [hstar, hval]

theorem keys_starEntries (h : ∀ a ∈ l, Contents.Plain a.key a.val) :
    (l.flatMap FilterAttribute.starEntries).map Prod.fst =
      ((l.map (fun a => a.entry.2)).filter (fun a => isStar a.keyval)).map
        (fun a => extractKey a.keyval) := by
  induction l with
  | nil => rfl
  | cons a l ih =>
      have hstar := isStar_of_plain (h a List.mem_cons_self)
      rw [List.flatMap_cons, List.map_append, ih (fun b hb => h b (List.mem_cons_of_mem _ hb)),
        List.map_cons, List.filter_cons]
      unfold FilterAttribute.starEntries FilterAttribute.entry
      by_cases hval : a.val = wildcard
      · have hkey : extractKey (createHash a.key wildcard) = a.key :=
          extractKey_createHash a.key (by decide)
        rw [hval] at hstar
        simp [hstar, hval, hkey]
      · simp [hstar, hval]

/-- A filter goes, with all its attributes. -/
theorem FiltersIndexed.unCache (h : FiltersIndexed s attributes) (filterId : Int) :
    FiltersIndexed (s.unCacheFilter filterId)
      (attributes.filter (fun a => a.filterId ≠ filterId)) := by
  -- the attributes that go are read off the table of filters, in the order they came in
  have hvalues : s.filterIdToAttribute.values filterId =
      (attributes.filter (fun a => a.filterId = filterId)).map (fun a => a.entry.2) := by
    rw [h.filterIdToAttribute filterId]
    clear h
    induction attributes with
    | nil => rfl
    | cons a l ih =>
        rw [List.map_cons, atKey_cons, ih, List.filter_cons]
        unfold FilterAttribute.entry
        by_cases ha : a.filterId = filterId
        · simp [ha]
        · simp [ha]
  have hplain : ∀ a ∈ attributes.filter (fun a => a.filterId = filterId),
      Contents.Plain a.key a.val := fun a ha => h.plain a (List.mem_filter.mp ha).1
  have hentries : ∀ a ∈ attributes, ∀ e ∈ a.entries, e.2 = a.filterId := by
    intro a _ e he
    unfold FilterAttribute.entries at he
    split at he
    · rw [List.mem_singleton.mp he]
    · cases he
  have hstarEntries : ∀ a ∈ attributes, ∀ e ∈ a.starEntries, e.2.1 = a.filterId := by
    intro a _ e he
    unfold FilterAttribute.starEntries at he
    split at he
    · cases he
    · rw [List.mem_singleton.mp he]
  refine FiltersIndexed.compact ⟨?_, ?_, ?_, ?_⟩
  · exact fun a ha => h.plain a (List.mem_filter.mp ha).1
  · have herase := h.filterIdToAttribute.eraseAll filterId (fun _ => true)
    rw [List.filter_map] at herase
    rwa [List.filter_congr (q := fun a => a.filterId ≠ filterId)] at herase
    intro a _
    by_cases ha : a.filterId = filterId
    · simp [FilterAttribute.entry, ha]
    · simp [FilterAttribute.entry, ha]
  -- one entry goes for each attribute, and no other entry of the filter is there
  · have herase := h.keyvalToFilterId.foldl_eraseOne (fun id => id = filterId)
      (((s.filterIdToAttribute.values filterId).filter
        (fun a => !isStar a.keyval)).map AttributeT.keyval) ?_
    · rw [List.foldl_map, ← foldl_unless (fun a : AttributeT => isStar a.keyval)] at herase
      rwa [filter_flatMap_eq (q := fun a => a.filterId ≠ filterId)] at herase
      intro a ha e he
      rw [hentries a ha e he]
      simp
    · intro k
      rw [hvalues, ← keys_entries hplain, count_map_key, ← List.countP_filter,
        filter_flatMap_eq (q := fun a => a.filterId = filterId)]
      intro a ha e he
      rw [hentries a ha e he]
  · have herase := h.keyStarToFilterId.foldl_eraseOne filterId
      (((s.filterIdToAttribute.values filterId).filter
        (fun a => isStar a.keyval)).map (fun a => extractKey a.keyval)) ?_
    · rw [List.foldl_map, List.foldl_filter] at herase
      rwa [filter_flatMap_eq (q := fun a => a.filterId ≠ filterId)] at herase
      intro a ha e he
      rw [hstarEntries a ha e he]
      simp
    · intro k
      rw [hvalues, ← keys_starEntries hplain, count_map_key, ← List.countP_filter,
        filter_flatMap_eq (q := fun a => a.filterId = filterId)]
      intro a ha e he
      rw [hstarEntries a ha e he]

theorem FiltersIndexed.unCacheDataObject (h : FiltersIndexed s attributes) (dobjId : CString) :
    FiltersIndexed ((s.unCacheDataObject dobjId).getD s) attributes := by
  unfold MemoryCache.unCacheDataObject
  cases s.doIdToDo.find dobjId with
  | none => exact h
  | some d => exact FiltersIndexed.compact (h.frame rfl rfl rfl)

theorem FiltersIndexed.unCacheNode (h : FiltersIndexed s attributes) (nodeId : CString) :
    FiltersIndexed ((s.unCacheNode nodeId).getD s) attributes := by
  unfold MemoryCache.unCacheNode
  cases s.nodeIdToNode.find nodeId with
  | none => exact h
  | some n => exact FiltersIndexed.compact (h.frame rfl rfl rfl)

/-- **A call keeps the tables of filters right** if the attribute it puts in is plain. -/
theorem filtersIndexed_step {c : Contents} (h : FiltersIndexed s c.filterAttributes)
    (havail : s.availableFilterId = c.availableFilterId) {op : Op}
    (hplain : Contents.PlainOp op) : FiltersIndexed (s.step op) (c.step op).filterAttributes := by
  cases op with
  | cacheFilter filterId key val weight =>
      simp only [MemoryCache.step, Contents.step]
      by_cases hid : filterId = c.availableFilterId
      · rw [if_pos hid]
        unfold cacheFilter
        rw [havail, if_pos hid]
        exact h
      · -- any id but the next to be given out is cached
        rw [if_neg hid]
        have hsome : (s.cacheFilter filterId key val weight).isSome = true := by
          unfold cacheFilter
          rw [havail, if_neg hid]
          rfl
        obtain ⟨s', hs'⟩ := Option.isSome_iff_exists.mp hsome
        rw [hs', Option.getD_some]
        exact h.put (a := ⟨filterId, key, val, weight⟩) hplain hs'
  | unCacheFilter filterId => exact h.unCache filterId
  | cacheDataObject ad =>
      simp only [MemoryCache.step, cacheDataObject]
      split
      · exact (h.unCacheDataObject ad.id).frame rfl rfl rfl
      · exact h.frame rfl rfl rfl
  | unCacheDataObject dobjId => exact h.unCacheDataObject dobjId
  | cacheNode node =>
      simp only [MemoryCache.step, cacheNode]
      split
      · exact (h.unCacheNode node.id).frame rfl rfl rfl
      · exact h.frame rfl rfl rfl
  | unCacheNode nodeId => exact h.unCacheNode nodeId
  | deleteRepository auth key id =>
      refine deleteRepository_keeps (P := fun s => FiltersIndexed s c.filterAttributes) h auth key id ?_
      exact FiltersIndexed.compact (h.frame rfl rfl rfl)
  | compact => exact h.compact
  | setFilterSettings _ _ _ => exact h.frame rfl rfl rfl
  | getTemporaryFilterId => exact h.frame rfl rfl rfl
  | insertRepository _ => exact h.frame rfl rfl rfl
  | setExcludeZeroWeightAttributes _ => exact h.frame rfl rfl rfl
  | setMaxNodesToMatch _ => exact h.frame rfl rfl rfl

theorem availableFilterId_compact (s : MemoryCache) :
    s.compact.availableFilterId = s.availableFilterId := by
  unfold MemoryCache.compact
  split <;> rfl

theorem availableFilterId_unCacheDataObject (s : MemoryCache) (dobjId : CString) :
    ((s.unCacheDataObject dobjId).getD s).availableFilterId = s.availableFilterId := by
  unfold MemoryCache.unCacheDataObject
  cases s.doIdToDo.find dobjId with
  | none => rfl
  | some d => exact availableFilterId_compact _

theorem availableFilterId_unCacheNode (s : MemoryCache) (nodeId : CString) :
    ((s.unCacheNode nodeId).getD s).availableFilterId = s.availableFilterId := by
  unfold MemoryCache.unCacheNode
  cases s.nodeIdToNode.find nodeId with
  | none => rfl
  | some n => exact availableFilterId_compact _

theorem availableFilterId_step {c : Contents} (h : s.availableFilterId = c.availableFilterId)
    (op : Op) : (s.step op).availableFilterId = (c.step op).availableFilterId := by
  cases op with
  | getTemporaryFilterId =>
      simp only [MemoryCache.step, getTemporaryFilterId, Contents.step, h]
  | cacheFilter filterId key val weight =>
      simp only [MemoryCache.step, cacheFilter, Contents.step, h]
      split
      · exact h
      · rfl
  | cacheDataObject ad =>
      simp only [MemoryCache.step, cacheDataObject]
      split
      · exact (availableFilterId_unCacheDataObject s ad.id).trans h
      · exact h
  | unCacheDataObject dobjId => exact (availableFilterId_unCacheDataObject s dobjId).trans h
  | cacheNode node =>
      simp only [MemoryCache.step, cacheNode]
      split
      · exact (availableFilterId_unCacheNode s node.id).trans h
      · exact h
  | unCacheNode nodeId => exact (availableFilterId_unCacheNode s nodeId).trans h
  | unCacheFilter filterId => exact (availableFilterId_compact _).trans h
  | deleteRepository auth key id =>
      refine deleteRepository_keeps (P := fun s => s.availableFilterId = c.availableFilterId) h
        auth key id ?_
      exact (availableFilterId_compact _).trans h
  | compact => exact (availableFilterId_compact _).trans h
  | setFilterSettings _ _ _ => exact h
  | insertRepository _ => exact h
  | setExcludeZeroWeightAttributes _ => exact h
  | setMaxNodesToMatch _ => exact h

end Filters

/-! ## Runs -/

/-- **The tables of data objects are right in every run.** -/
theorem objectsIndexed_after (e : Bool) (ops : List Op) :
    ObjectsIndexed (after e ops) (Contents.after ops).objects := by
  unfold MemoryCache.after Contents.after
  refine List.foldl_rel (r := fun (s : MemoryCache) (c : Contents) => ObjectsIndexed s c.objects) ?_
    (fun op _ s c h => objectsIndexed_step h op)
  exact ⟨List.nodup_nil, Table.holds_empty, Table.holds_empty, Table.starHolds_empty⟩

/-- **So are the tables of nodes**, but for the one of interfaces. -/
theorem nodesIndexed_after (e : Bool) (ops : List Op) :
    NodesIndexed (after e ops) (Contents.after ops).nodes := by
  unfold MemoryCache.after Contents.after
  refine List.foldl_rel (r := fun (s : MemoryCache) (c : Contents) => NodesIndexed s c.nodes) ?_
    (fun op _ s c h => nodesIndexed_step h op)
  exact ⟨List.nodup_nil, Table.holds_empty, Table.holds_empty, Table.starHolds_empty,
    Table.holds_empty⟩

theorem availableFilterId_after (e : Bool) (ops : List Op) :
    (after e ops).availableFilterId = (Contents.after ops).availableFilterId :=
  List.foldl_rel
    (r := fun (s : MemoryCache) (c : Contents) => s.availableFilterId = c.availableFilterId) rfl
    (fun op _ _ _ h => availableFilterId_step h op)

/-- **The tables of filters are right in a run that puts in plain attributes only.** -/
theorem filtersIndexed_after (e : Bool) {ops : List Op} (hplain : ∀ op ∈ ops, Contents.PlainOp op) :
    FiltersIndexed (after e ops) (Contents.after ops).filterAttributes := by
  induction ops using List.reverseRecOn with
  | nil => exact ⟨by simp [Contents.after, Contents.empty], Table.holds_empty, Table.holds_empty,
      Table.starHolds_empty⟩
  | append_singleton ops op ih =>
      have hops := ih (fun op hop => hplain op (List.mem_append_left _ hop))
      have hop := hplain op (by simp)
      have hstep := filtersIndexed_step hops (availableFilterId_after e ops) hop
      simpa [MemoryCache.after, Contents.after] using hstep

/-- Where the table of interfaces is right, an interface of a cached node finds such a node. -/
theorem getNodeFromIfaceId_owner {nodes : List AbstractNode} (h : IfacesIndexed s nodes)
    (hnodes : NodesIndexed s nodes) {n : AbstractNode} (hn : n ∈ nodes) {iface : CString}
    (hiface : iface ∈ n.interfaces) :
    ∃ m ∈ nodes, iface ∈ m.interfaces ∧ s.getNodeFromIfaceId iface = some m := by
  have hentry : (iface, n.id) ∈ nodes.flatMap AbstractNode.ifaceEntries :=
    List.mem_flatMap.mpr ⟨n, hn, List.mem_map_of_mem hiface⟩
  have hne : atKey iface (nodes.flatMap AbstractNode.ifaceEntries) ≠ [] :=
    List.ne_nil_of_mem (mem_atKey.mpr hentry)
  obtain ⟨nodeId, rest, hvalues⟩ := List.exists_cons_of_ne_nil hne
  have hfirst : (iface, nodeId) ∈ nodes.flatMap AbstractNode.ifaceEntries := by
    rw [← mem_atKey, hvalues]
    exact List.mem_cons_self
  obtain ⟨m, hm, he⟩ := List.mem_flatMap.mp hfirst
  obtain ⟨i, hi, heq⟩ := List.mem_map.mp he
  injection heq with heq hid
  refine ⟨m, hm, heq ▸ hi, ?_⟩
  unfold getNodeFromIfaceId Table.find
  rw [h iface, hvalues]
  exact hnodes.find.mpr ⟨hm, hid⟩

/--
**The indices are right in every run** in which a node that goes shares no interface with an
older one and filter attributes are plain: each has exactly the entries derived from what is
cached, and an interface of a cached node finds a cached node that has it.
-/
theorem indices_consistent (e : Bool) (ops : List Op)
    (hok : Guarded (fun c op => some (Contents.step c op)) Contents.Ok Contents.empty ops) :
    Indexed (after e ops) (Contents.after ops) ∧
      ∀ n ∈ (Contents.after ops).nodes, ∀ iface ∈ n.interfaces,
        ∃ m ∈ (Contents.after ops).nodes, iface ∈ m.interfaces ∧
          (after e ops).getNodeFromIfaceId iface = some m := by
  have hplain : ∀ op ∈ ops, Contents.PlainOp op := by
    intro op hop
    obtain ⟨pre, post, rfl⟩ := List.append_of_mem hop
    have hguard := (guarded_iff _ _ _ _).mp hok pre op post rfl _ (run_total _ pre _)
    exact hguard.1
  have hifaces : IfacesIndexed (after e ops) (Contents.after ops).nodes := by
    clear hplain
    induction ops using List.reverseRecOn with
    | nil => exact Table.holds_empty
    | append_singleton ops op ih =>
        rw [guarded_snoc] at hok
        have hstep := ifacesIndexed_step (ih hok.1) (nodesIndexed_after e ops) hok.2
        simpa [MemoryCache.after, Contents.after] using hstep
  refine ⟨⟨objectsIndexed_after e ops, nodesIndexed_after e ops, hifaces,
    filtersIndexed_after e hplain, availableFilterId_after e ops⟩, ?_⟩
  intro n hn iface hiface
  exact getNodeFromIfaceId_owner hifaces (nodesIndexed_after e ops) hn hiface

/-- A peer with one interface, interested in anything named `k`. -/
def peerOnIface (id : CString) : AbstractNode :=
  ⟨id, [lit "if"], [⟨lit "k", lit "*", 1⟩], 10, 0, .peer, none⟩

/-- Two peers on one interface, of which the older goes, and a filter. -/
theorem indices_consistent_older_goes :
    Guarded (fun c op => some (Contents.step c op)) Contents.Ok Contents.empty
        [.cacheNode (peerOnIface (lit "a")), .cacheNode (peerOnIface (lit "b")),
          .unCacheNode (lit "a"), .cacheFilter 1 (lit "k") (lit "v") 1] ∧
      Indexed
        (after true [.cacheNode (peerOnIface (lit "a")), .cacheNode (peerOnIface (lit "b")),
          .unCacheNode (lit "a"), .cacheFilter 1 (lit "k") (lit "v") 1])
        (Contents.after [.cacheNode (peerOnIface (lit "a")), .cacheNode (peerOnIface (lit "b")),
          .unCacheNode (lit "a"), .cacheFilter 1 (lit "k") (lit "v") 1]) :=
  ⟨by decide +kernel, (indices_consistent true _ (by decide +kernel)).1⟩

/-- The younger goes: its entry stays, that of the older is lost, and its interface finds nothing. -/
theorem younger_takes_older_entry :
    let ops := [Op.cacheNode (peerOnIface (lit "a")), Op.cacheNode (peerOnIface (lit "b")),
      Op.unCacheNode (lit "b")]
    (Contents.after ops).nodes = [peerOnIface (lit "a")] ∧
      (after true ops).ifaceToNodeId.values (lit "if") = [lit "b"] ∧
      (after true ops).getNodeFromIfaceId (lit "if") = none ∧
      ¬ Indexed (after true ops) (Contents.after ops) := by
  refine ⟨by decide +kernel, by decide +kernel, by decide +kernel, ?_⟩
  intro h
  have hiface := h.ifaces (lit "if")
  revert hiface
  decide +kernel

end Encoders.Store
