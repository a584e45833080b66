import Encoders.Store.Matching

/-!
# Compaction is invisible

Two tables are the same to a lookup if they have the same values, in the same order, under
every key, however large they are and in whatever order a walk over all of them goes. Every
edit of a table keeps tables the same, and compacting one of them does too. So two caches
that were given the same calls stay the same table by table, whichever of them compacts and
whenever it does, and every query answers alike: it only looks things up, and where it walks
over a whole table it walks over one that is never compacted.
-/

namespace Encoders.Store

open Encoders.Lib Encoders.Container Encoders.Data MemoryCache

/-! ## Tables -/

namespace Table

variable {κ ν ι : Type} [DecidableEq κ] [Hash κ] [DecidableEq ι] [Hash ι]

/-- The same under every key. -/
def Same (t t' : Table κ ν) : Prop := t.values = t'.values

theorem Same.compact_left {t t' : Table κ ν} (h : Same t t') : Same t.compact t' := by
  funext k
  rw [values_compact, h]

theorem Same.find {t t' : Table κ ν} (h : Same t t') : t.find = t'.find := by
  funext k
  unfold Table.find
  rw [h]

theorem Same.insert {t t' : Table κ ν} (h : Same t t') (k : κ) (v : ν) :
    Same (t.insert k v) (t'.insert k v) := by
  funext k'
  rw [values_insert, values_insert, h]

theorem Same.eraseAll {t t' : Table κ ν} (h : Same t t') (k : κ) (p : ν → Bool) :
    Same (t.eraseAll k p) (t'.eraseAll k p) := by
  funext k'
  rw [values_eraseAll, values_eraseAll, h]

theorem Same.eraseOne {t t' : Table κ ν} (h : Same t t') (k : κ) (p : ν → Bool) :
    Same (t.eraseOne k p) (t'.eraseOne k p) := by
  funext k'
  rw [values_eraseOne, values_eraseOne, h]

theorem Same.eraseFirst {t t' : Table κ ν} (h : Same t t') (k : κ) :
    Same (t.eraseFirst k) (t'.eraseFirst k) := by
  funext k'
  rw [values_eraseFirst, values_eraseFirst, h]

theorem Same.starInsert {t t' : Table κ (HashMap ι ν)} (h : Same t t') (key : κ) (id : ι) (v : ν) :
    Same (t.starInsert key id v) (t'.starInsert key id v) := by
  funext k
  rw [values_starInsert, values_starInsert, h]

omit [DecidableEq ι] in
theorem Same.starPut {t t' : Table κ (HashMap ι ν)} (h : Same t t') (key : κ)
    (ids : HashMap ι ν) : Same (t.starPut key ids) (t'.starPut key ids) := by
  funext k
  rw [values_starPut, values_starPut, h]

theorem Same.starEraseAll {t t' : Table κ (HashMap ι ν)} (h : Same t t') (key : κ) (id : ι) :
    Same (t.starEraseAll key id) (t'.starEraseAll key id) := by
  unfold Table.starEraseAll
  rw [h.find]
  cases t'.find key with
  | none => exact h
  | some ids => exact h.starPut key _

theorem Same.starEraseOne {t t' : Table κ (HashMap ι ν)} (h : Same t t') (key : κ) (id : ι) :
    Same (t.starEraseOne key id) (t'.starEraseOne key id) := by
  unfold Table.starEraseOne
  rw [h.find]
  cases t'.find key with
  | none => exact h
  | some ids =>
      dsimp only
      cases ids.find id with
      | none => exact h
      | some v => exact h.starPut key _

omit [DecidableEq ι] in
theorem Same.starIds {t t' : Table κ (HashMap ι ν)} (h : Same t t') : t.starIds = t'.starIds := by
  funext key
  unfold Table.starIds
  rw [h.find]

theorem Same.starHas {t t' : Table κ (HashMap ι ν)} (h : Same t t') : t.starHas = t'.starHas := by
  funext key id
  unfold Table.starHas
  rw [h.find]

/-- A walk over the whole table meets the same pairs, in some order. -/
theorem Same.perm {t t' : Table κ ν} (h : Same t t') : t.map.toList.Perm t'.map.toList := by
  refine perm_of_atKey ?_
  intro k
  rw [HashMap.atKey_toList, HashMap.atKey_toList]
  exact congrFun h k

end Table

/-! ## Caches -/

/-- Caches whose tables are the same, and whose settings are but for compaction. -/
structure Alike (s t : MemoryCache) : Prop where
  excludeZeroWeightAttributes : s.excludeZeroWeightAttributes = t.excludeZeroWeightAttributes
  doIdToDo : s.doIdToDo.Same t.doIdToDo
  nodeIdToNode : s.nodeIdToNode.Same t.nodeIdToNode
  nodeIdToDoId : s.nodeIdToDoId.Same t.nodeIdToDoId
  ifaceToNodeId : s.ifaceToNodeId.Same t.ifaceToNodeId
  keyvalToNodeId : s.keyvalToNodeId.Same t.keyvalToNodeId
  keyStarToNodeIds : s.keyStarToNodeIds.Same t.keyStarToNodeIds
  typeToNodeId : s.typeToNodeId.Same t.typeToNodeId
  keyvalToDoId : s.keyvalToDoId.Same t.keyvalToDoId
  keyStarToDoIds : s.keyStarToDoIds.Same t.keyStarToDoIds
  filters : s.filters.Same t.filters
  filterIdToAttribute : s.filterIdToAttribute.Same t.filterIdToAttribute
  keyvalToFilterId : s.keyvalToFilterId.Same t.keyvalToFilterId
  keyStarToFilterId : s.keyStarToFilterId.Same t.keyStarToFilterId
  availableFilterId : s.availableFilterId = t.availableFilterId
  maxNodesToMatch : s.maxNodesToMatch = t.maxNodesToMatch
  authorityToRepository : s.authorityToRepository.Same t.authorityToRepository

namespace Alike

variable {s t : MemoryCache}

theorem compact_left (h : Alike s t) : Alike s.compact t := by
  unfold MemoryCache.compact
  split
  · exact {
      h with
      doIdToDo := h.doIdToDo.compact_left
      nodeIdToNode := h.nodeIdToNode.compact_left
      nodeIdToDoId := h.nodeIdToDoId.compact_left
      ifaceToNodeId := h.ifaceToNodeId.compact_left
      keyvalToNodeId := h.keyvalToNodeId.compact_left
      keyStarToNodeIds := h.keyStarToNodeIds.compact_left
      typeToNodeId := h.typeToNodeId.compact_left
      keyvalToDoId := h.keyvalToDoId.compact_left
      keyStarToDoIds := h.keyStarToDoIds.compact_left
      filters := h.filters.compact_left
      filterIdToAttribute := h.filterIdToAttribute.compact_left
      keyvalToFilterId := h.keyvalToFilterId.compact_left
      keyStarToFilterId := h.keyStarToFilterId.compact_left
      authorityToRepository := h.authorityToRepository.compact_left }
  · exact h

theorem symm (h : Alike s t) : Alike t s where
  excludeZeroWeightAttributes := h.excludeZeroWeightAttributes.symm
  doIdToDo := Eq.symm h.doIdToDo
  nodeIdToNode := Eq.symm h.nodeIdToNode
  nodeIdToDoId := Eq.symm h.nodeIdToDoId
  ifaceToNodeId := Eq.symm h.ifaceToNodeId
  keyvalToNodeId := Eq.symm h.keyvalToNodeId
  keyStarToNodeIds := Eq.symm h.keyStarToNodeIds
  typeToNodeId := Eq.symm h.typeToNodeId
  keyvalToDoId := Eq.symm h.keyvalToDoId
  keyStarToDoIds := Eq.symm h.keyStarToDoIds
  filters := Eq.symm h.filters
  filterIdToAttribute := Eq.symm h.filterIdToAttribute
  keyvalToFilterId := Eq.symm h.keyvalToFilterId
  keyStarToFilterId := Eq.symm h.keyStarToFilterId
  availableFilterId := h.availableFilterId.symm
  maxNodesToMatch := h.maxNodesToMatch.symm
  authorityToRepository := Eq.symm h.authorityToRepository

/-- **Either may compact**, or both. -/
theorem compact (h : Alike s t) : Alike s.compact t.compact := h.compact_left.symm.compact_left.symm

theorem isNodeCached (h : Alike s t) : s.isNodeCached = t.isNodeCached := by
  funext nodeId
  unfold MemoryCache.isNodeCached
  rw [h.nodeIdToNode.find]

theorem isDataObjectCached (h : Alike s t) : s.isDataObjectCached = t.isDataObjectCached := by
  funext dobjId
  unfold MemoryCache.isDataObjectCached
  rw [h.doIdToDo.find]

/-! ### Calls -/

theorem putDataObject (h : Alike s t) (ad : AbstractDataObject) :
    Alike (s.putDataObject ad) (t.putDataObject ad) := by
  refine { h with
    doIdToDo := h.doIdToDo.insert _ _
    keyvalToDoId := List.foldl_rel h.keyvalToDoId (fun _ _ _ _ h => h.insert _ _)
    keyStarToDoIds := List.foldl_rel h.keyStarToDoIds (fun _ _ _ _ h => h.starInsert _ _ _)
    nodeIdToDoId := ?_ }
  unfold MemoryCache.putDataObject
  cases ad.node with
  | none => exact h.nodeIdToDoId
  | some nodeId =>
      dsimp only
      rw [h.isNodeCached]
      split
      · exact h.nodeIdToDoId.insert _ _
      · exact h.nodeIdToDoId

theorem dropDataObject (h : Alike s t) (ad : AbstractDataObject) (dobjId : CString) :
    Alike (s.dropDataObject ad dobjId) (t.dropDataObject ad dobjId) := by
  refine { h with
    doIdToDo := h.doIdToDo.eraseFirst _
    keyvalToDoId := List.foldl_rel h.keyvalToDoId (fun _ _ _ _ h => h.eraseAll _ _)
    keyStarToDoIds := List.foldl_rel h.keyStarToDoIds (fun _ _ _ _ h => h.starEraseAll _ _)
    nodeIdToDoId := ?_ }
  unfold MemoryCache.dropDataObject
  cases ad.node with
  | none => exact h.nodeIdToDoId
  | some nodeId => exact h.nodeIdToDoId.eraseOne _ _

theorem unCacheDataObject (h : Alike s t) (dobjId : CString) :
    Alike ((s.unCacheDataObject dobjId).getD s) ((t.unCacheDataObject dobjId).getD t) := by
  unfold MemoryCache.unCacheDataObject
  rw [h.doIdToDo.find]
  cases t.doIdToDo.find dobjId with
  | none => exact h
  | some ad => exact (h.dropDataObject ad dobjId).compact

theorem cacheDataObject (h : Alike s t) (ad : AbstractDataObject) :
    Alike (s.cacheDataObject ad) (t.cacheDataObject ad) := by
  unfold MemoryCache.cacheDataObject
  rw [h.isDataObjectCached]
  split
  · exact (h.unCacheDataObject ad.id).putDataObject ad
  · exact h.putDataObject ad

theorem putNode (h : Alike s t) (node : AbstractNode) :
    Alike (s.putNode node) (t.putNode node) := by
  refine { h with
    nodeIdToNode := h.nodeIdToNode.insert _ _
    nodeIdToDoId := ?_
    ifaceToNodeId := List.foldl_rel h.ifaceToNodeId (fun _ _ _ _ h => h.insert _ _)
    keyvalToNodeId := List.foldl_rel h.keyvalToNodeId ?_
    keyStarToNodeIds := List.foldl_rel h.keyStarToNodeIds ?_
    typeToNodeId := h.typeToNodeId.insert _ _ }
  · unfold MemoryCache.putNode
    cases node.dataObject with
    | none => exact h.nodeIdToDoId
    | some dobjId =>
        dsimp only
        rw [h.isDataObjectCached]
        split
        · exact h.nodeIdToDoId.insert _ _
        · exact h.nodeIdToDoId
  · intro i _ _ _ h
    split
    · exact h
    · exact h.insert _ _
  · intro i _ _ _ h
    split
    · exact h.starInsert _ _ _
    · exact h

theorem dropNode (h : Alike s t) (node : AbstractNode) (nodeId : CString) :
    Alike (s.dropNode node nodeId) (t.dropNode node nodeId) := by
  refine { h with
    nodeIdToNode := h.nodeIdToNode.eraseFirst _
    ifaceToNodeId := List.foldl_rel h.ifaceToNodeId (fun _ _ _ _ h => h.eraseFirst _)
    keyvalToNodeId := List.foldl_rel h.keyvalToNodeId ?_
    keyStarToNodeIds := List.foldl_rel h.keyStarToNodeIds ?_
    typeToNodeId := h.typeToNodeId.eraseAll _ _
    nodeIdToDoId := h.nodeIdToDoId.eraseAll _ _ }
  · intro i _ _ _ h
    split
    · exact h
    · exact h.eraseAll _ _
  · intro i _ _ _ h
    split
    · exact h.starEraseOne _ _
    · exact h

theorem unCacheNode (h : Alike s t) (nodeId : CString) :
    Alike ((s.unCacheNode nodeId).getD s) ((t.unCacheNode nodeId).getD t) := by
  unfold MemoryCache.unCacheNode
  rw [h.nodeIdToNode.find]
  cases t.nodeIdToNode.find nodeId with
  | none => exact h
  | some node => exact (h.dropNode node nodeId).compact

theorem cacheNode (h : Alike s t) (node : AbstractNode) :
    Alike (s.cacheNode node) (t.cacheNode node) := by
  unfold MemoryCache.cacheNode
  rw [h.isNodeCached]
  split
  · exact (h.unCacheNode node.id).putNode node
  · exact h.putNode node

theorem cacheFilter (h : Alike s t) (filterId : Int) (key val : CString) (weight : Int) :
    Alike ((s.cacheFilter filterId key val weight).getD s)
      ((t.cacheFilter filterId key val weight).getD t) := by
  unfold MemoryCache.cacheFilter
  rw [h.availableFilterId]
  split
  · exact h
  · refine { h with
      filters := ?_
      filterIdToAttribute := h.filterIdToAttribute.insert _ _
      keyvalToFilterId := ?_
      keyStarToFilterId := ?_
      availableFilterId := rfl }
    · dsimp only [Option.getD_some]
      rw [h.filters.find]
      cases t.filters.find filterId with
      | none => exact h.filters.insert _ _
      | some f => exact h.filters
    · dsimp only [Option.getD_some]
      split
      · exact h.keyvalToFilterId.insert _ _
      · exact h.keyvalToFilterId
    · dsimp only [Option.getD_some]
      split
      · exact h.keyStarToFilterId
      · exact h.keyStarToFilterId.starInsert _ _ _

theorem unCacheFilter (h : Alike s t) (filterId : Int) :
    Alike (s.unCacheFilter filterId) (t.unCacheFilter filterId) := by
  unfold MemoryCache.unCacheFilter
  rw [h.filterIdToAttribute]
  refine Alike.compact { h with
    filterIdToAttribute := h.filterIdToAttribute.eraseAll _ _
    keyvalToFilterId := List.foldl_rel h.keyvalToFilterId ?_
    keyStarToFilterId := List.foldl_rel h.keyStarToFilterId ?_
    filters := h.filters.eraseFirst _ }
  · intro a _ _ _ h
    split
    · exact h
    · exact h.eraseOne _ _
  · intro a _ _ _ h
    split
    · exact h.starEraseOne _ _
    · exact h

theorem deleteRepository (h : Alike s t) (auth key : CString) (id : UInt32) :
    Alike ((s.deleteRepository auth key id).getD s) ((t.deleteRepository auth key id).getD t) := by
  unfold MemoryCache.deleteRepository
  split_ifs
  · exact h
  · exact h
  · exact h
  · exact Alike.compact { h with
      authorityToRepository := h.authorityToRepository.eraseAll _ _ }

/-- **Caches that are alike stay alike.** -/
theorem step (h : Alike s t) (op : Op) : Alike (s.step op) (t.step op) := by
  cases op with
  | cacheDataObject ad => exact h.cacheDataObject ad
  | unCacheDataObject dobjId => exact h.unCacheDataObject dobjId
  | cacheNode node => exact h.cacheNode node
  | unCacheNode nodeId => exact h.unCacheNode nodeId
  | cacheFilter filterId key val weight => exact h.cacheFilter filterId key val weight
  | setFilterSettings filterId matchThreshold maxMatches =>
      exact { h with filters := (h.filters.eraseFirst _).insert _ _ }
  | unCacheFilter filterId => exact h.unCacheFilter filterId
  | getTemporaryFilterId =>
      exact { h with availableFilterId := congrArg (· - 1) h.availableFilterId }
  | insertRepository re =>
      exact { h with
        authorityToRepository := (h.authorityToRepository.eraseOne _ _).insert _ _ }
  | deleteRepository auth key id => exact h.deleteRepository auth key id
  | setExcludeZeroWeightAttributes status =>
      exact { h with excludeZeroWeightAttributes := rfl }
  | setMaxNodesToMatch n => exact { h with maxNodesToMatch := rfl }
  | compact => exact h.compact

end Alike

/-- Two runs of the same calls are alike, whatever each does about compaction. -/
theorem alike_after (e e' : Bool) (ops : List Op) : Alike (after e ops) (after e' ops) := by
  refine List.foldl_rel ?_ (fun op _ _ _ h => h.step op)
  constructor <;> rfl

/-! ## Answers -/

/-- Every query answers the same; what walks over a whole table may do so in another order. -/
structure SameAnswers (s t : MemoryCache) : Prop where
  isDataObjectCached : ∀ dobjId, s.isDataObjectCached dobjId = t.isDataObjectCached dobjId
  getDataObjectFromId : ∀ dobjId, s.getDataObjectFromId dobjId = t.getDataObjectFromId dobjId
  isNodeCached : ∀ nodeId, s.isNodeCached nodeId = t.isNodeCached nodeId
  getNodeFromId : ∀ nodeId, s.getNodeFromId nodeId = t.getNodeFromId nodeId
  getNodeFromIfaceId : ∀ ifaceId, s.getNodeFromIfaceId ifaceId = t.getNodeFromIfaceId ifaceId
  getNodesFromType : ∀ type, s.getNodesFromType type = t.getNodesFromType type
  getNodeDataObjectIdsForNode : ∀ nodeId,
    s.getNodeDataObjectIdsForNode nodeId = t.getNodeDataObjectIdsForNode nodeId
  isFilterCached : ∀ filterId, s.isFilterCached filterId = t.isFilterCached filterId
  getFiltersForDataObjectId : ∀ dobjId,
    s.getFiltersForDataObjectId dobjId = t.getFiltersForDataObjectId dobjId
  getDataObjectIdsForFilter : ∀ filterId,
    s.getDataObjectIdsForFilter filterId = t.getDataObjectIdsForFilter filterId
  getDataObjectIdsForNode : ∀ nodeId minAttrMatch maxMatches threshold,
    s.getDataObjectIdsForNode nodeId minAttrMatch maxMatches threshold =
      t.getDataObjectIdsForNode nodeId minAttrMatch maxMatches threshold
  getNodeIdsForDataObject : ∀ dobjId minAttrMatch maxMatches,
    s.getNodeIdsForDataObject dobjId minAttrMatch maxMatches =
      t.getNodeIdsForDataObject dobjId minAttrMatch maxMatches
  readRepository : ∀ auth key id, s.readRepository auth key id = t.readRepository auth key id
  getAllDataObjects : s.getAllDataObjects.Perm t.getAllDataObjects
  getAllNodes : s.getAllNodes.Perm t.getAllNodes
  getAllRepository : s.getAllRepository.Perm t.getAllRepository

namespace Alike

variable {s t : MemoryCache}

theorem hasAttr (h : Alike s t) : s.hasAttr = t.hasAttr := by
  funext dobjId keyval
  unfold MemoryCache.hasAttr
  rw [h.keyStarToDoIds.starHas, h.keyvalToDoId]

theorem excludes (h : Alike s t) : s.excludes = t.excludes := by
  funext weight
  unfold MemoryCache.excludes
  rw [h.excludeZeroWeightAttributes]

theorem filterInterests (h : Alike s t) : s.filterInterests = t.filterInterests := by
  funext filterId
  unfold MemoryCache.filterInterests
  rw [h.filterIdToAttribute]

theorem computeFilterSatisfaction (h : Alike s t) :
    s.computeFilterSatisfaction = t.computeFilterSatisfaction := by
  funext arithmetic filterId dobjId
  unfold MemoryCache.computeFilterSatisfaction
  rw [h.hasAttr, h.filterInterests]

theorem computeSatisfaction (h : Alike s t) : s.computeSatisfaction = t.computeSatisfaction := by
  funext nodeId dobjId
  unfold MemoryCache.computeSatisfaction nodeSatisfaction
  rw [h.nodeIdToNode.find, h.hasAttr, h.excludes]

theorem objectCandidates (h : Alike s t) : s.objectCandidates = t.objectCandidates := by
  funext interests
  unfold MemoryCache.objectCandidates objectsOf
  rw [h.excludes, h.keyStarToDoIds.starIds, h.keyvalToDoId]

theorem acceptFilter (h : Alike s t) : s.acceptFilter = t.acceptFilter := by
  funext arithmetic dobjId filterId
  unfold MemoryCache.acceptFilter
  rw [h.filters.find, h.computeFilterSatisfaction]

theorem acceptForFilter (h : Alike s t) : s.acceptForFilter = t.acceptForFilter := by
  funext arithmetic filterId f dobjId
  unfold MemoryCache.acceptForFilter
  rw [h.computeFilterSatisfaction]

theorem acceptNode (h : Alike s t) : s.acceptNode = t.acceptNode := by
  funext dobjId minAttrMatch nodeId
  unfold MemoryCache.acceptNode
  rw [h.nodeIdToNode.find, h.computeSatisfaction]

theorem nodeCandidates (h : Alike s t) : s.nodeCandidates = t.nodeCandidates := by
  funext attrs
  unfold MemoryCache.nodeCandidates skipInterest
  rw [h.nodeIdToNode.find, h.keyvalToNodeId, h.keyStarToNodeIds.starIds,
    h.excludeZeroWeightAttributes]

theorem filterCandidates (h : Alike s t) : s.filterCandidates = t.filterCandidates := by
  funext attrs
  unfold MemoryCache.filterCandidates
  rw [h.keyvalToFilterId, h.keyStarToFilterId.starIds]

/-- **Caches that are alike answer alike.** -/
theorem sameAnswers (h : Alike s t) : SameAnswers s t where
  isDataObjectCached := congrFun h.isDataObjectCached
  getDataObjectFromId := congrFun h.doIdToDo.find
  isNodeCached := congrFun h.isNodeCached
  getNodeFromId := congrFun h.nodeIdToNode.find
  getNodeFromIfaceId := by
    intro ifaceId
    unfold MemoryCache.getNodeFromIfaceId MemoryCache.getNodeFromId
    rw [h.ifaceToNodeId.find, h.nodeIdToNode.find]
  getNodesFromType := by
    intro type
    unfold MemoryCache.getNodesFromType MemoryCache.getNodeFromId
    rw [h.typeToNodeId, h.nodeIdToNode.find]
  getNodeDataObjectIdsForNode := congrFun h.nodeIdToDoId
  isFilterCached := by
    intro filterId
    unfold MemoryCache.isFilterCached
    rw [h.filterIdToAttribute.find]
  getFiltersForDataObjectId := by
    intro dobjId
    unfold MemoryCache.getFiltersForDataObjectId MemoryCache.getFiltersForDataObjectIdBy
    rw [h.doIdToDo.find, h.filterCandidates, h.acceptFilter]
  getDataObjectIdsForFilter := by
    intro filterId
    unfold MemoryCache.getDataObjectIdsForFilter MemoryCache.getDataObjectIdsForFilterBy
    rw [h.filters.find, h.filterInterests, h.objectCandidates, h.acceptForFilter]
  getDataObjectIdsForNode := by
    intro nodeId minAttrMatch maxMatches threshold
    unfold MemoryCache.getDataObjectIdsForNode
    rw [h.nodeIdToNode.find, h.computeSatisfaction, h.objectCandidates]
  getNodeIdsForDataObject := by
    intro dobjId minAttrMatch maxMatches
    unfold MemoryCache.getNodeIdsForDataObject
    rw [h.doIdToDo.find, h.maxNodesToMatch, h.acceptNode, h.nodeCandidates]
  readRepository := by
    intro auth key id
    unfold MemoryCache.readRepository
    rw [h.authorityToRepository]
  getAllDataObjects := h.doIdToDo.perm.map _
  getAllNodes := h.nodeIdToNode.perm.map _
  getAllRepository := h.authorityToRepository.perm.map _

end Alike

/-- **Compaction is invisible**: whatever calls are made, every query answers the same with it and
without. -/
theorem compaction_invisible (ops : List Op) : SameAnswers (after true ops) (after false ops) :=
  (alike_after true false ops).sameAnswers

end Encoders.Store
