import Encoders.Store.StoreLaw

/-!
# Which description of a node is stored

With node descriptions in the store, the arrival of one first deletes every stored one of the
node that is not newer than the newest, which is all of them, the newest included. Only then
is it seen whether the one that arrives is the newest, and if it is not, nothing is put in.
So the store has the newest description after every arrival exactly when no description
arrives after a newer one.

`keeps` is what an arrival leaves of what is stored; that the store computes it rests on the
index of the cache that lists the descriptions of a node.
-/

namespace Encoders.Store

open Encoders.Lib Encoders.Container Encoders.Data

/-! ## What an arrival leaves -/

section Kept

variable (cfg : StoreSettings)
variable {dObj : StoreObject} {passed : List StoreObject}

/-- What is stored once a description arrives, where `held` was. -/
def keeps (held : Option StoreObject) (dObj : StoreObject) : Option StoreObject :=
  match held with
  | none => some (MemoryDataStore.withDescriptionAttribute cfg dObj)
  | some o =>
      if dObj.createTime.lt o.createTime ∧ o.id ≠ dObj.id then none
      else some (MemoryDataStore.withDescriptionAttribute cfg dObj)

/-- What is stored after some descriptions. -/
def kept (passed : List StoreObject) : Option StoreObject := passed.foldl (keeps cfg) none

/-- One of the newest of some descriptions. -/
def IsNewest (passed : List StoreObject) (dObj : StoreObject) : Prop :=
  dObj ∈ passed ∧ ∀ d ∈ passed, d.createTime.le dObj.createTime = true

/-- The attribute changes nothing but the attributes and the id. -/
theorem withDescriptionAttribute_eq (dObj : StoreObject) : ∃ attributes id,
    MemoryDataStore.withDescriptionAttribute cfg dObj =
      { dObj with attributes := attributes, id := id } := by
  unfold MemoryDataStore.withDescriptionAttribute StoreObject.addAttribute
  split
  · split
    · exact ⟨dObj.attributes, dObj.id, rfl⟩
    · exact ⟨_, _, rfl⟩
  · exact ⟨dObj.attributes, dObj.id, rfl⟩

@[simp] theorem createTime_withDescriptionAttribute (dObj : StoreObject) :
    (MemoryDataStore.withDescriptionAttribute cfg dObj).createTime = dObj.createTime := by
  obtain ⟨_, _, heq⟩ := withDescriptionAttribute_eq cfg dObj
  rw [heq]

theorem kept_append (passed : List StoreObject) (dObj : StoreObject) :
    kept cfg (passed ++ [dObj]) = keeps cfg (kept cfg passed) dObj := by
  unfold kept
  rw [List.foldl_append]
  rfl

/-- What is put in is the description that arrives. -/
theorem keeps_eq_some {held : Option StoreObject} {p : StoreObject}
    (h : keeps cfg held dObj = some p) : p = MemoryDataStore.withDescriptionAttribute cfg dObj := by
  unfold keeps at h
  split at h
  · exact (Option.some.inj h).symm
  · split at h
    · cases h
    · exact (Option.some.inj h).symm

/-- What is stored has arrived. -/
theorem mem_of_kept {o : StoreObject} (h : kept cfg passed = some o) :
    ∃ d ∈ passed, o = MemoryDataStore.withDescriptionAttribute cfg d := by
  rcases List.eq_nil_or_concat passed with rfl | ⟨pre, dObj, rfl⟩
  · cases h
  · rw [List.concat_eq_append] at *
    rw [kept_append] at h
    exact ⟨dObj, List.mem_append_right _ (List.mem_singleton.mpr rfl), keeps_eq_some cfg h⟩

/-- A description that is not older than any before it is stored. -/
theorem kept_of_le (h : ∀ d ∈ passed, d.createTime.le dObj.createTime = true) :
    kept cfg (passed ++ [dObj]) = some (MemoryDataStore.withDescriptionAttribute cfg dObj) := by
  rw [kept_append]
  unfold keeps
  cases hkept : kept cfg passed with
  | none => rfl
  | some o =>
      obtain ⟨d, hd, rfl⟩ := mem_of_kept cfg hkept
      have hle := Timeval.not_lt_iff.mpr (h d hd)
      dsimp only
      rw [createTime_withDescriptionAttribute, if_neg (by simp [hle])]

/-- One that is older than what is stored does not leave the newest there. -/
theorem le_of_kept {b c : StoreObject}
    (hb : kept cfg passed = some (MemoryDataStore.withDescriptionAttribute cfg b))
    (hc : kept cfg (passed ++ [dObj]) = some (MemoryDataStore.withDescriptionAttribute cfg c))
    (hle : b.createTime.le c.createTime = true) : b.createTime.le dObj.createTime = true := by
  rw [kept_append, hb] at hc
  unfold keeps at hc
  dsimp only at hc
  split at hc
  · cases hc
  · -- what is put in is the one that arrived
    have hsame := congrArg StoreObject.createTime (Option.some.inj hc)
    rw [createTime_withDescriptionAttribute, createTime_withDescriptionAttribute] at hsame
    rw [hsame]
    exact hle

/-- **The newest is stored after every arrival** exactly when none comes after a newer one. -/
theorem kept_newest_iff (passed : List StoreObject) :
    (∀ pre dObj post, passed = pre ++ dObj :: post → ∃ b, IsNewest (pre ++ [dObj]) b ∧
      kept cfg (pre ++ [dObj]) = some (MemoryDataStore.withDescriptionAttribute cfg b)) ↔
    passed.Pairwise (fun a b => a.createTime.le b.createTime = true) := by
  constructor
  · -- by induction on the arrivals, the last one apart
    induction passed using List.reverseRecOn with
    | nil => exact fun _ => List.Pairwise.nil
    | append_singleton passed dObj ih =>
        intro hall
        have hbefore := ih (fun pre d post heq => hall pre d (post ++ [dObj])
          (by rw [heq, List.append_assoc, List.cons_append]))
        refine List.pairwise_append.mpr ⟨hbefore, List.pairwise_singleton _ _, ?_⟩
        intro a ha b hb
        rw [List.mem_singleton.mp hb]
        obtain ⟨c, hc, hkept⟩ := hall passed dObj [] rfl
        rcases List.eq_nil_or_concat passed with rfl | ⟨pre, last, rfl⟩
        · cases ha
        · rw [List.concat_eq_append] at *
          obtain ⟨m, hm, hheld⟩ := hall pre last [dObj] (by simp)
          refine Timeval.le_trans (hm.2 a ha) (le_of_kept cfg hheld hkept ?_)
          exact hc.2 m (List.mem_append_left _ hm.1)
  · intro hsorted pre dObj post heq
    rw [heq, List.pairwise_append] at hsorted
    have hlast : ∀ d ∈ pre, d.createTime.le dObj.createTime = true :=
      fun d hd => hsorted.2.2 d hd dObj List.mem_cons_self
    refine ⟨dObj, ⟨List.mem_append_right _ (List.mem_singleton.mpr rfl), ?_⟩, kept_of_le cfg hlast⟩
    intro d hd
    rcases List.mem_append.mp hd with hd | hd
    · exact hlast d hd
    · rw [List.mem_singleton.mp hd]
      exact Timeval.le_refl _

end Kept

namespace MemoryDataStore

variable {cfg : StoreSettings} {s s₀ : MemoryDataStore} {nodeId : CString}

/-! ## The newest of a list -/

theorem newestOf_cons (dObj tmp : StoreObject) (dobjs : List StoreObject) :
    newestOf dObj (tmp :: dobjs) =
      newestOf (if dObj.createTime.lt tmp.createTime then tmp else dObj) dobjs := rfl

/-- Nothing in the list is newer, nor the one to start with. -/
theorem le_newestOf (dObj : StoreObject) (dobjs : List StoreObject) :
    dObj.createTime.le (newestOf dObj dobjs).createTime = true ∧
      ∀ tmp ∈ dobjs, tmp.createTime.le (newestOf dObj dobjs).createTime = true := by
  induction dobjs generalizing dObj with
  | nil => exact ⟨Timeval.le_refl _, fun tmp htmp => nomatch htmp⟩
  | cons tmp dobjs ih =>
      rw [newestOf_cons]
      have hstart := ih (if dObj.createTime.lt tmp.createTime then tmp else dObj)
      have hboth : dObj.createTime.le
            (if dObj.createTime.lt tmp.createTime then tmp else dObj).createTime = true ∧
          tmp.createTime.le
            (if dObj.createTime.lt tmp.createTime then tmp else dObj).createTime = true := by
        by_cases hlt : dObj.createTime.lt tmp.createTime = true
        · rw [if_pos hlt]
          exact ⟨Timeval.le_of_lt hlt, Timeval.le_refl _⟩
        · rw [if_neg hlt]
          exact ⟨Timeval.le_refl _, Timeval.not_lt_iff.mp (by simpa using hlt)⟩
      refine ⟨Timeval.le_trans hboth.1 hstart.1, List.forall_mem_cons.mpr ⟨?_, hstart.2⟩⟩
      exact Timeval.le_trans hboth.2 hstart.1

/-- The newest of copies of one description, and of one that arrives. -/
theorem newestOf_copies {dObj o : StoreObject} {dobjs : List StoreObject}
    (hcopies : ∀ tmp ∈ dobjs, tmp = o) (hmem : o ∈ dobjs) :
    newestOf dObj dobjs = if dObj.createTime.lt o.createTime then o else dObj := by
  suffices hgen : ∀ (l : List StoreObject) (d : StoreObject), (∀ tmp ∈ l, tmp = o) →
      (d = o ∨ o ∈ l ∨ d.createTime.lt o.createTime = false) →
      newestOf d l = if d.createTime.lt o.createTime then o else d from
    hgen dobjs dObj hcopies (Or.inr (Or.inl hmem))
  intro l
  induction l with
  | nil =>
      intro d _ hd
      rcases hd with rfl | hd | hd
      · rw [ite_self]
        rfl
      · cases hd
      · rw [hd]
        rfl
  | cons tmp l ih =>
      intro d hl _
      obtain rfl := hl tmp List.mem_cons_self
      have hrest : ∀ tmp' ∈ l, tmp' = tmp := fun tmp' h => hl tmp' (List.mem_cons_of_mem _ h)
      rw [newestOf_cons]
      by_cases hlt : d.createTime.lt tmp.createTime = true
      · rw [if_pos hlt, ih tmp hrest (Or.inl rfl), ite_self]
      · rw [if_neg hlt, ih d hrest (Or.inr (Or.inr (by simpa using hlt))), if_neg hlt]

/-! ## The descriptions that are stored -/

/-- The store has this description of the node. -/
def HoldsDescription (s : MemoryDataStore) (nodeId : CString) (o : StoreObject) : Prop :=
  (∃ id, s.getDataObjectFromId id = some o) ∧ o.isNodeDescription = true ∧ o.node = some nodeId

/-- `getNodeDataObjectsForNode` lists the stored descriptions of the node, and nothing else. -/
def ListsDescriptions (s : MemoryDataStore) (nodeId : CString) : Prop :=
  ∀ o, o ∈ s.getNodeDataObjectsForNode nodeId ↔ s.HoldsDescription nodeId o

/-- A call of `_insertDataObject`. -/
structure Arrival where
  dObj : StoreObject
  callback : Bool
  reportRemoval : Bool

/-- The store after some arrivals. -/
def afterArrivals (cfg : StoreSettings) (s : MemoryDataStore) (arrivals : List Arrival) :
    MemoryDataStore :=
  arrivals.foldl (fun s a => (s.insertDataObject cfg a.dObj a.callback a.reportRemoval).store) s

theorem getDataObjectFromId_eq_some {id : CString} {o : StoreObject} :
    s.getDataObjectFromId id = some o ↔ s.IsStored id ∧ s.dataObject id = some o := by
  unfold getDataObjectFromId IsStored MemoryCache.isDataObjectCached
    MemoryCache.getDataObjectFromId
  cases s.mc.doIdToDo.find id with
  | none => simp
  | some ad => simp

/-- Of the descriptions of a node, `held` is stored; beyond it only what was at the start. -/
structure Held (s₀ s : MemoryDataStore) (nodeId : CString) (held : Option StoreObject) : Prop where
  reached : Reached s.mc
  holds : ∀ id o, s.getDataObjectFromId id = some o → o.isNodeDescription = true →
    o.node = some nodeId → held = some o ∧ o.id = id
  there : ∀ o ∈ held, s.getDataObjectFromId o.id = some o ∧ o.isNodeDescription = true ∧
    o.node = some nodeId
  others : ∀ id, s.IsStored id → s₀.IsStored id ∨ ∃ o ∈ held, o.id = id

namespace Held

variable {held : Option StoreObject}

theorem holdsDescription_iff (h : Held s₀ s nodeId held) (o : StoreObject) :
    s.HoldsDescription nodeId o ↔ held = some o := by
  refine ⟨fun ⟨⟨id, hid⟩, hnd, hnode⟩ => (h.holds id o hid hnd hnode).1, fun heq => ?_⟩
  obtain ⟨hthere, hnd, hnode⟩ := h.there o heq
  exact ⟨⟨o.id, hthere⟩, hnd, hnode⟩

/-- All the descriptions of the node are deleted, whichever is the newest. -/
theorem deletes (h : Held s₀ s nodeId held) (hmem : cfg.inMemoryNodeDescriptions = false)
    {dobjs : List StoreObject} (hlists : ∀ o, o ∈ dobjs ↔ held = some o) (report : Bool) :
    Held s₀ (s.deleteDataObjects cfg dobjs report) nodeId none := by
  obtain ⟨hmc, hdo, hspec⟩ := @deleteDataObjects_spec s cfg dobjs h.reached
    (fun dObj _ => by unfold Storable; rw [hmem, Bool.false_and]) report
  refine ⟨hmc, fun id o hget hnd hnode => ?_, (fun o ho => nomatch ho), fun id hid => ?_⟩
  · rw [getDataObjectFromId_eq_some, hspec, hdo] at hget
    obtain ⟨⟨hstored, hgone⟩, ho⟩ := hget
    obtain ⟨heq, hkey⟩ := h.holds id o (getDataObjectFromId_eq_some.mpr ⟨hstored, ho⟩) hnd hnode
    exact absurd hkey (hgone o ((hlists o).mpr heq))
  · rw [hspec] at hid
    refine (h.others id hid.1).imp_right (fun ⟨o, ho, hkey⟩ => ?_)
    exact absurd hkey (hid.2 o ((hlists o).mpr ho))

/-- A description is put in where there is none of its node. -/
theorem puts (h : Held s₀ s nodeId none) (hmem : cfg.inMemoryNodeDescriptions = false)
    {dObj : StoreObject} (hnd : dObj.isNodeDescription = true) (hnode : dObj.node = some nodeId)
    (hpersistent : dObj.isPersistent = true) {dobjId : CString} (hnew : ¬ s₀.IsStored dobjId)
    (callback : Bool) : Held s₀ (s.insertOther cfg dobjId dObj callback).store nodeId (some dObj) := by
  have hstorable : Storable cfg dObj := by unfold Storable; rw [hmem, Bool.false_and]
  obtain ⟨hmc, hdo, -, hspec⟩ := storeAndMatch_spec h.reached hstorable callback
  have hnot : ¬ s.mc.isDataObjectCached dobjId = true := fun hs =>
    (h.others dobjId hs).elim hnew (fun ⟨o, ho, _⟩ => nomatch ho)
  unfold insertOther
  rw [if_neg hnot]
  simp only [hpersistent, if_true] at hspec
  have hget : ∀ id o, (s.storeAndMatch cfg dObj callback).store.getDataObjectFromId id = some o ↔
      if id = dObj.id then dObj = o else s.getDataObjectFromId id = some o := by
    intro id o
    rw [getDataObjectFromId_eq_some, hspec, hdo, getDataObjectFromId_eq_some]
    unfold cacheDataObject
    dsimp only
    by_cases hid : id = dObj.id
    · rw [if_pos hid, if_pos hid, Option.some.injEq]
      exact ⟨And.right, fun heq => ⟨Or.inl hid, heq⟩⟩
    · rw [if_neg hid, if_neg hid]
      exact and_congr_left (fun _ => ⟨fun hor => hor.resolve_left hid, Or.inr⟩)
  refine ⟨hmc, fun id o hid hnd' hnode' => ?_, fun o ho => ?_, fun id hid => ?_⟩
  · rw [hget] at hid
    split at hid
    · next heq => exact ⟨congrArg some hid, hid ▸ heq.symm⟩
    · exact nomatch (h.holds id o hid hnd' hnode').1
  · obtain rfl := Option.some.inj ho
    exact ⟨(hget dObj.id dObj).mpr (by rw [if_pos rfl]), hnd, hnode⟩
  · rcases (hspec id).mp hid with heq | hs
    · exact Or.inr ⟨dObj, rfl, heq.symm⟩
    · exact Or.inl ((h.others id hs).resolve_right (fun ⟨o, ho, _⟩ => nomatch ho))

/-- What an arrival is: all deletions, and an insertion if `keeps` leaves something. -/
theorem insertDataObject_eq (h : Held s₀ s nodeId held)
    (hmem : cfg.inMemoryNodeDescriptions = false) (hlists : s.ListsDescriptions nodeId)
    {dObj : StoreObject} (hnd : dObj.isNodeDescription = true) (hnode : dObj.node = some nodeId)
    (callback report : Bool) :
    (s.insertDataObject cfg dObj callback report).store =
      match keeps cfg held dObj with
      | none => s.deleteDataObjects cfg (s.getNodeDataObjectsForNode nodeId) report
      | some p =>
          ((s.deleteDataObjects cfg (s.getNodeDataObjectsForNode nodeId) report).insertOther cfg
            dObj.id p callback).store := by
  have hdobjs : ∀ o, o ∈ s.getNodeDataObjectsForNode nodeId ↔ held = some o :=
    fun o => (hlists o).trans (h.holdsDescription_iff o)
  unfold insertDataObject deleteDataObjectNodeDescriptions
  rw [if_pos hnd, if_neg (by simp [hmem]), hnode]
  dsimp only
  -- the newest of the list is not older than any of the list
  have hall := (le_newestOf dObj (s.getNodeDataObjectsForNode nodeId)).2
  rw [List.filter_eq_self.mpr hall]
  unfold keeps
  cases held with
  | none =>
      have hnil : s.getNodeDataObjectsForNode nodeId = [] :=
        List.eq_nil_iff_forall_not_mem.mpr (fun o ho => nomatch (hdobjs o).mp ho)
      rw [hnil, show newestOf dObj [] = dObj from rfl, if_neg (by simp)]
  | some o =>
      have hcopies : ∀ tmp ∈ s.getNodeDataObjectsForNode nodeId, tmp = o :=
        fun tmp htmp => (Option.some.inj ((hdobjs tmp).mp htmp)).symm
      rw [newestOf_copies hcopies ((hdobjs o).mpr rfl)]
      dsimp only
      by_cases hlt : dObj.createTime.lt o.createTime = true
      · rw [if_pos hlt]
        by_cases hid : o.id = dObj.id
        · rw [if_neg (by simp [hid]), if_neg (fun hand => hand.2 hid)]
        · rw [if_pos (by simp [hid]), if_pos ⟨hlt, hid⟩]
      · rw [if_neg hlt, if_neg (by simp), if_neg (fun hand => hlt hand.1)]

/-- **One arrival leaves what `keeps` says.** -/
theorem arrives (h : Held s₀ s nodeId held) (hmem : cfg.inMemoryNodeDescriptions = false)
    (hlists : s.ListsDescriptions nodeId) {dObj : StoreObject}
    (hnd : dObj.isNodeDescription = true) (hnode : dObj.node = some nodeId)
    (hpersistent : dObj.isPersistent = true) (hnew : ¬ s₀.IsStored dObj.id)
    (callback report : Bool) :
    Held s₀ (s.insertDataObject cfg dObj callback report).store nodeId (keeps cfg held dObj) := by
  have hnone := h.deletes hmem (fun o => (hlists o).trans (h.holdsDescription_iff o)) report
  rw [h.insertDataObject_eq hmem hlists hnd hnode]
  cases hkeeps : keeps cfg held dObj with
  | none => exact hnone
  | some p =>
      obtain ⟨attributes, id, heq⟩ := withDescriptionAttribute_eq cfg dObj
      rw [keeps_eq_some cfg hkeeps, heq]
      exact @puts cfg _ s₀ nodeId hnone hmem { dObj with attributes := attributes, id := id } hnd
        hnode hpersistent dObj.id hnew callback

end Held

/-! ## The index of descriptions -/

section Index

variable {mc : MemoryCache}

theorem nodeIdToDoId_values_compact (n : CString) :
    mc.compact.nodeIdToDoId.values n = mc.nodeIdToDoId.values n := by
  unfold MemoryCache.compact
  split
  · exact Table.values_compact _ _
  · rfl

theorem isNodeCached_compact (n : CString) : mc.compact.isNodeCached n = mc.isNodeCached n := by
  unfold MemoryCache.compact
  split
  · unfold MemoryCache.isNodeCached Table.find
    rw [Table.values_compact]
  · rfl

theorem isNodeCached_unCache (dobjId n : CString) :
    ((mc.unCacheDataObject dobjId).getD mc).isNodeCached n = mc.isNodeCached n := by
  unfold MemoryCache.unCacheDataObject
  cases mc.doIdToDo.find dobjId with
  | none => rfl
  | some ad => exact isNodeCached_compact n

theorem isNodeCached_cache (ad : AbstractDataObject) (n : CString) :
    (mc.cacheDataObject ad).isNodeCached n = mc.isNodeCached n := by
  unfold MemoryCache.cacheDataObject
  split
  · exact isNodeCached_unCache ad.id n
  · rfl

/-- A description takes its entry out with it. -/
theorem listed_unCache (dobjId n : CString) :
    ((mc.unCacheDataObject dobjId).getD mc).nodeIdToDoId.values n =
      if (mc.doIdToDo.find dobjId).bind AbstractDataObject.node = some n then
        (mc.nodeIdToDoId.values n).eraseP (fun id => id = dobjId)
      else mc.nodeIdToDoId.values n := by
  unfold MemoryCache.unCacheDataObject
  cases mc.doIdToDo.find dobjId with
  | none => rfl
  | some ad =>
      rw [Option.getD_some, nodeIdToDoId_values_compact, Option.bind_some]
      unfold MemoryCache.dropDataObject
      cases hnode : ad.node with
      | none => rfl
      | some m =>
          dsimp only
          rw [Table.values_eraseOne]
          by_cases hn : n = m
          · rw [if_pos hn, if_pos (congrArg some hn.symm), hn]
          · rw [if_neg hn, if_neg (fun h => hn (Option.some.inj h).symm)]

/-- A description of a cached node is listed, where none was. -/
theorem listed_cache {ad : AbstractDataObject} {n : CString} (hnode : ad.node = some n)
    (hcached : mc.isNodeCached n = true) (hnil : mc.nodeIdToDoId.values n = []) :
    (mc.cacheDataObject ad).nodeIdToDoId.values n = [ad.id] := by
  have hput : ∀ t : MemoryCache, t.isNodeCached n = true → t.nodeIdToDoId.values n = [] →
      (t.putDataObject ad).nodeIdToDoId.values n = [ad.id] := by
    intro t ht htnil
    unfold MemoryCache.putDataObject
    dsimp only
    rw [hnode]
    dsimp only
    rw [if_pos ht, Table.values_insert, if_pos rfl, htnil, List.nil_append]
  unfold MemoryCache.cacheDataObject
  split
  · refine hput _ ((isNodeCached_unCache ad.id n).trans hcached) ?_
    rw [listed_unCache, hnil]
    exact ite_self _
  · exact hput _ hcached hnil

end Index

/-- The node is cached, and its entries are the ones of the description that is stored. -/
structure Listed (s : MemoryDataStore) (nodeId : CString) (held : Option StoreObject) : Prop where
  cached : s.mc.isNodeCached nodeId = true
  values : s.mc.nodeIdToDoId.values nodeId = held.toList.map StoreObject.id
  abstract : ∀ o ∈ held, s.mc.doIdToDo.find o.id = some o.abstract

namespace Held

variable {held : Option StoreObject}

theorem getNodeDataObjectsForNode_eq (h : Held s₀ s nodeId held) (hlisted : Listed s nodeId held) :
    s.getNodeDataObjectsForNode nodeId = held.toList := by
  unfold getNodeDataObjectsForNode MemoryCache.getNodeDataObjectIdsForNode
  rw [hlisted.values]
  cases hheld : held with
  | none => rfl
  | some o =>
      simp [(h.there o hheld).1]

/-- So the descriptions of the node are listed. -/
theorem listsDescriptions (h : Held s₀ s nodeId held) (hlisted : Listed s nodeId held) :
    s.ListsDescriptions nodeId := by
  intro o
  rw [h.holdsDescription_iff, h.getNodeDataObjectsForNode_eq hlisted, Option.mem_toList]

/-- The deletions of an arrival leave no entry of the node. -/
theorem listed_deletes (h : Held s₀ s nodeId held) (hmem : cfg.inMemoryNodeDescriptions = false)
    (hlisted : Listed s nodeId held) (report : Bool) :
    Listed (s.deleteDataObjects cfg held.toList report) nodeId none := by
  cases hheld : held with
  | none =>
      rw [hheld] at hlisted
      exact hlisted
  | some o =>
      have hstorable : Storable cfg o := by unfold Storable; rw [hmem, Bool.false_and]
      have hvalues := hlisted.values
      rw [hheld] at hvalues
      unfold deleteDataObjects
      rw [Option.toList_some, List.foldl_cons, List.foldl_nil, deleteDataObject_eq hstorable]
      refine ⟨?_, ?_, fun o ho => nomatch ho⟩
      · rw [mc_deleteDataObjectHelper, isNodeCached_unCache]
        exact hlisted.cached
      · obtain ⟨-, hnd, hnode⟩ := h.there o hheld
        have hfind : (s.mc.doIdToDo.find o.id).bind AbstractDataObject.node = some nodeId := by
          rw [hlisted.abstract o hheld, Option.bind_some]
          unfold StoreObject.abstract
          rw [if_pos hnd]
          exact hnode
        rw [mc_deleteDataObjectHelper, listed_unCache, if_pos hfind, hvalues]
        simp

/-- The description that is put in is listed. -/
theorem listed_puts (h : Held s₀ s nodeId none) (hlisted : Listed s nodeId none)
    {dObj : StoreObject} (hnd : dObj.isNodeDescription = true) (hnode : dObj.node = some nodeId)
    (hpersistent : dObj.isPersistent = true) {dobjId : CString} (hnew : ¬ s₀.IsStored dobjId)
    (callback : Bool) :
    Listed (s.insertOther cfg dobjId dObj callback).store nodeId (some dObj) := by
  have hnot : ¬ s.mc.isDataObjectCached dobjId = true := fun hs =>
    (h.others dobjId hs).elim hnew (fun ⟨o, ho, _⟩ => nomatch ho)
  have hmc : (s.insertOther cfg dobjId dObj callback).store.mc =
      s.mc.cacheDataObject dObj.abstract := by
    unfold insertOther storeAndMatch
    rw [if_neg hnot]
    dsimp only
    rw [evaluateFilters_eq, callBack_eq, if_neg (by simp [hpersistent])]
    rfl
  have habstract : dObj.abstract.node = some nodeId := by
    unfold StoreObject.abstract
    rw [if_pos hnd]
    exact hnode
  refine ⟨?_, ?_, fun o ho => ?_⟩
  · rw [hmc, isNodeCached_cache]
    exact hlisted.cached
  · rw [hmc]
    exact listed_cache habstract hlisted.cached hlisted.values
  · obtain rfl := Option.some.inj ho
    rw [hmc, h.reached.find_cache]
    exact if_pos rfl

/-- An arrival keeps the entries right. -/
theorem listed_arrives (h : Held s₀ s nodeId held) (hmem : cfg.inMemoryNodeDescriptions = false)
    (hlisted : Listed s nodeId held) {dObj : StoreObject} (hnd : dObj.isNodeDescription = true)
    (hnode : dObj.node = some nodeId) (hpersistent : dObj.isPersistent = true)
    (hnew : ¬ s₀.IsStored dObj.id) (callback report : Bool) :
    Listed (s.insertDataObject cfg dObj callback report).store nodeId (keeps cfg held dObj) := by
  have hnone := h.deletes hmem (fun o => Option.mem_toList) report
  have hempty := h.listed_deletes hmem hlisted report
  rw [h.insertDataObject_eq hmem (h.listsDescriptions hlisted) hnd hnode,
    h.getNodeDataObjectsForNode_eq hlisted]
  cases hkeeps : keeps cfg held dObj with
  | none => exact hempty
  | some p =>
      obtain ⟨attributes, id, heq⟩ := withDescriptionAttribute_eq cfg dObj
      rw [keeps_eq_some cfg hkeeps, heq]
      exact @listed_puts cfg _ s₀ nodeId hnone hempty
        { dObj with attributes := attributes, id := id } hnd hnode hpersistent dObj.id hnew callback

end Held

variable {arrivals : List Arrival}

/-! ## Every order of arrivals -/

/-- Of the node, exactly one of the newest of the descriptions that were passed is stored. -/
def HoldsNewest (cfg : StoreSettings) (s : MemoryDataStore) (nodeId : CString)
    (passed : List StoreObject) : Prop :=
  ∃ b, IsNewest passed b ∧ ∀ o, s.HoldsDescription nodeId o ↔ o = withDescriptionAttribute cfg b

/-- A valid persistent description of the node, of an id that is not stored at the start. -/
structure Valid (s : MemoryDataStore) (nodeId : CString) (a : Arrival) : Prop where
  isNodeDescription : a.dObj.isNodeDescription = true
  node : a.dObj.node = some nodeId
  isPersistent : a.dObj.isPersistent = true
  fresh : ¬ s.IsStored a.dObj.id

theorem afterArrivals_append (arrivals : List Arrival) (a : Arrival) :
    afterArrivals cfg s (arrivals ++ [a]) =
      ((afterArrivals cfg s arrivals).insertDataObject cfg a.dObj a.callback
        a.reportRemoval).store := by
  unfold afterArrivals
  rw [List.foldl_append]
  rfl

/-- Nothing of the node is stored at the start. -/
theorem held_start (hmc : Reached s.mc) (hnone : ∀ o, ¬ s.HoldsDescription nodeId o) :
    Held s s nodeId none where
  reached := hmc
  holds := fun id o hget hnd hnode => absurd ⟨⟨id, hget⟩, hnd, hnode⟩ (hnone o)
  there := fun _ ho => nomatch ho
  others := fun _ hid => Or.inl hid

/-- After some arrivals, what `kept` says is stored. -/
theorem held_afterArrivals (hmem : cfg.inMemoryNodeDescriptions = false) (hmc : Reached s.mc)
    (hnone : ∀ o, ¬ s.HoldsDescription nodeId o) (hvalid : ∀ a ∈ arrivals, s.Valid nodeId a)
    (hlists : ∀ pre post, arrivals = pre ++ post →
      (afterArrivals cfg s pre).ListsDescriptions nodeId) :
    Held s (afterArrivals cfg s arrivals) nodeId (kept cfg (arrivals.map Arrival.dObj)) := by
  -- by induction on the arrivals, the last one apart
  induction arrivals using List.reverseRecOn with
  | nil => exact held_start hmc hnone
  | append_singleton arrivals a ih =>
      have hbefore := ih (fun b hb => hvalid b (List.mem_append_left _ hb))
        (fun pre post heq => hlists pre (post ++ [a]) (by rw [heq, List.append_assoc]))
      have ha := hvalid a (List.mem_append_right _ (List.mem_singleton.mpr rfl))
      rw [afterArrivals_append, List.map_append, List.map_singleton, kept_append]
      exact hbefore.arrives hmem (hlists arrivals [a] rfl) ha.isNodeDescription ha.node
        ha.isPersistent ha.fresh a.callback a.reportRemoval

/--
**The newest description of a node is the one that is stored**, after every arrival, exactly
when no description arrives after a newer one.
-/
theorem newest_wins_iff (hmem : cfg.inMemoryNodeDescriptions = false) (hmc : Reached s.mc)
    (hnone : ∀ o, ¬ s.HoldsDescription nodeId o) (arrivals : List Arrival)
    (hvalid : ∀ a ∈ arrivals, s.Valid nodeId a)
    (hlists : ∀ pre post, arrivals = pre ++ post →
      (afterArrivals cfg s pre).ListsDescriptions nodeId) :
    (∀ pre a post, arrivals = pre ++ a :: post →
      HoldsNewest cfg (afterArrivals cfg s (pre ++ [a])) nodeId ((pre ++ [a]).map Arrival.dObj)) ↔
    arrivals.Pairwise (fun a b => a.dObj.createTime.le b.dObj.createTime = true) := by
  -- what the store holds is what the arrivals alone would keep
  have hiff : ∀ pre a post, arrivals = pre ++ a :: post →
      (HoldsNewest cfg (afterArrivals cfg s (pre ++ [a])) nodeId ((pre ++ [a]).map Arrival.dObj) ↔
        ∃ b, IsNewest (pre.map Arrival.dObj ++ [a.dObj]) b ∧
          kept cfg (pre.map Arrival.dObj ++ [a.dObj]) = some (withDescriptionAttribute cfg b)) := by
    intro pre a post heq
    have hpre : arrivals = (pre ++ [a]) ++ post := by
      rw [heq, List.append_assoc, List.singleton_append]
    have hheld := held_afterArrivals hmem hmc hnone
      (fun b hb => hvalid b (by rw [hpre]; exact List.mem_append_left _ hb))
      (fun pre' post' heq' => hlists pre' (post' ++ post) (by rw [hpre, heq', List.append_assoc]))
    unfold HoldsNewest
    rw [List.map_append, List.map_singleton] at *
    refine exists_congr (fun b => and_congr_right (fun _ => ?_))
    simp only [hheld.holdsDescription_iff]
    refine ⟨fun hall => (hall _).mpr rfl, fun hkept o => ?_⟩
    rw [hkept, Option.some.injEq]
    exact eq_comm
  have hpairwise : (arrivals.map Arrival.dObj).Pairwise
        (fun a b => a.createTime.le b.createTime = true) ↔
      arrivals.Pairwise (fun a b => a.dObj.createTime.le b.dObj.createTime = true) :=
    List.pairwise_map
  rw [← hpairwise, ← kept_newest_iff cfg (arrivals.map Arrival.dObj)]
  constructor
  · intro hall pre dObj post heq
    obtain ⟨pre', rest, rfl, rfl, hrest⟩ := List.map_eq_append_iff.mp heq
    obtain ⟨a, post', rfl, rfl, -⟩ := List.map_eq_cons_iff.mp hrest
    exact (hiff pre' a post' rfl).mp (hall pre' a post' rfl)
  · intro hall pre a post heq
    refine (hiff pre a post heq).mpr (hall _ a.dObj (post.map Arrival.dObj) ?_)
    rw [heq, List.map_append, List.map_cons]

/-- **Where the node is cached, its stored descriptions are the ones listed**, in every run. -/
theorem listsDescriptions_afterArrivals (hmem : cfg.inMemoryNodeDescriptions = false)
    (hmc : Reached s.mc) (hnone : ∀ o, ¬ s.HoldsDescription nodeId o)
    (hlisted : Listed s nodeId none) (hvalid : ∀ a ∈ arrivals, s.Valid nodeId a) :
    ∀ pre post, arrivals = pre ++ post → (afterArrivals cfg s pre).ListsDescriptions nodeId := by
  suffices hgen : ∀ pre : List Arrival, (∀ a ∈ pre, s.Valid nodeId a) →
      Held s (afterArrivals cfg s pre) nodeId (kept cfg (pre.map Arrival.dObj)) ∧
        Listed (afterArrivals cfg s pre) nodeId (kept cfg (pre.map Arrival.dObj)) by
    intro pre post heq
    obtain ⟨hheld, hpre⟩ := hgen pre
      (fun a ha => hvalid a (by rw [heq]; exact List.mem_append_left _ ha))
    exact hheld.listsDescriptions hpre
  intro pre
  induction pre using List.reverseRecOn with
  | nil => exact fun _ => ⟨held_start hmc hnone, hlisted⟩
  | append_singleton pre a ih =>
      intro hpre
      obtain ⟨hheld, hlist⟩ := ih (fun b hb => hpre b (List.mem_append_left _ hb))
      have ha := hpre a (List.mem_append_right _ (List.mem_singleton.mpr rfl))
      rw [afterArrivals_append, List.map_append, List.map_singleton, kept_append]
      refine ⟨hheld.arrives hmem (hheld.listsDescriptions hlist) ha.isNodeDescription ha.node
        ha.isPersistent ha.fresh a.callback a.reportRemoval, ?_⟩
      exact hheld.listed_arrives hmem hlist ha.isNodeDescription ha.node ha.isPersistent ha.fresh
        a.callback a.reportRemoval

/-! ## Two orders of two descriptions -/

/-- A peer of which nothing but its id is known. -/
def plainPeer : AbstractNode where
  id := [9]
  interfaces := []
  attributes := []
  maxDataObjectsInMatch := 0
  matchThreshold := 0
  type := .peer
  dataObject := none

/-- A store that knows the peer, and nothing else. -/
def peerStore : MemoryDataStore := after storingSettings true [.insertNode plainPeer false]

/-- A description of the peer, of a second. -/
def peerDescription (id : CString) (second : Int) : StoreObject where
  id := id
  attributes := []
  isNodeDescription := true
  node := some [9]
  createTime := (Timeval.ofLongs second 0).getD Timeval.invalid
  receiveTime := Timeval.invalid
  isPersistent := true
  isDuplicate := false

/-- The descriptions of two seconds arrive. -/
def twoArrivals (first second : Int) : List Arrival :=
  [⟨peerDescription [1] first, false, true⟩, ⟨peerDescription [2] second, false, true⟩]

theorem reached_peerStore : Reached peerStore.mc := ⟨true, [.cacheNode plainPeer], rfl⟩

theorem not_holdsDescription_peerStore (o : StoreObject) :
    ¬ peerStore.HoldsDescription [9] o := by
  rintro ⟨⟨id, hget⟩, -⟩
  exact nomatch (getDataObjectFromId_eq_some.mp hget).2

theorem valid_twoArrivals (first second : Int) :
    ∀ a ∈ twoArrivals first second, peerStore.Valid [9] a := by
  intro a ha
  have hmem : a = ⟨peerDescription [1] first, false, true⟩ ∨
      a = ⟨peerDescription [2] second, false, true⟩ := by
    simpa [twoArrivals] using ha
  have hempty : ∀ id ∈ ([[1], [2]] : List CString), ¬ peerStore.IsStored id := by decide +kernel
  rcases hmem with rfl | rfl
  · exact ⟨rfl, rfl, rfl, hempty [1] (by simp)⟩
  · exact ⟨rfl, rfl, rfl, hempty [2] (by simp)⟩

theorem lists_twoArrivals (first second : Int) :
    ∀ pre post, twoArrivals first second = pre ++ post →
      (afterArrivals storingSettings peerStore pre).ListsDescriptions [9] :=
  listsDescriptions_afterArrivals rfl reached_peerStore not_holdsDescription_peerStore
    ⟨by decide +kernel, by decide +kernel, fun _ ho => nomatch ho⟩ (valid_twoArrivals first second)

theorem newest_wins_in_order :
    HoldsNewest storingSettings (afterArrivals storingSettings peerStore (twoArrivals 5 7)) [9]
      ((twoArrivals 5 7).map Arrival.dObj) :=
  (newest_wins_iff rfl reached_peerStore not_holdsDescription_peerStore (twoArrivals 5 7)
    (valid_twoArrivals 5 7) (lists_twoArrivals 5 7)).mpr (by decide +kernel)
      [⟨peerDescription [1] 5, false, true⟩] ⟨peerDescription [2] 7, false, true⟩ [] rfl

/-- An old description that arrives late takes the newest out, and is not put in. -/
theorem late_description_leaves_none :
    (∀ pre post, twoArrivals 7 5 = pre ++ post →
      (afterArrivals storingSettings peerStore pre).ListsDescriptions [9]) ∧
    ¬ ∀ pre a post, twoArrivals 7 5 = pre ++ a :: post →
      HoldsNewest storingSettings (afterArrivals storingSettings peerStore (pre ++ [a])) [9]
        ((pre ++ [a]).map Arrival.dObj) := by
  refine ⟨lists_twoArrivals 7 5, fun hall => ?_⟩
  obtain ⟨b, -, hholds⟩ := hall [⟨peerDescription [1] 7, false, true⟩]
    ⟨peerDescription [2] 5, false, true⟩ [] rfl
  have hheld := held_afterArrivals rfl reached_peerStore not_holdsDescription_peerStore
    (valid_twoArrivals 7 5) (lists_twoArrivals 7 5)
  have hkept : kept storingSettings ((twoArrivals 7 5).map Arrival.dObj) = none := by
    decide +kernel
  rw [hkept] at hheld
  exact nomatch (hheld.holdsDescription_iff _).mp ((hholds _).mpr rfl)

end MemoryDataStore

end Encoders.Store
