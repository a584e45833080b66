import Mathlib.Data.Set.Insert
import Encoders.Store.DataStore
import Encoders.Store.Index

/-!
# What the data store holds

`due` says which ids are to be stored after a call: those that were, with the id of an object
inserted as persistent, without an id that is deleted or handed out as aged. The store keeps
to it, marks exactly the objects it already has as duplicates, and is not changed by an
object that is not persistent, except where such an object comes with an id that is stored.
Then the object that is stored is taken for one left over from an earlier insertion, and
goes.

Every call acts on the memory cache as a list of calls of the cache, so its indices are right
in every run.
-/

namespace Encoders.Store

open Encoders.Lib Encoders.Container Encoders.Data

/-! ## The cache of a data store -/

/-- A memory cache that some calls lead to. -/
def Reached (mc : MemoryCache) : Prop :=
  ∃ enableCompaction ops, mc = MemoryCache.after enableCompaction ops

namespace Reached

variable {mc : MemoryCache}

theorem step (h : Reached mc) (op : MemoryCache.Op) : Reached (mc.step op) := by
  obtain ⟨e, ops, rfl⟩ := h
  refine ⟨e, ops ++ [op], ?_⟩
  unfold MemoryCache.after
  rw [List.foldl_append]
  rfl

/-- The objects of a reached cache are indexed, now and after any call. -/
theorem indexed (h : Reached mc) : ∃ c : Contents, ObjectsIndexed mc c.objects ∧
    ∀ op, ObjectsIndexed (mc.step op) (c.step op).objects := by
  obtain ⟨e, ops, rfl⟩ := h
  have hnow := objectsIndexed_after e ops
  exact ⟨Contents.after ops, hnow, objectsIndexed_step hnow⟩

/-- What is found under an id once an object is cached. -/
theorem find_cache (h : Reached mc) (ad : AbstractDataObject) (id : CString) :
    (mc.cacheDataObject ad).doIdToDo.find id =
      if id = ad.id then some ad else mc.doIdToDo.find id := by
  obtain ⟨c, hnow, hnext⟩ := h.indexed
  have hcached : ObjectsIndexed (mc.cacheDataObject ad) (c.objectsBut ad.id ++ [ad]) :=
    hnext (.cacheDataObject ad)
  ext d
  unfold Contents.objectsBut at hcached
  rw [hcached.find, List.mem_append, List.mem_singleton, List.mem_filter, decide_eq_true_eq]
  by_cases hid : id = ad.id
  · rw [if_pos hid, Option.some.injEq, hid]
    refine ⟨?_, fun heq => heq ▸ ⟨Or.inr rfl, rfl⟩⟩
    rintro ⟨⟨-, hne⟩ | rfl, heq⟩
    · exact absurd heq hne
    · rfl
  · rw [if_neg hid, hnow.find]
    refine ⟨?_, fun ⟨hd, heq⟩ => ⟨Or.inl ⟨hd, fun hsame => hid (heq ▸ hsame)⟩, heq⟩⟩
    rintro ⟨⟨hd, -⟩ | rfl, heq⟩
    · exact ⟨hd, heq⟩
    · exact absurd heq.symm hid

/-- What is found under an id once one is uncached. -/
theorem find_unCache (h : Reached mc) (dobjId id : CString) :
    ((mc.unCacheDataObject dobjId).getD mc).doIdToDo.find id =
      if id = dobjId then none else mc.doIdToDo.find id := by
  obtain ⟨c, hnow, hnext⟩ := h.indexed
  have huncached : ObjectsIndexed ((mc.unCacheDataObject dobjId).getD mc) (c.objectsBut dobjId) :=
    hnext (.unCacheDataObject dobjId)
  ext d
  unfold Contents.objectsBut at huncached
  rw [huncached.find, List.mem_filter, decide_eq_true_eq]
  by_cases hid : id = dobjId
  · rw [if_pos hid, hid]
    exact ⟨fun ⟨⟨_, hne⟩, heq⟩ => absurd heq hne, fun hnone => nomatch hnone⟩
  · rw [if_neg hid, hnow.find]
    exact ⟨fun ⟨⟨hd, _⟩, heq⟩ => ⟨hd, heq⟩, fun ⟨hd, heq⟩ => ⟨⟨hd, heq ▸ hid⟩, heq⟩⟩

/-- A call about something else finds the same objects. -/
theorem find_step (h : Reached mc) {op : MemoryCache.Op}
    (hop : ∀ c : Contents, (c.step op).objects = c.objects) (id : CString) :
    (mc.step op).doIdToDo.find id = mc.doIdToDo.find id := by
  obtain ⟨c, hnow, hnext⟩ := h.indexed
  have hstep := hnext op
  rw [hop c] at hstep
  ext d
  rw [hstep.find, hnow.find]

end Reached

namespace MemoryDataStore

variable {s : MemoryDataStore} {cfg : StoreSettings}

/-- There is an object of the id. -/
def IsStored (s : MemoryDataStore) (id : CString) : Prop := s.mc.isDataObjectCached id = true

instance decidableIsStored (s : MemoryDataStore) (id : CString) : Decidable (s.IsStored id) :=
  inferInstanceAs (Decidable (_ = true))

theorem not_isStored_new (enableCompaction : Bool) (id : CString) :
    ¬ (new enableCompaction).IsStored id := by
  unfold IsStored MemoryCache.isDataObjectCached new MemoryCache.new Table.find
  rw [Table.values_empty]
  exact Bool.false_ne_true

/-! ## Calls that only add events -/

/-- `s` with more events. -/
def more (s : MemoryDataStore) (events : List StoreEvent) : MemoryDataStore :=
  { s with events := s.events ++ events }

theorem more_more (events events' : List StoreEvent) :
    (s.more events).more events' = s.more (events ++ events') := by
  unfold more
  rw [List.append_assoc]

theorem more_nil : s.more [] = s := by
  unfold more
  rw [List.append_nil]

theorem callBack_eq (callback : Bool) (e : StoreEvent) :
    s.callBack callback e = s.more (if callback then [e] else []) := by
  unfold callBack
  split
  · rfl
  · rw [more_nil]

/-- The event of a filter that matches one object. -/
def filterEvent (dObj : StoreObject) (filterId : Int) : StoreEvent :=
  .filterMatch (toEventType filterId) [dObj]

theorem fireFilters_eq (filterIds : List Int) (dObj : StoreObject) :
    s.fireFilters filterIds dObj = s.more (filterIds.map (filterEvent dObj)) := by
  unfold fireFilters
  induction filterIds generalizing s with
  | nil => exact more_nil.symm
  | cons filterId filterIds ih =>
      rw [List.foldl_cons, ih]
      exact more_more [filterEvent dObj filterId] _

/-- The filters whose event an object raises, in the order in which they are gone through. -/
def matchedFilters (cfg : StoreSettings) (s : MemoryDataStore) (dObj : StoreObject) : List Int :=
  if cfg.inMemoryNodeDescriptions && dObj.isNodeDescription then s.ndFilters
  else
    (if !dObj.isPersistent || dObj.isNodeDescription || s.monitorFilterEventType < 0 then []
      else [s.monitorFilterEventType]) ++ s.mc.getFiltersForDataObjectId dObj.id

theorem evaluateFilters_eq (dObj : StoreObject) :
    s.evaluateFilters cfg dObj = s.more ((s.matchedFilters cfg dObj).map (filterEvent dObj)) := by
  unfold evaluateFilters matchedFilters evaluateMonitorFilter
  by_cases hnd : (cfg.inMemoryNodeDescriptions && dObj.isNodeDescription) = true
  · rw [if_pos hnd, if_pos hnd, fireFilters_eq]
  · rw [if_neg hnd, if_neg hnd, fireFilters_eq, List.map_append, ← more_more]
    split
    · rw [List.map_nil, more_nil]
    · rfl

/-- Matching objects against a filter adds at most an event of this filter. -/
theorem evaluateDataObjects_eq (eventType : Int) : ∃ events,
    s.evaluateDataObjects eventType = s.more events ∧
      ∀ e ∈ events, ∃ dObjs, e = .filterMatch (toEventType eventType) dObjs := by
  have hfire : ∀ dObjs : List StoreObject, ∃ events,
      (if dObjs = [] then s else s.addEvent (.filterMatch (toEventType eventType) dObjs)) =
        s.more events ∧ ∀ e ∈ events, ∃ dObjs, e = .filterMatch (toEventType eventType) dObjs := by
    intro dObjs
    by_cases hnil : dObjs = []
    · exact ⟨[], by rw [if_pos hnil, more_nil], by simp⟩
    · exact ⟨[_], by rw [if_neg hnil]; rfl, by simp⟩
  have hnone : ∃ events, s = s.more events ∧
      ∀ e ∈ events, ∃ dObjs, e = .filterMatch (toEventType eventType) dObjs :=
    ⟨[], more_nil.symm, by simp⟩
  unfold evaluateDataObjects
  split
  · exact hnone
  · dsimp only
    split
    · exact hfire _
    · split
      · exact hnone
      · exact hfire _

/-! ## What each operation does to the objects -/

@[simp] theorem isStored_more (events : List StoreEvent) (id : CString) :
    (s.more events).IsStored id ↔ s.IsStored id := Iff.rfl

theorem isStored_cacheDataObject (h : Reached s.mc) (dObj : StoreObject) (id : CString) :
    (s.cacheDataObject dObj).IsStored id ↔ id = dObj.id ∨ s.IsStored id := by
  unfold IsStored MemoryCache.isDataObjectCached cacheDataObject
  dsimp only
  rw [h.find_cache]
  by_cases hid : id = dObj.id
  · rw [if_pos (show id = dObj.abstract.id from hid)]
    exact ⟨fun _ => Or.inl hid, fun _ => rfl⟩
  · rw [if_neg (show id ≠ dObj.abstract.id from hid)]
    exact ⟨Or.inr, fun hor => hor.resolve_left hid⟩

/-- What a deletion leaves of the cache. -/
theorem mc_deleteDataObjectHelper (id : CString) (report keep : Bool) :
    (s.deleteDataObjectHelper id report keep).2.mc = (s.mc.unCacheDataObject id).getD s.mc := by
  unfold deleteDataObjectHelper
  cases s.mc.unCacheDataObject id with
  | none => rfl
  | some mc => rfl

theorem isStored_deleteDataObjectHelper (h : Reached s.mc) (dobjId : CString) (report keep : Bool)
    (id : CString) :
    (s.deleteDataObjectHelper dobjId report keep).2.IsStored id ↔ id ≠ dobjId ∧ s.IsStored id := by
  unfold IsStored MemoryCache.isDataObjectCached
  rw [mc_deleteDataObjectHelper, h.find_unCache]
  by_cases hid : id = dobjId
  · rw [if_pos hid]
    exact ⟨fun hnone => (Bool.false_ne_true hnone).elim, fun ⟨hne, _⟩ => absurd hid hne⟩
  · rw [if_neg hid]
    exact ⟨fun hsome => ⟨hid, hsome⟩, And.right⟩

/-! ## Calls about filters and nodes -/

/-- `s'` comes from `s` by calls of the cache that are not about objects. -/
structure SameObjects (s s' : MemoryDataStore) : Prop where
  reached : Reached s.mc → Reached s'.mc
  find : Reached s.mc → ∀ id, s'.mc.doIdToDo.find id = s.mc.doIdToDo.find id
  dataObject : s'.dataObject = s.dataObject

namespace SameObjects

theorem refl (s : MemoryDataStore) : SameObjects s s := ⟨id, fun _ _ => rfl, rfl⟩

theorem trans {s s' s'' : MemoryDataStore} (h : SameObjects s s') (h' : SameObjects s' s'') :
    SameObjects s s'' where
  reached := fun hmc => h'.reached (h.reached hmc)
  find := fun hmc id => (h'.find (h.reached hmc) id).trans (h.find hmc id)
  dataObject := h'.dataObject.trans h.dataObject

/-- A call of the cache that is not about objects. -/
theorem of_op (s : MemoryDataStore) {op : MemoryCache.Op}
    (hop : ∀ c : Contents, (c.step op).objects = c.objects) :
    SameObjects s { s with mc := s.mc.step op } :=
  ⟨fun hmc => hmc.step op, fun hmc => hmc.find_step hop, rfl⟩

/-- Nothing but filters and events. -/
theorem of_mc {s s' : MemoryDataStore} (hmc : s'.mc = s.mc) (hdo : s'.dataObject = s.dataObject) :
    SameObjects s s' :=
  ⟨fun h => hmc ▸ h, fun _ _ => by rw [hmc], hdo⟩

theorem cacheFilter (s : MemoryDataStore) (etype : Int) (key val : CString) (weight : Int) :
    SameObjects s (s.cacheFilter etype key val weight) := by
  refine @of_op s (.cacheFilter etype key val weight) ?_
  intro c
  unfold Contents.step
  dsimp only
  split
  · rfl
  · rfl

theorem deleteFilter (s : MemoryDataStore) (eventtype : Int) :
    SameObjects s (s.deleteFilter eventtype).2 := by
  unfold MemoryDataStore.deleteFilter
  split
  · exact of_mc rfl rfl
  · split
    · exact of_mc rfl rfl
    · split
      · exact refl s
      · exact @of_op s (.unCacheFilter eventtype) (fun _ => rfl)

theorem cacheAttributes (s : MemoryDataStore) (f : StoreFilter) :
    SameObjects s (s.cacheAttributes f) := by
  unfold MemoryDataStore.cacheAttributes
  split
  · exact cacheFilter s f.etype [] [] 0
  · refine List.foldlRecOn (motive := SameObjects s) f.attributes _ (refl s) ?_
    intro s' hs' a _
    exact hs'.trans (cacheFilter s' f.etype a.name a.value (toInt a.weight))

theorem callBack (s : MemoryDataStore) (callback : Bool) (e : StoreEvent) :
    SameObjects s (s.callBack callback e) := by
  rw [callBack_eq]
  exact of_mc rfl rfl

theorem insertFilter (s : MemoryDataStore) (f : StoreFilter) (matchFilter callback : Bool) :
    SameObjects s (s.insertFilter f matchFilter callback).2 := by
  unfold MemoryDataStore.insertFilter
  split
  · exact refl s
  · dsimp only
    have hbypass : SameObjects s (s.bypass f) := by
      unfold bypass
      split
      · exact of_mc rfl rfl
      · split
        · exact of_mc rfl rfl
        · exact refl s
    have hdelete : ∀ t : MemoryDataStore, SameObjects t
        (if t.mc.isFilterCached f.etype then (t.deleteFilter f.etype).2 else t) := by
      intro t
      split
      · exact deleteFilter t f.etype
      · exact refl t
    have hcache : ∀ t : MemoryDataStore, SameObjects t
        (if f.getFilterDescription = monitorFilter then t else t.cacheAttributes f) := by
      intro t
      split
      · exact refl t
      · exact cacheAttributes t f
    have hmatch : ∀ t : MemoryDataStore, SameObjects t
        (if matchFilter then t.evaluateDataObjects f.etype else t) := by
      intro t
      split
      · obtain ⟨events, heq, -⟩ := @evaluateDataObjects_eq t f.etype
        rw [heq]
        exact of_mc rfl rfl
      · exact refl t
    exact hbypass.trans ((hdelete _).trans ((hcache _).trans ((callBack _ _ _).trans (hmatch _))))

theorem insertNode (s : MemoryDataStore) (node : AbstractNode) (callback : Bool) :
    SameObjects s (s.insertNode node callback).2 := by
  unfold MemoryDataStore.insertNode
  split
  · exact refl s
  · dsimp only
    have huncache : SameObjects s
        { s with
          mc := if s.mc.isNodeCached node.id then (s.mc.unCacheNode node.id).getD s.mc else s.mc } := by
      split
      · exact @of_op s (.unCacheNode node.id) (fun _ => rfl)
      · exact refl s
    exact huncache.trans ((@of_op _ (.cacheNode node) (fun _ => rfl)).trans (callBack _ _ _))

theorem deleteNode (s : MemoryDataStore) (nodeId : CString) :
    SameObjects s (s.deleteNode nodeId).2 := by
  have huncache := @of_op s (.unCacheNode nodeId) (fun _ => rfl)
  unfold MemoryDataStore.deleteNode
  unfold MemoryCache.step at huncache
  dsimp only at huncache
  cases hmc : s.mc.unCacheNode nodeId with
  | none => exact refl s
  | some mc =>
      rw [hmc] at huncache
      exact huncache

theorem isStored {s s' : MemoryDataStore} (h : SameObjects s s') (hmc : Reached s.mc)
    (id : CString) : s'.IsStored id ↔ s.IsStored id := by
  unfold IsStored MemoryCache.isDataObjectCached
  rw [h.find hmc id]

end SameObjects

variable {dObj : StoreObject}
variable {w : MemoryDataStore × Set CString}

/-! ## Deletions and insertions -/

theorem reached_deleteDataObjectHelper (h : Reached s.mc) (id : CString) (report keep : Bool) :
    Reached (s.deleteDataObjectHelper id report keep).2.mc := by
  rw [mc_deleteDataObjectHelper]
  exact h.step (.unCacheDataObject id)

@[simp] theorem dataObject_deleteDataObjectHelper (id : CString) (report keep : Bool) :
    (s.deleteDataObjectHelper id report keep).2.dataObject = s.dataObject := by
  unfold deleteDataObjectHelper
  cases s.mc.unCacheDataObject id with
  | none => rfl
  | some mc =>
      dsimp only
      split
      · rfl
      · rfl

/-- The store takes an object like any other. -/
def Storable (cfg : StoreSettings) (dObj : StoreObject) : Prop :=
  (cfg.inMemoryNodeDescriptions && dObj.isNodeDescription) = false

theorem storable_of_other (h : dObj.isNodeDescription = false) : Storable cfg dObj := by
  unfold Storable
  rw [h, Bool.and_false]

theorem deleteDataObject_eq (h : Storable cfg dObj) (report keep : Bool) :
    s.deleteDataObject cfg dObj report keep = s.deleteDataObjectHelper dObj.id report keep := by
  unfold deleteDataObject
  rw [h]
  rfl

/-- Several deletions take out their ids, and no object behind an id changes. -/
theorem deleteDataObjects_spec {dObjs : List StoreObject} (hmc : Reached s.mc)
    (h : ∀ dObj ∈ dObjs, Storable cfg dObj) (report : Bool) :
    Reached (s.deleteDataObjects cfg dObjs report).mc ∧
      (s.deleteDataObjects cfg dObjs report).dataObject = s.dataObject ∧
      ∀ id, (s.deleteDataObjects cfg dObjs report).IsStored id ↔
        s.IsStored id ∧ ∀ dObj ∈ dObjs, dObj.id ≠ id := by
  unfold deleteDataObjects
  induction dObjs generalizing s with
  | nil => exact ⟨hmc, rfl, fun id => by simp⟩
  | cons dObj dObjs ih =>
      rw [List.foldl_cons, deleteDataObject_eq (h dObj List.mem_cons_self)]
      have hnext := ih (reached_deleteDataObjectHelper hmc dObj.id report false)
        (fun d hd => h d (List.mem_cons_of_mem _ hd))
      refine ⟨hnext.1, hnext.2.1.trans (dataObject_deleteDataObjectHelper _ _ _), fun id => ?_⟩
      rw [hnext.2.2, isStored_deleteDataObjectHelper hmc, List.forall_mem_cons]
      exact ⟨fun ⟨⟨hne, hs⟩, hrest⟩ => ⟨hs, hne.symm, hrest⟩,
        fun ⟨hs, hne, hrest⟩ => ⟨⟨hne.symm, hs⟩, hrest⟩⟩

theorem reached_cacheDataObject (h : Reached s.mc) (dObj : StoreObject) :
    Reached (s.cacheDataObject dObj).mc := h.step (.cacheDataObject dObj.abstract)

/-- An object is cached and matched: it stays if it is persistent, or its id goes. -/
theorem storeAndMatch_spec (hmc : Reached s.mc) {dObj : StoreObject} (h : Storable cfg dObj)
    (callback : Bool) :
    Reached (s.storeAndMatch cfg dObj callback).store.mc ∧
      (s.storeAndMatch cfg dObj callback).store.dataObject =
        (s.cacheDataObject dObj).dataObject ∧
      (s.storeAndMatch cfg dObj callback).dObj = dObj ∧
      ∀ id, (s.storeAndMatch cfg dObj callback).store.IsStored id ↔
        if dObj.isPersistent then id = dObj.id ∨ s.IsStored id
        else id ≠ dObj.id ∧ s.IsStored id := by
  have hcached := reached_cacheDataObject hmc dObj
  unfold storeAndMatch
  dsimp only
  rw [evaluateFilters_eq, callBack_eq]
  cases hp : dObj.isPersistent with
  | true =>
      refine ⟨hcached, rfl, rfl, fun id => ?_⟩
      rw [if_neg (by simp), isStored_more, isStored_more, isStored_cacheDataObject hmc,
        if_pos rfl]
  | false =>
      have hmatched : Reached ((s.cacheDataObject dObj).more
          (((s.cacheDataObject dObj).matchedFilters cfg dObj).map (filterEvent dObj))).mc := hcached
      rw [if_pos (by simp), deleteDataObject_eq h]
      refine ⟨reached_deleteDataObjectHelper hmatched dObj.id false false,
        dataObject_deleteDataObjectHelper _ _ _, rfl, fun id => ?_⟩
      rw [isStored_more, isStored_deleteDataObjectHelper hmatched, isStored_more,
        isStored_cacheDataObject hmc, if_neg (by simp)]
      exact ⟨fun ⟨hne, hor⟩ => ⟨hne, hor.resolve_left hne⟩, fun ⟨hne, hs⟩ => ⟨hne, Or.inr hs⟩⟩

/-! ## The law -/

/-- What the calls below may rely on: descriptions are not among the objects. -/
structure Sound (s : MemoryDataStore) : Prop where
  reached : Reached s.mc
  behind : ∀ id dObj, s.dataObject id = some dObj → dObj.isNodeDescription = false

theorem Sound.same {s' : MemoryDataStore} (h : Sound s) (hsame : SameObjects s s') : Sound s' :=
  ⟨hsame.reached h.reached, fun id dObj hd => h.behind id dObj (hsame.dataObject ▸ hd)⟩

theorem Sound.delete (h : Sound s) (id : CString) (report keep : Bool) :
    Sound (s.deleteDataObjectHelper id report keep).2 :=
  ⟨reached_deleteDataObjectHelper h.reached id report keep, fun id' dObj hd =>
    h.behind id' dObj ((dataObject_deleteDataObjectHelper _ _ _) ▸ hd)⟩

theorem Sound.storeAndMatch (h : Sound s) (hother : dObj.isNodeDescription = false)
    (callback : Bool) : Sound (s.storeAndMatch cfg dObj callback).store := by
  obtain ⟨hmc, hdo, -, -⟩ :=
    @storeAndMatch_spec s cfg h.reached dObj (storable_of_other hother) callback
  refine ⟨hmc, fun id d hd => ?_⟩
  rw [hdo] at hd
  unfold cacheDataObject at hd
  dsimp only at hd
  split at hd
  · exact Option.some.inj hd ▸ hother
  · exact h.behind id d hd

/-- The aged objects are no descriptions. -/
theorem Sound.aged (h : Sound s) {now minimumAge : Timeval}
    (hmem : dObj ∈ s.getDataObjectsToAge now minimumAge) : dObj.isNodeDescription = false := by
  have hfilter := List.mem_of_mem_take hmem
  obtain ⟨ad, -, hd⟩ := List.mem_filterMap.mp (List.mem_of_mem_filter hfilter)
  exact h.behind ad.id dObj hd

/-- The ids that are to be stored after a call, if `live` are before. -/
def due (cfg : StoreSettings) (s : MemoryDataStore) (live : Set CString) : Call → Set CString
  | .insertDataObject dObj _ _ => if dObj.isPersistent then insert dObj.id live else live
  | .deleteDataObjectId id _ _ => {id' | id' ≠ id ∧ id' ∈ live}
  | .deleteDataObject dObj _ _ => {id | id ≠ dObj.id ∧ id ∈ live}
  | .ageDataObjects now minimumAge callback keepInBloomfilter =>
      {id | id ∈ live ∧
        ∀ dObj ∈ (s.ageDataObjects cfg now minimumAge callback keepInBloomfilter).1, dObj.id ≠ id}
  | .insertFilter _ _ _ => live
  | .deleteFilter _ => live
  | .insertNode _ _ => live
  | .deleteNode _ => live

/-- A call of the store, and what is to be stored then. -/
def lawStep (cfg : StoreSettings) (w : MemoryDataStore × Set CString) (call : Call) :
    MemoryDataStore × Set CString :=
  (w.1.step cfg call, due cfg w.1 w.2 call)

/-- A call does what it is to do. -/
structure Lawful (cfg : StoreSettings) (w : MemoryDataStore × Set CString) (call : Call) :
    Prop where
  stored : ∀ id, (w.1.step cfg call).IsStored id ↔ id ∈ due cfg w.1 w.2 call
  transient : ∀ dObj callback report, call = .insertDataObject dObj callback report →
    dObj.isPersistent = false → ∀ id, (w.1.step cfg call).IsStored id ↔ w.1.IsStored id
  marked : ∀ dObj callback report, call = .insertDataObject dObj callback report →
    ((w.1.insertDataObject cfg dObj callback report).dObj.isDuplicate = true ↔
      dObj.isDuplicate = true ∨ w.1.IsStored dObj.id)

/-- For any other call, what is stored is all there is to it. -/
theorem lawful_of_stored {call : Call}
    (hcall : ∀ dObj callback report, call ≠ .insertDataObject dObj callback report)
    (hstored : ∀ id, (w.1.step cfg call).IsStored id ↔ id ∈ due cfg w.1 w.2 call) :
    Lawful cfg w call :=
  ⟨hstored, fun dObj callback report heq => absurd heq (hcall dObj callback report),
    fun dObj callback report heq => absurd heq (hcall dObj callback report)⟩

/-- No description goes in or is deleted. -/
def Other : Call → Prop
  | .insertDataObject dObj _ _ => dObj.isNodeDescription = false
  | .deleteDataObject dObj _ _ => dObj.isNodeDescription = false
  | _ => True

/-- An object that is not persistent comes with an id that is not stored. -/
def Fits (s : MemoryDataStore) : Call → Prop
  | .insertDataObject dObj _ _ => dObj.isPersistent = true ∨ ¬ s.IsStored dObj.id
  | _ => True

/-- The insertion of an object that is no description, by what is stored and by persistence. -/
theorem insertDataObject_spec (h : Sound s) {dObj : StoreObject}
    (hother : dObj.isNodeDescription = false) (callback report : Bool) :
    Sound (s.insertDataObject cfg dObj callback report).store ∧
      ((s.insertDataObject cfg dObj callback report).dObj.isDuplicate = true ↔
        dObj.isDuplicate = true ∨ dObj.isPersistent = true ∧ s.IsStored dObj.id) ∧
      ∀ id, (s.insertDataObject cfg dObj callback report).store.IsStored id ↔
        if dObj.isPersistent then id = dObj.id ∨ s.IsStored id
        else id ≠ dObj.id ∧ s.IsStored id := by
  have hstorable : Storable cfg dObj := storable_of_other hother
  unfold insertDataObject
  rw [if_neg (by rw [hother]; exact Bool.false_ne_true)]
  unfold insertOther
  by_cases hstored : s.mc.isDataObjectCached dObj.id = true
  · rw [if_pos hstored]
    cases hp : dObj.isPersistent with
    | true =>
        -- a duplicate: nothing happens but the mark
        rw [if_neg (by simp)]
        dsimp only
        rw [callBack_eq]
        refine ⟨⟨h.reached, h.behind⟩, ?_, fun id => ?_⟩
        · exact ⟨fun _ => Or.inr ⟨rfl, hstored⟩, fun _ => rfl⟩
        · rw [isStored_more, if_pos rfl]
          exact ⟨Or.inr, fun hor => hor.elim (fun heq => heq ▸ hstored) (fun hs => hs)⟩
    | false =>
        -- the stored object goes, and then the new one
        rw [if_pos (by simp), deleteDataObject_eq hstorable]
        have hdeleted := h.delete dObj.id false false
        obtain ⟨-, -, hsame, hspec⟩ := storeAndMatch_spec hdeleted.reached hstorable callback
        refine ⟨hdeleted.storeAndMatch hother callback, ?_, fun id => ?_⟩
        · rw [hsame]
          exact ⟨Or.inl, fun hor => hor.elim (fun hd => hd) (fun hand => nomatch hand.1)⟩
        · rw [hspec, hp, if_neg (by simp), if_neg (by simp),
            isStored_deleteDataObjectHelper h.reached]
          exact ⟨fun ⟨hne, _, hs⟩ => ⟨hne, hs⟩, fun ⟨hne, hs⟩ => ⟨hne, hne, hs⟩⟩
  · rw [if_neg hstored]
    obtain ⟨-, -, hsame, hspec⟩ := storeAndMatch_spec h.reached hstorable callback
    refine ⟨h.storeAndMatch hother callback, ?_, hspec⟩
    rw [hsame]
    exact ⟨Or.inl, fun hor => hor.elim (fun hd => hd) (fun hand => absurd hand.2 hstored)⟩

/-- **One call is lawful exactly when it fits**, and a fitting call leaves what is due. -/
theorem lawful_iff (h : Sound w.1) (hlive : ∀ id, w.1.IsStored id ↔ id ∈ w.2) {call : Call}
    (hother : Other call) : Sound (w.1.step cfg call) ∧ (Lawful cfg w call ↔ Fits w.1 call) := by
  cases call with
  | insertDataObject dObj callback report =>
      obtain ⟨hsound, hmark, hspec⟩ := @insertDataObject_spec w.1 cfg h dObj hother callback report
      refine ⟨hsound, fun hlaw => ?_, fun hfits => ?_⟩
      · by_cases hp : dObj.isPersistent = true
        · exact Or.inl hp
        · -- what the insertion takes out was there before
          refine Or.inr (fun hstored => ?_)
          have hkept := (hlaw.transient dObj callback report rfl (by simpa using hp) dObj.id).mpr
            hstored
          have hgone := (hspec dObj.id).mp hkept
          rw [if_neg hp] at hgone
          exact hgone.1 rfl
      · refine ⟨fun id => ?_, ?_, ?_⟩
        · change (w.1.insertDataObject cfg dObj callback report).store.IsStored id ↔ _
          rw [hspec]
          unfold due
          dsimp only
          split
          · rw [Set.mem_insert_iff, hlive]
          · next hp =>
              have hnew : ¬ w.1.IsStored dObj.id := hfits.resolve_left hp
              rw [← hlive]
              exact ⟨And.right, fun hs => ⟨fun heq => hnew (heq ▸ hs), hs⟩⟩
        · intro dObj' callback' report' heq hp id
          obtain ⟨rfl, rfl, rfl⟩ := Call.insertDataObject.inj heq
          have hnew : ¬ w.1.IsStored dObj.id := hfits.resolve_left (by simp [hp])
          change (w.1.insertDataObject cfg dObj callback report).store.IsStored id ↔ _
          rw [hspec, if_neg (by simp [hp])]
          exact ⟨And.right, fun hs => ⟨fun hsame => hnew (hsame ▸ hs), hs⟩⟩
        · intro dObj' callback' report' heq
          obtain ⟨rfl, rfl, rfl⟩ := Call.insertDataObject.inj heq
          rw [hmark]
          refine or_congr_right ⟨And.right, fun hs => ⟨?_, hs⟩⟩
          exact hfits.resolve_right (fun hnew => hnew hs)
  | deleteDataObjectId id report keep =>
      refine ⟨h.delete id report keep, fun _ => trivial,
        fun _ => lawful_of_stored (by simp) (fun id' => ?_)⟩
      change (w.1.deleteDataObjectHelper id report keep).2.IsStored id' ↔ _
      rw [isStored_deleteDataObjectHelper h.reached, hlive]
      rfl
  | deleteDataObject dObj report keep =>
      have hdelete : w.1.step cfg (.deleteDataObject dObj report keep) =
          (w.1.deleteDataObjectHelper dObj.id report keep).2 :=
        congrArg Prod.snd (deleteDataObject_eq (storable_of_other hother) report keep)
      rw [hdelete]
      refine ⟨h.delete dObj.id report keep, fun _ => trivial,
        fun _ => lawful_of_stored (by simp) (fun id => ?_)⟩
      rw [hdelete, isStored_deleteDataObjectHelper h.reached, hlive]
      rfl
  -- ageing is a deletion of several objects, and the call back changes none
  | ageDataObjects now minimumAge callback keep =>
      obtain ⟨hmc, hdo, hspec⟩ := @deleteDataObjects_spec w.1 cfg
        (w.1.getDataObjectsToAge now minimumAge) h.reached
        (fun dObj hd => storable_of_other (h.aged hd)) false
      have hsame : SameObjects
          (w.1.deleteDataObjects cfg (w.1.getDataObjectsToAge now minimumAge) false)
          (w.1.step cfg (.ageDataObjects now minimumAge callback keep)) :=
        @SameObjects.trans _ (MemoryDataStore.addEvent _ _) _ (SameObjects.of_mc rfl rfl)
          (SameObjects.callBack _ callback _)
      have hsound : Sound
          (w.1.deleteDataObjects cfg (w.1.getDataObjectsToAge now minimumAge) false) :=
        ⟨hmc, fun id dObj hd => h.behind id dObj (hdo ▸ hd)⟩
      refine ⟨hsound.same hsame, fun _ => trivial, fun _ => lawful_of_stored (by simp) (fun id => ?_)⟩
      rw [hsame.isStored hmc, hspec, hlive]
      rfl
  -- filters and nodes leave the objects as they are
  | insertFilter f matchFilter callback =>
      have hsame := SameObjects.insertFilter w.1 f matchFilter callback
      refine ⟨h.same hsame, fun _ => trivial, fun _ => lawful_of_stored (by simp) (fun id => ?_)⟩
      exact (hsame.isStored h.reached id).trans (hlive id)
  | deleteFilter eventtype =>
      have hsame := SameObjects.deleteFilter w.1 eventtype
      refine ⟨h.same hsame, fun _ => trivial, fun _ => lawful_of_stored (by simp) (fun id => ?_)⟩
      exact (hsame.isStored h.reached id).trans (hlive id)
  | insertNode node callback =>
      have hsame := SameObjects.insertNode w.1 node callback
      refine ⟨h.same hsame, fun _ => trivial, fun _ => lawful_of_stored (by simp) (fun id => ?_)⟩
      exact (hsame.isStored h.reached id).trans (hlive id)
  | deleteNode nodeId =>
      have hsame := SameObjects.deleteNode w.1 nodeId
      refine ⟨h.same hsame, fun _ => trivial, fun _ => lawful_of_stored (by simp) (fun id => ?_)⟩
      exact (hsame.isStored h.reached id).trans (hlive id)

instance decidableFits (s : MemoryDataStore) : ∀ call, Decidable (s.Fits call)
  | .insertDataObject dObj _ _ =>
      inferInstanceAs (Decidable (dObj.isPersistent = true ∨ ¬ s.IsStored dObj.id))
  | .deleteDataObjectId _ _ _ => isTrue trivial
  | .deleteDataObject _ _ _ => isTrue trivial
  | .ageDataObjects _ _ _ _ => isTrue trivial
  | .insertFilter _ _ _ => isTrue trivial
  | .deleteFilter _ => isTrue trivial
  | .insertNode _ _ => isTrue trivial
  | .deleteNode _ => isTrue trivial

/--
**The law of the store.** In a run without node descriptions, every call leaves exactly the
ids that are due, an object that is not persistent changes nothing, and the objects that are
stored already are the ones marked as duplicates, exactly when no object that is not
persistent comes with an id that is stored.
-/
theorem store_law_iff (cfg : StoreSettings) (enableCompaction : Bool) (calls : List Call)
    (hother : ∀ call ∈ calls, Other call) :
    (∀ pre call post, calls = pre ++ call :: post →
      Lawful cfg (pre.foldl (lawStep cfg) (new enableCompaction, ∅)) call) ↔
      Guarded (fun s call => some (s.step cfg call)) Fits (new enableCompaction) calls := by
  rw [← guarded_foldl_iff (lawStep cfg) (Lawful cfg) calls (new enableCompaction, ∅)]
  -- what is stored steps on its own
  have hpart := @guarded_part MemoryDataStore Call (MemoryDataStore × Set CString)
    (lawStep cfg) (step cfg) Prod.fst Fits (fun _ _ => rfl) calls (new enableCompaction, ∅)
  rw [← hpart]
  refine guarded_congr_of (P := fun w : MemoryDataStore × Set CString =>
    Sound w.1 ∧ ∀ id, w.1.IsStored id ↔ id ∈ w.2) ?_ ?_ calls _ hother ?_
  · intro w call h hcall
    exact (lawful_iff h.1 h.2 hcall).2
  · intro w call w' h hcall hlaw heq
    obtain rfl := Option.some.inj heq
    exact ⟨(lawful_iff h.1 h.2 hcall).1, hlaw.stored⟩
  · refine ⟨⟨⟨enableCompaction, [], rfl⟩, fun id dObj hd => nomatch hd⟩, fun id => ?_⟩
    exact ⟨fun hs => absurd hs (not_isStored_new enableCompaction id),
      fun hmem => (Set.notMem_empty id hmem).elim⟩

/-! ## A run that is lawful and one that is not -/

/-- Descriptions are kept in memory only; no id is computed anew. -/
def plainSettings : StoreSettings where
  inMemoryNodeDescriptions := true
  noNodeDescriptionAttribute := false
  calcId := StoreObject.id

/-- Descriptions are stored, with their attribute. -/
def storingSettings : StoreSettings where
  inMemoryNodeDescriptions := false
  noNodeDescriptionAttribute := false
  calcId := StoreObject.id

/-- A data object without attributes. -/
def plainObject (id : CString) (isPersistent : Bool) : StoreObject where
  id := id
  attributes := []
  isNodeDescription := false
  node := none
  createTime := Timeval.invalid
  receiveTime := Timeval.invalid
  isPersistent := isPersistent
  isDuplicate := false

/-- An object is stored, and then another that does not stay. -/
def lawfulRun : List Call :=
  [.insertDataObject (plainObject [1] true) false true,
    .insertDataObject (plainObject [2] false) false true]

theorem store_law_transient_other :
    Lawful plainSettings
      ((lawfulRun.take 1).foldl (lawStep plainSettings) (new true, ∅))
      (.insertDataObject (plainObject [2] false) false true) :=
  (store_law_iff plainSettings true lawfulRun
    (List.forall_mem_cons.mpr ⟨rfl, List.forall_mem_singleton.mpr rfl⟩)).mpr
      (by decide +kernel) (lawfulRun.take 1) _ [] rfl

/-- A copy of a stored object that is not persistent takes it out. -/
theorem transient_copy_deletes :
    ¬ ∀ pre call post,
      [Call.insertDataObject (plainObject [1] true) false true,
        .insertDataObject (plainObject [1] false) false true] = pre ++ call :: post →
      Lawful plainSettings (pre.foldl (lawStep plainSettings) (new true, ∅)) call := by
  intro hall
  have hlaw := hall [.insertDataObject (plainObject [1] true) false true]
    (.insertDataObject (plainObject [1] false) false true) [] rfl
  have hkept := (hlaw.transient (plainObject [1] false) false true rfl rfl [1]).mpr
    (by decide +kernel)
  revert hkept
  decide +kernel

end MemoryDataStore

end Encoders.Store
