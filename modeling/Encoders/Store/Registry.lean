import Encoders.Store.StoreLaw

/-!
# The filters of the data store

A filter that was inserted and not deleted since is live. One that asks for node descriptions
is to be in the list of such filters and in the cache, a monitor filter in the monitor slot if
it is the latest, any other in the cache; and an event is raised for live filters only.

`_insertFilter` writes to the list or the slot first and then deletes what the cache has under
the event type, and `_deleteFilter` stops at the first of the three places where it finds it.
So an event type must not change places: the filters are where they are to be in every run in
which no filter that asks for node descriptions is deleted or inserted again, the monitor
filter in the slot is not replaced by one of another kind under its event type, nor another
kind by a monitor filter, and the slot is not cleared while an older monitor filter is live.
The largest event type cannot be cached at all.
-/

namespace Encoders.Store

open Encoders.Lib Encoders.Container Encoders.Data

/-! ## What is live -/

/-- Where a filter is to be. -/
inductive FilterKind where
  | nodeDescription
  | monitor
  | other
deriving DecidableEq

/-- The kind of a filter, by its description. -/
def StoreFilter.kind (f : StoreFilter) : FilterKind :=
  if f.getFilterDescription = MemoryDataStore.nodeDescriptionFilter then .nodeDescription
  else if f.getFilterDescription = MemoryDataStore.monitorFilter then .monitor
  else .other

/-- A live filter. -/
structure Registration where
  etype : Int
  kind : FilterKind
deriving DecidableEq

/-- The live filters, the latest first. -/
abbrev Live := List Registration

namespace Live

/-- Everything but an event type. -/
def without (live : Live) (etype : Int) : Live := live.filter (fun r => r.etype ≠ etype)

/-- The latest monitor filter, or `-1`. -/
def latestMonitor (live : Live) : Int :=
  ((live.find? (fun r => r.kind = .monitor)).map Registration.etype).getD (-1)

/-- What is live after a call. -/
def step (live : Live) : MemoryDataStore.Call → Live
  | .insertFilter f _ _ =>
      if f.etype < 0 then live else ⟨f.etype, f.kind⟩ :: live.without f.etype
  | .deleteFilter eventtype => live.without eventtype
  | _ => live

theorem mem_without {live : Live} {etype : Int} {r : Registration} :
    r ∈ live.without etype ↔ r ∈ live ∧ r.etype ≠ etype := by
  unfold without
  rw [List.mem_filter, decide_eq_true_eq]

theorem latestMonitor_cons (live : Live) (etype : Int) (kind : FilterKind) :
    latestMonitor (⟨etype, kind⟩ :: live) =
      if kind = .monitor then etype else live.latestMonitor := by
  unfold latestMonitor
  rw [List.find?_cons]
  by_cases hkind : kind = .monitor
  · rw [if_pos hkind, decide_eq_true hkind]
    rfl
  · rw [if_neg hkind, decide_eq_false hkind]

/-- The slot names a live monitor filter or none. -/
theorem latestMonitor_mem (live : Live) :
    live.latestMonitor = -1 ∨ ⟨live.latestMonitor, .monitor⟩ ∈ live := by
  unfold latestMonitor
  cases hfind : live.find? (fun r => r.kind = .monitor) with
  | none => exact Or.inl rfl
  | some r =>
      have hkind : r.kind = .monitor := by simpa using List.find?_some hfind
      refine Or.inr ?_
      rw [Option.map_some, Option.getD_some, ← hkind]
      exact List.mem_of_find?_eq_some hfind

/-- With a live monitor filter, the slot has one. -/
theorem latestMonitor_of_mem {live : Live} {r : Registration} (hr : r ∈ live)
    (hkind : r.kind = .monitor) : ⟨live.latestMonitor, .monitor⟩ ∈ live := by
  unfold latestMonitor
  cases hfind : live.find? (fun r => r.kind = .monitor) with
  | none => exact absurd (decide_eq_true hkind) (List.find?_eq_none.mp hfind r hr)
  | some m =>
      have hm : m.kind = .monitor := by simpa using List.find?_some hfind
      rw [Option.map_some, Option.getD_some, ← hm]
      exact List.mem_of_find?_eq_some hfind

/-- Taking another event type out does not change the latest monitor filter. -/
theorem latestMonitor_without {live : Live} {etype : Int} (h : live.latestMonitor ≠ etype) :
    (live.without etype).latestMonitor = live.latestMonitor := by
  induction live with
  | nil => rfl
  | cons r live ih =>
      obtain ⟨e, kind⟩ := r
      rw [latestMonitor_cons] at h ⊢
      by_cases hkind : kind = .monitor
      · rw [if_pos hkind] at h ⊢
        unfold without
        rw [List.filter_cons_of_pos (by simpa using h), latestMonitor_cons, if_pos hkind]
      · rw [if_neg hkind] at h ⊢
        rw [← ih h]
        unfold without
        by_cases he : e = etype
        · rw [List.filter_cons_of_neg (by simpa using he)]
        · rw [List.filter_cons_of_pos (by simpa using he), latestMonitor_cons, if_neg hkind]

/-- `LONG_MAX`, the first id that the cache gives to its own filters. -/
def firstTemporary : Int := 9223372036854775807

/-- What the calls keep true of the live filters. -/
structure Kept (live : Live) : Prop where
  unique : ∀ r ∈ live, ∀ r' ∈ live, r.etype = r'.etype → r = r'
  nonneg : ∀ r ∈ live, 0 ≤ r.etype
  cacheable : ∀ r ∈ live, r.kind ≠ .monitor → r.etype ≠ firstTemporary

/-- Without an event type, the slot is empty or has another. -/
theorem latestMonitor_without_ne {live : Live} {e : Int} (he : 0 ≤ e) :
    (live.without e).latestMonitor ≠ e := by
  intro heq
  rcases (live.without e).latestMonitor_mem with hnone | hmem
  · omega
  · exact (mem_without.mp hmem).2 heq

/-- What the live filters are once one more is inserted. -/
theorem Kept.insert {live : Live} (h : live.Kept) {e : Int} {kind : FilterKind} (he : 0 ≤ e)
    (hcacheable : kind ≠ .monitor → e ≠ firstTemporary) :
    Kept (⟨e, kind⟩ :: live.without e) where
  unique := by
    intro r hr r' hr' heq
    rcases List.mem_cons.mp hr with rfl | hr
    · rcases List.mem_cons.mp hr' with rfl | hr'
      · rfl
      · exact absurd heq.symm (mem_without.mp hr').2
    · rcases List.mem_cons.mp hr' with rfl | hr'
      · exact absurd heq (mem_without.mp hr).2
      · exact h.unique r (mem_without.mp hr).1 r' (mem_without.mp hr').1 heq
  nonneg := by
    intro r hr
    rcases List.mem_cons.mp hr with rfl | hr
    · exact he
    · exact h.nonneg r (mem_without.mp hr).1
  cacheable := by
    intro r hr hkind
    rcases List.mem_cons.mp hr with rfl | hr
    · exact hcacheable hkind
    · exact h.cacheable r (mem_without.mp hr).1 hkind

theorem Kept.without {live : Live} (h : live.Kept) (e : Int) : (live.without e).Kept where
  unique := fun r hr r' hr' =>
    h.unique r (mem_without.mp hr).1 r' (mem_without.mp hr').1
  nonneg := fun r hr => h.nonneg r (mem_without.mp hr).1
  cacheable := fun r hr => h.cacheable r (mem_without.mp hr).1

end Live

namespace MemoryDataStore

variable {cfg : StoreSettings} {s s' : MemoryDataStore}

/-! ## Calls about objects and nodes -/

/-- The filter is in one of the three places. -/
def HasFilter (s : MemoryDataStore) (etype : Int) : Prop :=
  etype ∈ s.ndFilters ∨ (0 ≤ s.monitorFilterEventType ∧ etype = s.monitorFilterEventType) ∨
    s.mc.isFilterCached etype = true

/-- The three places are the same. -/
structure SameFilters (s s' : MemoryDataStore) : Prop where
  ndFilters : s'.ndFilters = s.ndFilters
  monitor : s'.monitorFilterEventType = s.monitorFilterEventType
  cached : ∀ etype, s'.mc.isFilterCached etype = s.mc.isFilterCached etype
  available : s'.mc.availableFilterId = s.mc.availableFilterId

namespace SameFilters

theorem refl (s : MemoryDataStore) : SameFilters s s := ⟨rfl, rfl, fun _ => rfl, rfl⟩

theorem trans {s s' s'' : MemoryDataStore} (h : SameFilters s s') (h' : SameFilters s' s'') :
    SameFilters s s'' :=
  ⟨h'.ndFilters.trans h.ndFilters, h'.monitor.trans h.monitor,
    fun etype => (h'.cached etype).trans (h.cached etype), h'.available.trans h.available⟩

theorem more (s : MemoryDataStore) (events : List StoreEvent) : SameFilters s (s.more events) :=
  ⟨rfl, rfl, fun _ => rfl, rfl⟩

theorem hasFilter_iff (h : SameFilters s s') (etype : Int) :
    s'.HasFilter etype ↔ s.HasFilter etype := by
  unfold HasFilter
  rw [h.ndFilters, h.monitor, h.cached]

/-- A cache with the same attributes of filters. -/
theorem of_mc {mc : MemoryCache} {dataObject : CString → Option StoreObject}
    {events : List StoreEvent}
    (hvalues : ∀ etype, mc.filterIdToAttribute.values etype =
      s.mc.filterIdToAttribute.values etype)
    (havailable : mc.availableFilterId = s.mc.availableFilterId) :
    SameFilters s { s with mc := mc, dataObject := dataObject, events := events } := by
  refine ⟨rfl, rfl, fun etype => ?_, havailable⟩
  unfold MemoryCache.isFilterCached Table.find
  rw [hvalues]

end SameFilters

section Cache

variable {mc : MemoryCache}

theorem attributes_compact (etype : Int) :
    mc.compact.filterIdToAttribute.values etype = mc.filterIdToAttribute.values etype := by
  unfold MemoryCache.compact
  split
  · exact Table.values_compact _ _
  · rfl

theorem attributes_unCacheDataObject (id : CString) (etype : Int) :
    ((mc.unCacheDataObject id).getD mc).filterIdToAttribute.values etype =
      mc.filterIdToAttribute.values etype := by
  unfold MemoryCache.unCacheDataObject
  cases mc.doIdToDo.find id with
  | none => rfl
  | some ad => exact attributes_compact etype

theorem attributes_cacheDataObject (ad : AbstractDataObject) (etype : Int) :
    (mc.cacheDataObject ad).filterIdToAttribute.values etype =
      mc.filterIdToAttribute.values etype := by
  unfold MemoryCache.cacheDataObject
  split
  · exact attributes_unCacheDataObject ad.id etype
  · rfl

theorem attributes_unCacheNode (id : CString) (etype : Int) :
    ((mc.unCacheNode id).getD mc).filterIdToAttribute.values etype =
      mc.filterIdToAttribute.values etype := by
  unfold MemoryCache.unCacheNode
  cases mc.nodeIdToNode.find id with
  | none => rfl
  | some node => exact attributes_compact etype

theorem attributes_cacheNode (node : AbstractNode) (etype : Int) :
    (mc.cacheNode node).filterIdToAttribute.values etype =
      mc.filterIdToAttribute.values etype := by
  unfold MemoryCache.cacheNode
  split
  · exact attributes_unCacheNode node.id etype
  · rfl

theorem available_cacheDataObject (ad : AbstractDataObject) :
    (mc.cacheDataObject ad).availableFilterId = mc.availableFilterId := by
  unfold MemoryCache.cacheDataObject
  split
  · exact availableFilterId_unCacheDataObject mc ad.id
  · rfl

theorem available_cacheNode (node : AbstractNode) :
    (mc.cacheNode node).availableFilterId = mc.availableFilterId := by
  unfold MemoryCache.cacheNode
  split
  · exact availableFilterId_unCacheNode mc node.id
  · rfl

/-- A filter without attributes is not satisfied. -/
theorem isFilterCached_of_accept {dobjId : CString} {filterId : Int}
    (h : mc.acceptFilter .double dobjId filterId = true) : mc.isFilterCached filterId = true := by
  unfold MemoryCache.isFilterCached Table.find
  cases hvalues : mc.filterIdToAttribute.values filterId with
  | cons a rest => rfl
  | nil =>
      unfold MemoryCache.acceptFilter MemoryCache.computeFilterSatisfaction
        MemoryCache.filterInterests at h
      rw [hvalues] at h
      cases hf : mc.filters.find filterId with
      | none =>
          rw [hf] at h
          cases h
      | some f =>
          rw [hf] at h
          cases h

/-- Only cached filters match an object. -/
theorem isFilterCached_of_match {dobjId : CString} {filterId : Int}
    (h : filterId ∈ mc.getFiltersForDataObjectId dobjId) : mc.isFilterCached filterId = true := by
  unfold MemoryCache.getFiltersForDataObjectId MemoryCache.getFiltersForDataObjectIdBy at h
  cases hfind : mc.doIdToDo.find dobjId with
  | none =>
      rw [hfind] at h
      cases h
  | some ad =>
      rw [hfind] at h
      dsimp only at h
      have hall : ∀ id ∈ (mc.filterCandidates ad.getAttributes).foldl
          (fun filterIds filterId =>
            if filterId ∉ filterIds ∧ mc.acceptFilter .double dobjId filterId then
              filterIds ++ [filterId]
            else filterIds) [], mc.isFilterCached id = true := by
        refine List.foldlRecOn
          (motive := fun l : List Int => ∀ id ∈ l, mc.isFilterCached id = true)
          (mc.filterCandidates ad.getAttributes) _ (fun id hid => nomatch hid) ?_
        intro l hl candidate _
        split
        · next haccept =>
            intro id hid
            rcases List.mem_append.mp hid with hid | hid
            · exact hl id hid
            · rw [List.mem_singleton.mp hid]
              exact isFilterCached_of_accept haccept.2
        · exact hl
      exact hall filterId h

end Cache

/-- The places of filters are the same, and only filters that are there raise events. -/
structure Quiet (s s' : MemoryDataStore) : Prop where
  same : SameFilters s s'
  events : ∃ events, s'.events = s.events ++ events ∧
    ∀ type dObjs, .filterMatch type dObjs ∈ events →
      ∃ etype, s.HasFilter etype ∧ type = toEventType etype

namespace Quiet

theorem of_same (h : SameFilters s s') (hevents : s'.events = s.events) : Quiet s s' :=
  ⟨h, [], by rw [hevents, List.append_nil], fun _ _ hmem => nomatch hmem⟩

theorem refl (s : MemoryDataStore) : Quiet s s := of_same (SameFilters.refl s) rfl

theorem trans {s s' s'' : MemoryDataStore} (h : Quiet s s') (h' : Quiet s' s'') : Quiet s s'' := by
  obtain ⟨hsame, events, heq, hraised⟩ := h
  obtain ⟨hsame', events', heq', hraised'⟩ := h'
  refine ⟨hsame.trans hsame', events ++ events', ?_, fun type dObjs hmem => ?_⟩
  · rw [heq', heq, List.append_assoc]
  · rcases List.mem_append.mp hmem with hmem | hmem
    · exact hraised type dObjs hmem
    · obtain ⟨etype, hhas, htype⟩ := hraised' type dObjs hmem
      exact ⟨etype, (hsame.hasFilter_iff etype).mp hhas, htype⟩

/-- Events that are not those of filters. -/
theorem more (s : MemoryDataStore) {events : List StoreEvent}
    (h : ∀ type dObjs, .filterMatch type dObjs ∉ events) : Quiet s (s.more events) :=
  ⟨SameFilters.more s events, events, rfl, fun type dObjs hmem => absurd hmem (h type dObjs)⟩

theorem callBack (s : MemoryDataStore) (callback : Bool) {e : StoreEvent}
    (h : ∀ type dObjs, e ≠ .filterMatch type dObjs) : Quiet s (s.callBack callback e) := by
  rw [callBack_eq]
  refine more s (fun type dObjs hmem => ?_)
  split at hmem
  · exact h type dObjs (List.mem_singleton.mp hmem).symm
  · cases hmem

theorem cacheDataObject (s : MemoryDataStore) (dObj : StoreObject) :
    Quiet s (s.cacheDataObject dObj) :=
  of_same (SameFilters.of_mc (attributes_cacheDataObject dObj.abstract)
    (available_cacheDataObject dObj.abstract)) rfl

theorem deleteDataObjectHelper (s : MemoryDataStore) (id : CString) (report keep : Bool) :
    Quiet s (s.deleteDataObjectHelper id report keep).2 := by
  have hvalues := @attributes_unCacheDataObject s.mc id
  have havailable := availableFilterId_unCacheDataObject s.mc id
  unfold MemoryDataStore.deleteDataObjectHelper
  cases hmc : s.mc.unCacheDataObject id with
  | none => exact refl s
  | some mc =>
      rw [hmc] at hvalues havailable
      dsimp only
      split
      · -- the deletion is reported
        have hreported : Quiet s
            (s.more [.dataObjectDeleted (s.getDataObjectFromId id).toList keep]) :=
          more s (by simp)
        refine trans hreported ?_
        exact of_same (SameFilters.of_mc hvalues havailable) rfl
      · exact of_same (SameFilters.of_mc hvalues havailable) rfl

theorem deleteDataObject (s : MemoryDataStore) (dObj : StoreObject) (report keep : Bool) :
    Quiet s (s.deleteDataObject cfg dObj report keep).2 := by
  unfold MemoryDataStore.deleteDataObject
  split
  · exact refl s
  · exact deleteDataObjectHelper s dObj.id report keep

theorem deleteDataObjects (s : MemoryDataStore) (dObjs : List StoreObject) (report : Bool) :
    Quiet s (s.deleteDataObjects cfg dObjs report) := by
  unfold MemoryDataStore.deleteDataObjects
  refine List.foldlRecOn (motive := Quiet s) dObjs _ (refl s) ?_
  intro s' hs' dObj _
  exact hs'.trans (deleteDataObject s' dObj report false)

/-- The filters that an object is matched with are in one of the places. -/
theorem hasFilter_of_matched {dObj : StoreObject} {etype : Int}
    (h : etype ∈ s.matchedFilters cfg dObj) : s.HasFilter etype := by
  unfold matchedFilters at h
  split at h
  · exact Or.inl h
  · rcases List.mem_append.mp h with h | h
    · split at h
      · cases h
      · next hmonitor =>
          rw [Bool.or_eq_true, decide_eq_true_eq, not_or, Int.not_lt] at hmonitor
          exact Or.inr (Or.inl ⟨hmonitor.2, List.mem_singleton.mp h⟩)
    · exact Or.inr (Or.inr (isFilterCached_of_match h))

theorem evaluateFilters (s : MemoryDataStore) (dObj : StoreObject) :
    Quiet s (s.evaluateFilters cfg dObj) := by
  rw [evaluateFilters_eq]
  refine ⟨SameFilters.more s _, _, rfl, fun type dObjs hmem => ?_⟩
  obtain ⟨etype, hetype, heq⟩ := List.mem_map.mp hmem
  exact ⟨etype, hasFilter_of_matched hetype, (StoreEvent.filterMatch.inj heq).1.symm⟩

theorem storeAndMatch (s : MemoryDataStore) (dObj : StoreObject) (callback : Bool) :
    Quiet s (s.storeAndMatch cfg dObj callback).store := by
  have hmatched := (cacheDataObject s dObj).trans
    (@evaluateFilters cfg (s.cacheDataObject dObj) dObj)
  unfold MemoryDataStore.storeAndMatch
  refine trans (trans hmatched ?_) (callBack _ callback (by simp))
  split
  · exact deleteDataObject _ dObj false false
  · exact refl _

theorem insertOther (s : MemoryDataStore) (dobjId : CString) (dObj : StoreObject)
    (callback : Bool) : Quiet s (s.insertOther cfg dobjId dObj callback).store := by
  unfold MemoryDataStore.insertOther
  split
  · split
    · exact (deleteDataObject s dObj false false).trans (storeAndMatch _ dObj callback)
    · exact callBack s callback (by simp)
  · exact storeAndMatch s dObj callback

theorem deleteDataObjectNodeDescriptions (s : MemoryDataStore) (dObj : StoreObject)
    (report : Bool) : Quiet s (s.deleteDataObjectNodeDescriptions cfg dObj report).2 := by
  unfold MemoryDataStore.deleteDataObjectNodeDescriptions
  split
  · exact refl s
  · exact deleteDataObjects s _ report

/-- **Inserting an object leaves the filters alone**, and raises events of filters there are. -/
theorem insertDataObject (s : MemoryDataStore) (dObj : StoreObject) (callback report : Bool) :
    Quiet s (s.insertDataObject cfg dObj callback report).store := by
  unfold MemoryDataStore.insertDataObject
  split
  · split
    · exact (evaluateFilters s dObj).trans (callBack _ callback (by simp))
    · have hdeleted := @deleteDataObjectNodeDescriptions cfg s dObj report
      dsimp only
      split
      · exact hdeleted
      · exact hdeleted.trans (insertOther _ dObj.id _ callback)
  · exact insertOther s dObj.id dObj callback

theorem ageDataObjects (s : MemoryDataStore) (now minimumAge : Timeval) (callback keep : Bool) :
    Quiet s (s.ageDataObjects cfg now minimumAge callback keep).2 := by
  have hdeleted := @deleteDataObjects cfg s (s.getDataObjectsToAge now minimumAge) false
  have hreported := @more (s.deleteDataObjects cfg (s.getDataObjectsToAge now minimumAge) false)
    [.dataObjectDeleted (s.getDataObjectsToAge now minimumAge) keep] (by simp)
  exact (hdeleted.trans hreported).trans (callBack _ callback (by simp))

theorem insertNode (s : MemoryDataStore) (node : AbstractNode) (callback : Bool) :
    Quiet s (s.insertNode node callback).2 := by
  unfold MemoryDataStore.insertNode
  split
  · exact refl s
  · dsimp only
    have hcached : ∀ mc : MemoryCache,
        (∀ etype, mc.filterIdToAttribute.values etype =
          s.mc.filterIdToAttribute.values etype) →
        mc.availableFilterId = s.mc.availableFilterId →
        Quiet s { s with mc := mc.cacheNode node } := by
      intro mc hvalues havailable
      refine of_same (SameFilters.of_mc (fun etype => ?_) ?_) rfl
      · rw [attributes_cacheNode, hvalues]
      · rw [available_cacheNode, havailable]
    refine trans (hcached _ (fun etype => ?_) ?_) (callBack _ callback (by simp))
    · split
      · exact attributes_unCacheNode node.id etype
      · rfl
    · split
      · exact availableFilterId_unCacheNode s.mc node.id
      · rfl

theorem deleteNode (s : MemoryDataStore) (nodeId : CString) : Quiet s (s.deleteNode nodeId).2 := by
  have hvalues := @attributes_unCacheNode s.mc nodeId
  have havailable := availableFilterId_unCacheNode s.mc nodeId
  unfold MemoryDataStore.deleteNode
  cases hmc : s.mc.unCacheNode nodeId with
  | none => exact refl s
  | some mc =>
      rw [hmc] at hvalues havailable
      exact of_same (SameFilters.of_mc hvalues havailable) rfl

end Quiet

/-! ## Calls about filters -/

section Cache

variable {mc : MemoryCache}

theorem isFilterCached_iff {etype : Int} :
    mc.isFilterCached etype = true ↔ mc.filterIdToAttribute.values etype ≠ [] := by
  unfold MemoryCache.isFilterCached Table.find
  cases mc.filterIdToAttribute.values etype with
  | nil => simp
  | cons a l => simp

theorem isFilterCached_cacheFilter (filterId : Int) (key val : CString) (weight etype : Int) :
    ((mc.cacheFilter filterId key val weight).getD mc).isFilterCached etype = true ↔
      etype = filterId ∧ filterId ≠ mc.availableFilterId ∨ mc.isFilterCached etype = true := by
  unfold MemoryCache.cacheFilter
  by_cases havailable : filterId = mc.availableFilterId
  · rw [if_pos havailable, Option.getD_none]
    exact ⟨Or.inr, fun hor => hor.resolve_left (fun hand => hand.2 havailable)⟩
  · rw [if_neg havailable, Option.getD_some, isFilterCached_iff, isFilterCached_iff]
    dsimp only
    rw [Table.values_insert]
    by_cases he : etype = filterId
    · rw [if_pos he]
      exact ⟨fun _ => Or.inl ⟨he, havailable⟩, fun _ => by simp⟩
    · rw [if_neg he]
      exact ⟨Or.inr, fun hor => hor.resolve_left (fun hand => he hand.1)⟩

theorem available_cacheFilter (filterId : Int) (key val : CString) (weight : Int) :
    ((mc.cacheFilter filterId key val weight).getD mc).availableFilterId =
      mc.availableFilterId := by
  unfold MemoryCache.cacheFilter
  split
  · rfl
  · rfl

theorem isFilterCached_unCacheFilter (filterId etype : Int) :
    (mc.unCacheFilter filterId).isFilterCached etype = true ↔
      etype ≠ filterId ∧ mc.isFilterCached etype = true := by
  rw [isFilterCached_iff, isFilterCached_iff]
  unfold MemoryCache.unCacheFilter
  rw [attributes_compact]
  dsimp only
  rw [Table.values_eraseAll]
  by_cases he : etype = filterId
  · rw [if_pos he]
    simp [he]
  · rw [if_neg he]
    exact ⟨fun hne => ⟨he, hne⟩, And.right⟩

end Cache

theorem isFilterCached_cacheAttributes (s : MemoryDataStore) (f : StoreFilter) (etype : Int) :
    (s.cacheAttributes f).mc.isFilterCached etype = true ↔
      etype = f.etype ∧ f.etype ≠ s.mc.availableFilterId ∨ s.mc.isFilterCached etype = true := by
  have hall : ∀ (attrs : List Attribute) (t : MemoryDataStore),
      (attrs.foldl (fun t a => t.cacheFilter f.etype a.name a.value (toInt a.weight))
        t).mc.isFilterCached etype = true ↔
        attrs ≠ [] ∧ etype = f.etype ∧ f.etype ≠ t.mc.availableFilterId ∨
          t.mc.isFilterCached etype = true := by
    intro attrs
    induction attrs with
    | nil => intro t; simp
    | cons a attrs ih =>
        intro t
        have hfirst := @isFilterCached_cacheFilter t.mc f.etype a.name a.value
          (toInt a.weight) etype
        have havailable := @available_cacheFilter t.mc f.etype a.name a.value (toInt a.weight)
        rw [List.foldl_cons, ih]
        unfold cacheFilter
        dsimp only
        rw [hfirst, havailable]
        tauto
  unfold cacheAttributes
  split
  · exact isFilterCached_cacheFilter f.etype [] [] 0 etype
  · next hne =>
      rw [hall f.attributes s]
      simp [hne]

/-- Caching attributes changes neither of the other two places. -/
theorem cacheAttributes_other (s : MemoryDataStore) (f : StoreFilter) :
    (s.cacheAttributes f).ndFilters = s.ndFilters ∧
      (s.cacheAttributes f).monitorFilterEventType = s.monitorFilterEventType ∧
      (s.cacheAttributes f).mc.availableFilterId = s.mc.availableFilterId := by
  unfold cacheAttributes
  split
  · exact ⟨rfl, rfl, available_cacheFilter _ _ _ _⟩
  · refine List.foldlRecOn
      (motive := fun t : MemoryDataStore => t.ndFilters = s.ndFilters ∧
        t.monitorFilterEventType = s.monitorFilterEventType ∧
        t.mc.availableFilterId = s.mc.availableFilterId) f.attributes _ ⟨rfl, rfl, rfl⟩ ?_
    intro t ht a _
    exact ⟨ht.1, ht.2.1, (available_cacheFilter _ _ _ _).trans ht.2.2⟩

/-- What a deletion does: it stops at the first place that has the event type. -/
structure Deleted (s s' : MemoryDataStore) (etype : Int) : Prop where
  ndFilters : s'.ndFilters = s.ndFilters.filter (fun e => e ≠ etype)
  monitor : s'.monitorFilterEventType =
    if etype ∉ s.ndFilters ∧ etype = s.monitorFilterEventType then -1 else s.monitorFilterEventType
  cached : ∀ e, s'.mc.isFilterCached e = true ↔ s.mc.isFilterCached e = true ∧
    (e = etype → etype ∈ s.ndFilters ∨ etype = s.monitorFilterEventType)
  available : s'.mc.availableFilterId = s.mc.availableFilterId

theorem deleteFilter_deleted (s : MemoryDataStore) (etype : Int) :
    Deleted s (s.deleteFilter etype).2 etype := by
  unfold deleteFilter
  by_cases hnd : etype ∈ s.ndFilters
  · rw [if_pos hnd]
    refine ⟨rfl, ?_, fun e => ⟨fun hc => ⟨hc, fun _ => Or.inl hnd⟩, And.left⟩, rfl⟩
    rw [if_neg (fun hand => hand.1 hnd)]
  · have hself : s.ndFilters = s.ndFilters.filter (fun e => e ≠ etype) := by
      refine (List.filter_eq_self.mpr (fun e he => decide_eq_true ?_)).symm
      intro heq
      exact hnd (heq ▸ he)
    rw [if_neg hnd]
    by_cases hm : etype = s.monitorFilterEventType
    · rw [if_pos hm]
      refine ⟨hself, ?_, fun e => ⟨fun hc => ⟨hc, fun _ => Or.inr hm⟩, And.left⟩, rfl⟩
      rw [if_pos ⟨hnd, hm⟩]
    · rw [if_neg hm]
      by_cases hcached : s.mc.isFilterCached etype = true
      · rw [if_neg (by simp [hcached])]
        refine ⟨hself, ?_, fun e => ?_, availableFilterId_compact _⟩
        · rw [if_neg (fun hand => hm hand.2)]
        · rw [isFilterCached_unCacheFilter]
          refine ⟨fun ⟨hne, hc⟩ => ⟨hc, fun heq => absurd heq hne⟩, fun ⟨hc, hplace⟩ => ⟨?_, hc⟩⟩
          exact fun heq => (hplace heq).elim hnd hm
      · rw [if_pos (by simpa using hcached)]
        refine ⟨hself, ?_, fun e => ⟨fun hc => ⟨hc, fun heq => ?_⟩, And.left⟩, rfl⟩
        · rw [if_neg (fun hand => hm hand.2)]
        · exact absurd (heq ▸ hc) hcached

/-- The part of `_insertFilter` that puts the filter in its places. -/
def placeFilter (s : MemoryDataStore) (f : StoreFilter) : MemoryDataStore :=
  let s := s.bypass f
  let s := if s.mc.isFilterCached f.etype then (s.deleteFilter f.etype).2 else s
  if f.getFilterDescription = monitorFilter then s else s.cacheAttributes f

/-- The rest only raises events. -/
theorem insertFilter_same {f : StoreFilter} (h : ¬ f.etype < 0) (matchFilter callback : Bool) :
    SameFilters (s.placeFilter f) (s.insertFilter f matchFilter callback).2 := by
  unfold insertFilter
  rw [if_neg h]
  dsimp only
  rw [callBack_eq]
  change SameFilters _ (if matchFilter = true then
    (((s.placeFilter f).more _).evaluateDataObjects f.etype) else (s.placeFilter f).more _)
  split
  · obtain ⟨events, heq, -⟩ := @evaluateDataObjects_eq ((s.placeFilter f).more
      (if callback = true then [.filterCallback f] else [])) f.etype
    rw [heq]
    exact (SameFilters.more _ _).trans (SameFilters.more _ _)
  · exact SameFilters.more _ _

/-! ## The places and what is live -/

/-- Every live filter is in its places, and nothing else is. -/
structure InPlace (s : MemoryDataStore) (live : Live) : Prop where
  ndFilters : ∀ etype, s.ndFilters.count etype = if ⟨etype, .nodeDescription⟩ ∈ live then 1 else 0
  monitor : s.monitorFilterEventType = live.latestMonitor
  cached : ∀ etype, s.mc.isFilterCached etype = true ↔
    ∃ r ∈ live, r.etype = etype ∧ r.kind ≠ .monitor

/-- The event type of a filter does not change places. -/
def FilterFits (live : Live) : Call → Prop
  | .insertFilter f _ _ =>
      f.etype < 0 ∨
        match f.kind with
        | .nodeDescription =>
            (∀ r ∈ live, r.etype = f.etype → r.kind = .monitor) ∧ live.latestMonitor ≠ f.etype ∧
              f.etype ≠ Live.firstTemporary
        | .monitor => ∀ r ∈ live, r.etype = f.etype → r.kind = .monitor
        | .other => live.latestMonitor ≠ f.etype ∧ f.etype ≠ Live.firstTemporary
  | .deleteFilter eventtype =>
      (∀ r ∈ live, r.etype = eventtype → r.kind ≠ .nodeDescription) ∧
        (live.latestMonitor = eventtype → ∀ r ∈ live, r.kind = .monitor → r.etype = eventtype)
  | _ => True

namespace InPlace

variable {live : Live} {e : Int}

theorem mem_ndFilters (h : InPlace s live) :
    e ∈ s.ndFilters ↔ ⟨e, .nodeDescription⟩ ∈ live := by
  rw [← List.count_pos_iff, h.ndFilters]
  split
  · next hmem => simp [hmem]
  · next hmem => simp [hmem]

/-- A filter that asks for node descriptions is cached. -/
theorem cached_of_nd (h : InPlace s live) (hmem : ⟨e, .nodeDescription⟩ ∈ live) :
    s.mc.isFilterCached e = true :=
  (h.cached e).mpr ⟨_, hmem, rfl, fun heq => nomatch heq⟩

/-- The monitor filter in the slot is not cached. -/
theorem not_cached_of_monitor (h : InPlace s live) (hkept : live.Kept) (he : 0 ≤ e)
    (hslot : live.latestMonitor = e) : ¬ s.mc.isFilterCached e = true := by
  rw [h.cached]
  rintro ⟨r, hr, heq, hkind⟩
  rcases live.latestMonitor_mem with hnone | hmem
  · omega
  · have hsame := hkept.unique r hr _ hmem (heq.trans hslot.symm)
    exact hkind (by rw [hsame])

theorem same (h : InPlace s live) (hsame : SameFilters s s') : InPlace s' live :=
  ⟨fun e => hsame.ndFilters ▸ h.ndFilters e, hsame.monitor.trans h.monitor,
    fun e => by rw [hsame.cached]; exact h.cached e⟩

theorem same_iff (hsame : SameFilters s s') : InPlace s' live ↔ InPlace s live :=
  ⟨fun h => ⟨fun e => hsame.ndFilters ▸ h.ndFilters e, hsame.monitor ▸ h.monitor,
    fun e => by rw [← hsame.cached]; exact h.cached e⟩, fun h => h.same hsame⟩

end InPlace

variable {kind : FilterKind} {w : MemoryDataStore × Live}

/-! ### Deletion -/

theorem count_filter_ne (l : List Int) (e e' : Int) :
    (l.filter (fun x => x ≠ e)).count e' = if e' = e then 0 else l.count e' := by
  by_cases h : e' = e
  · rw [if_pos h, List.count_eq_zero]
    simp [h]
  · rw [if_neg h, List.count_filter (by simpa using h)]

/-- **A deletion leaves the filters in place exactly when it fits.** -/
theorem inPlace_deleteFilter_iff {live : Live} (h : InPlace s live) (hkept : live.Kept) (e : Int) :
    InPlace (s.deleteFilter e).2 (live.without e) ↔ FilterFits live (.deleteFilter e) := by
  have hdel := deleteFilter_deleted s e
  by_cases hnd : ⟨e, .nodeDescription⟩ ∈ live
  · -- the cache keeps its attributes
    refine ⟨fun hplace => ?_, fun hfits => absurd rfl (hfits.1 _ hnd rfl)⟩
    have hcached := (hdel.cached e).mpr
      ⟨h.cached_of_nd hnd, fun _ => Or.inl (h.mem_ndFilters.mpr hnd)⟩
    obtain ⟨r, hr, heq, -⟩ := (hplace.cached e).mp hcached
    exact absurd heq (Live.mem_without.mp hr).2
  · have hnotmem : e ∉ s.ndFilters := fun hmem => hnd (h.mem_ndFilters.mp hmem)
    have hfirst : ∀ r ∈ live, r.etype = e → r.kind ≠ .nodeDescription := by
      intro r hr heq hkind
      refine hnd ?_
      rw [← heq, ← hkind]
      exact hr
    have hcounts : ∀ e', (s.deleteFilter e).2.ndFilters.count e' =
        if ⟨e', .nodeDescription⟩ ∈ live.without e then 1 else 0 := by
      intro e'
      rw [hdel.ndFilters, count_filter_ne, h.ndFilters]
      by_cases heq : e' = e
      · rw [if_pos heq, if_neg (fun hmem => (Live.mem_without.mp hmem).2 heq)]
      · rw [if_neg heq]
        simp only [Live.mem_without, heq, ne_eq, not_false_eq_true, and_true]
    -- the attributes go, where there are any
    have hcaches : ∀ e', (s.deleteFilter e).2.mc.isFilterCached e' = true ↔
        ∃ r ∈ live.without e, r.etype = e' ∧ r.kind ≠ .monitor := by
      intro e'
      rw [hdel.cached, h.cached]
      constructor
      · rintro ⟨⟨r, hr, heq, hkind⟩, hplace⟩
        refine ⟨r, Live.mem_without.mpr ⟨hr, fun hre => ?_⟩, heq, hkind⟩
        have hslot := (hplace (heq ▸ hre)).resolve_left hnotmem
        rw [h.monitor] at hslot
        refine h.not_cached_of_monitor hkept (hre ▸ hkept.nonneg r hr) hslot.symm ?_
        exact (h.cached e).mpr ⟨r, hr, hre, hkind⟩
      · rintro ⟨r, hr, heq, hkind⟩
        obtain ⟨hrlive, hne⟩ := Live.mem_without.mp hr
        exact ⟨⟨r, hrlive, heq, hkind⟩, fun heq' => absurd (heq.trans heq') hne⟩
    have hmonitor := hdel.monitor
    by_cases hslot : live.latestMonitor = e
    · rw [if_pos ⟨hnotmem, by rw [h.monitor, hslot]⟩] at hmonitor
      refine ⟨fun hplace => ⟨hfirst, fun _ r hr hkind => ?_⟩, fun hfits => ⟨hcounts, ?_, hcaches⟩⟩
      · -- another monitor filter would be the latest now
        by_contra hne
        have hr' : r ∈ live.without e := Live.mem_without.mpr ⟨hr, hne⟩
        have hlatest := hkept.nonneg _
          (Live.mem_without.mp (Live.latestMonitor_of_mem hr' hkind)).1
        have hsame := hplace.monitor
        rw [hmonitor] at hsame
        dsimp only at hlatest
        omega
      · rw [hmonitor]
        rcases (live.without e).latestMonitor_mem with hnone | hmem
        · exact hnone.symm
        · obtain ⟨hlive, hne⟩ := Live.mem_without.mp hmem
          exact absurd (hfits.2 hslot _ hlive rfl) hne
    · rw [if_neg (fun hand => hslot (by rw [← h.monitor, ← hand.2]))] at hmonitor
      refine ⟨fun _ => ⟨hfirst, fun heq => absurd heq hslot⟩, fun _ => ⟨hcounts, ?_, hcaches⟩⟩
      rw [hmonitor, h.monitor, Live.latestMonitor_without hslot]

/-! ### Insertion -/

theorem nd_ne_monitor : FilterKind.nodeDescription ≠ .monitor := by decide

theorem other_ne_monitor : FilterKind.other ≠ .monitor := by decide

/-- What is deleted before an insertion, if the event type is cached. -/
def replaced (s : MemoryDataStore) (e : Int) : MemoryDataStore :=
  if s.mc.isFilterCached e then (s.deleteFilter e).2 else s

theorem placeFilter_eq (s : MemoryDataStore) (f : StoreFilter) :
    s.placeFilter f =
      match f.kind with
      | .nodeDescription =>
          (replaced { s with ndFilters := s.ndFilters ++ [f.etype] } f.etype).cacheAttributes f
      | .monitor => replaced { s with monitorFilterEventType := f.etype } f.etype
      | .other => (s.replaced f.etype).cacheAttributes f := by
  unfold placeFilter bypass StoreFilter.kind
  by_cases hnd : f.getFilterDescription = nodeDescriptionFilter
  · have hne : nodeDescriptionFilter ≠ monitorFilter := by decide
    rw [if_pos hnd, if_pos hnd, hnd]
    dsimp only
    rw [if_neg hne]
    rfl
  · rw [if_neg hnd, if_neg hnd]
    by_cases hm : f.getFilterDescription = monitorFilter
    · simp only [if_pos hm]
      rfl
    · simp only [if_neg hm]
      rfl

/-- The live filters that are cached, once one more that is cached is inserted. -/
theorem exists_insert_iff {live : Live} {e e' : Int} (hkind : kind ≠ .monitor) :
    (∃ r ∈ ((⟨e, kind⟩ : Registration) :: live.without e), r.etype = e' ∧ r.kind ≠ .monitor) ↔
      e' = e ∨ e' ≠ e ∧ ∃ r ∈ live, r.etype = e' ∧ r.kind ≠ .monitor := by
  constructor
  · rintro ⟨r, hr, heq, hk⟩
    rcases List.mem_cons.mp hr with rfl | hr
    · exact Or.inl heq.symm
    · obtain ⟨hrlive, hne⟩ := Live.mem_without.mp hr
      exact Or.inr ⟨heq ▸ hne, r, hrlive, heq, hk⟩
  · rintro (rfl | ⟨hne, r, hr, heq, hk⟩)
    · exact ⟨_, List.mem_cons_self, rfl, hkind⟩
    · exact ⟨r, List.mem_cons_of_mem _ (Live.mem_without.mpr ⟨hr, heq ▸ hne⟩), heq, hk⟩

/-- The live filters that ask for node descriptions, once one more filter is inserted. -/
theorem mem_insert_nd_iff {live : Live} {e e' : Int} :
    ⟨e', .nodeDescription⟩ ∈ ((⟨e, kind⟩ : Registration) :: live.without e) ↔
      (e' = e ∧ kind = .nodeDescription) ∨ (e' ≠ e ∧ ⟨e', .nodeDescription⟩ ∈ live) := by
  rw [List.mem_cons, Live.mem_without, Registration.mk.injEq]
  refine or_congr ⟨fun h => ⟨h.1, h.2.symm⟩, fun h => ⟨h.1, h.2.symm⟩⟩ and_comm

/-- The slot, if it does not have the event type, stays with another kind of filter. -/
theorem latestMonitor_insert {live : Live} {e : Int} (hkind : kind ≠ .monitor)
    (hslot : live.latestMonitor ≠ e) :
    Live.latestMonitor (⟨e, kind⟩ :: live.without e) = live.latestMonitor := by
  rw [Live.latestMonitor_cons, if_neg hkind, Live.latestMonitor_without hslot]

/-- If it does, it keeps it, though the filter is of another kind now. -/
theorem latestMonitor_insert_ne {live : Live} {e : Int} (he : 0 ≤ e) (hkind : kind ≠ .monitor) :
    Live.latestMonitor (⟨e, kind⟩ :: live.without e) ≠ e := by
  rw [Live.latestMonitor_cons, if_neg hkind]
  exact Live.latestMonitor_without_ne he

/-- A filter that asks for node descriptions is inserted. -/
theorem inPlace_nd_iff {live : Live} (h : InPlace s live)
    (havailable : s.mc.availableFilterId = Live.firstTemporary) {f : StoreFilter}
    (he : 0 ≤ f.etype) :
    InPlace ((replaced { s with ndFilters := s.ndFilters ++ [f.etype] } f.etype).cacheAttributes f)
        (⟨f.etype, .nodeDescription⟩ :: live.without f.etype) ↔
      (∀ r ∈ live, r.etype = f.etype → r.kind = .monitor) ∧ live.latestMonitor ≠ f.etype ∧
        f.etype ≠ Live.firstTemporary := by
  unfold replaced
  by_cases hcached : s.mc.isFilterCached f.etype = true
  · -- the entry that was just made goes with the old ones
    rw [if_pos hcached]
    have hdel := deleteFilter_deleted { s with ndFilters := s.ndFilters ++ [f.etype] } f.etype
    obtain ⟨r, hr, heq, hkind⟩ := (h.cached f.etype).mp hcached
    refine ⟨fun hplace => ?_, fun hfits => absurd (hfits.1 r hr heq) hkind⟩
    have hcount := hplace.ndFilters f.etype
    rw [(cacheAttributes_other _ f).1, hdel.ndFilters, count_filter_ne, if_pos rfl,
      if_pos List.mem_cons_self] at hcount
    omega
  · rw [if_neg hcached]
    obtain ⟨hnds, hmonitor, -⟩ :=
      cacheAttributes_other { s with ndFilters := s.ndFilters ++ [f.etype] } f
    have hcaches := isFilterCached_cacheAttributes
      { s with ndFilters := s.ndFilters ++ [f.etype] } f
    have hfirst : ∀ r ∈ live, r.etype = f.etype → r.kind = .monitor := by
      intro r hr heq
      by_contra hkind
      exact hcached ((h.cached f.etype).mpr ⟨r, hr, heq, hkind⟩)
    have hnot : ⟨f.etype, .nodeDescription⟩ ∉ live := fun hmem => hcached (h.cached_of_nd hmem)
    constructor
    · intro hplace
      refine ⟨hfirst, fun hslot => ?_, fun hlong => ?_⟩
      · have hsame := hplace.monitor
        rw [hmonitor] at hsame
        exact latestMonitor_insert_ne he nd_ne_monitor
          (hsame.symm.trans (h.monitor.trans hslot))
      · have hthere := (hplace.cached f.etype).mpr
          ⟨_, List.mem_cons_self, rfl, fun heq => nomatch heq⟩
        rw [hcaches] at hthere
        rcases hthere with ⟨-, hne⟩ | hthere
        · exact hne (hlong.trans havailable.symm)
        · exact hcached hthere
    · rintro ⟨-, hslot, hlong⟩
      refine ⟨fun e' => ?_, ?_, fun e' => ?_⟩
      · rw [hnds, List.count_append, h.ndFilters]
        simp only [mem_insert_nd_iff, and_true]
        by_cases heq : e' = f.etype
        · rw [heq, if_neg hnot, if_pos (Or.inl rfl), List.count_singleton_self]
        · have hzero : [f.etype].count e' = 0 := List.count_eq_zero.mpr (by simpa using heq)
          rw [hzero, Nat.add_zero]
          simp only [heq, false_or, not_false_eq_true, true_and, ne_eq]
      · rw [hmonitor, latestMonitor_insert nd_ne_monitor hslot]
        exact h.monitor
      · rw [hcaches, exists_insert_iff nd_ne_monitor, h.cached]
        have hne : f.etype ≠ s.mc.availableFilterId := fun heq => hlong (heq.trans havailable)
        by_cases heq : e' = f.etype
        · exact ⟨fun _ => Or.inl heq, fun _ => Or.inl ⟨heq, hne⟩⟩
        · exact ⟨fun hor => Or.inr ⟨heq, hor.resolve_left (fun hand => heq hand.1)⟩,
            fun hor => Or.inr (hor.resolve_left heq).2⟩

/-- A monitor filter is inserted. -/
theorem inPlace_monitor_iff {live : Live} (h : InPlace s live) {e : Int} :
    InPlace (replaced { s with monitorFilterEventType := e } e)
        (⟨e, .monitor⟩ :: live.without e) ↔ ∀ r ∈ live, r.etype = e → r.kind = .monitor := by
  unfold replaced
  by_cases hcached : s.mc.isFilterCached e = true
  · -- the deletion finds the event type in the slot, and leaves the cache
    rw [if_pos hcached]
    have hdel := deleteFilter_deleted { s with monitorFilterEventType := e } e
    obtain ⟨r, hr, heq, hkind⟩ := (h.cached e).mp hcached
    refine ⟨fun hplace => ?_, fun hfits => absurd (hfits r hr heq) hkind⟩
    have hstill := (hdel.cached e).mpr ⟨hcached, fun _ => Or.inr rfl⟩
    obtain ⟨r', hr', heq', hkind'⟩ := (hplace.cached e).mp hstill
    rcases List.mem_cons.mp hr' with rfl | hr'
    · exact absurd rfl hkind'
    · exact absurd heq' (Live.mem_without.mp hr').2
  · rw [if_neg hcached]
    have hfits : ∀ r ∈ live, r.etype = e → r.kind = .monitor := by
      intro r hr heq
      by_contra hkind
      exact hcached ((h.cached e).mpr ⟨r, hr, heq, hkind⟩)
    refine ⟨fun _ => hfits, fun _ => ⟨fun e' => ?_, ?_, fun e' => ?_⟩⟩
    · change s.ndFilters.count e' = _
      rw [h.ndFilters]
      simp only [mem_insert_nd_iff]
      by_cases heq : e' = e
      · rw [if_neg (fun hmem => by rw [heq] at hmem; exact nomatch hfits _ hmem rfl),
          if_neg (by simp [heq])]
      · simp [heq]
    · rw [Live.latestMonitor_cons, if_pos rfl]
    · change s.mc.isFilterCached e' = true ↔ _
      rw [h.cached]
      constructor
      · rintro ⟨r, hr, heq, hkind⟩
        have hne : r.etype ≠ e := fun hre => hkind (hfits r hr hre)
        exact ⟨r, List.mem_cons_of_mem _ (Live.mem_without.mpr ⟨hr, hne⟩), heq, hkind⟩
      · rintro ⟨r, hr, heq, hkind⟩
        rcases List.mem_cons.mp hr with rfl | hr
        · exact absurd rfl hkind
        · exact ⟨r, (Live.mem_without.mp hr).1, heq, hkind⟩

/-- What is left of the filter that an event type had. -/
structure Replaced (s s' : MemoryDataStore) (e : Int) : Prop where
  ndFilters : s'.ndFilters = s.ndFilters.filter (fun e' => e' ≠ e)
  monitor : s'.monitorFilterEventType = s.monitorFilterEventType
  others : ∀ e' ≠ e, s'.mc.isFilterCached e' = s.mc.isFilterCached e'
  old : s'.mc.isFilterCached e = true → s.mc.isFilterCached e = true
  available : s'.mc.availableFilterId = s.mc.availableFilterId

theorem InPlace.replaced {live : Live} (h : InPlace s live) (hkept : live.Kept) {e : Int}
    (he : 0 ≤ e) : Replaced s (s.replaced e) e := by
  unfold MemoryDataStore.replaced
  by_cases hcached : s.mc.isFilterCached e = true
  · rw [if_pos hcached]
    have hdel := deleteFilter_deleted s e
    have hslot : ¬ (e ∉ s.ndFilters ∧ e = s.monitorFilterEventType) := fun hand =>
      h.not_cached_of_monitor hkept he (h.monitor.symm.trans hand.2.symm) hcached
    refine ⟨hdel.ndFilters, ?_, fun e' hne => ?_, fun hc => ((hdel.cached e).mp hc).1,
      hdel.available⟩
    · rw [hdel.monitor, if_neg hslot]
    · rw [Bool.eq_iff_iff, hdel.cached]
      exact ⟨And.left, fun hc => ⟨hc, fun heq => absurd heq hne⟩⟩
  · rw [if_neg hcached]
    refine ⟨?_, rfl, fun _ _ => rfl, fun hc => hc, rfl⟩
    refine (List.filter_eq_self.mpr (fun e' he' => decide_eq_true ?_)).symm
    intro heq
    exact hcached (h.cached_of_nd (h.mem_ndFilters.mp (heq ▸ he')))

/-- Any other filter is inserted. -/
theorem inPlace_other_iff {live : Live} (h : InPlace s live)
    (havailable : s.mc.availableFilterId = Live.firstTemporary) (hkept : live.Kept) {f : StoreFilter}
    (he : 0 ≤ f.etype) :
    InPlace ((s.replaced f.etype).cacheAttributes f)
        (⟨f.etype, .other⟩ :: live.without f.etype) ↔
      live.latestMonitor ≠ f.etype ∧ f.etype ≠ Live.firstTemporary := by
  obtain ⟨hnds, hmonitor, -⟩ := cacheAttributes_other (s.replaced f.etype) f
  have hcaches := isFilterCached_cacheAttributes (s.replaced f.etype) f
  have hold := h.replaced hkept he
  constructor
  · intro hplace
    refine ⟨fun hslot => ?_, fun hlong => ?_⟩
    · have hsame := hplace.monitor
      rw [hmonitor, hold.monitor] at hsame
      exact latestMonitor_insert_ne he other_ne_monitor (hsame.symm.trans (h.monitor.trans hslot))
    · have hthere := (hplace.cached f.etype).mpr ⟨_, List.mem_cons_self, rfl, other_ne_monitor⟩
      rw [hcaches, hold.available] at hthere
      rcases hthere with ⟨-, hne⟩ | hthere
      · exact hne (hlong.trans havailable.symm)
      · -- it was not cached before either
        obtain ⟨r, hr, heq, hkind⟩ := (h.cached f.etype).mp (hold.old hthere)
        exact hkept.cacheable r hr hkind (heq.trans hlong)
  · rintro ⟨hslot, hlong⟩
    refine ⟨fun e' => ?_, ?_, fun e' => ?_⟩
    · rw [hnds, hold.ndFilters, count_filter_ne, h.ndFilters]
      simp only [mem_insert_nd_iff]
      by_cases heq : e' = f.etype
      · simp [heq]
      · simp [heq]
    · rw [hmonitor, hold.monitor, latestMonitor_insert other_ne_monitor hslot]
      exact h.monitor
    · rw [hcaches, exists_insert_iff other_ne_monitor, hold.available, ← h.cached]
      have hne : f.etype ≠ s.mc.availableFilterId := fun heq => hlong (heq.trans havailable)
      by_cases heq : e' = f.etype
      · exact ⟨fun _ => Or.inl heq, fun _ => Or.inl ⟨heq, hne⟩⟩
      · rw [hold.others e' heq]
        exact ⟨fun hor => Or.inr ⟨heq, hor.resolve_left (fun hand => heq hand.1)⟩,
          fun hor => Or.inr (hor.resolve_left heq).2⟩

/-! ## Every run -/

theorem available_deleteFilter (s : MemoryDataStore) (e : Int) :
    (s.deleteFilter e).2.mc.availableFilterId = s.mc.availableFilterId :=
  (deleteFilter_deleted s e).available

theorem available_placeFilter (s : MemoryDataStore) (f : StoreFilter) :
    (s.placeFilter f).mc.availableFilterId = s.mc.availableFilterId := by
  have hreplaced : ∀ (t : MemoryDataStore) (e : Int),
      (t.replaced e).mc.availableFilterId = t.mc.availableFilterId := by
    intro t e
    unfold replaced
    split
    · exact available_deleteFilter t e
    · rfl
  rw [placeFilter_eq]
  cases f.kind with
  | nodeDescription => exact (cacheAttributes_other _ f).2.2.trans (hreplaced _ _)
  | monitor => exact hreplaced _ _
  | other => exact (cacheAttributes_other _ f).2.2.trans (hreplaced _ _)

/-- A call about objects or nodes is quiet. -/
theorem quiet_step {call : Call} (hinsert : ∀ f matchFilter callback,
    call ≠ .insertFilter f matchFilter callback) (hdelete : ∀ e, call ≠ .deleteFilter e) :
    Quiet s (s.step cfg call) := by
  cases call with
  | insertDataObject dObj callback report => exact Quiet.insertDataObject s dObj callback report
  | deleteDataObjectId id report keep => exact Quiet.deleteDataObjectHelper s id report keep
  | deleteDataObject dObj report keep => exact Quiet.deleteDataObject s dObj report keep
  | ageDataObjects now minimumAge callback keep =>
      exact Quiet.ageDataObjects s now minimumAge callback keep
  | insertFilter f matchFilter callback => exact absurd rfl (hinsert f matchFilter callback)
  | deleteFilter e => exact absurd rfl (hdelete e)
  | insertNode node callback => exact Quiet.insertNode s node callback
  | deleteNode nodeId => exact Quiet.deleteNode s nodeId

theorem available_step (call : Call) :
    (s.step cfg call).mc.availableFilterId = s.mc.availableFilterId := by
  by_cases hinsert : ∀ f matchFilter callback, call ≠ .insertFilter f matchFilter callback
  · by_cases hdelete : ∀ e, call ≠ .deleteFilter e
    · exact (quiet_step hinsert hdelete).same.available
    · push Not at hdelete
      obtain ⟨e, rfl⟩ := hdelete
      exact available_deleteFilter s e
  · push Not at hinsert
    obtain ⟨f, matchFilter, callback, rfl⟩ := hinsert
    change (s.insertFilter f matchFilter callback).2.mc.availableFilterId = _
    by_cases hneg : f.etype < 0
    · unfold insertFilter
      rw [if_pos hneg]
    · exact (insertFilter_same hneg matchFilter callback).available.trans (available_placeFilter s f)

/-- What every call finds: the filters in place, as the calls before left them. -/
structure InOrder (w : MemoryDataStore × Live) : Prop where
  places : InPlace w.1 w.2
  kept : w.2.Kept
  available : w.1.mc.availableFilterId = Live.firstTemporary

/-- **A call leaves the filters in place exactly when it fits.** -/
theorem inPlace_step_iff (h : InOrder w) (call : Call) :
    InPlace (w.1.step cfg call) (w.2.step call) ↔ FilterFits w.2 call := by
  cases call with
  | insertFilter f matchFilter callback =>
      by_cases hneg : f.etype < 0
      · have hsame : w.1.step cfg (.insertFilter f matchFilter callback) = w.1 := by
          unfold step insertFilter
          dsimp only
          rw [if_pos hneg]
        have hlive : w.2.step (.insertFilter f matchFilter callback) = w.2 := if_pos hneg
        rw [hsame, hlive]
        exact ⟨fun _ => Or.inl hneg, fun _ => h.places⟩
      · have hlive : w.2.step (.insertFilter f matchFilter callback) =
            ⟨f.etype, f.kind⟩ :: w.2.without f.etype := if_neg hneg
        have he : 0 ≤ f.etype := Int.not_lt.mp hneg
        have hplaces : InPlace (w.1.step cfg (.insertFilter f matchFilter callback))
              (⟨f.etype, f.kind⟩ :: w.2.without f.etype) ↔
            InPlace (w.1.placeFilter f) (⟨f.etype, f.kind⟩ :: w.2.without f.etype) :=
          InPlace.same_iff (insertFilter_same hneg matchFilter callback)
        rw [hlive, hplaces, placeFilter_eq]
        refine Iff.trans ?_ (or_iff_right hneg).symm
        cases f.kind with
        | nodeDescription => exact inPlace_nd_iff h.places h.available he
        | monitor => exact inPlace_monitor_iff h.places
        | other => exact inPlace_other_iff h.places h.available h.kept he
  | deleteFilter e => exact inPlace_deleteFilter_iff h.places h.kept e
  -- no other call comes near the filters
  | insertDataObject dObj callback report =>
      exact iff_of_true (h.places.same (quiet_step (by simp) (by simp)).same) trivial
  | deleteDataObjectId id report keep =>
      exact iff_of_true (h.places.same (quiet_step (by simp) (by simp)).same) trivial
  | deleteDataObject dObj report keep =>
      exact iff_of_true (h.places.same (quiet_step (by simp) (by simp)).same) trivial
  | ageDataObjects now minimumAge callback keep =>
      exact iff_of_true (h.places.same (quiet_step (by simp) (by simp)).same) trivial
  | insertNode node callback =>
      exact iff_of_true (h.places.same (quiet_step (by simp) (by simp)).same) trivial
  | deleteNode nodeId =>
      exact iff_of_true (h.places.same (quiet_step (by simp) (by simp)).same) trivial

theorem kept_step {live : Live} (h : live.Kept) {call : Call} (hfits : FilterFits live call) :
    (live.step call).Kept := by
  cases call with
  | insertFilter f matchFilter callback =>
      by_cases hneg : f.etype < 0
      · rw [show live.step (.insertFilter f matchFilter callback) = live from if_pos hneg]
        exact h
      · rw [show live.step (.insertFilter f matchFilter callback) =
          ⟨f.etype, f.kind⟩ :: live.without f.etype from if_neg hneg]
        refine h.insert (Int.not_lt.mp hneg) (fun hkind => ?_)
        have hfits' := hfits.resolve_left hneg
        cases hk : f.kind with
        | nodeDescription =>
            rw [hk] at hfits'
            exact hfits'.2.2
        | monitor => exact absurd hk hkind
        | other =>
            rw [hk] at hfits'
            exact hfits'.2
  | deleteFilter e => exact h.without e
  | insertDataObject dObj callback report => exact h
  | deleteDataObjectId id report keep => exact h
  | deleteDataObject dObj report keep => exact h
  | ageDataObjects now minimumAge callback keep => exact h
  | insertNode node callback => exact h
  | deleteNode nodeId => exact h

/-- The types of the events of filters that are in `s'` and were not in `s`. -/
def raised (s s' : MemoryDataStore) : List Int :=
  (s'.events.drop s.events.length).filterMap (fun e =>
    match e with
    | .filterMatch type _ => some type
    | _ => none)

/-- A quiet call raises events of filters that are there. -/
theorem Quiet.raised (h : Quiet s s') {type : Int} (hmem : type ∈ raised s s') :
    ∃ etype, s.HasFilter etype ∧ type = toEventType etype := by
  obtain ⟨-, events, heq, hraised⟩ := h
  unfold MemoryDataStore.raised at hmem
  rw [heq, List.drop_left] at hmem
  obtain ⟨e, he, hsome⟩ := List.mem_filterMap.mp hmem
  cases e with
  | filterMatch type' dObjs =>
      obtain rfl := Option.some.inj hsome
      exact hraised type' dObjs he
  | dataObjectDeleted _ _ => cases hsome
  | dataObjectCallback _ => cases hsome
  | dataObjectsCallback _ => cases hsome
  | filterCallback _ => cases hsome
  | nodeCallback _ => cases hsome

/-- What is in one of the places is live. -/
theorem InPlace.live_of_hasFilter {live : Live} (h : InPlace s live) {e : Int}
    (hhas : s.HasFilter e) : ∃ r ∈ live, r.etype = e := by
  rcases hhas with hnd | ⟨hpos, hmonitor⟩ | hcached
  · exact ⟨_, h.mem_ndFilters.mp hnd, rfl⟩
  · rw [h.monitor] at hpos hmonitor
    rcases live.latestMonitor_mem with hnone | hmem
    · omega
    · exact ⟨_, hmem, hmonitor.symm⟩
  · obtain ⟨r, hr, heq, -⟩ := (h.cached e).mp hcached
    exact ⟨r, hr, heq⟩

/--
The live filters are in place, and an object that is inserted raises no event of an event type
that is not live (nor looks like one that is, as an `int`).
-/
structure Registered (cfg : StoreSettings) (w : MemoryDataStore × Live) : Prop where
  places : InPlace w.1 w.2
  silent : ∀ etype, (∀ r ∈ w.2, toEventType r.etype ≠ toEventType etype) →
    ∀ dObj callback report,
      toEventType etype ∉ raised w.1 (w.1.insertDataObject cfg dObj callback report).store

theorem InPlace.registered (h : InPlace w.1 w.2) : Registered cfg w := by
  refine ⟨h, fun etype hother dObj callback report hmem => ?_⟩
  obtain ⟨e, hhas, htype⟩ := (Quiet.insertDataObject w.1 dObj callback report).raised hmem
  obtain ⟨r, hr, rfl⟩ := h.live_of_hasFilter hhas
  exact hother r hr htype.symm

/-- A call, and what is live then. -/
def registryStep (cfg : StoreSettings) (w : MemoryDataStore × Live) (call : Call) :
    MemoryDataStore × Live :=
  (w.1.step cfg call, w.2.step call)

/--
**The filter registry.** Through a whole run of calls every live filter is in its places and
nothing else is, and no object raises the event of a filter that is not live, exactly when no
event type changes places.
-/
theorem registry_iff (cfg : StoreSettings) (enableCompaction : Bool) (calls : List Call) :
    (∀ pre post, calls = pre ++ post →
      Registered cfg (pre.foldl (registryStep cfg) (new enableCompaction, []))) ↔
      Guarded (fun live call => some (Live.step live call)) FilterFits [] calls := by
  have hpart := @guarded_part Live Call (MemoryDataStore × Live) (registryStep cfg) Live.step
    Prod.snd FilterFits (fun _ _ => rfl) calls (new enableCompaction, [])
  rw [← hpart]
  refine foldl_wanted_iff (P := InOrder) (fun w h => h.places.registered) ?_ ?_ calls _ ?_
  · intro w call h hfits
    exact ⟨(inPlace_step_iff h call).mpr hfits, kept_step h.kept hfits,
      (available_step call).trans h.available⟩
  · intro w call h hregistered
    exact (inPlace_step_iff h call).mp hregistered.places
  · refine ⟨⟨fun e => rfl, rfl, fun e => ?_⟩, ⟨by simp, by simp, by simp⟩, rfl⟩
    rw [isFilterCached_iff]
    change Table.empty.values e ≠ [] ↔ _
    rw [Table.values_empty]
    simp

/-! ## A filter that stays -/

/-- The filter that asks for node descriptions. -/
def descriptionsFilter : StoreFilter := ⟨5, [⟨lit "NodeDescription", wildcard, 1⟩]⟩

/-- A description with its attribute. -/
def someDescription : StoreObject where
  id := [1]
  attributes := [⟨lit "NodeDescription", [9], 1⟩]
  isNodeDescription := true
  node := some [9]
  createTime := Timeval.invalid
  receiveTime := Timeval.invalid
  isPersistent := true
  isDuplicate := false

/-- The filter is inserted and deleted, and a description raises its event. -/
theorem deleted_filter_raises :
    ¬ ∀ pre post, [Call.insertFilter descriptionsFilter false false, .deleteFilter 5] = pre ++ post →
      Registered storingSettings
        (pre.foldl (registryStep storingSettings) (new true, [])) := by
  intro hall
  have hregistered := hall _ [] (List.append_nil _).symm
  have hraised := hregistered.silent 5
    (by decide +kernel) someDescription false false
  revert hraised
  decide +kernel

end MemoryDataStore

end Encoders.Store
