import Encoders.Store.Matching

/-!
# `MemoryDataStore`

The data store over the memory cache. Data objects and nodes go into the cache; a filter may
go to three places: into the cache, into the list of the filters that ask for node
descriptions, or into the slot of the monitor filter, which asks for everything. What the
store has to tell goes to the kernel as events.

A cached object keeps a reference to the data object it was made from. The times, the
persistence and the flags of a data object are read there, as they were when it was cached.
The names of filters and of events are `long` in the store and `int` in an event.
-/

namespace Encoders.Store

open Encoders.Lib Encoders.Container Encoders.Data

/-! ## What goes in and out -/

/--
What the store reads of a `DataObject`; `node` is the id of the node that `Node::create` makes
of it, if it makes one.
-/
structure StoreObject where
  id : CString
  attributes : List Attribute
  isNodeDescription : Bool
  node : Option CString
  createTime : Timeval
  receiveTime : Timeval
  isPersistent : Bool
  isDuplicate : Bool
deriving DecidableEq

/-- `AbstractDataObject(dObj)` -/
def StoreObject.abstract (dObj : StoreObject) : AbstractDataObject where
  id := dObj.id
  attributes := dObj.attributes
  node := if dObj.isNodeDescription then dObj.node else none

/-- `class Filter` -/
structure StoreFilter where
  etype : Int
  attributes : List Attribute
deriving DecidableEq

/-- `getFilterDescription` -/
def StoreFilter.getFilterDescription (f : StoreFilter) : CString :=
  if f.attributes = [] then lit "empty filter"
  else f.attributes.flatMap (fun a => a.name ++ lit ":" ++ a.value ++ lit " ")

/-- `long` made an `EventType`. -/
def toEventType (etype : Int) : Int := etype.bmod 4294967296

/-- What is given to `kernel->addEvent`. -/
inductive StoreEvent where
  | filterMatch (type : Int) (dObjs : List StoreObject)
  | dataObjectDeleted (dObjs : List StoreObject) (keepInBloomfilter : Bool)
  | dataObjectCallback (dObj : StoreObject)
  | dataObjectsCallback (dObjs : List StoreObject)
  | filterCallback (f : StoreFilter)
  | nodeCallback (node : AbstractNode)
deriving DecidableEq

/-- What the store is set up with: `calcId` is what `DataObject::calcId` computes. -/
structure StoreSettings where
  inMemoryNodeDescriptions : Bool
  noNodeDescriptionAttribute : Bool
  calcId : StoreObject → CString

/-- `addAttribute`, and the id that the object has then. -/
def StoreObject.addAttribute (cfg : StoreSettings) (dObj : StoreObject) (a : Attribute) :
    StoreObject :=
  if (find dObj.attributes a).isSome then dObj
  else
    { dObj with
      attributes := add a dObj.attributes
      id := cfg.calcId { dObj with attributes := add a dObj.attributes } }

/-! ## The store -/

/-- `class MemoryDataStore`; `dataObject` is the object behind a cached id. -/
structure MemoryDataStore where
  mc : MemoryCache
  dataObject : CString → Option StoreObject
  ndFilters : List Int
  monitorFilterEventType : Int
  events : List StoreEvent

namespace MemoryDataStore

/-- `MemoryDataStore()` -/
def new (enableCompaction : Bool) : MemoryDataStore where
  mc := MemoryCache.new enableCompaction
  dataObject := fun _ => none
  ndFilters := []
  monitorFilterEventType := -1
  events := []

/-- `kernel->addEvent` -/
def addEvent (s : MemoryDataStore) (e : StoreEvent) : MemoryDataStore :=
  { s with events := s.events ++ [e] }

/-- `addEvent`, if there is a callback. -/
def callBack (s : MemoryDataStore) (callback : Bool) (e : StoreEvent) : MemoryDataStore :=
  if callback then s.addEvent e else s

/-- `mc->getDataObjectFromId` -/
def getDataObjectFromId (s : MemoryDataStore) (dobjId : CString) : Option StoreObject :=
  (s.mc.getDataObjectFromId dobjId).bind (fun _ => s.dataObject dobjId)

/-- `mc->getNodeDataObjectsForNode` -/
def getNodeDataObjectsForNode (s : MemoryDataStore) (nodeId : CString) : List StoreObject :=
  (s.mc.getNodeDataObjectIdsForNode nodeId).filterMap s.getDataObjectFromId

/-- `mc->cacheDataObject` -/
def cacheDataObject (s : MemoryDataStore) (dObj : StoreObject) : MemoryDataStore :=
  { s with
    mc := s.mc.cacheDataObject dObj.abstract
    dataObject := fun id => if id = dObj.id then some dObj else s.dataObject id }

/-! ### Taking data objects out -/

/-- `_deleteDataObjectHelper` -/
def deleteDataObjectHelper (s : MemoryDataStore) (id : CString)
    (shouldReportRemoval keepInBloomfilter : Bool) : Int × MemoryDataStore :=
  match s.mc.unCacheDataObject id with
  | none => (-1, s)
  | some mc =>
      let reported :=
        if shouldReportRemoval then
          s.addEvent (.dataObjectDeleted (s.getDataObjectFromId id).toList keepInBloomfilter)
        else s
      (0, { reported with mc := mc })

/-- `_deleteDataObject`, of a reference. -/
def deleteDataObject (cfg : StoreSettings) (s : MemoryDataStore) (dObj : StoreObject)
    (shouldReportRemoval keepInBloomfilter : Bool) : Int × MemoryDataStore :=
  if cfg.inMemoryNodeDescriptions && dObj.isNodeDescription then (0, s)
  else s.deleteDataObjectHelper dObj.id shouldReportRemoval keepInBloomfilter

/-- One object after the other; `keepInBloomfilter` is `false` by default. -/
def deleteDataObjects (cfg : StoreSettings) (s : MemoryDataStore) (dObjs : List StoreObject)
    (shouldReportRemoval : Bool) : MemoryDataStore :=
  dObjs.foldl (fun s dObj => (s.deleteDataObject cfg dObj shouldReportRemoval false).2) s

/-- The first of the newest, or the one that arrives if none is newer. -/
def newestOf (dObj : StoreObject) (dobjs : List StoreObject) : StoreObject :=
  dobjs.foldl (fun newDo tmp => if newDo.createTime.lt tmp.createTime then tmp else newDo) dObj

/-- `deleteDataObjectNodeDescriptions` -/
def deleteDataObjectNodeDescriptions (cfg : StoreSettings) (s : MemoryDataStore)
    (dObj : StoreObject) (reportRemoval : Bool) : Int × MemoryDataStore :=
  match dObj.node with
  | none => (-1, s)
  | some nodeId =>
      let dobjs := s.getNodeDataObjectsForNode nodeId
      let newDo := newestOf dObj dobjs
      let toDelete := dobjs.filter (fun tmp => tmp.createTime.le newDo.createTime)
      -- references to data objects are compared by the ids of the objects
      (if newDo.id ≠ dObj.id then 0 else 1, s.deleteDataObjects cfg toDelete reportRemoval)

/-! ### Filters and data objects -/

/-- `_evaluateMonitorFilter` -/
def evaluateMonitorFilter (s : MemoryDataStore) (dObj : StoreObject) : MemoryDataStore :=
  if !dObj.isPersistent || dObj.isNodeDescription || s.monitorFilterEventType < 0 then s
  else s.addEvent (.filterMatch (toEventType s.monitorFilterEventType) [dObj])

/-- The event of every filter of a list. -/
def fireFilters (s : MemoryDataStore) (filterIds : List Int) (dObj : StoreObject) :
    MemoryDataStore :=
  filterIds.foldl (fun s filterId => s.addEvent (.filterMatch (toEventType filterId) [dObj])) s

/-- `evaluateFilters` -/
def evaluateFilters (cfg : StoreSettings) (s : MemoryDataStore) (dObj : StoreObject) :
    MemoryDataStore :=
  if cfg.inMemoryNodeDescriptions && dObj.isNodeDescription then s.fireFilters s.ndFilters dObj
  else
    (s.evaluateMonitorFilter dObj).fireFilters (s.mc.getFiltersForDataObjectId dObj.id) dObj

/-- `evaluateDataObjects` -/
def evaluateDataObjects (s : MemoryDataStore) (eventType : Int) : MemoryDataStore :=
  if eventType < 0 then s
  else
    let fire := fun (dObjs : List StoreObject) =>
      if dObjs = [] then s else s.addEvent (.filterMatch (toEventType eventType) dObjs)
    if eventType = s.monitorFilterEventType then
      fire (s.mc.getAllDataObjects.filterMap (fun ad => s.dataObject ad.id))
    else if !s.mc.isFilterCached eventType then s
    else fire ((s.mc.getDataObjectIdsForFilter eventType).filterMap s.getDataObjectFromId)

/-! ### Putting data objects in -/

/-- What an insertion leaves: the store, the object as it is marked now, and what is returned. -/
structure Insertion where
  store : MemoryDataStore
  dObj : StoreObject
  ret : Int

/-- The end of `_insertDataObject`: the object is cached and matched, and kept if persistent. -/
def storeAndMatch (cfg : StoreSettings) (s : MemoryDataStore) (dObj : StoreObject)
    (callback : Bool) : Insertion :=
  let matched := (s.cacheDataObject dObj).evaluateFilters cfg dObj
  let kept :=
    if !dObj.isPersistent then (matched.deleteDataObject cfg dObj false false).2 else matched
  ⟨kept.callBack callback (.dataObjectCallback dObj), dObj, 0⟩

/-- The part of `_insertDataObject` after the node descriptions; `dobjId` was read at its start. -/
def insertOther (cfg : StoreSettings) (s : MemoryDataStore) (dobjId : CString)
    (dObj : StoreObject) (callback : Bool) : Insertion :=
  if s.mc.isDataObjectCached dobjId then
    if !dObj.isPersistent then
      (s.deleteDataObject cfg dObj false false).2.storeAndMatch cfg dObj callback
    else
      let marked := { dObj with isDuplicate := true }
      ⟨s.callBack callback (.dataObjectCallback marked), marked, 0⟩
  else s.storeAndMatch cfg dObj callback

/-- The attribute that a description is given where nodes do not put one there. -/
def withDescriptionAttribute (cfg : StoreSettings) (dObj : StoreObject) : StoreObject :=
  if cfg.noNodeDescriptionAttribute then
    dObj.addAttribute cfg ⟨lit "NodeDescription", [], 0⟩
  else dObj

/-- `_insertDataObject` -/
def insertDataObject (cfg : StoreSettings) (s : MemoryDataStore) (dObj : StoreObject)
    (callback reportRemoval : Bool) : Insertion :=
  if dObj.isNodeDescription then
    if cfg.inMemoryNodeDescriptions then
      ⟨(s.evaluateFilters cfg dObj).callBack callback (.dataObjectCallback dObj), dObj, 0⟩
    else
      let deleted := s.deleteDataObjectNodeDescriptions cfg dObj reportRemoval
      if deleted.1 ≠ 1 then ⟨deleted.2, dObj, -1⟩
      else deleted.2.insertOther cfg dObj.id (withDescriptionAttribute cfg dObj) callback
  else s.insertOther cfg dObj.id dObj callback

/-! ### Ageing -/

/-- A time in microseconds. -/
def micros (t : Timeval) : Int := t.sec * 1000000 + t.usec

/-- `(now - receiveTime).getTimeAsMilliSeconds()` -/
def ageMilliSeconds (now receiveTime : Timeval) : Int := (micros now - micros receiveTime) / 1000

/-- `int maxAgeS`, and the milliseconds it is compared with, both `int`. -/
def maxAgeMilliSeconds (minimumAge : Timeval) : Int :=
  ((((micros minimumAge / 1000).tdiv 1000).bmod 4294967296) * 1000).bmod 4294967296

/-- Old enough, and no filter and no node is interested. -/
def isToAge (s : MemoryDataStore) (now minimumAge : Timeval) (dObj : StoreObject) : Bool :=
  maxAgeMilliSeconds minimumAge < ageMilliSeconds now dObj.receiveTime &&
    s.mc.getFiltersForDataObjectId dObj.id = [] &&
    s.mc.getNodeIdsForDataObject dObj.id 0 (-1) = []

/-- `getDataObjectsToAge`, at most `DATASTORE_MAX_DATAOBJECTS_AGED_AT_ONCE`. -/
def getDataObjectsToAge (s : MemoryDataStore) (now minimumAge : Timeval) : List StoreObject :=
  ((s.mc.getAllDataObjects.filterMap (fun ad => s.dataObject ad.id)).filter
    (s.isToAge now minimumAge)).take 3

/-- `_ageDataObjects`: the aged objects, and the store without them. -/
def ageDataObjects (cfg : StoreSettings) (s : MemoryDataStore) (now minimumAge : Timeval)
    (callback keepInBloomfilter : Bool) : List StoreObject × MemoryDataStore :=
  let dObjs := s.getDataObjectsToAge now minimumAge
  (dObjs,
    (((s.deleteDataObjects cfg dObjs false).addEvent
      (.dataObjectDeleted dObjs keepInBloomfilter)).callBack callback (.dataObjectsCallback dObjs)))

/-! ### Filters -/

/-- `_deleteFilter` -/
def deleteFilter (s : MemoryDataStore) (eventtype : Int) : Int × MemoryDataStore :=
  if eventtype ∈ s.ndFilters then
    -- the loop leaves none of them, and returns before the other two places
    (1, { s with ndFilters := s.ndFilters.filter (fun e => e ≠ eventtype) })
  else if eventtype = s.monitorFilterEventType then (1, { s with monitorFilterEventType := -1 })
  else if !s.mc.isFilterCached eventtype then (-1, s)
  else (0, { s with mc := s.mc.unCacheFilter eventtype })

/-- `mc->cacheFilter` of one attribute, or of none; what it returns is not looked at. -/
def cacheFilter (s : MemoryDataStore) (etype : Int) (key val : CString) (weight : Int) :
    MemoryDataStore :=
  { s with mc := (s.mc.cacheFilter etype key val weight).getD s.mc }

/-- All attributes of a filter, and one without a name or a value if there are none. -/
def cacheAttributes (s : MemoryDataStore) (f : StoreFilter) : MemoryDataStore :=
  if f.attributes = [] then s.cacheFilter f.etype [] [] 0
  else f.attributes.foldl (fun s a => s.cacheFilter f.etype a.name a.value (toInt a.weight)) s

/-- The description of a filter that asks for node descriptions. -/
def nodeDescriptionFilter : CString := lit "NodeDescription:* "

/-- The description of a monitor filter. -/
def monitorFilter : CString := lit "*:* "

/-- The two bypasses at the start of `_insertFilter`. -/
def bypass (s : MemoryDataStore) (f : StoreFilter) : MemoryDataStore :=
  if f.getFilterDescription = nodeDescriptionFilter then
    { s with ndFilters := s.ndFilters ++ [f.etype] }
  else if f.getFilterDescription = monitorFilter then { s with monitorFilterEventType := f.etype }
  else s

/-- `_insertFilter` -/
def insertFilter (s : MemoryDataStore) (f : StoreFilter) (matchFilter callback : Bool) :
    Int × MemoryDataStore :=
  if f.etype < 0 then (-1, s)
  else
    let s := s.bypass f
    let s := if s.mc.isFilterCached f.etype then (s.deleteFilter f.etype).2 else s
    let s := if f.getFilterDescription = monitorFilter then s else s.cacheAttributes f
    let s := s.callBack callback (.filterCallback f)
    (0, if matchFilter then s.evaluateDataObjects f.etype else s)

/-! ### Nodes -/

/-- `_insertNode` -/
def insertNode (s : MemoryDataStore) (node : AbstractNode) (callback : Bool) :
    Int × MemoryDataStore :=
  if node.type = .undefined then (-1, s)
  else
    let mc :=
      if s.mc.isNodeCached node.id then (s.mc.unCacheNode node.id).getD s.mc else s.mc
    (1, { s with mc := mc.cacheNode node }.callBack callback (.nodeCallback node))

/-- `_deleteNode` -/
def deleteNode (s : MemoryDataStore) (nodeId : CString) : Int × MemoryDataStore :=
  match s.mc.unCacheNode nodeId with
  | none => (-1, s)
  | some mc => (0, { s with mc := mc })

/-! ## Runs -/

/-- The calls that change the store. -/
inductive Call where
  | insertDataObject (dObj : StoreObject) (callback reportRemoval : Bool)
  | deleteDataObjectId (id : CString) (shouldReportRemoval keepInBloomfilter : Bool)
  | deleteDataObject (dObj : StoreObject) (shouldReportRemoval keepInBloomfilter : Bool)
  | ageDataObjects (now minimumAge : Timeval) (callback keepInBloomfilter : Bool)
  | insertFilter (f : StoreFilter) (matchFilter callback : Bool)
  | deleteFilter (eventtype : Int)
  | insertNode (node : AbstractNode) (callback : Bool)
  | deleteNode (nodeId : CString)

/-- One call. -/
def step (cfg : StoreSettings) (s : MemoryDataStore) : Call → MemoryDataStore
  | .insertDataObject dObj callback reportRemoval =>
      (s.insertDataObject cfg dObj callback reportRemoval).store
  | .deleteDataObjectId id shouldReportRemoval keepInBloomfilter =>
      (s.deleteDataObjectHelper id shouldReportRemoval keepInBloomfilter).2
  | .deleteDataObject dObj shouldReportRemoval keepInBloomfilter =>
      (s.deleteDataObject cfg dObj shouldReportRemoval keepInBloomfilter).2
  | .ageDataObjects now minimumAge callback keepInBloomfilter =>
      (s.ageDataObjects cfg now minimumAge callback keepInBloomfilter).2
  | .insertFilter f matchFilter callback => (s.insertFilter f matchFilter callback).2
  | .deleteFilter eventtype => (s.deleteFilter eventtype).2
  | .insertNode node callback => (s.insertNode node callback).2
  | .deleteNode nodeId => (s.deleteNode nodeId).2

/-- The store after some calls. -/
def after (cfg : StoreSettings) (enableCompaction : Bool) (calls : List Call) : MemoryDataStore :=
  calls.foldl (step cfg) (new enableCompaction)

end MemoryDataStore

end Encoders.Store
