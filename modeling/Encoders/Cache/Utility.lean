import Encoders.Cache.Knapsack
import Encoders.Lib.Run
import Mathlib.Data.List.Nodup

/-!
# The utility cache

`CacheStrategyUtility.cpp`. The cache counts its objects and their bytes beside the map it
keeps of them. A purge gives up what is no longer useful enough, has the knapsack choose what
else goes until the rest is below the watermark, and then has it choose again until the rest
is no more than the database may hold.

Three slips make the counts and the limits fail. A length is made an `int`, so that an object
of four gigabytes costs one byte. The second choice is made from the list that was built
for the first, where those the first gave up are still listed, although they have been freed.
And an object that the data store has marked as a duplicate since it came is none the cache
feels responsible for any more, so that it stays when it is given up.
With lengths that are `int`s, with no second choice after a first that gave anything up, and
with nothing marked among what is given up, the counts are right in every run and every purge
ends within both limits.
-/

namespace Encoders.Cache

open Encoders.Lib

/-- What `_onConfig` reads. The discrete size is that of the knapsack. -/
structure UtilityConfig where
  computePeriodMs : Int
  maxCapacityKb : Int
  watermarkCapacityKb : Int
  purgeOnInsert : Bool
  manageOnlyRemoteFiles : Bool
  manageLocallySentFiles : Bool
  handleZeroSize : Bool
  allowDbPurging : Bool
  dbSizeThreshold : Int
  discreteSize : Int
deriving DecidableEq

/-- What a call is told by others: the clock when it looks at an object, the utility function
and the threshold of the global optimizer. -/
structure UtilityEnv where
  now : CString → Int
  compute : CString → Rat
  minimumThreshold : Rat

/-- The map, in the order of the ids, and the two counts. -/
structure UtilityCache where
  utilMetadata : List DataObjectUtilityMetadata
  currentNumDo : Int
  currentSize : Int
deriving DecidableEq

/-- A cache without objects. -/
def UtilityCache.empty : UtilityCache := ⟨[], 0, 0⟩

namespace UtilityConfig

variable (c : UtilityConfig)

/-- `watermark_capacity_kb*1024` -/
def watermark : Int := c.watermarkCapacityKb * 1024

/-- `isResponsibleForDataObject` -/
def isResponsibleForDataObject (d : UtilityObject) : Bool :=
  if d.duplicate then false
  else
    let isResponsible := !(d.controlMessage || d.nodeDescription)
    let isResponsible := if c.handleZeroSize then isResponsible
      else isResponsible && decide (d.origDataLen > 0)
    let isResponsible := if c.manageLocallySentFiles then isResponsible
      else isResponsible && d.persistent
    if d.stats then true
    else if c.manageOnlyRemoteFiles then isResponsible && !d.fromApplication
    else isResponsible

end UtilityConfig

/-! ## Deleting -/

/-- `deleteDataObjectFromCache` -/
def UtilityCache.deleteDataObjectFromCache (s : UtilityCache) (id : CString) : UtilityCache :=
  match s.utilMetadata.find? (fun m => m.id = id) with
  | none => s
  | some m =>
      { utilMetadata := s.utilMetadata.eraseP (fun m => m.id = id)
        currentNumDo := s.currentNumDo - 1
        currentSize := s.currentSize - m.cost }

namespace UtilityConfig

variable (c : UtilityConfig)

/-- `_handleDeletedDataObject` -/
def handleDeletedDataObject (s : UtilityCache) (d : UtilityObject) : UtilityCache :=
  if !c.isResponsibleForDataObject d then s
  else if d.stats then s
  else s.deleteDataObjectFromCache d.id

/-- The loops over `delete_dos`. -/
def evict (s : UtilityCache) (deleteDos : List DataObjectUtilityMetadata) : UtilityCache :=
  deleteDos.foldl (fun s m => c.handleDeletedDataObject s m.dObj) s

/-! ## The purge -/

/-- The utility of an object is computed again if that was long ago. -/
def refresh (e : UtilityEnv) (m : DataObjectUtilityMetadata) : DataObjectUtilityMetadata :=
  if e.now m.id - m.computeDate > c.computePeriodMs then
    { m with utility := e.compute m.id, computeDate := e.now m.id }
  else m

/-- The cache after the first loop of a purge. -/
def refreshed (e : UtilityEnv) (s : UtilityCache) : UtilityCache :=
  { s with utilMetadata := s.utilMetadata.map (c.refresh e) }

/-- `delete_dos`, after the first loop. -/
def deleteDos (e : UtilityEnv) (s : UtilityCache) : List DataObjectUtilityMetadata :=
  ((c.refreshed e s).utilMetadata.filter (fun m => m.utility < e.minimumThreshold)).reverse

/-- `process_dos` -/
def processDos (e : UtilityEnv) (s : UtilityCache) : List DataObjectUtilityMetadata :=
  ((c.refreshed e s).utilMetadata.filter (fun m => !decide (m.utility < e.minimumThreshold))).reverse

/-- What the knapsack gives up for the watermark. -/
def overflow (e : UtilityEnv) (s : UtilityCache) : Option (List DataObjectUtilityMetadata) :=
  if totalCost false (c.refreshed e s).utilMetadata > c.watermark then
    solve c.discreteSize c.watermark false (c.processDos e s)
  else some []

end UtilityConfig

/-- What a purge leaves, and what it evicted. -/
structure Purge where
  cache : UtilityCache
  evicted : List DataObjectUtilityMetadata
deriving DecidableEq

/-- The deletions in the data store: not of an object that is being inserted. -/
def Purge.deleteDataObject (p : Purge) : List CString :=
  (p.evicted.filter (fun m => m.enableDeletion)).map (fun m => m.id)

/-- `o_was_deleted` -/
def Purge.wasDeleted (p : Purge) (doid : CString) : Bool := p.evicted.any (fun m => m.id = doid)

namespace UtilityConfig

variable (c : UtilityConfig)

/-- `_purgeCache`. The second choice looks at everything in `process_dos`, so that there is no
answer if some of it has been freed. -/
def purgeCache (e : UtilityEnv) (s : UtilityCache) : Option Purge :=
  if totalCost false (c.refreshed e s).utilMetadata ≠ s.currentSize then
    some ⟨c.refreshed e s, []⟩
  else do
    let overflow ← c.overflow e s
    let evicted := c.deleteDos e s ++ overflow
    let s' := c.evict (c.refreshed e s) evicted
    if s'.currentSize > c.watermark then return ⟨s', evicted⟩
    else if c.allowDbPurging = true ∧ s'.currentNumDo > c.dbSizeThreshold then
      if ∀ m ∈ c.processDos e s, m ∈ s'.utilMetadata then
        let dbEvicted ← solve c.discreteSize (c.dbSizeThreshold + 1) true (c.processDos e s)
        return ⟨c.evict s' dbEvicted, evicted ++ dbEvicted⟩
      else none
    else return ⟨s', evicted⟩

end UtilityConfig

/-! ## Arrivals -/

/-- `utilMetadata.insert`, of an id that is not there. -/
def insertMetadata (m : DataObjectUtilityMetadata) :
    List DataObjectUtilityMetadata → List DataObjectUtilityMetadata
  | [] => [m]
  | x :: l => if m.id < x.id then m :: x :: l else x :: insertMetadata m l

/-- `setEnableDeletion(true)`, on the entry of an id. -/
def UtilityCache.setEnableDeletion (s : UtilityCache) (id : CString) : UtilityCache :=
  { s with utilMetadata := s.utilMetadata.map (fun m =>
      if m.id = id then { m with enableDeletion := true } else m) }

/-- `setDuplicate`, by the data store, on the data object of an entry. -/
def UtilityCache.setDuplicate (s : UtilityCache) (id : CString) : UtilityCache :=
  { s with utilMetadata := s.utilMetadata.map (fun m =>
      if m.id = id then { m with dObj := { m.dObj with duplicate := true } } else m) }

/-- What an operation leaves, the purge it made, and whether it put its object into the data
store. -/
structure Outcome where
  cache : UtilityCache
  purge : Option Purge
  inserted : Bool
deriving DecidableEq

namespace UtilityConfig

variable (c : UtilityConfig)

/-- `cost`, of an arrival. -/
def arrivalCost (d : UtilityObject) : Int :=
  let cost := wrapInt d.origDataLen
  if cost = 0 then 1 else cost

/-- The first part of `_handleNewDataObject`: the cache with the new object in it, if it is
taken. -/
def takeIn (e : UtilityEnv) (s : UtilityCache) (d : UtilityObject) : Option UtilityCache :=
  if !c.isResponsibleForDataObject d then none
  else if d.stats then none
  else if s.utilMetadata.any (fun m => m.id = d.id) then none
  else
    let cost := arrivalCost d
    let utility := e.compute d.id
    if utility < e.minimumThreshold ∨
        (c.purgeOnInsert = false ∧ s.currentSize + cost > c.maxCapacityKb * 1024) then none
    else some
      { utilMetadata := insertMetadata
          ⟨d, d.id, cost, utility, e.now d.id, d.createTime, !c.purgeOnInsert⟩ s.utilMetadata
        currentNumDo := s.currentNumDo + 1
        currentSize := s.currentSize + cost }

/-- `_handleNewDataObject`. What the purge is told is told later. -/
def handleNewDataObject (e e' : UtilityEnv) (s : UtilityCache) (d : UtilityObject) :
    Option Outcome :=
  match c.takeIn e s d with
  | none => some ⟨s, none, false⟩
  | some t =>
      if !c.purgeOnInsert then some ⟨t, none, true⟩
      else do
        let p ← c.purgeCache e' t
        if p.wasDeleted d.id then return ⟨p.cache, some p, false⟩
        else return ⟨p.cache.setEnableDeletion d.id, some p, true⟩

end UtilityConfig

/-- The operations on the cache, and what happens to its objects meanwhile: the data store, which
inserts an object later, finds it stored already and marks it. -/
inductive UtilityOp where
  | newDataObject (e e' : UtilityEnv) (d : UtilityObject)
  | deletedDataObject (d : UtilityObject)
  | purgeCache (e : UtilityEnv)
  | setDuplicate (id : CString)

namespace UtilityConfig

variable (c : UtilityConfig)

/-- One operation. -/
def outcome (s : UtilityCache) : UtilityOp → Option Outcome
  | .newDataObject e e' d => c.handleNewDataObject e e' s d
  | .deletedDataObject d => some ⟨c.handleDeletedDataObject s d, none, false⟩
  | .purgeCache e => (c.purgeCache e s).map (fun p => ⟨p.cache, some p, false⟩)
  | .setDuplicate id => some ⟨s.setDuplicate id, none, false⟩

/-- One operation, and what it leaves. -/
def step (s : UtilityCache) (op : UtilityOp) : Option UtilityCache :=
  (c.outcome s op).map (fun o => o.cache)

end UtilityConfig

variable {m : DataObjectUtilityMetadata} {l : List DataObjectUtilityMetadata} {s : UtilityCache}
  {e : UtilityEnv}

/-! ## The counts -/

/-- What an object counts for: its length, or one if it is empty. -/
def UtilityObject.storedLength (d : UtilityObject) : Int :=
  if d.origDataLen = 0 then 1 else d.origDataLen

/-- An entry of the map is about an object the cache is responsible for, unless that was marked
later, and its cost is the length of that object. -/
structure Kept (c : UtilityConfig) (m : DataObjectUtilityMetadata) : Prop where
  id : m.id = m.dObj.id
  responsible : m.dObj.duplicate = false → c.isResponsibleForDataObject m.dObj = true
  stats : m.dObj.stats = false
  cost : m.cost = m.dObj.storedLength
  fits : m.cost ≤ 2147483647

/-- The counts are those of the map. -/
structure Accounted (c : UtilityConfig) (s : UtilityCache) : Prop where
  ids : (s.utilMetadata.map (fun m => m.id)).Nodup
  kept : ∀ m ∈ s.utilMetadata, Kept c m
  num : s.currentNumDo = s.utilMetadata.length
  size : s.currentSize = totalCost false s.utilMetadata

theorem Kept.cost_pos {c : UtilityConfig} (h : Kept c m) : 0 < m.cost := by
  rw [h.cost]
  unfold UtilityObject.storedLength
  by_cases hz : m.dObj.origDataLen = 0
  · rw [if_pos hz]
    decide
  · rw [if_neg hz]
    omega

theorem accounted_empty (c : UtilityConfig) : Accounted c UtilityCache.empty where
  ids := List.nodup_nil
  kept := fun _ hm => absurd hm List.not_mem_nil
  num := rfl
  size := rfl

theorem totalCost_perm (memOnly : Bool) {l' : List DataObjectUtilityMetadata} (h : l.Perm l') :
    totalCost memOnly l = totalCost memOnly l' := by
  induction h with
  | nil => rfl
  | cons m _ ih =>
      unfold totalCost
      rw [ih]
  | swap m m' l =>
      simp only [totalCost]
      omega
  | trans _ _ ih ih' => exact ih.trans ih'

theorem totalCost_memOnly (l : List DataObjectUtilityMetadata) :
    totalCost true l = l.length := by
  induction l with
  | nil => rfl
  | cons m l ih =>
      unfold totalCost
      rw [ih, List.length_cons]
      unfold bagCost
      rw [if_pos rfl]
      omega

theorem Accounted.costsFit {c : UtilityConfig} (h : Accounted c s) (memOnly : Bool) :
    CostsFit memOnly s.utilMetadata := by
  intro m hm
  cases memOnly with
  | true =>
      unfold bagCost
      rw [if_pos rfl]
      omega
  | false => exact ⟨(h.kept m hm).cost_pos, (h.kept m hm).fits⟩

/-- One entry fewer. -/
theorem Accounted.drop {c : UtilityConfig} (h : Accounted c s)
    (hperm : s.utilMetadata.Perm (m :: l)) :
    Accounted c ⟨l, s.currentNumDo - 1, s.currentSize - m.cost⟩ := by
  have hids := ((hperm.map (fun m => m.id)).nodup_iff).mp h.ids
  have hlen := hperm.length_eq
  have hcost : totalCost false s.utilMetadata = m.cost + totalCost false l :=
    totalCost_perm false hperm
  refine ⟨(List.nodup_cons.mp hids).2, ?_, ?_, ?_⟩
  · intro x hx
    exact h.kept x (hperm.mem_iff.mpr (List.mem_cons_of_mem m hx))
  · have hnum := h.num
    rw [List.length_cons] at hlen
    dsimp only
    omega
  · have hsize := h.size
    dsimp only
    omega

/-! ## Deletions keep them -/

theorem delete_spec {c : UtilityConfig} (h : Accounted c s) (id : CString) :
    Accounted c (s.deleteDataObjectFromCache id) ∧
      ∀ m ∈ s.utilMetadata, m.id = id →
        s.utilMetadata.Perm (m :: (s.deleteDataObjectFromCache id).utilMetadata) := by
  unfold UtilityCache.deleteDataObjectFromCache
  cases hfind : s.utilMetadata.find? (fun m => m.id = id) with
  | none =>
      refine ⟨h, fun m hm hid => ?_⟩
      have := List.find?_eq_none.mp hfind m hm
      exact absurd hid (of_decide_eq_false (Bool.eq_false_iff.mpr this))
  | some m =>
      obtain ⟨hid, before, after, hsplit, hbefore⟩ := List.find?_eq_some_iff_append.mp hfind
      have hid := of_decide_eq_true hid
      have herase : s.utilMetadata.eraseP (fun m => m.id = id) = before ++ after := by
        rw [hsplit, List.eraseP_append_right]
        · rw [List.eraseP_cons_of_pos]
          exact decide_eq_true hid
        · intro x hx
          have := hbefore x hx
          rw [Bool.not_eq_true'] at this
          rw [this]
          exact Bool.false_ne_true
      have hperm : s.utilMetadata.Perm (m :: (before ++ after)) := by
        rw [hsplit]
        exact List.perm_middle
      simp only [herase]
      refine ⟨h.drop hperm, fun m' hm' hid' => ?_⟩
      -- an id belongs to one entry only
      have hsame : m' = m := by
        have hmem : m ∈ s.utilMetadata := hperm.mem_iff.mpr List.mem_cons_self
        exact List.inj_on_of_nodup_map h.ids hm' hmem (hid'.trans hid.symm)
      rw [hsame]
      exact hperm

theorem handleDeletedDataObject_accounted {c : UtilityConfig} (h : Accounted c s)
    (d : UtilityObject) : Accounted c (c.handleDeletedDataObject s d) := by
  unfold UtilityConfig.handleDeletedDataObject
  by_cases hresp : (!c.isResponsibleForDataObject d) = true
  · rw [if_pos hresp]
    exact h
  · rw [if_neg hresp]
    by_cases hstats : d.stats = true
    · rw [if_pos hstats]
      exact h
    · rw [if_neg hstats]
      exact (delete_spec h d.id).1

/-- An object of the map is deleted, if it is not marked. -/
theorem handleDeletedDataObject_perm {c : UtilityConfig} (h : Accounted c s)
    (hm : m ∈ s.utilMetadata) (hdup : m.dObj.duplicate = false) :
    s.utilMetadata.Perm (m :: (c.handleDeletedDataObject s m.dObj).utilMetadata) := by
  have hkept := h.kept m hm
  unfold UtilityConfig.handleDeletedDataObject
  rw [hkept.responsible hdup, hkept.stats, if_neg (by decide), if_neg (by decide)]
  exact (delete_spec h m.dObj.id).2 m hm hkept.id

/-- **Evictions** take away what is listed, if nothing of it is marked, and keep the counts. -/
theorem evict_spec {c : UtilityConfig} :
    ∀ {deleteDos rest : List DataObjectUtilityMetadata} {s : UtilityCache}, Accounted c s →
      (∀ m ∈ deleteDos, m.dObj.duplicate = false) →
      s.utilMetadata.Perm (deleteDos ++ rest) →
      Accounted c (c.evict s deleteDos) ∧ (c.evict s deleteDos).utilMetadata.Perm rest
  | [], rest, s, h, _, hperm => ⟨h, hperm⟩
  | m :: l, rest, s, h, hdup, hperm => by
      have hm : m ∈ s.utilMetadata := hperm.mem_iff.mpr List.mem_cons_self
      -- the entry goes, so what was listed behind it is what is left to go
      have hdel := handleDeletedDataObject_perm h hm (hdup m List.mem_cons_self)
      have hrest := (hdel.symm.trans hperm).cons_inv
      have hacc := handleDeletedDataObject_accounted h m.dObj
      exact @evict_spec c l rest _ hacc (fun x hx => hdup x (List.mem_cons_of_mem m hx)) hrest

/-! ## The purge keeps them, and the limits -/

theorem refresh_same (c : UtilityConfig) (e : UtilityEnv) (m : DataObjectUtilityMetadata) :
    (c.refresh e m).id = m.id ∧ (c.refresh e m).dObj = m.dObj ∧
      (c.refresh e m).cost = m.cost := by
  unfold UtilityConfig.refresh
  by_cases h : e.now m.id - m.computeDate > c.computePeriodMs
  · rw [if_pos h]
    exact ⟨rfl, rfl, rfl⟩
  · rw [if_neg h]
    exact ⟨rfl, rfl, rfl⟩

theorem Kept.congr {c : UtilityConfig} {m' : DataObjectUtilityMetadata} (h : Kept c m)
    (hid : m'.id = m.id) (hobj : m'.dObj = m.dObj) (hcost : m'.cost = m.cost) : Kept c m' where
  id := by rw [hid, hobj, h.id]
  responsible := by rw [hobj]; exact h.responsible
  stats := by rw [hobj, h.stats]
  cost := by rw [hcost, hobj, h.cost]
  fits := by rw [hcost]; exact h.fits

/-- What changes neither ids nor costs, and what an entry is about in no way that counts, keeps
the counts. -/
theorem Accounted.map {c : UtilityConfig} (h : Accounted c s)
    {f : DataObjectUtilityMetadata → DataObjectUtilityMetadata}
    (hf : ∀ m, (f m).id = m.id ∧ (f m).cost = m.cost ∧ (Kept c m → Kept c (f m))) :
    Accounted c { s with utilMetadata := s.utilMetadata.map f } where
  ids := by
    have hids : (s.utilMetadata.map f).map (fun m => m.id) =
        s.utilMetadata.map (fun m => m.id) := by
      rw [List.map_map]
      exact List.map_congr_left (fun m _ => (hf m).1)
    rw [hids]
    exact h.ids
  kept := by
    intro m' hm'
    obtain ⟨m, hm, rfl⟩ := List.mem_map.mp hm'
    exact (hf m).2.2 (h.kept m hm)
  num := by
    rw [List.length_map]
    exact h.num
  size := by
    have hcost : ∀ l : List DataObjectUtilityMetadata,
        totalCost false (l.map f) = totalCost false l := by
      intro l
      induction l with
      | nil => rfl
      | cons m l ih =>
          simp only [List.map_cons, totalCost, bagCost, (hf m).2.1, ih]
    rw [hcost]
    exact h.size

theorem accounted_refreshed {c : UtilityConfig} (h : Accounted c s) (e : UtilityEnv) :
    Accounted c (c.refreshed e s) := by
  refine h.map (fun m => ?_)
  obtain ⟨hid, hobj, hcost⟩ := refresh_same c e m
  exact ⟨hid, hcost, fun hkept => hkept.congr hid hobj hcost⟩

theorem deleteDos_processDos (c : UtilityConfig) (e : UtilityEnv) (s : UtilityCache) :
    (c.refreshed e s).utilMetadata.Perm (c.deleteDos e s ++ c.processDos e s) := by
  unfold UtilityConfig.deleteDos UtilityConfig.processDos
  exact (List.filter_append_perm _ _).symm.trans
    ((List.reverse_perm _).symm.append (List.reverse_perm _).symm)

theorem totalCost_append (memOnly : Bool) (l l' : List DataObjectUtilityMetadata) :
    totalCost memOnly (l ++ l') = totalCost memOnly l + totalCost memOnly l' := by
  induction l with
  | nil =>
      rw [List.nil_append]
      exact (Int.zero_add _).symm
  | cons m l ih =>
      rw [List.cons_append]
      simp only [totalCost]
      rw [ih]
      omega

theorem totalCost_nonneg {memOnly : Bool} (h : CostsFit memOnly l) : 0 ≤ totalCost memOnly l := by
  induction l with
  | nil => exact Int.le_refl 0
  | cons m l ih =>
      have hm := h m List.mem_cons_self
      have hl := ih (fun x hx => h x (List.mem_cons_of_mem m hx))
      unfold totalCost
      omega

/-- What is left of a list costs no more than all of it. -/
theorem totalCost_le_of_perm {memOnly : Bool} {kept gone : List DataObjectUtilityMetadata}
    (hfit : CostsFit memOnly l) (hperm : l.Perm (gone ++ kept)) :
    totalCost memOnly kept ≤ totalCost memOnly l := by
  rw [totalCost_perm memOnly hperm, totalCost_append]
  have hgone : CostsFit memOnly gone :=
    fun m hm => hfit m (hperm.mem_iff.mpr (List.mem_append_left kept hm))
  have := totalCost_nonneg hgone
  omega

/-- The limits that `_onConfig` and the knapsack accept without complaint, and a threshold
that is one. -/
structure UtilityConfig.Valid (c : UtilityConfig) : Prop where
  watermark : 0 ≤ c.watermarkCapacityKb
  discreteSize : c.discreteSize ≠ 0
  threshold : c.allowDbPurging = true → 0 ≤ c.dbSizeThreshold

/-- The database is not purged after the watermark took something: either nothing went over
it, or what did leaves no more than the database may hold. -/
def UtilityConfig.OneChoice (c : UtilityConfig) (e : UtilityEnv) (s : UtilityCache) : Prop :=
  c.allowDbPurging = true → ∀ evicted, c.overflow e s = some evicted →
    evicted = [] ∨ ((c.processDos e s).length : Int) - evicted.length ≤ c.dbSizeThreshold

/-- What a purge gives up because it is not useful enough, for the watermark, and for the
database if nothing went for the watermark. -/
def UtilityConfig.picked (c : UtilityConfig) (e : UtilityEnv) (s : UtilityCache) :
    List DataObjectUtilityMetadata :=
  c.deleteDos e s ++
    match c.overflow e s with
    | some [] =>
      if c.allowDbPurging = true ∧ (c.processDos e s).length > c.dbSizeThreshold then
        (solve c.discreteSize (c.dbSizeThreshold + 1) true (c.processDos e s)).getD []
      else []
    | overflow => overflow.getD []

/-- Nothing that a purge gives up has been marked by the data store. -/
def UtilityConfig.NoneMarked (c : UtilityConfig) (e : UtilityEnv) (s : UtilityCache) : Prop :=
  ∀ m ∈ c.picked e s, m.dObj.duplicate = false

/-- How a purge should end. -/
structure WithinLimits (c : UtilityConfig) (p : Purge) : Prop where
  size : p.cache.currentSize ≤ c.watermark
  num : c.allowDbPurging = true → p.cache.currentNumDo ≤ c.dbSizeThreshold
  once : (p.evicted.map (fun m => m.id)).Nodup

theorem overflow_spec {c : UtilityConfig} (hc : c.Valid) (h : Accounted c s) :
    ∃ kept evicted, c.overflow e s = some evicted ∧ (kept ++ evicted).Perm (c.processDos e s) ∧
      totalCost false kept ≤ c.watermark := by
  have hacc := accounted_refreshed h e
  have hsplit := deleteDos_processDos c e s
  have hwater : 0 ≤ c.watermark := by
    have := hc.watermark
    unfold UtilityConfig.watermark
    omega
  unfold UtilityConfig.overflow
  by_cases hfull : totalCost false (c.refreshed e s).utilMetadata > c.watermark
  · rw [if_pos hfull]
    have hfit : CostsFit false (c.processDos e s) := fun m hm =>
      hacc.costsFit false m (hsplit.mem_iff.mpr (List.mem_append_right _ hm))
    obtain ⟨kept, evicted, hsolve, hperm, hsum⟩ := solve_spec hc.discreteSize hwater hfit
    exact ⟨kept, evicted, hsolve, hperm, by omega⟩
  · rw [if_neg hfull]
    refine ⟨c.processDos e s, [], rfl, ?_, ?_⟩
    · rw [List.append_nil]
    · have := totalCost_le_of_perm (hacc.costsFit false) hsplit
      omega

/-- The ids of what is evicted are different ones. -/
theorem evicted_nodup {c : UtilityConfig} (h : Accounted c s)
    {evicted rest : List DataObjectUtilityMetadata} (hperm : s.utilMetadata.Perm (evicted ++ rest)) :
    (evicted.map (fun m => m.id)).Nodup := by
  have hids := ((hperm.map (fun m => m.id)).nodup_iff).mp h.ids
  rw [List.map_append] at hids
  exact (List.nodup_append.mp hids).1

/-- What goes for uselessness and for the watermark is picked. -/
theorem NoneMarked.first {c : UtilityConfig} {evicted : List DataObjectUtilityMetadata}
    (h : c.NoneMarked e s) (hover : c.overflow e s = some evicted) :
    ∀ m ∈ c.deleteDos e s ++ evicted, m.dObj.duplicate = false := by
  intro m hm
  refine h m ?_
  unfold UtilityConfig.picked
  rcases List.mem_append.mp hm with hdel | hev
  · exact List.mem_append_left _ hdel
  · refine List.mem_append_right _ ?_
    cases evicted with
    | nil => exact absurd hev List.not_mem_nil
    | cons x l =>
        rw [hover]
        exact hev

/-- And so is what goes for the database, when nothing went for the watermark. -/
theorem NoneMarked.second {c : UtilityConfig} {dbOver : List DataObjectUtilityMetadata}
    (h : c.NoneMarked e s) (hover : c.overflow e s = some []) (hallow : c.allowDbPurging = true)
    (hmany : (c.processDos e s).length > c.dbSizeThreshold)
    (hsolve : solve c.discreteSize (c.dbSizeThreshold + 1) true (c.processDos e s) = some dbOver) :
    ∀ m ∈ dbOver, m.dObj.duplicate = false := by
  intro m hm
  refine h m ?_
  unfold UtilityConfig.picked
  refine List.mem_append_right _ ?_
  rw [hover]
  simp only
  rw [if_pos ⟨hallow, hmany⟩, hsolve]
  exact hm

/-- **A purge** without a second choice after a first that took something, and with nothing
marked that it gives up. -/
theorem purgeCache_spec {c : UtilityConfig} (hc : c.Valid) (h : Accounted c s)
    (hone : c.OneChoice e s) (hmarked : c.NoneMarked e s) :
    ∃ p, c.purgeCache e s = some p ∧ Accounted c p.cache ∧ WithinLimits c p := by
  have hacc := accounted_refreshed h e
  obtain ⟨kept, evicted, hover, hperm, hkept⟩ := overflow_spec hc (e := e) h
  have hsplit : (c.refreshed e s).utilMetadata.Perm ((c.deleteDos e s ++ evicted) ++ kept) := by
    rw [List.append_assoc]
    exact (deleteDos_processDos c e s).trans
      ((hperm.symm.trans List.perm_append_comm).append_left _)
  obtain ⟨hacc', hrest⟩ := evict_spec hacc (NoneMarked.first hmarked hover) hsplit
  have hsize : (c.evict (c.refreshed e s) (c.deleteDos e s ++ evicted)).currentSize ≤
      c.watermark := by
    rw [hacc'.size, totalCost_perm false hrest]
    exact hkept
  have hnum : (c.evict (c.refreshed e s) (c.deleteDos e s ++ evicted)).currentNumDo =
      kept.length := by
    rw [hacc'.num, hrest.length_eq]
  have hmatch : ¬ totalCost false (c.refreshed e s).utilMetadata ≠ s.currentSize :=
    fun hne => hne hacc.size.symm
  unfold UtilityConfig.purgeCache
  rw [if_neg hmatch, hover]
  simp only [Option.bind_eq_bind, Option.bind_some, pure]
  rw [if_neg (Int.not_lt.mpr hsize)]
  by_cases hdb : c.allowDbPurging = true ∧
      (c.evict (c.refreshed e s) (c.deleteDos e s ++ evicted)).currentNumDo > c.dbSizeThreshold
  · rw [if_pos hdb]
    obtain ⟨hallow, hmany⟩ := hdb
    -- too many are left, so the watermark took nothing
    have hnil : evicted = [] := by
      rcases hone hallow evicted hover with hnil | hfew
      · exact hnil
      · have hlen := hperm.length_eq
        rw [List.length_append] at hlen
        omega
    have hall : kept.Perm (c.processDos e s) := by
      rw [hnil, List.append_nil] at hperm
      exact hperm
    have hlive : ∀ m ∈ c.processDos e s,
        m ∈ (c.evict (c.refreshed e s) (c.deleteDos e s ++ evicted)).utilMetadata :=
      fun m hm => hrest.mem_iff.mpr (hall.mem_iff.mpr hm)
    rw [if_pos hlive]
    have hfit : CostsFit true (c.processDos e s) := fun m hm =>
      hacc'.costsFit true m (hlive m hm)
    have hbag : 0 ≤ c.dbSizeThreshold + 1 := by
      have := hc.threshold hallow
      omega
    obtain ⟨kept', dbOver, hsolve, hperm', hsum⟩ := solve_spec hc.discreteSize hbag hfit
    rw [hsolve]
    simp only [Option.bind_some]
    have hagain : (c.evict (c.refreshed e s) (c.deleteDos e s ++ evicted)).utilMetadata.Perm
        (dbOver ++ kept') :=
      (hrest.trans hall).trans (hperm'.symm.trans List.perm_append_comm)
    have hdb : ∀ m ∈ dbOver, m.dObj.duplicate = false := by
      refine NoneMarked.second hmarked (by rw [hover, hnil]) hallow ?_ hsolve
      rw [← hall.length_eq, ← hnum]
      exact hmany
    obtain ⟨hacc'', hrest'⟩ := evict_spec hacc' hdb hagain
    refine ⟨_, rfl, hacc'', ?_, ?_, ?_⟩
    · rw [hacc''.size, totalCost_perm false hrest']
      have := totalCost_le_of_perm (hacc'.costsFit false) hagain
      rw [← hacc'.size] at this
      omega
    · intro _
      rw [hacc''.num, hrest'.length_eq]
      rw [totalCost_memOnly] at hsum
      have := hc.threshold hallow
      omega
    · apply evicted_nodup hacc
      rw [List.append_assoc]
      exact hsplit.trans ((hrest.symm.trans hagain).append_left _)
  · rw [if_neg hdb]
    refine ⟨_, rfl, hacc', hsize, ?_, evicted_nodup hacc hsplit⟩
    intro hallow
    by_contra hmany
    exact hdb ⟨hallow, Int.not_le.mp hmany⟩

/-! ## Arrivals keep them -/

theorem insertMetadata_perm (m : DataObjectUtilityMetadata) (l : List DataObjectUtilityMetadata) :
    (insertMetadata m l).Perm (m :: l) := by
  induction l with
  | nil => exact List.Perm.refl _
  | cons x l ih =>
      unfold insertMetadata
      by_cases hlt : m.id < x.id
      · rw [if_pos hlt]
      · rw [if_neg hlt]
        exact (ih.cons x).trans (List.Perm.swap m x l)

/-- A length that is an `int` is what an arrival costs. -/
theorem arrivalCost_eq {d : UtilityObject} (h : d.origDataLen < 2147483648) :
    UtilityConfig.arrivalCost d = d.storedLength ∧ d.storedLength ≤ 2147483647 := by
  unfold UtilityConfig.arrivalCost UtilityObject.storedLength
  rw [wrapInt_of_range (by omega) (by omega)]
  by_cases hz : d.origDataLen = 0
  · rw [if_pos hz, if_pos (by omega)]
    decide
  · rw [if_neg hz, if_neg (by omega)]
    omega

theorem takeIn_accounted {c : UtilityConfig} {t : UtilityCache} {d : UtilityObject}
    (h : Accounted c s) (hkeep : c.takeIn e s d = some t) (hlen : d.origDataLen < 2147483648) :
    Accounted c t := by
  unfold UtilityConfig.takeIn at hkeep
  by_cases hresp : (!c.isResponsibleForDataObject d) = true
  · rw [if_pos hresp] at hkeep
    exact nomatch hkeep
  rw [if_neg hresp] at hkeep
  by_cases hstats : d.stats = true
  · rw [if_pos hstats] at hkeep
    exact nomatch hkeep
  rw [if_neg hstats] at hkeep
  by_cases hdupe : s.utilMetadata.any (fun m => m.id = d.id) = true
  · rw [if_pos hdupe] at hkeep
    exact nomatch hkeep
  rw [if_neg hdupe] at hkeep
  simp only at hkeep
  by_cases hpurge : e.compute d.id < e.minimumThreshold ∨ (c.purgeOnInsert = false ∧
      s.currentSize + UtilityConfig.arrivalCost d > c.maxCapacityKb * 1024)
  · rw [if_pos hpurge] at hkeep
    exact nomatch hkeep
  rw [if_neg hpurge] at hkeep
  obtain rfl := Option.some.inj hkeep
  -- past the four tests the object comes in, at a cost that is its length and no overflow
  obtain ⟨hcost, hfits⟩ := arrivalCost_eq hlen
  have hperm := insertMetadata_perm ⟨d, d.id, UtilityConfig.arrivalCost d, e.compute d.id,
    e.now d.id, d.createTime, !c.purgeOnInsert⟩ s.utilMetadata
  refine ⟨?_, ?_, ?_, ?_⟩
  · refine ((hperm.map (fun m => m.id)).nodup_iff).mpr (List.nodup_cons.mpr ⟨?_, h.ids⟩)
    intro hmem
    obtain ⟨m, hm, hid⟩ := List.mem_map.mp hmem
    exact hdupe (List.any_eq_true.mpr ⟨m, hm, decide_eq_true hid⟩)
  · intro m hm
    rcases List.mem_cons.mp (hperm.mem_iff.mp hm) with hnew | hold
    · rw [hnew]
      refine ⟨rfl, ?_, Bool.eq_false_iff.mpr hstats, ?_, ?_⟩
      · intro _
        rw [Bool.not_eq_true'] at hresp
        exact Bool.eq_true_of_not_eq_false hresp
      · dsimp only
        exact hcost
      · dsimp only
        omega
    · exact h.kept m hold
  · have hlen := hperm.length_eq
    have hnum := h.num
    rw [List.length_cons] at hlen
    dsimp only
    omega
  · have hsize := h.size
    have htotal := totalCost_perm false hperm
    rw [htotal]
    simp only [totalCost, bagCost, Bool.false_eq_true, if_false]
    omega

theorem setEnableDeletion_accounted {c : UtilityConfig} (h : Accounted c s) (id : CString) :
    Accounted c (s.setEnableDeletion id) := by
  refine h.map (fun m => ?_)
  by_cases hid : m.id = id
  · rw [if_pos hid]
    exact ⟨rfl, rfl, fun hkept => hkept.congr rfl rfl rfl⟩
  · rw [if_neg hid]
    exact ⟨rfl, rfl, fun hkept => hkept⟩

/-- A mark changes neither the length of an object nor whether it is counted. -/
theorem setDuplicate_accounted {c : UtilityConfig} (h : Accounted c s) (id : CString) :
    Accounted c (s.setDuplicate id) := by
  refine h.map (fun m => ?_)
  by_cases hid : m.id = id
  · rw [if_pos hid]
    -- the entry stays, whatever the cache feels responsible for from now on
    exact ⟨rfl, rfl, fun hkept =>
      ⟨hkept.id, (fun hfalse => nomatch hfalse), hkept.stats, hkept.cost, hkept.fits⟩⟩
  · rw [if_neg hid]
    exact ⟨rfl, rfl, fun hkept => hkept⟩

/-! ## Runs -/

/-- What an operation must not do: take an object whose length is not an `int`, or purge with
a second choice after a first that took something, or with something marked that it gives up. -/
def UtilityConfig.ok (c : UtilityConfig) (s : UtilityCache) : UtilityOp → Prop
  | .newDataObject e e' d => ∀ t, c.takeIn e s d = some t → d.origDataLen < 2147483648 ∧
      (c.purgeOnInsert = true → c.OneChoice e' t ∧ c.NoneMarked e' t)
  | .deletedDataObject _ => True
  | .purgeCache e => c.OneChoice e s ∧ c.NoneMarked e s
  | .setDuplicate _ => True

instance (c : UtilityConfig) (e : UtilityEnv) (s : UtilityCache) : Decidable (c.OneChoice e s) :=
  inferInstanceAs (Decidable (c.allowDbPurging = true → ∀ evicted ∈ c.overflow e s,
    evicted = [] ∨ ((c.processDos e s).length : Int) - evicted.length ≤ c.dbSizeThreshold))

instance (c : UtilityConfig) (e : UtilityEnv) (s : UtilityCache) : Decidable (c.NoneMarked e s) :=
  inferInstanceAs (Decidable (∀ m ∈ c.picked e s, m.dObj.duplicate = false))

instance (c : UtilityConfig) (s : UtilityCache) (op : UtilityOp) : Decidable (c.ok s op) :=
  match op with
  | .newDataObject e e' d => inferInstanceAs (Decidable (∀ t ∈ c.takeIn e s d,
      d.origDataLen < 2147483648 ∧
        (c.purgeOnInsert = true → c.OneChoice e' t ∧ c.NoneMarked e' t)))
  | .deletedDataObject _ => isTrue trivial
  | .purgeCache e => inferInstanceAs (Decidable (c.OneChoice e s ∧ c.NoneMarked e s))
  | .setDuplicate _ => isTrue trivial

/-- **Each operation** keeps the counts, and its purge ends within the limits. -/
theorem outcome_spec {c : UtilityConfig} (hc : c.Valid) {op : UtilityOp} (h : Accounted c s)
    (hok : c.ok s op) :
    ∃ o, c.outcome s op = some o ∧ Accounted c o.cache ∧
      ∀ p, o.purge = some p → WithinLimits c p := by
  cases op with
  | deletedDataObject d =>
      exact ⟨_, rfl, handleDeletedDataObject_accounted h d, fun p hp => nomatch hp⟩
  | setDuplicate id => exact ⟨_, rfl, setDuplicate_accounted h id, fun p hp => nomatch hp⟩
  | purgeCache e =>
      obtain ⟨p, hp, hacc, hlimits⟩ := purgeCache_spec hc h hok.1 hok.2
      refine ⟨⟨p.cache, some p, false⟩, ?_, hacc, ?_⟩
      · simp only [UtilityConfig.outcome, hp, Option.map_some]
      · intro p' hp'
        obtain rfl := Option.some.inj hp'
        exact hlimits
  | newDataObject e e' d =>
      simp only [UtilityConfig.outcome, UtilityConfig.handleNewDataObject]
      cases hkeep : c.takeIn e s d with
      | none => exact ⟨_, rfl, h, fun p hp => nomatch hp⟩
      | some t =>
          obtain ⟨hlen, hone⟩ := hok t hkeep
          have hacc := takeIn_accounted h hkeep hlen
          -- the purge comes only where insertion asks for it
          cases hmode : c.purgeOnInsert with
          | false => exact ⟨_, rfl, hacc, fun p hp => nomatch hp⟩
          | true =>
              obtain ⟨p, hp, hacc', hlimits⟩ := purgeCache_spec hc hacc (hone hmode).1 (hone hmode).2
              simp only [hp, Bool.not_true, Bool.false_eq_true, if_false, Option.bind_eq_bind,
                Option.bind_some, pure]
              by_cases hgone : p.wasDeleted d.id = true
              · rw [if_pos hgone]
                refine ⟨_, rfl, hacc', ?_⟩
                intro p' hp'
                obtain rfl := Option.some.inj hp'
                exact hlimits
              · rw [if_neg hgone]
                refine ⟨_, rfl, setEnableDeletion_accounted hacc' d.id, ?_⟩
                intro p' hp'
                obtain rfl := Option.some.inj hp'
                exact hlimits

/-- The counts of a map: its entries, and the sum of the lengths of its objects. -/
theorem Accounted.totalLength {c : UtilityConfig} (h : Accounted c s) :
    s.currentSize = (s.utilMetadata.map (fun m => m.dObj.storedLength)).sum := by
  have hsum : ∀ l : List DataObjectUtilityMetadata, (∀ m ∈ l, Kept c m) →
      totalCost false l = (l.map (fun m => m.dObj.storedLength)).sum := by
    intro l
    induction l with
    | nil => exact fun _ => rfl
    | cons m l ih =>
        intro hl
        rw [List.map_cons, List.sum_cons, ← ih (fun x hx => hl x (List.mem_cons_of_mem m hx)),
          ← (hl m List.mem_cons_self).cost]
        rfl
  rw [h.size]
  exact hsum _ h.kept

/--
**The counts and the limits of the utility cache.**

In a run of arrivals, deletions and purges, with marks of the data store at any time between
them, that takes no object whose length is not an `int`, never chooses a second time after a
first choice took something and gives up nothing that is marked, the counts are those of
the map in the state reached. Whatever is done next under the same conditions, a purge that it
makes ends with the size at most the watermark and, if the database is purged, with no more
objects than the threshold, and it evicted no object twice.
-/
theorem cache_counts_and_limits (c : UtilityConfig) (hc : c.Valid) (ops : List UtilityOp)
    (hrun : Guarded c.step c.ok UtilityCache.empty ops) :
    ∃ s, run c.step UtilityCache.empty ops = some s ∧
      s.currentNumDo = s.utilMetadata.length ∧
      s.currentSize = (s.utilMetadata.map (fun m => m.dObj.storedLength)).sum ∧
      ∀ op, c.ok s op → ∃ o, c.outcome s op = some o ∧
        ∀ p, o.purge = some p →
          p.cache.currentSize ≤ c.watermarkCapacityKb * 1024 ∧
          (c.allowDbPurging = true → p.cache.currentNumDo ≤ c.dbSizeThreshold) ∧
          (p.evicted.map (fun m => m.id)).Nodup := by
  have hstep : ∀ s op, Accounted c s → c.ok s op →
      ∃ s', c.step s op = some s' ∧ Accounted c s' := by
    intro s op h hok
    obtain ⟨o, ho, hacc, _⟩ := outcome_spec hc h hok
    refine ⟨o.cache, ?_, hacc⟩
    unfold UtilityConfig.step
    rw [ho, Option.map_some]
  obtain ⟨s, hs, hacc⟩ := run_invariant hstep ops _ (accounted_empty c) hrun
  refine ⟨s, hs, hacc.num, hacc.totalLength, ?_⟩
  intro op hok
  obtain ⟨o, ho, _, hlimits⟩ := outcome_spec hc hacc hok
  refine ⟨o, ho, fun p hp => ?_⟩
  have hp := hlimits p hp
  exact ⟨hp.size, hp.num, hp.once⟩

/-- One kilobyte in the cache, and `threshold` objects in the database. -/
def kilobyte (purgeOnInsert : Bool) (threshold : Int) : UtilityConfig :=
  ⟨0, 8, 1, purgeOnInsert, false, true, true, true, threshold, 1⟩

/-- A moment at which everything is equally useful. -/
def moment (now : Int) : UtilityEnv := ⟨fun _ => now, fun _ => 1, 0⟩

/-- A data object of some length. -/
def dataOf (id : UInt8) (origDataLen : Nat) : UtilityObject :=
  ⟨[id], origDataLen, id.toNat, false, false, false, false, true, false⟩

/-- Four objects, each of which is purged for as it comes. One goes for the watermark, one is
deleted, one is marked, and the last goes for the database. -/
def arrivals : List UtilityOp :=
  [.newDataObject (moment 1) (moment 2) (dataOf 1 600),
    .newDataObject (moment 3) (moment 4) (dataOf 2 600), .deletedDataObject (dataOf 2 600),
    .newDataObject (moment 5) (moment 6) (dataOf 3 600), .setDuplicate [3],
    .newDataObject (moment 7) (moment 8) (dataOf 1 0)]

theorem cache_counts_and_limits_arrivals :
    ∃ s, run (kilobyte true 1).step UtilityCache.empty arrivals = some s ∧
      s.currentNumDo = s.utilMetadata.length ∧
      s.currentSize = (s.utilMetadata.map (fun m => m.dObj.storedLength)).sum ∧
      ∃ o, (kilobyte true 1).outcome s (.purgeCache (moment 9)) = some o ∧
        ∀ p, o.purge = some p → p.cache.currentSize ≤ 1024 ∧ p.cache.currentNumDo ≤ 1 ∧
          (p.evicted.map (fun m => m.id)).Nodup := by
  obtain ⟨s, hs, hnum, hsize, hnext⟩ := cache_counts_and_limits (kilobyte true 1)
    ⟨by decide, by decide, fun _ => by decide⟩ arrivals (by decide +kernel)
  refine ⟨s, hs, hnum, hsize, ?_⟩
  have hok : (run (kilobyte true 1).step UtilityCache.empty arrivals).all
      (fun s => decide ((kilobyte true 1).ok s (.purgeCache (moment 9)))) = true := by
    decide +kernel
  rw [hs] at hok
  obtain ⟨o, ho, hlimits⟩ := hnext _ (of_decide_eq_true hok)
  refine ⟨o, ho, fun p hp => ?_⟩
  obtain ⟨hp, hp', hp''⟩ := hlimits p hp
  exact ⟨hp, hp' rfl, hp''⟩

/--
Four gigabytes are counted as one byte. A purge for which both limits are exceeded has the
knapsack look at what it has just freed: of two objects of 600 bytes one is over the watermark,
and the other is one too many for the database. And of two such objects that the data store has
marked none goes, whatever a purge gives up.
-/
theorem counts_and_limits_fail :
    (run (kilobyte false 9).step UtilityCache.empty
        [.newDataObject (moment 1) (moment 1) (dataOf 1 4294967296)]).map
      (fun s => (s.currentSize, (s.utilMetadata.map (fun m => m.dObj.storedLength)).sum)) =
        some (1, 4294967296) ∧
    (run (kilobyte false 0).step UtilityCache.empty
        [.newDataObject (moment 1) (moment 1) (dataOf 1 600),
          .newDataObject (moment 2) (moment 2) (dataOf 2 600)]).map
      (fun s => (s.currentNumDo, ((kilobyte false 0).overflow (moment 3) s).map List.length,
        (kilobyte false 0).purgeCache (moment 3) s)) = some (2, some 1, none) ∧
    (run (kilobyte false 9).step UtilityCache.empty
        [.newDataObject (moment 1) (moment 1) (dataOf 1 600),
          .newDataObject (moment 2) (moment 2) (dataOf 2 600),
          .setDuplicate [1], .setDuplicate [2]]).map
      (fun s => ((kilobyte false 9).purgeCache (moment 3) s).map
        (fun p => (p.evicted.map (fun m => m.id), p.cache.currentSize))) =
          some (some ([[1]], 1200)) := by
  decide +kernel

end Encoders.Cache
