import Encoders.Store.StoreLaw

/-!
# The query for several nodes

`_doDataObjectForNodesQuery` looks for what one node, the delegate, can carry to several others.
The limit is the delegate's, and is shared: what is found for one target is taken off before the
next one's turn. `_doDataObjectQueryStep2` looks for one target, and a limit of zero is none.

The loop goes on while nothing is left, where it should stop, so a target whose turn comes then
has no limit at all. And it forgets what was found before the last target, so the callback is
left out if nothing is found for that one.
-/

namespace Encoders.Store

open Encoders.Lib Encoders.Container Encoders.Data

/-! ## What a query reads -/

/-- What a query reads of a node. -/
structure QueryNode where
  id : CString
  type : NodeType
  isLocalApplication : Bool
  proxyId : CString
  maxDataObjectsInMatch : UInt64
  matchingThreshold : UInt64
  has : StoreObject → Bool
  hasThisOrParentDataObject : StoreObject → Bool
  /-- `Node::create(dObj) == node` -/
  isDescribedBy : StoreObject → Bool

/-- What it reads of the store's configuration and of the kernel. -/
structure QuerySettings where
  firstClassApplications : Bool
  excludeNodeDescriptions : Bool
  countNodeDescriptions : Bool
  thisNodeId : CString
  /-- `getNodeStore()->retrieve` -/
  retrieve : CString → Option QueryNode
  isNetworkCodingEnabled : StoreObject → Bool
  isFragmentationEnabled : StoreObject → Bool
  /-- The id of the object that a block is of. -/
  originalOfBlock : StoreObject → Option CString
  /-- The id of the object that a fragment is of. -/
  originalOfFragment : StoreObject → Option CString

/-- `getIdOrParentId` -/
def QuerySettings.getIdOrParentId (c : QuerySettings) (dObj : StoreObject) : CString :=
  let ofFragment :=
    if c.isFragmentationEnabled dObj then (c.originalOfFragment dObj).getD dObj.id else dObj.id
  if c.isNetworkCodingEnabled dObj then (c.originalOfBlock dObj).getD ofFragment else ofFragment

/-- `DataStoreQueryResult`, without its times. -/
structure QueryResult where
  nodes : List QueryNode
  dataObjects : List StoreObject

/-- A number in an `int`. -/
def toCInt (n : Int) : Int := n.bmod 4294967296

namespace MemoryDataStore

/-- `mc->getDataObjectsForNode` -/
def getDataObjectsForNode (s : MemoryDataStore) (nodeId : CString)
    (minAttrMatch maxMatches threshold : Int) : List StoreObject :=
  (s.mc.getDataObjectIdsForNode nodeId minAttrMatch maxMatches threshold).filterMap
    s.getDataObjectFromId

/-! ## One target -/

/-- The proxy of an application of another node has the object. -/
def proxyHas (c : QuerySettings) (node : QueryNode) (dObj : StoreObject) : Bool :=
  c.firstClassApplications && !node.isLocalApplication && node.type = .application &&
    node.proxyId ≠ c.thisNodeId && (c.retrieve node.proxyId).any (fun proxy => proxy.has dObj)

/-- The objects that the loop goes on from. -/
def passesOver (c : QuerySettings) (node : QueryNode) (delegate : Option QueryNode)
    (dObj : StoreObject) : Bool :=
  node.hasThisOrParentDataObject dObj ||
    delegate.any (fun d => d.hasThisOrParentDataObject dObj) || proxyHas c node dObj ||
    (dObj.isNodeDescription && (c.excludeNodeDescriptions || node.isDescribedBy dObj ||
      delegate.any (fun d => d.isDescribedBy dObj)))

/-- `include`: the object counts towards the limit. -/
def includes (c : QuerySettings) (uniques : List CString) (dObj : StoreObject) : Bool :=
  !(dObj.isNodeDescription && !c.countNodeDescriptions) && c.getIdOrParentId dObj ∉ uniques

/-- The loop of `_doDataObjectQueryStep2`: what it adds to the result, and `num_match`. -/
def queryLoop (c : QuerySettings) (node : QueryNode) (delegate : Option QueryNode)
    (maxMatches : Int) : List CString → Int → Int → List StoreObject → List StoreObject × Int
  | _, numMatch, _, [] => ([], numMatch)
  | uniques, numMatch, numMatchDobjs, dObj :: dObjs =>
      if passesOver c node delegate dObj then
        queryLoop c node delegate maxMatches uniques numMatch numMatchDobjs dObjs
      else
        let numMatchDobjs :=
          if includes c uniques dObj then toCInt (numMatchDobjs + 1) else numMatchDobjs
        let numMatch := toCInt (numMatch + 1)
        if maxMatches ≠ 0 ∧ maxMatches ≤ numMatchDobjs then ([dObj], numMatch)
        else
          let rest := queryLoop c node delegate maxMatches (c.getIdOrParentId dObj :: uniques)
            numMatch numMatchDobjs dObjs
          (dObj :: rest.1, rest.2)

/-- `_doDataObjectQueryStep2` -/
def doDataObjectQueryStep2 (c : QuerySettings) (s : MemoryDataStore) (node : QueryNode)
    (delegate : Option QueryNode) (maxMatches threshold attrMatch : Int) :
    List StoreObject × Int :=
  let maxMatches := if c.firstClassApplications && node.isLocalApplication then 0 else maxMatches
  queryLoop c node delegate maxMatches [] 0 0
    (s.getDataObjectsForNode node.id attrMatch 0 threshold)

/-! ## All targets -/

/-- The loop of `_doDataObjectForNodesQuery`: the result and `num_match`, which is unsigned. -/
def forNodesLoop (c : QuerySettings) (s : MemoryDataStore) (delegate : QueryNode)
    (attrMatch : UInt32) (hasMaximum : Bool) :
    Int → QueryResult → Nat → List QueryNode → QueryResult × Nat
  | _, qr, numMatch, [] => (qr, numMatch)
  | numLeft, qr, numMatch, node :: nodes =>
      if !hasMaximum || 0 ≤ numLeft then
        let found := doDataObjectQueryStep2 c s node (some delegate) (toCInt numLeft)
          (toInt delegate.matchingThreshold) (toCInt attrMatch.toNat)
        let numMatch := (found.2 % 4294967296).toNat
        forNodesLoop c s delegate attrMatch hasMaximum
          (if hasMaximum then numLeft - numMatch else numLeft)
          ⟨qr.nodes ++ List.replicate found.1.length node, qr.dataObjects ++ found.1⟩ numMatch nodes
      else (qr, numMatch)

/-- What a query for several nodes leaves: the result, whether the callback is raised with it, and
the number that is returned. -/
structure ForNodes where
  qr : QueryResult
  callback : Bool
  ret : Int

/-- `_doDataObjectForNodesQuery`, without `BENCHMARK`. The limit is an `unsigned long`, kept in a
`long`. -/
def doDataObjectForNodesQuery (c : QuerySettings) (s : MemoryDataStore) (delegate : QueryNode)
    (nodes : List QueryNode) (attrMatch : UInt32) : ForNodes :=
  let numLeft := (delegate.maxDataObjectsInMatch.toNat : Int).bmod 18446744073709551616
  let done := forNodesLoop c s delegate attrMatch (0 < numLeft) numLeft ⟨[delegate], []⟩ 0 nodes
  ⟨done.1, done.2 ≠ 0, toCInt done.2⟩

/-! ## One target, found out -/

/-- Nothing but whole objects, and no descriptions, among those that can be found. -/
structure WholeObjects (c : QuerySettings) (s : MemoryDataStore) : Prop where
  other : ∀ id dObj, s.getDataObjectFromId id = some dObj → dObj.isNodeDescription = false
  noBlock : ∀ id dObj, s.getDataObjectFromId id = some dObj → c.originalOfBlock dObj = none
  noFragment : ∀ id dObj, s.getDataObjectFromId id = some dObj → c.originalOfFragment dObj = none

/-- What is found for a target where there is no limit. -/
def matchesFor (c : QuerySettings) (s : MemoryDataStore) (delegate : QueryNode)
    (attrMatch : UInt32) (node : QueryNode) : List StoreObject :=
  (doDataObjectQueryStep2 c s node (some delegate) 0 (toInt delegate.matchingThreshold)
    (toCInt attrMatch.toNat)).1

/-- How many of so many matches are found, for a limit. -/
def granted (maxMatches : Int) (found : Nat) : Nat :=
  if maxMatches = 0 then found else min found (max 1 maxMatches).toNat

theorem toCInt_succ (n : Int) : toCInt (toCInt n + 1) = toCInt (n + 1) := by
  unfold toCInt
  exact Int.bmod_add_bmod

theorem toCInt_of_small {n : Int} (h0 : 0 ≤ n) (h : n < 2147483648) : toCInt n = n := by
  unfold toCInt
  exact Int.bmod_eq_of_le (by omega) (by omega)

theorem toCInt_lt (n : Int) : toCInt n < 2147483648 := by
  have h := @Int.bmod_lt n 4294967296 (by omega)
  unfold toCInt
  omega

theorem toCInt_toNat (n : Nat) : (toCInt n % 4294967296).toNat = n % 4294967296 := by
  have h : toCInt n % 4294967296 = (n : Int) % 4294967296 := Int.bmod_emod
  rw [h]
  omega

/-- **The loop over the objects**, where each of them counts: it takes what it does not pass over,
up to the limit. -/
theorem queryLoop_eq {c : QuerySettings} {node : QueryNode} {delegate : Option QueryNode}
    {maxMatches : Int} (hmax : maxMatches < 2147483648) :
    ∀ (dObjs : List StoreObject) (uniques : List CString) (k : Nat),
      (∀ dObj ∈ dObjs, dObj.isNodeDescription = false ∧ c.getIdOrParentId dObj = dObj.id) →
      (dObjs.map StoreObject.id).Nodup → (∀ dObj ∈ dObjs, dObj.id ∉ uniques) →
      (maxMatches ≠ 0 → k < (max 1 maxMatches).toNat) →
      let found := dObjs.filter (fun dObj => !passesOver c node delegate dObj)
      let taken := if maxMatches = 0 then found else found.take ((max 1 maxMatches).toNat - k)
      queryLoop c node delegate maxMatches uniques (toCInt k) (toCInt k) dObjs =
        (taken, toCInt (k + taken.length : Nat))
  | [], _, k, _, _, _, _ => by simp [queryLoop]
  | dObj :: dObjs, uniques, k, hplain, hd, hnew, hk => by
      rw [List.map_cons, List.nodup_cons] at hd
      have hplain' := fun d hmem => hplain d (List.mem_cons_of_mem _ hmem)
      rw [queryLoop]
      by_cases hover : passesOver c node delegate dObj = true
      · rw [if_pos hover, List.filter_cons_of_neg (by simp [hover])]
        exact queryLoop_eq hmax dObjs uniques k hplain' hd.2
          (fun d hmem => hnew d (List.mem_cons_of_mem _ hmem)) hk
      · obtain ⟨hother, hid⟩ := hplain dObj List.mem_cons_self
        have hincludes : includes c uniques dObj = true := by
          rw [includes, hother, hid]
          simp [hnew dObj List.mem_cons_self]
        rw [if_neg hover, List.filter_cons_of_pos (by simp [hover])]
        simp only [hincludes, if_true, toCInt_succ, hid]
        rw [show ((k : Int) + 1) = ((k + 1 : Nat) : Int) by omega]
        have hnext := @queryLoop_eq c node delegate maxMatches hmax dObjs (dObj.id :: uniques)
          (k + 1) hplain' hd.2 (fun d hmem hin => by
            rcases List.mem_cons.mp hin with heq | hin
            · exact hd.1 (heq ▸ List.mem_map_of_mem hmem)
            · exact hnew d (List.mem_cons_of_mem _ hmem) hin)
        by_cases hzero : maxMatches = 0
        · have hrest := hnext (fun hne => absurd hzero hne)
          simp only [hzero, ne_eq, not_true_eq_false, false_and, if_false, if_true] at hrest ⊢
          rw [hrest, List.length_cons, Nat.add_right_comm, Nat.add_assoc]
        · have hlt := hk hzero
          have hsmall : toCInt ((k + 1 : Nat) : Int) = ((k + 1 : Nat) : Int) :=
            toCInt_of_small (by omega) (by omega)
          by_cases hfull : maxMatches ≤ ((k + 1 : Nat) : Int)
          · -- the limit is reached with this one
            rw [if_pos ⟨hzero, by rw [hsmall]; exact hfull⟩]
            have hone : (max 1 maxMatches).toNat - k = 1 := by omega
            rw [if_neg hzero, hone, List.take_succ_cons, List.take_zero]
            rfl
          · have hrest := hnext (fun _ => by omega)
            rw [if_neg (fun hcon => hfull (by rw [← hsmall]; exact hcon.2))]
            have hmore : (max 1 maxMatches).toNat - k =
                (max 1 maxMatches).toNat - (k + 1) + 1 := by omega
            simp only [hzero, if_false] at hrest ⊢
            rw [hrest, hmore, List.take_succ_cons, List.length_cons, Nat.add_right_comm,
              Nat.add_assoc]

/-! ## What is behind an id -/

/-- The object behind an id has it. -/
def Named (s : MemoryDataStore) : Prop := ∀ id dObj, s.dataObject id = some dObj → dObj.id = id

section Names

variable {s : MemoryDataStore} {cfg : StoreSettings}

theorem Named.congr {s' : MemoryDataStore} (h : Named s) (heq : s'.dataObject = s.dataObject) :
    Named s' := fun id dObj hd => h id dObj (heq ▸ hd)

theorem dataObject_callBack (s : MemoryDataStore) (callback : Bool) (e : StoreEvent) :
    (s.callBack callback e).dataObject = s.dataObject := by
  rw [callBack_eq]
  rfl

theorem dataObject_deleteDataObject (s : MemoryDataStore) (dObj : StoreObject)
    (report keep : Bool) : (s.deleteDataObject cfg dObj report keep).2.dataObject = s.dataObject := by
  unfold deleteDataObject
  split
  · rfl
  · exact dataObject_deleteDataObjectHelper _ _ _

theorem dataObject_deleteDataObjects (s : MemoryDataStore) (dObjs : List StoreObject)
    (report : Bool) : (s.deleteDataObjects cfg dObjs report).dataObject = s.dataObject := by
  unfold deleteDataObjects
  refine List.foldlRecOn (motive := fun s' : MemoryDataStore => s'.dataObject = s.dataObject)
    dObjs _ rfl ?_
  intro s' hs' dObj _
  exact (dataObject_deleteDataObject s' dObj report false).trans hs'

theorem Named.cacheDataObject (h : Named s) (dObj : StoreObject) :
    Named (s.cacheDataObject dObj) := by
  intro id d hd
  unfold MemoryDataStore.cacheDataObject at hd
  dsimp only at hd
  split at hd
  · next hid => exact (congrArg StoreObject.id (Option.some.inj hd)).symm.trans hid.symm
  · exact h id d hd

theorem Named.storeAndMatch (h : Named s) (dObj : StoreObject) (callback : Bool) :
    Named (s.storeAndMatch cfg dObj callback).store := by
  have hmatched : Named ((s.cacheDataObject dObj).evaluateFilters cfg dObj) := by
    rw [evaluateFilters_eq]
    exact (h.cacheDataObject dObj).congr rfl
  unfold MemoryDataStore.storeAndMatch
  refine Named.congr ?_ (dataObject_callBack _ _ _)
  split
  · exact hmatched.congr (dataObject_deleteDataObject _ dObj false false)
  · exact hmatched

theorem Named.insertOther (h : Named s) (dobjId : CString) (dObj : StoreObject)
    (callback : Bool) : Named (s.insertOther cfg dobjId dObj callback).store := by
  unfold MemoryDataStore.insertOther
  split
  · split
    · exact (h.congr (dataObject_deleteDataObject s dObj false false)).storeAndMatch dObj callback
    · exact h.congr (dataObject_callBack _ _ _)
  · exact h.storeAndMatch dObj callback

theorem Named.insertDataObject (h : Named s) (dObj : StoreObject) (callback report : Bool) :
    Named (s.insertDataObject cfg dObj callback report).store := by
  have hdeleted : Named (s.deleteDataObjectNodeDescriptions cfg dObj report).2 := by
    unfold deleteDataObjectNodeDescriptions
    split
    · exact h
    · exact h.congr (dataObject_deleteDataObjects s _ report)
  unfold MemoryDataStore.insertDataObject
  split
  · split
    · refine Named.congr ?_ (dataObject_callBack _ _ _)
      rw [evaluateFilters_eq]
      exact h.congr rfl
    · dsimp only
      split
      · exact hdeleted
      · exact hdeleted.insertOther dObj.id _ callback
  · exact h.insertOther dObj.id dObj callback

/-- **A call keeps the names.** -/
theorem Named.step (h : Named s) (call : Call) : Named (s.step cfg call) := by
  cases call with
  | insertDataObject dObj callback report => exact h.insertDataObject dObj callback report
  | deleteDataObjectId id report keep =>
      exact h.congr (dataObject_deleteDataObjectHelper id report keep)
  | deleteDataObject dObj report keep =>
      exact h.congr (dataObject_deleteDataObject s dObj report keep)
  | ageDataObjects now minimumAge callback keep =>
      refine h.congr ((dataObject_callBack _ _ _).trans ?_)
      exact dataObject_deleteDataObjects s _ false
  | insertFilter f matchFilter callback =>
      exact h.congr (SameObjects.insertFilter s f matchFilter callback).dataObject
  | deleteFilter eventtype => exact h.congr (SameObjects.deleteFilter s eventtype).dataObject
  | insertNode node callback => exact h.congr (SameObjects.insertNode s node callback).dataObject
  | deleteNode nodeId => exact h.congr (SameObjects.deleteNode s nodeId).dataObject

theorem named_after (cfg : StoreSettings) (enableCompaction : Bool) (calls : List Call) :
    Named (after cfg enableCompaction calls) := by
  unfold after
  refine List.foldlRecOn (motive := Named) calls _ ?_ ?_
  · intro id dObj hd
    cases hd
  · intro s hs call _
    exact hs.step call

theorem Named.getDataObjectFromId (h : Named s) {id : CString} {dObj : StoreObject}
    (hd : s.getDataObjectFromId id = some dObj) : dObj.id = id := by
  obtain ⟨-, -, hbehind⟩ := Option.bind_eq_some_iff.mp hd
  exact h id dObj hbehind

/-- No object is listed twice for a node. -/
theorem Named.nodup_getDataObjectsForNode (h : Named s) (nodeId : CString)
    (minAttrMatch maxMatches threshold : Int) :
    ((s.getDataObjectsForNode nodeId minAttrMatch maxMatches threshold).map
      StoreObject.id).Nodup := by
  have hids : (s.mc.getDataObjectIdsForNode nodeId minAttrMatch maxMatches threshold).Nodup := by
    unfold MemoryCache.getDataObjectIdsForNode
    split
    · exact List.nodup_nil
    · dsimp only
      unfold MemoryCache.limited
      split
      · exact (MemoryCache.nodup_collect _ _).sublist (List.take_sublist _ _)
      · exact MemoryCache.nodup_collect _ _
  have hsub : ∀ ids : List CString,
      ((ids.filterMap s.getDataObjectFromId).map StoreObject.id).Sublist ids := by
    intro ids
    induction ids with
    | nil => exact List.Sublist.refl _
    | cons id ids ih =>
        cases hd : s.getDataObjectFromId id with
        | none =>
            rw [List.filterMap_cons_none hd]
            exact ih.cons id
        | some dObj =>
            rw [List.filterMap_cons_some hd, List.map_cons, h.getDataObjectFromId hd]
            exact ih.cons_cons id
  exact hids.sublist (hsub _)

end Names

theorem taken_eq (maxMatches : Int) (found : List StoreObject) :
    (if maxMatches = 0 then found else found.take ((max 1 maxMatches).toNat - 0),
      toCInt (0 + (if maxMatches = 0 then found
        else found.take ((max 1 maxMatches).toNat - 0)).length : Nat)) =
      (found.take (granted maxMatches found.length),
        toCInt (granted maxMatches found.length : Nat)) := by
  rw [Nat.sub_zero, Nat.zero_add, granted]
  split
  · rw [List.take_length]
  · rw [List.length_take, Nat.min_comm found.length, ← List.take_eq_take_min]

/-- **What is found for a target, by the limit**: the first of its matches. -/
theorem doDataObjectQueryStep2_eq {c : QuerySettings} {s : MemoryDataStore} (hnamed : Named s)
    (hwhole : WholeObjects c s) {node : QueryNode}
    (hnode : (c.firstClassApplications && node.isLocalApplication) = false)
    (delegate : Option QueryNode) {maxMatches : Int} (hmax : maxMatches < 2147483648)
    (threshold attrMatch : Int) :
    let found := (doDataObjectQueryStep2 c s node delegate 0 threshold attrMatch).1
    let taken := (doDataObjectQueryStep2 c s node delegate maxMatches threshold attrMatch)
    taken.1 = found.take (granted maxMatches found.length) ∧
      taken.2 = toCInt (granted maxMatches found.length : Nat) := by
  -- no node descriptions and no parts: every object goes by its own id
  have hplain : ∀ dObj ∈ s.getDataObjectsForNode node.id attrMatch 0 threshold,
      dObj.isNodeDescription = false ∧ c.getIdOrParentId dObj = dObj.id := by
    intro dObj hmem
    obtain ⟨id, -, hd⟩ := List.mem_filterMap.mp hmem
    refine ⟨hwhole.other id dObj hd, ?_⟩
    unfold QuerySettings.getIdOrParentId
    rw [hwhole.noBlock id dObj hd, hwhole.noFragment id dObj hd]
    simp
  -- the loop takes as many as it is granted of those it does not pass over
  have hloop : ∀ m < 2147483648, queryLoop c node delegate m [] 0 0
      (s.getDataObjectsForNode node.id attrMatch 0 threshold) =
        (((s.getDataObjectsForNode node.id attrMatch 0 threshold).filter
            (fun dObj => !passesOver c node delegate dObj)).take (granted m
              ((s.getDataObjectsForNode node.id attrMatch 0 threshold).filter
                (fun dObj => !passesOver c node delegate dObj)).length),
          toCInt (granted m ((s.getDataObjectsForNode node.id attrMatch 0 threshold).filter
            (fun dObj => !passesOver c node delegate dObj)).length : Nat)) := by
    intro m hm
    have h := @queryLoop_eq c node delegate m hm
      (s.getDataObjectsForNode node.id attrMatch 0 threshold) [] 0 hplain
      (hnamed.nodup_getDataObjectsForNode node.id attrMatch 0 threshold)
      (fun _ _ => List.not_mem_nil) (fun _ => by omega)
    exact h.trans (taken_eq m _)
  unfold doDataObjectQueryStep2
  simp only [hnode, Bool.false_eq_true, if_false]
  rw [hloop maxMatches hmax, hloop 0 (by omega)]
  simp only [granted, if_true, List.take_length, and_self]

/-! ## The limit, in numbers -/

/-- The loop over the targets, in numbers: how many matches there are in the result, and
`num_match`. -/
def share (hasMaximum : Bool) : Int → Nat → Nat → List Nat → Nat × Nat
  | _, total, numMatch, [] => (total, numMatch)
  | numLeft, total, numMatch, found :: rest =>
      if !hasMaximum || 0 ≤ numLeft then
        let taken := granted (toCInt numLeft) found
        share hasMaximum
          (if hasMaximum then numLeft - (taken % 4294967296 : Nat) else numLeft) (total + taken)
          (taken % 4294967296) rest
      else (total, numMatch)

theorem granted_le (maxMatches : Int) (found : Nat) : granted maxMatches found ≤ found := by
  unfold granted
  split <;> omega

theorem granted_eq_zero {maxMatches : Int} {found : Nat} :
    granted maxMatches found = 0 ↔ found = 0 := by
  unfold granted
  split <;> omega

/-- A limit that an `int` holds. -/
theorem granted_of_small {numLeft : Int} (h0 : 0 < numLeft) (h : numLeft < 2147483648)
    (found : Nat) : granted (toCInt numLeft) found = min found numLeft.toNat := by
  rw [granted, toCInt_of_small (by omega) h, if_neg (by omega), max_eq_right (by omega)]

theorem le_share (hasMaximum : Bool) : ∀ (found : List Nat) (numLeft : Int) (total numMatch : Nat),
    total ≤ (share hasMaximum numLeft total numMatch found).1
  | [], _, _, _ => Nat.le_refl _
  | _ :: rest, _, _, _ => by
      rw [share]
      split
      · exact Nat.le_trans (Nat.le_add_right _ _) (le_share hasMaximum rest _ _ _)
      · exact Nat.le_refl _

/-- As long as the loop goes on, it finds something if there is something. -/
theorem share_eq_total_iff {hasMaximum : Bool} : ∀ (found : List Nat) {numLeft : Int}
    (total numMatch : Nat), (hasMaximum = true → 0 ≤ numLeft) →
      ((share hasMaximum numLeft total numMatch found).1 = total ↔ ∀ n ∈ found, n = 0)
  | [], _, _, _, _ => by simp [share]
  | n :: rest, numLeft, total, numMatch, hleft => by
      have hgo : (!hasMaximum || decide (0 ≤ numLeft)) = true := by
        cases hasMaximum with
        | false => rfl
        | true => simpa using hleft rfl
      rw [share, if_pos hgo, List.forall_mem_cons]
      dsimp only
      by_cases hn : n = 0
      · have hzero : granted (toCInt numLeft) n = 0 := granted_eq_zero.mpr hn
        rw [hzero, Nat.add_zero, share_eq_total_iff rest total _ (fun hmax => by
          rw [if_pos hmax]
          simpa using hleft hmax)]
        exact (and_iff_right hn).symm
      · have hpos : granted (toCInt numLeft) n ≠ 0 := fun h => hn (granted_eq_zero.mp h)
        refine iff_of_false (fun h => hpos ?_) (fun h => hn h.1)
        have hle := le_share hasMaximum rest
          (if hasMaximum then numLeft - (granted (toCInt numLeft) n % 4294967296 : Nat) else numLeft)
          (total + granted (toCInt numLeft) n) (granted (toCInt numLeft) n % 4294967296)
        omega

/-- What an `int` can hold: the limit, or all matches together. -/
def Countable (numLeft : Int) (found : List Nat) : Prop :=
  numLeft < 2147483648 ∨ found.sum < 2147483648

/-- **Before the limit is used up** the last target has its turn, and the limit holds. -/
theorem share_within : ∀ (earlier : List Nat) (last : Nat) {numLeft : Int} (total numMatch : Nat),
    0 < numLeft → Countable numLeft (earlier ++ [last]) → (earlier.sum : Int) < numLeft →
    (share true numLeft total numMatch (earlier ++ [last])).1 ≤ total + numLeft ∧
      ((share true numLeft total numMatch (earlier ++ [last])).2 ≠ 0 ↔ last ≠ 0)
  | [], last, numLeft, total, numMatch, hpos, hcount, _ => by
      have hle := granted_le (toCInt numLeft) last
      have hzero := @granted_eq_zero (toCInt numLeft) last
      -- the limit is cut to 32 bits before it is handed on
      have hbound : granted (toCInt numLeft) last < 2147483648 ∧
          (granted (toCInt numLeft) last : Int) ≤ numLeft := by
        rcases hcount with hsmall | hsum
        · rw [granted_of_small hpos hsmall]
          omega
        · rw [List.nil_append, List.sum_singleton] at hsum
          by_cases hsmall : numLeft < 2147483648
          · rw [granted_of_small hpos hsmall]
            omega
          · omega
      rw [List.nil_append, share, if_pos (by simpa using Int.le_of_lt hpos), share]
      dsimp only
      rw [Nat.mod_eq_of_lt (by omega)]
      exact ⟨by omega, not_congr hzero⟩
  | n :: earlier, last, numLeft, total, numMatch, hpos, hcount, hsum => by
      have hle := granted_le (toCInt numLeft) n
      rw [List.sum_cons, Nat.cast_add] at hsum
      have hall : (n :: earlier ++ [last]).sum = n + (earlier ++ [last]).sum := by
        rw [List.cons_append, List.sum_cons]
      have hbound : granted (toCInt numLeft) n < 2147483648 ∧
          (granted (toCInt numLeft) n = n ∨ 2147483648 ≤ numLeft) := by
        by_cases hsmall : numLeft < 2147483648
        · rw [granted_of_small hpos hsmall]
          omega
        · have hfew := hcount.resolve_left hsmall
          omega
      have hnext := share_within earlier last (total + granted (toCInt numLeft) n)
        (granted (toCInt numLeft) n % 4294967296)
        (show 0 < numLeft - (granted (toCInt numLeft) n : Nat) by omega)
        (by
          rcases hcount with hsmall | hfew
          · exact Or.inl (by omega)
          · exact Or.inr (by omega))
        -- what is left for the later targets is still countable
        (by
          rcases hbound.2 with heq | hbig
          · omega
          · have hfew := hcount.resolve_left (by omega)
            have hpart : earlier.sum ≤ (earlier ++ [last]).sum := by
              rw [List.sum_append]
              exact Nat.le_add_right _ _
            omega)
      rw [List.cons_append, share, if_pos (by simpa using Int.le_of_lt hpos)]
      dsimp only
      rw [Nat.mod_eq_of_lt (by omega)] at hnext ⊢
      exact ⟨by have := hnext.1; simp only [if_true]; omega, hnext.2⟩

/-- **With nothing left, there is no limit**: one more match, or none at the end. -/
theorem share_used_up : ∀ (found : List Nat) (total numMatch : Nat), found ≠ [] →
    total < (share true 0 total numMatch found).1 ∨ (share true 0 total numMatch found).2 = 0
  | [], _, _, h => absurd rfl h
  | n :: rest, total, numMatch, _ => by
      have hall : granted (toCInt 0) n = n := rfl
      rw [share, if_pos (by decide), hall]
      dsimp only
      by_cases hn : n = 0
      · subst hn
        by_cases hrest : rest = []
        · subst hrest
          exact Or.inr rfl
        · exact share_used_up rest total 0 hrest
      · have hle := le_share true rest (if true = true then (0 : Int) - (n % 4294967296 : Nat) else 0)
          (total + n) (n % 4294967296)
        exact Or.inl (by omega)

/-- **Once the limit is used up before the last target**, it is passed, or the last target counts
for nothing. -/
theorem share_beyond : ∀ (earlier : List Nat) (last : Nat) {numLeft : Int} (total numMatch : Nat),
    0 < numLeft → numLeft < 2147483648 → numLeft ≤ (earlier.sum : Int) →
    total + numLeft < (share true numLeft total numMatch (earlier ++ [last])).1 ∨
      (share true numLeft total numMatch (earlier ++ [last])).2 = 0
  | [], last, numLeft, _, _, hpos, _, hsum => by
      rw [List.sum_nil] at hsum
      omega
  | n :: earlier, last, numLeft, total, numMatch, hpos, hsmall, hsum => by
      rw [List.sum_cons, Nat.cast_add] at hsum
      rw [List.cons_append, share, if_pos (by simpa using Int.le_of_lt hpos),
        granted_of_small hpos hsmall]
      dsimp only
      rw [Nat.mod_eq_of_lt (by omega), if_pos rfl]
      by_cases hn : (n : Int) < numLeft
      · rw [min_eq_left (by omega)]
        rcases share_beyond earlier last (total + n) n (show 0 < numLeft - (n : Int) by omega)
          (by omega) (by omega) with hmore | hnone
        · exact Or.inl (by omega)
        · exact Or.inr hnone
      · rw [min_eq_right (by omega), show numLeft - (numLeft.toNat : Int) = 0 by omega]
        rcases share_used_up (earlier ++ [last]) (total + numLeft.toNat) numLeft.toNat
          (List.append_ne_nil_of_right_ne_nil _ (List.cons_ne_nil _ _)) with hmore | hnone
        · exact Or.inl (by omega)
        · exact Or.inr hnone

/-- A limit that no `long` holds is none, and what an `int` holds is less. -/
theorem share_unlimited : ∀ (earlier : List Nat) (last : Nat) (numLeft : Int)
    (total numMatch : Nat), (earlier ++ [last]).sum < 2147483648 →
    (share false numLeft total numMatch (earlier ++ [last])).1 ≤
        total + (earlier ++ [last]).sum ∧
      ((share false numLeft total numMatch (earlier ++ [last])).2 ≠ 0 ↔ last ≠ 0)
  | [], last, numLeft, total, numMatch, hsum => by
      have hle := granted_le (toCInt numLeft) last
      rw [List.nil_append, List.sum_singleton] at hsum ⊢
      rw [share, if_pos (by rfl), share]
      dsimp only
      rw [Nat.mod_eq_of_lt (by omega)]
      exact ⟨by omega, not_congr granted_eq_zero⟩
  | n :: earlier, last, numLeft, total, numMatch, hsum => by
      have hle := granted_le (toCInt numLeft) n
      rw [List.cons_append, List.sum_cons] at hsum ⊢
      rw [share, if_pos (by rfl)]
      dsimp only
      have hnext := share_unlimited earlier last numLeft (total + granted (toCInt numLeft) n)
        (granted (toCInt numLeft) n % 4294967296) (by omega)
      exact ⟨by have := hnext.1; simp only [Bool.false_eq_true, if_false]; omega, hnext.2⟩

/-- **The loop does as the numbers say.** -/
theorem forNodesLoop_eq {c : QuerySettings} {s : MemoryDataStore} (hnamed : Named s)
    (hwhole : WholeObjects c s) (delegate : QueryNode) (attrMatch : UInt32) (hasMaximum : Bool) :
    ∀ (nodes : List QueryNode) (numLeft : Int) (qr : QueryResult) (numMatch : Nat),
      (∀ node ∈ nodes, (c.firstClassApplications && node.isLocalApplication) = false) →
      let done := forNodesLoop c s delegate attrMatch hasMaximum numLeft qr numMatch nodes
      (done.1.dataObjects.length, done.2) =
        share hasMaximum numLeft qr.dataObjects.length numMatch
          (nodes.map (fun node => (matchesFor c s delegate attrMatch node).length))
  | [], _, _, _, _ => rfl
  | node :: nodes, numLeft, qr, numMatch, hnodes => by
      obtain ⟨hfound, hcount⟩ := doDataObjectQueryStep2_eq hnamed hwhole
        (hnodes node List.mem_cons_self) (some delegate) (toCInt_lt numLeft)
        (toInt delegate.matchingThreshold) (toCInt attrMatch.toNat)
      have hnext := forNodesLoop_eq hnamed hwhole delegate attrMatch hasMaximum nodes
      rw [forNodesLoop, List.map_cons, share]
      split
      · have hlength : (doDataObjectQueryStep2 c s node (some delegate) (toCInt numLeft)
            (toInt delegate.matchingThreshold) (toCInt attrMatch.toNat)).1.length =
              granted (toCInt numLeft) (matchesFor c s delegate attrMatch node).length := by
          rw [hfound, List.length_take, matchesFor]
          exact min_eq_left (granted_le _ _)
        dsimp only
        rw [hnext _ _ _ (fun node' hmem => hnodes node' (List.mem_cons_of_mem _ hmem)),
          List.length_append, hlength, hcount, toCInt_toNat]
        rfl
      · rfl

/-- Where the limit holds and what is noticed is the last target's, all else hangs on the last. -/
theorem held_iff_of_raised {total noticed last before limit : Nat} (hle : total ≤ limit)
    (hraised : noticed ≠ 0 ↔ last ≠ 0) (hless : before < limit) (hlast : total = 0 → last = 0) :
    (total ≤ limit ∧ (noticed ≠ 0 ↔ total ≠ 0)) ↔ total = 0 ∨ (last ≠ 0 ∧ before < limit) := by
  rw [hraised]
  constructor
  · rintro ⟨-, hiff⟩
    by_cases hzero : last = 0
    · exact Or.inl (not_not.mp (fun hne => hiff.mpr hne hzero))
    · exact Or.inr ⟨hzero, hless⟩
  · rintro (hzero | ⟨hne, -⟩)
    · exact ⟨hle, iff_of_false (fun h => h (hlast hzero)) (fun h => h hzero)⟩
    · exact ⟨hle, iff_of_true hne (fun h => hne (hlast h))⟩

/-- **When the limit holds, in numbers**, and something is noticed if there is something. -/
theorem share_held_iff {limit : Nat} (hpos : 0 < limit) (hlimit : limit < 18446744073709551616)
    (earlier : List Nat) (last : Nat)
    (hcount : limit < 2147483648 ∨ (earlier ++ [last]).sum < 2147483648) :
    let numLeft := (limit : Int).bmod 18446744073709551616
    let done := share (0 < numLeft) numLeft 0 0 (earlier ++ [last])
    (done.1 ≤ limit ∧ (done.2 ≠ 0 ↔ done.1 ≠ 0)) ↔
      (∀ n ∈ earlier ++ [last], n = 0) ∨ (last ≠ 0 ∧ earlier.sum < limit) := by
  intro numLeft done
  have hnone : done.1 = 0 ↔ ∀ n ∈ earlier ++ [last], n = 0 :=
    share_eq_total_iff (earlier ++ [last]) 0 0 (fun hmax => by
      have := of_decide_eq_true hmax
      omega)
  have hlast : (∀ n ∈ earlier ++ [last], n = 0) → last = 0 := fun h =>
    h last (List.mem_append_right _ List.mem_cons_self)
  rw [← hnone]
  rw [← hnone] at hlast
  have hsum : (earlier ++ [last]).sum = earlier.sum + last := by
    rw [List.sum_append, List.sum_singleton]
  -- from `2 ^ 63` on the limit is negative in the loop, which then does not ask for it
  by_cases hlong : limit < 9223372036854775808
  · have hleft : numLeft = limit := Int.bmod_eq_of_le (by omega) (by omega)
    have hmax : decide (0 < numLeft) = true := decide_eq_true (by omega)
    by_cases hless : earlier.sum < limit
    · obtain ⟨hle, hraised⟩ := share_within earlier last 0 0
        (show 0 < numLeft by omega) (by unfold Countable; omega) (by omega)
      rw [← hmax] at hle hraised
      change (done.1 : Int) ≤ _ at hle
      exact held_iff_of_raised (by omega) hraised hless hlast
    · -- a turn after the limit is used up has no limit at all
      have hbeyond := share_beyond earlier last 0 0 (show 0 < numLeft by omega) (by omega)
        (by omega)
      rw [← hmax] at hbeyond
      change _ < (done.1 : Int) ∨ done.2 = 0 at hbeyond
      have hsome : done.1 ≠ 0 := by
        rw [Ne, hnone]
        intro hall
        have hempty : earlier.sum = 0 := List.sum_eq_zero_iff_forall_eq_nat.mpr
          (fun n hn => hall n (List.mem_append_left _ hn))
        omega
      refine iff_of_false ?_ ?_
      · rintro ⟨hle, hiff⟩
        rcases hbeyond with hmore | hzero
        · omega
        · exact hiff.mpr hsome hzero
      · rintro (hzero | ⟨-, hless'⟩)
        · exact hsome hzero
        · exact hless hless'
  · have hleft : numLeft = limit - 18446744073709551616 := by
      have hmod : ((limit : Int) - 18446744073709551616).bmod 18446744073709551616 =
          (limit : Int).bmod 18446744073709551616 := Int.sub_bmod_right _ _
      exact hmod.symm.trans (Int.bmod_eq_of_le (by omega) (by omega))
    have hmax : decide (0 < numLeft) = false := decide_eq_false (by omega)
    obtain ⟨hle, hraised⟩ := share_unlimited earlier last numLeft 0 0 (by omega)
    rw [← hmax] at hle hraised
    change done.1 ≤ _ at hle
    exact held_iff_of_raised (by omega) hraised (by omega) hlast

/-- **The limit of the query holds**, and its callback is raised if there is a match. -/
structure LimitHeld (delegate : QueryNode) (done : ForNodes) : Prop where
  limit : done.qr.dataObjects.length ≤ delegate.maxDataObjectsInMatch.toNat
  raised : done.callback = true ↔ done.qr.dataObjects ≠ []

/-- There is nothing to find, or something for the last target and fewer matches than the limit
before it. -/
def LimitLasts (found : QueryNode → List StoreObject) (limit : Nat) (nodes : List QueryNode) :
    Prop :=
  (∀ node ∈ nodes, found node = []) ∨
    ∃ earlier last, nodes = earlier ++ [last] ∧ found last ≠ [] ∧
      (earlier.map (fun node => (found node).length)).sum < limit

/-- Without a limit the loop finds what there is. -/
theorem forNodesLoop_unlimited (c : QuerySettings) (s : MemoryDataStore) (delegate : QueryNode)
    (attrMatch : UInt32) : ∀ (nodes : List QueryNode) (qr : QueryResult) (numMatch : Nat),
      (forNodesLoop c s delegate attrMatch false 0 qr numMatch nodes).1.dataObjects =
        qr.dataObjects ++ nodes.flatMap (matchesFor c s delegate attrMatch)
  | [], qr, _ => by
      rw [List.flatMap_nil, List.append_nil]
      rfl
  | node :: nodes, qr, _ => by
      rw [forNodesLoop, if_pos (by rfl)]
      dsimp only
      rw [if_neg (by simp), forNodesLoop_unlimited c s delegate attrMatch nodes, List.flatMap_cons,
        List.append_assoc]
      rfl

/--
**The query for several nodes.** With a limit it does what it should exactly if there is nothing to
find, or something for the last target and fewer matches than the limit before that one. With
none it finds what there is for each target.
-/
theorem nodes_query_iff {cfg : StoreSettings} {enableCompaction : Bool} {calls : List Call}
    {s : MemoryDataStore} (hs : s = after cfg enableCompaction calls) {c : QuerySettings}
    (hwhole : WholeObjects c s) (delegate : QueryNode) {nodes : List QueryNode}
    (hnodes : ∀ node ∈ nodes, node.isLocalApplication = false) (attrMatch : UInt32)
    (hcount : delegate.maxDataObjectsInMatch.toNat < 2147483648 ∨
      (nodes.map (fun node => (matchesFor c s delegate attrMatch node).length)).sum < 2147483648) :
    (0 < delegate.maxDataObjectsInMatch.toNat →
      (LimitHeld delegate (doDataObjectForNodesQuery c s delegate nodes attrMatch) ↔
        LimitLasts (matchesFor c s delegate attrMatch) delegate.maxDataObjectsInMatch.toNat nodes)) ∧
    (delegate.maxDataObjectsInMatch.toNat = 0 →
      (doDataObjectForNodesQuery c s delegate nodes attrMatch).qr.dataObjects =
        nodes.flatMap (matchesFor c s delegate attrMatch)) := by
  have hnamed : Named s := hs ▸ named_after cfg enableCompaction calls
  refine ⟨fun hpos => ?_, fun hzero => ?_⟩
  · have hloop := forNodesLoop_eq hnamed hwhole delegate attrMatch
      (0 < (delegate.maxDataObjectsInMatch.toNat : Int).bmod 18446744073709551616) nodes
      ((delegate.maxDataObjectsInMatch.toNat : Int).bmod 18446744073709551616) ⟨[delegate], []⟩ 0
      (fun node hmem => by rw [hnodes node hmem, Bool.and_false])
    obtain ⟨hlength, hnum⟩ := Prod.mk.inj hloop
    -- what is asked for, in the two numbers that the loop counts
    have hheld : LimitHeld delegate (doDataObjectForNodesQuery c s delegate nodes attrMatch) ↔
        (doDataObjectForNodesQuery c s delegate nodes attrMatch).qr.dataObjects.length ≤
            delegate.maxDataObjectsInMatch.toNat ∧
          ((doDataObjectForNodesQuery c s delegate nodes attrMatch).callback = true ↔
            (doDataObjectForNodesQuery c s delegate nodes attrMatch).qr.dataObjects.length ≠ 0) := by
      rw [Ne, List.length_eq_zero_iff]
      exact ⟨fun h => ⟨h.limit, h.raised⟩, fun h => ⟨h.1, h.2⟩⟩
    rw [hheld, doDataObjectForNodesQuery, decide_eq_true_iff]
    dsimp only
    rw [hlength, hnum]
    rcases List.eq_nil_or_concat nodes with rfl | ⟨earlier, last, rfl⟩
    · refine iff_of_true ⟨Nat.zero_le _, Iff.rfl⟩ (Or.inl (fun _ hmem => ?_))
      exact absurd hmem List.not_mem_nil
    · rw [List.concat_eq_append, List.map_append, List.map_singleton] at hcount ⊢
      refine (share_held_iff hpos (UInt64.toNat_lt _) _ _ hcount).trans (or_congr ?_ ?_)
      · simp only [List.forall_mem_append, List.forall_mem_map, List.forall_mem_singleton,
          List.length_eq_zero_iff]
      · constructor
        · rintro ⟨hne, hless⟩
          exact ⟨earlier, last, rfl, fun hnil => hne (by rw [hnil]; rfl), hless⟩
        · rintro ⟨earlier', last', heq, hne, hless⟩
          obtain ⟨rfl, rfl⟩ := List.append_singleton_inj.mp heq
          exact ⟨fun hzero => hne (List.length_eq_zero_iff.mp hzero), hless⟩
  · rw [doDataObjectForNodesQuery, hzero]
    exact forNodesLoop_unlimited c s delegate attrMatch nodes ⟨[delegate], []⟩ 0

/-! ### Two objects, and three nodes -/

/-- An object about `k` and `v`. -/
def someObject (id : CString) : StoreObject :=
  ⟨id, [⟨lit "k", lit "v", 1⟩], false, none, Timeval.invalid, Timeval.invalid, true, false⟩

/-- A node that asks for a value of `k`. -/
def asking (id value : CString) : AbstractNode :=
  ⟨id, [], [⟨lit "k", value, 1⟩], 10, 0, .peer, none⟩

/-- Two objects are stored, and three nodes; the third asks for something else. -/
def askingDay : List Call :=
  [.insertDataObject (someObject (lit "d")) false false,
    .insertDataObject (someObject (lit "e")) false false,
    .insertNode (asking (lit "a") (lit "v")) false, .insertNode (asking (lit "b") (lit "v")) false,
    .insertNode (asking (lit "c") (lit "w")) false]

/-- A peer with nothing in its filters. -/
def emptyPeer (id : CString) (limit : UInt64) : QueryNode where
  id := id
  type := .peer
  isLocalApplication := false
  proxyId := []
  maxDataObjectsInMatch := limit
  matchingThreshold := 0
  has := fun _ => false
  hasThisOrParentDataObject := fun _ => false
  isDescribedBy := fun _ => false

/-- No blocks, no fragments, no applications. -/
def plainQueries : QuerySettings where
  firstClassApplications := false
  excludeNodeDescriptions := false
  countNodeDescriptions := false
  thisNodeId := lit "n"
  retrieve := fun _ => none
  isNetworkCodingEnabled := fun _ => false
  isFragmentationEnabled := fun _ => false
  originalOfBlock := fun _ => none
  originalOfFragment := fun _ => none

theorem wholeObjects_askingDay : WholeObjects plainQueries (after plainSettings false askingDay) := by
  refine ⟨fun id dObj hd => ?_, fun _ _ _ => rfl, fun _ _ _ => rfl⟩
  obtain ⟨-, -, hbehind⟩ := Option.bind_eq_some_iff.mp hd
  have hobjects : (after plainSettings false askingDay).dataObject = fun id =>
      if id = lit "e" then some (someObject (lit "e"))
      else if id = lit "d" then some (someObject (lit "d")) else none := by
    rfl
  rw [hobjects] at hbehind
  dsimp only at hbehind
  split at hbehind
  · exact Option.some.inj hbehind ▸ rfl
  · split at hbehind
    · exact Option.some.inj hbehind ▸ rfl
    · cases hbehind

theorem nodes_query_day :
    LimitHeld (emptyPeer (lit "x") 3) (doDataObjectForNodesQuery plainQueries
      (after plainSettings false askingDay) (emptyPeer (lit "x") 3)
      [emptyPeer (lit "a") 9, emptyPeer (lit "b") 9] 1) := by
  refine ((nodes_query_iff rfl wholeObjects_askingDay (emptyPeer (lit "x") 3) ?_ 1
    (Or.inl (by decide))).1 (by decide)).mpr (Or.inr ⟨[emptyPeer (lit "a") 9],
      emptyPeer (lit "b") 9, rfl, by decide +kernel, by decide +kernel⟩)
  simp [emptyPeer]

/--
**Not without the condition.** With one match left for two nodes, three are found. And if nothing
is found for the last node, what was found for the first one is thrown away.
-/
theorem nodes_query_fails :
    let s := after plainSettings false askingDay
    let one := doDataObjectForNodesQuery plainQueries s (emptyPeer (lit "x") 1)
      [emptyPeer (lit "a") 9, emptyPeer (lit "b") 9] 1
    let five := doDataObjectForNodesQuery plainQueries s (emptyPeer (lit "x") 5)
      [emptyPeer (lit "a") 9, emptyPeer (lit "c") 9] 1
    one.qr.dataObjects.length = 3 ∧ five.qr.dataObjects.length = 2 ∧ five.callback = false ∧
      ¬ LimitHeld (emptyPeer (lit "x") 1) one ∧ ¬ LimitHeld (emptyPeer (lit "x") 5) five := by
  intro s one five
  have hone : one.qr.dataObjects.length = 3 := by decide +kernel
  have hfive : five.qr.dataObjects.length = 2 := by decide +kernel
  have hsilent : five.callback = false := by decide +kernel
  refine ⟨hone, hfive, hsilent, fun h => ?_, fun h => ?_⟩
  · have hlimit := h.limit
    rw [hone] at hlimit
    exact absurd hlimit (by decide)
  · have hraised := h.raised.mpr (fun hnil => by rw [hnil] at hfive; cases hfive)
    rw [hsilent] at hraised
    cases hraised

end MemoryDataStore

end Encoders.Store
