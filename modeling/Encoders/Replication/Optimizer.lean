import Encoders.Replication.Knapsack

/-!
# What the optimizer chooses

`ReplicationOptimizer::getNextDataObject`. Of the objects for a node it passes over those that the
node's Bloom filter has, those of the blacklist, and those whose utility is below the threshold.
Where the bytes are not limited it takes the best of the rest, else the first that the knapsack
includes. The knapsack is a virtual class, and the greedy one is the one there is.
-/

namespace Encoders.Replication

open Encoders.Lib Encoders.Cache

/-! ## The knapsack -/

/-- `class ReplicationKnapsackOptimizer`: what `solve` includes, if there is no error, is of what it
is to process. -/
structure ReplicationKnapsackOptimizer where
  solve : Int → List ReplicationDataObjectUtilityMetadata →
    Option (List ReplicationDataObjectUtilityMetadata)
  included : ∀ bagSize toProcess toInclude, solve bagSize toProcess = some toInclude →
    ∀ m ∈ toInclude, m ∈ toProcess

theorem mem_of_mem_pack {m : ReplicationDataObjectUtilityMetadata} :
    ∀ {l : List ReplicationDataObjectUtilityMetadata} {free : Int}, m ∈ (pack free l).1 → m ∈ l
  | [], _, h => h
  | m' :: l, free, h => by
      unfold pack at h
      split at h
      · obtain rfl | h := List.mem_cons.mp h
        · exact List.mem_cons_self
        · exact List.mem_cons_of_mem m' (mem_of_mem_pack h)
      · exact List.mem_cons_of_mem m' (mem_of_mem_pack h)

/-- `class ReplicationKnapsackOptimizerGreedy`, with a discrete size that can be divided by. -/
def greedy (discreteSize : Int) (hsize : discreteSize ≠ 0) : ReplicationKnapsackOptimizer where
  solve bagSize toProcess := (solve discreteSize bagSize toProcess).map Prod.fst
  included := by
    intro bagSize toProcess toInclude h m hm
    rw [solve, if_neg fun hzero => hsize hzero.1] at h
    obtain rfl := Option.some.inj h
    exact (greedyOrder_spec discreteSize toProcess).1.mem_iff.mp (mem_of_mem_pack hm)

/-! ## The optimizer -/

/-- `class ReplicationOptimizer`, with what it finds outside: the entries for a node in their order,
the Bloom filter of each node there is, the costs, the clock when it looks at an object (in
microseconds), and the objects there are, none of which has an empty id. -/
structure ReplicationOptimizer where
  utils : CString → List ReplicationDataObjectUtilityMetadata
  nodeMap : CString → Option (CString → Bool)
  doMap : CString → Bool
  getCost : CString → CString → Int
  utilFunction : Option (CString → CString → Rat)
  computePeriodMs : Int
  minimumThreshold : Rat
  knapsack : ReplicationKnapsackOptimizer
  now : CString → Int
  doMap_nil : doMap [] = false

/-- What the loop over the objects has found. -/
structure Candidates where
  processDos : List ReplicationDataObjectUtilityMetadata
  bestUtility : Rat
  bestCost : Int
  bestDobjId : CString

namespace ReplicationOptimizer

variable (o : ReplicationOptimizer)
variable {nodeId : CString} {bloomfilter : CString → Bool} {blacklist : List CString}

/-- An object in flight is taken out of the bag; zero bytes are no limit. -/
def inFlight (nodeId : CString) (bytesLeft : Int) (dobjId : CString) : Int :=
  if bytesLeft ≠ 0 then
    let left := wrapInt (bytesLeft - o.getCost dobjId nodeId)
    if left = 0 then -1 else left
  else bytesLeft

/-- The utility is computed again, if that was not done lately. -/
def recompute (m : ReplicationDataObjectUtilityMetadata) : ReplicationDataObjectUtilityMetadata :=
  match o.utilFunction with
  | some compute =>
      if o.now m.id - m.computeDate > o.computePeriodMs * 1000 then
        { m with utility := compute m.id m.nodeId, computeDate := o.now m.id }
      else m
  | none => m

/-- One entry of the loop. -/
def consider (bloomfilter : CString → Bool) (blacklist : List CString) (c : Candidates)
    (doInfo : ReplicationDataObjectUtilityMetadata) : Candidates :=
  if bloomfilter doInfo.id then c
  else if doInfo.id ∈ blacklist then c
  else
    let doInfo := o.recompute doInfo
    if doInfo.utility ≥ o.minimumThreshold then
      let c := { c with processDos := doInfo :: c.processDos }
      if doInfo.utility > c.bestUtility ∨
          doInfo.utility = c.bestUtility ∧ doInfo.cost < c.bestCost then
        { c with
          bestUtility := doInfo.utility, bestCost := doInfo.cost, bestDobjId := doInfo.id }
      else c
    else c

/-- `getNextDataObject` -/
def getNextDataObject (nodeId : CString) (blacklist : List CString) (bytesLeft : Int) :
    Option CString :=
  if o.utils nodeId = [] then none
  else
    match o.nodeMap nodeId with
    | none => none
    | some bloomfilter =>
        let bytesLeft := blacklist.foldl (o.inFlight nodeId) bytesLeft
        if bytesLeft < 0 then none
        else
          let c := (o.utils nodeId).foldl (o.consider bloomfilter blacklist) ⟨[], 0, 0, []⟩
          if c.processDos = [] then none
          else if bytesLeft = 0 then
            if o.doMap c.bestDobjId then some c.bestDobjId else none
          else
            match o.knapsack.solve bytesLeft c.processDos with
            | some (best :: _) => if o.doMap best.id then some best.id else none
            | _ => none

/-! ## What it chooses -/

/-- The object is one of the node's, and passed over by none of the tests. -/
def Eligible (nodeId : CString) (bloomfilter : CString → Bool) (blacklist : List CString)
    (dobjId : CString) : Prop :=
  (∃ m ∈ o.utils nodeId, m.id = dobjId) ∧ bloomfilter dobjId = false ∧ dobjId ∉ blacklist

/-- What was found is eligible. -/
structure Sound (nodeId : CString) (bloomfilter : CString → Bool) (blacklist : List CString)
    (c : Candidates) : Prop where
  processDos : ∀ m ∈ c.processDos, o.Eligible nodeId bloomfilter blacklist m.id
  best : c.bestDobjId ≠ [] → o.Eligible nodeId bloomfilter blacklist c.bestDobjId

variable {o}

@[simp] theorem id_recompute (m : ReplicationDataObjectUtilityMetadata) :
    (o.recompute m).id = m.id := by
  unfold recompute
  split
  · split <;> rfl
  · rfl

/-- One entry more keeps what was found eligible. -/
theorem Sound.consider {c : Candidates} (h : o.Sound nodeId bloomfilter blacklist c)
    {m : ReplicationDataObjectUtilityMetadata} (hm : m ∈ o.utils nodeId) :
    o.Sound nodeId bloomfilter blacklist (o.consider bloomfilter blacklist c m) := by
  unfold ReplicationOptimizer.consider
  split
  · exact h
  · rename_i hbloom
    split
    · exact h
    · rename_i hblack
      -- the object has passed both tests
      have hid : o.Eligible nodeId bloomfilter blacklist (o.recompute m).id := by
        rw [id_recompute]
        exact ⟨⟨m, hm, rfl⟩, Bool.eq_false_iff.mpr hbloom, hblack⟩
      have hmore : ∀ m' ∈ o.recompute m :: c.processDos,
          o.Eligible nodeId bloomfilter blacklist m'.id := by
        intro m' hm'
        obtain rfl | hm' := List.mem_cons.mp hm'
        · exact hid
        · exact h.processDos m' hm'
      dsimp only
      split
      · split
        · exact ⟨hmore, fun _ => hid⟩
        · exact ⟨hmore, h.best⟩
      · exact h

/-- The loop finds eligible objects only. -/
theorem sound_foldl :
    ∀ {l : List ReplicationDataObjectUtilityMetadata} {c : Candidates},
      (∀ m ∈ l, m ∈ o.utils nodeId) → o.Sound nodeId bloomfilter blacklist c →
      o.Sound nodeId bloomfilter blacklist (l.foldl (o.consider bloomfilter blacklist) c)
  | [], _, _, h => h
  | m :: _, _, hl, h => by
      rw [List.foldl_cons]
      exact sound_foldl (fun m' hm' => hl m' (List.mem_cons_of_mem m hm'))
        (h.consider (hl m List.mem_cons_self))

/-- **What is chosen is an object for the node that neither its Bloom filter nor the blacklist
has.** -/
theorem getNextDataObject_spec {bytesLeft : Int} {dobjId : CString}
    (h : o.getNextDataObject nodeId blacklist bytesLeft = some dobjId) :
    ∃ bloomfilter, o.nodeMap nodeId = some bloomfilter ∧
      o.Eligible nodeId bloomfilter blacklist dobjId := by
  unfold getNextDataObject at h
  split at h
  · cases h
  · split at h
    · cases h
    · rename_i bloomfilter hnode
      refine ⟨bloomfilter, hnode, ?_⟩
      have hsound : o.Sound nodeId bloomfilter blacklist
          ((o.utils nodeId).foldl (o.consider bloomfilter blacklist) ⟨[], 0, 0, []⟩) :=
        sound_foldl (fun _ => id) ⟨nofun, fun hne => absurd rfl hne⟩
      dsimp only at h
      split_ifs at h with hbytes hprocess hzero hbest
      · -- without a limit it is the best, which is one that is there
        obtain rfl := Option.some.inj h
        refine hsound.best fun hnil => ?_
        rw [hnil, o.doMap_nil] at hbest
        cases hbest
      · split at h
        · rename_i best rest hsolve
          split at h
          · obtain rfl := Option.some.inj h
            exact hsound.processDos best
              (o.knapsack.included _ _ _ hsolve best List.mem_cons_self)
          · cases h
        · cases h

end ReplicationOptimizer

end Encoders.Replication
