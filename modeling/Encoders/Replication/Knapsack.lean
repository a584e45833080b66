import Encoders.Cache.Greedy

/-!
# The knapsack of the replication manager

`ReplicationKnapsackOptimizer.cpp`. It was made from the knapsack of the cache and does the same
for pairs of an object and a node: what is included is what will be sent. It asks whether two
are ties by the marginal utility that each has, which is what the heap is ordered by.

So it is greedy on whatever it is given, `solve_greedy`, as long as no room wraps around. The
knapsack of the cache is not, since it computes the marginal utility of a candidate with the
discrete cost of another object. Two equally good bargains of different utilities are then put
in the bag in any order, and `cache_solve_greedy` has what the utilities must be for that
not to matter.
-/

namespace Encoders.Replication

open Encoders.Lib Encoders.Container Encoders.Cache

variable {discreteSize : Int}
variable {l : List DataObjectUtilityMetadata}

/-- `class ReplicationDataObjectUtilityMetadata` -/
structure ReplicationDataObjectUtilityMetadata where
  id : CString
  nodeId : CString
  cost : Int
  utility : Rat
  computeDate : Int
  createDate : Int
deriving DecidableEq

/-! ## The order -/

/-- `discrete_cost` -/
def discreteCost (discreteSize : Int) (m : ReplicationDataObjectUtilityMetadata) : Int :=
  let cost := wrapInt (discreteSize * m.cost.tdiv discreteSize)
  if cost ≤ 0 then 1 else cost

/-- `util_bump`: the greatest cost. -/
def utilBump (toProcess : List ReplicationDataObjectUtilityMetadata) : Int :=
  toProcess.foldl (fun maxCost m => if maxCost > m.cost then maxCost else m.cost) 1

/-- `marginal_utility`, and `marginal_utility2` of a candidate. -/
def marginalUtility (bump discreteSize : Int) (m : ReplicationDataObjectUtilityMetadata) : Rat :=
  bump * (m.utility + 1) / discreteCost discreteSize m

/-- `sortList`, by `ReplicationKnapsackOptimizerTiebreakerCreateTime`: the newest first. -/
def sortList (ties : List ReplicationDataObjectUtilityMetadata) :
    List ReplicationDataObjectUtilityMetadata :=
  heapSort (fun m => -m.createDate) ties

/-- The order in which they are tried. -/
def greedyOrder (discreteSize : Int) (toProcess : List ReplicationDataObjectUtilityMetadata) :
    List ReplicationDataObjectUtilityMetadata :=
  let bump := utilBump toProcess
  let key := fun m => -marginalUtility bump discreteSize m
  tieLoop key (fun m m' => marginalUtility bump discreteSize m =
    marginalUtility bump discreteSize m') sortList toProcess.length (heapOf key toProcess)

/-! ## The bag -/

/-- The loop over what is ordered: `to_include` and `to_exclude`. -/
def pack : Int → List ReplicationDataObjectUtilityMetadata →
    List ReplicationDataObjectUtilityMetadata × List ReplicationDataObjectUtilityMetadata
  | _, [] => ([], [])
  | totalFree, m :: l =>
      if wrapInt (totalFree - m.cost) > 0 then
        let (toInclude, toExclude) := pack (wrapInt (totalFree - m.cost)) l
        (m :: toInclude, toExclude)
      else
        let (toInclude, toExclude) := pack totalFree l
        (toInclude, m :: toExclude)

/-- `ReplicationKnapsackOptimizerGreedy::solve`. A discrete size of zero is divided by. -/
def solve (discreteSize bagSize : Int) (toProcess : List ReplicationDataObjectUtilityMetadata) :
    Option (List ReplicationDataObjectUtilityMetadata ×
      List ReplicationDataObjectUtilityMetadata) :=
  if discreteSize = 0 ∧ toProcess ≠ [] then none
  else some (pack (wrapInt bagSize) (greedyOrder discreteSize toProcess))

/-! ## It is greedy -/

/-- A pair as an entry. -/
def ReplicationDataObjectUtilityMetadata.entry (m : ReplicationDataObjectUtilityMetadata) :
    Entry :=
  ⟨m.id, m.cost, m.utility, m.createDate⟩

theorem marginalUtility_entry {bump : Int} (m : ReplicationDataObjectUtilityMetadata) :
    marginalUtility bump discreteSize m = bump * m.entry.worth discreteSize := by
  have hcost : discreteCost discreteSize m = discretised discreteSize m.cost := rfl
  unfold marginalUtility
  rw [hcost, mul_div_assoc]
  rfl

theorem utilBump_pos (l : List ReplicationDataObjectUtilityMetadata) : 0 < utilBump l :=
  greatest_pos _ l

/-- Ties are equally good bargains. -/
theorem tie_iff {bump : Int} (hbump : 0 < bump) {m m' : ReplicationDataObjectUtilityMetadata} :
    decide (marginalUtility bump discreteSize m = marginalUtility bump discreteSize m') = true ↔
      -m'.entry.worth discreteSize = -m.entry.worth discreteSize := by
  have hbump' : (bump : Rat) ≠ 0 := Int.cast_ne_zero.mpr (ne_of_gt hbump)
  rw [decide_eq_true_iff, marginalUtility_entry, marginalUtility_entry, mul_right_inj' hbump',
    neg_inj, eq_comm]

theorem sortList_spec (l : List ReplicationDataObjectUtilityMetadata) :
    (sortList l).Perm l ∧ (sortList l).Pairwise (fun a b => b.createDate ≤ a.createDate) := by
  refine ⟨heapSort_perm l, ?_⟩
  have hsorted :=
    @heapSort_sorted _ _ _ (fun m : ReplicationDataObjectUtilityMetadata => -m.createDate) l
  exact hsorted.imp fun {a b} hab => neg_le_neg_iff.mp hab

/-- **Everything is tried once, and in the right order.** -/
theorem greedyOrder_spec (discreteSize : Int) (l : List ReplicationDataObjectUtilityMetadata) :
    (greedyOrder discreteSize l).Perm l ∧
      ((greedyOrder discreteSize l).map ReplicationDataObjectUtilityMetadata.entry).Pairwise
        (Sooner discreteSize) := by
  have hbump : (0 : Rat) < utilBump l := Int.cast_pos.mpr (utilBump_pos l)
  obtain ⟨hheap, hperm⟩ := @heapOf_spec _ _
    (fun m => -marginalUtility (utilBump l) discreteSize m) _ l
  obtain ⟨order, horder, -, hkeys, hties⟩ := @tieLoop_spec _ _ _ _ _ _ _
    ReplicationDataObjectUtilityMetadata.createDate (fun m => -m.entry.worth discreteSize) _ _
    (fun m m' => tie_iff (utilBump_pos l)) sortList_spec l.length _ hheap
    (Nat.le_of_eq hperm.length_eq)
  have hsorted := pairwise_worth hbump marginalUtility_entry hkeys
  refine ⟨(hties.perm.trans horder).trans hperm, ?_⟩
  exact List.Pairwise.map _ (fun _ _ h => h) (hties.pairwise hsorted (LabelsTell.self order))

theorem pack_sifts : ∀ {l : List ReplicationDataObjectUtilityMetadata} {free : Int},
    CostsInt (l.map ReplicationDataObjectUtilityMetadata.entry) → free ≤ 2147483647 →
    NoWrap free (l.map ReplicationDataObjectUtilityMetadata.entry) →
    Sifts ReplicationDataObjectUtilityMetadata.cost free l (pack free l).1 (pack free l).2
  | [], _, _, _, _ => Sifts.nil
  | m :: l, free, hcosts, hfree, hwrap => by
      have hcost : 1 ≤ m.cost ∧ m.cost ≤ 2147483647 := hcosts m.entry List.mem_cons_self
      have hcosts' : CostsInt (l.map ReplicationDataObjectUtilityMetadata.entry) :=
        fun e he => hcosts e (List.mem_cons_of_mem _ he)
      have hroom : wrapInt (free - m.cost) = free - m.cost :=
        wrapInt_of_range (hwrap m.entry List.mem_cons_self) (by omega)
      unfold pack
      rw [hroom]
      by_cases hfits : free - m.cost > 0
      · rw [if_pos hfits]
        exact Sifts.keep (by omega)
          (pack_sifts hcosts' (by omega) (noWrap_of_pos hcosts' hfits))
      · rw [if_neg hfits]
        exact Sifts.drop (by omega)
          (pack_sifts hcosts' hfree fun e he => hwrap e (List.mem_cons_of_mem _ he))

/-- A bag that is an `int`. -/
def BagInt (bag : Int) : Prop := -2147483648 ≤ bag ∧ bag ≤ 2147483647

instance decidableBagInt (bag : Int) : Decidable (BagInt bag) :=
  inferInstanceAs (Decidable (-2147483648 ≤ bag ∧ bag ≤ 2147483647))

/-- **The replication manager packs greedily.** -/
theorem solve_greedy {bag : Int} {l : List ReplicationDataObjectUtilityMetadata}
    (hsize : 0 < discreteSize) (hbag : BagInt bag)
    (hcosts : CostsInt (l.map ReplicationDataObjectUtilityMetadata.entry))
    (hwrap : NoWrap bag (l.map ReplicationDataObjectUtilityMetadata.entry)) :
    ∃ toInclude toExclude, solve discreteSize bag l = some (toInclude, toExclude) ∧
      Greedy discreteSize bag (l.map ReplicationDataObjectUtilityMetadata.entry)
        ((greedyOrder discreteSize l).map ReplicationDataObjectUtilityMetadata.entry)
        (toInclude.map ReplicationDataObjectUtilityMetadata.entry)
        (toExclude.map ReplicationDataObjectUtilityMetadata.entry) := by
  obtain ⟨hperm, hsorted⟩ := greedyOrder_spec discreteSize l
  have hentries := hperm.map ReplicationDataObjectUtilityMetadata.entry
  refine ⟨(pack bag (greedyOrder discreteSize l)).1, (pack bag (greedyOrder discreteSize l)).2,
    ?_, hentries, hsorted, ?_⟩
  · unfold solve
    rw [if_neg (fun h => ne_of_gt hsize h.1), wrapInt_of_range hbag.1 hbag.2]
  · refine Sifts.map (pack_sifts (fun e he => ?_) hbag.2 fun e he => ?_)
    · exact hcosts e (hentries.mem_iff.mp he)
    · exact hwrap e (hentries.mem_iff.mp he)

/-! ## Whether the cache is -/

/-- What the cache does with a bag: it is greedy, it deletes everything else once, and with
dates that tell equal bargains apart it deletes what the replication manager excludes of any
pairs with the same entries. -/
def CacheGreedy (discreteSize bag : Int) (l : List DataObjectUtilityMetadata) : Prop :=
  ∃ kept deleted, Cache.solve discreteSize bag false l = some deleted ∧
    Greedy discreteSize bag (l.map DataObjectUtilityMetadata.entry)
      ((Cache.greedyOrder discreteSize false l).map DataObjectUtilityMetadata.entry)
      (kept.map DataObjectUtilityMetadata.entry) (deleted.map DataObjectUtilityMetadata.entry) ∧
    (kept ++ deleted).Perm l ∧
    (DatesTell discreteSize (l.map DataObjectUtilityMetadata.entry) →
      ∀ pairs : List ReplicationDataObjectUtilityMetadata,
        pairs.map ReplicationDataObjectUtilityMetadata.entry =
          l.map DataObjectUtilityMetadata.entry →
        ∃ toInclude toExclude, solve discreteSize bag pairs = some (toInclude, toExclude) ∧
          toExclude.map ReplicationDataObjectUtilityMetadata.entry =
            deleted.map DataObjectUtilityMetadata.entry)

/-- With no room that wraps around, it only depends on the order. -/
theorem cacheGreedy_of_sorted {bag : Int} (hsize : 0 < discreteSize) (hbag : BagInt bag)
    (hcosts : CostsInt (l.map DataObjectUtilityMetadata.entry))
    (hsorted : ((Cache.greedyOrder discreteSize false l).map
      DataObjectUtilityMetadata.entry).Pairwise (Sooner discreteSize))
    (hwrap : NoWrap bag (l.map DataObjectUtilityMetadata.entry)) :
    CacheGreedy discreteSize bag l := by
  have hperm := greedyOrder_perm discreteSize false l
  have hentries := hperm.map DataObjectUtilityMetadata.entry
  obtain ⟨kept, hsifts⟩ := Cache.pack_sifts
    (fun e he => hcosts e (hentries.mem_iff.mp he)) hbag.2
    (fun e he => hwrap e (hentries.mem_iff.mp he))
  have hgreedy : Greedy discreteSize bag (l.map DataObjectUtilityMetadata.entry)
      ((Cache.greedyOrder discreteSize false l).map DataObjectUtilityMetadata.entry)
      (kept.map DataObjectUtilityMetadata.entry)
      ((Cache.pack false bag (Cache.greedyOrder discreteSize false l)).map
        DataObjectUtilityMetadata.entry) :=
    ⟨hentries, hsorted, Sifts.map hsifts⟩
  refine ⟨kept, _, ?_, hgreedy, hsifts.perm.trans hperm, ?_⟩
  · unfold Cache.solve
    rw [if_neg (fun h => ne_of_gt hsize h.1), wrapInt_of_range hbag.1 hbag.2]
  · intro hdates pairs hpairs
    rw [← hpairs] at hcosts hwrap hdates hgreedy
    obtain ⟨toInclude, toExclude, hsolve, hgreedy'⟩ := solve_greedy hsize hbag hcosts hwrap
    exact ⟨toInclude, toExclude, hsolve, (hgreedy'.unique hdates hgreedy).2⟩

/-- Where some room wraps around, something is kept that has none. -/
theorem noWrap_of_cacheGreedy {bag : Int} (hbag : BagInt bag)
    (hcosts : CostsInt (l.map DataObjectUtilityMetadata.entry)) (h : CacheGreedy discreteSize bag l) :
    NoWrap bag (l.map DataObjectUtilityMetadata.entry) := by
  by_contra hwrap
  obtain ⟨kept, deleted, hsolve, hgreedy, hsplit, -⟩ := h
  have hperm := greedyOrder_perm discreteSize false l
  have hentries := hperm.map DataObjectUtilityMetadata.entry
  -- the bag is below zero, so nothing is to be kept
  have hnone : kept.map DataObjectUtilityMetadata.entry = [] := by
    refine hgreedy.sifts.kept_eq_nil fun e he hroom => hwrap fun e' he' => ?_
    have := hcosts e (hentries.mem_iff.mp he)
    have := hcosts e' he'
    omega
  have hlen := hsplit.length_eq
  rw [List.map_eq_nil_iff.mp hnone, List.nil_append] at hlen
  have hsome := pack_wrapped (fun e he => hcosts e (hentries.mem_iff.mp he)) hbag.1
    (fun hno => hwrap fun e he => hno e (hentries.mem_iff.mpr he))
  unfold Cache.solve at hsolve
  by_cases hzero : discreteSize = 0 ∧ l ≠ []
  · rw [if_pos hzero] at hsolve
    exact nomatch hsolve
  · rw [if_neg hzero, wrapInt_of_range hbag.1 hbag.2] at hsolve
    rw [Option.some.inj hsolve, hperm.length_eq] at hsome
    omega

/-- **The cache packs greedily** only if no room wraps around, and then if equal utilities tell
ties. -/
theorem cache_solve_greedy {discreteSize bag : Int} {l : List DataObjectUtilityMetadata}
    (hsize : 0 < discreteSize) (hbag : BagInt bag)
    (hcosts : CostsInt (l.map DataObjectUtilityMetadata.entry)) :
    (CacheGreedy discreteSize bag l → NoWrap bag (l.map DataObjectUtilityMetadata.entry)) ∧
      (NoWrap bag (l.map DataObjectUtilityMetadata.entry) →
        TiesTold discreteSize (l.map DataObjectUtilityMetadata.entry) →
        CacheGreedy discreteSize bag l) :=
  ⟨noWrap_of_cacheGreedy hbag hcosts,
    fun hwrap htold => cacheGreedy_of_sorted hsize hbag hcosts (greedyOrder_sorted htold) hwrap⟩

/-- An object of some cost, utility and date. -/
def objectOf (name : UInt8) (cost : Int) (utility : Rat) (createDate : Int) :
    DataObjectUtilityMetadata :=
  ⟨⟨[name], 0, createDate, false, false, false, false, false, false⟩, [name], cost, utility, 0,
    createDate, true⟩

/-- The same as a pair. -/
def pairOf (name : UInt8) (cost : Int) (utility : Rat) (createDate : Int) :
    ReplicationDataObjectUtilityMetadata :=
  ⟨[name], [0], cost, utility, 0, createDate⟩

/-- Two objects of one utility, the better bargain newer, and room for one. -/
theorem cache_solve_greedy_newer : CacheGreedy 1 3 [objectOf 1 2 3 1, objectOf 2 1 3 2] :=
  (cache_solve_greedy Int.one_pos (by decide) (by decide)).2 (by decide)
    ⟨by decide +kernel, by decide +kernel⟩

/-- Two equally good bargains: the newer one is deleted, where it should have been kept. -/
theorem dear_kept_not_greedy : ¬∀ (discreteSize bag : Int) (l : List DataObjectUtilityMetadata),
    0 < discreteSize → BagInt bag → CostsInt (l.map DataObjectUtilityMetadata.entry) →
    CacheGreedy discreteSize bag l := by
  intro hall
  obtain ⟨_, deleted, hsolve, -, -, hagree⟩ := hall 1 3 [objectOf 1 2 3 1, objectOf 2 1 1 2]
    Int.one_pos (by decide) (by decide)
  have hcache : Cache.solve 1 3 false [objectOf 1 2 3 1, objectOf 2 1 1 2] =
      some [objectOf 2 1 1 2] := by decide +kernel
  have hreplication : solve 1 3 [pairOf 1 2 3 1, pairOf 2 1 1 2] =
      some ([pairOf 2 1 1 2], [pairOf 1 2 3 1]) := by decide +kernel
  obtain ⟨toInclude, toExclude, hsolve', hsame⟩ := hagree (by decide +kernel)
    [pairOf 1 2 3 1, pairOf 2 1 1 2] rfl
  rw [hcache] at hsolve
  rw [hreplication] at hsolve'
  cases hsolve
  cases hsolve'
  exact absurd hsame (by decide)

end Encoders.Replication
