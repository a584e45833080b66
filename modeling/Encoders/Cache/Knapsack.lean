import Encoders.Container.Heap
import Encoders.Lib.CString
import Mathlib.Algebra.Order.Ring.Rat

/-!
# The greedy knapsack

`CacheKnapsackOptimizer.cpp`. Objects are taken in the order of their marginal utility, and
those that have the same are taken newest first. Each goes into the bag if room is left
behind it, and is to be deleted if not.

Utilities are rational numbers, where the source rounds to a `double`. Costs and the room in
the bag are `int`s, which wrap around. The bag may have been given as something larger than
an `int`; `pack_keeps` says why the kept objects fit all the same.
-/

namespace Encoders.Cache

open Encoders.Lib Encoders.Container

/-- What becomes of a number that is made an `int`. -/
def wrapInt (x : Int) : Int := (x + 2147483648) % 4294967296 - 2147483648

theorem wrapInt_of_range {x : Int} (hlo : -2147483648 ≤ x) (hhi : x ≤ 2147483647) :
    wrapInt x = x := by
  unfold wrapInt
  omega

/-- A data object, as far as `CacheStrategyUtility` reads it. -/
structure UtilityObject where
  id : CString
  origDataLen : Nat
  createTime : Int
  duplicate : Bool
  fromApplication : Bool
  controlMessage : Bool
  nodeDescription : Bool
  persistent : Bool
  /-- The strategy for statistics is there, and responsible. -/
  stats : Bool
deriving DecidableEq

/-- `class DataObjectUtilityMetadata` -/
structure DataObjectUtilityMetadata where
  dObj : UtilityObject
  id : CString
  cost : Int
  utility : Rat
  computeDate : Int
  createDate : Int
  enableDeletion : Bool
deriving DecidableEq

/-! ## The order -/

/-- `discrete_cost` -/
def discreteCost (discreteSize : Int) (m : DataObjectUtilityMetadata) : Int :=
  let cost := wrapInt (discreteSize * m.cost.tdiv discreteSize)
  if cost ≤ 0 then 1 else cost

/-- `util_bump`: the greatest cost. -/
def utilBump (toProcess : List DataObjectUtilityMetadata) : Int :=
  toProcess.foldl (fun maxCost m => if maxCost > m.cost then maxCost else m.cost) 1

/-- `marginal_utility`, for some discrete cost. -/
def marginalUtility (memOnly : Bool) (bump cost : Int) (m : DataObjectUtilityMetadata) : Rat :=
  if memOnly then m.utility else bump * (m.utility + 1) / cost

/-- The inner loop: items from the front of the heap, as long as they are ties. -/
def popTies (key : DataObjectUtilityMetadata → Rat) (tie : DataObjectUtilityMetadata → Bool) :
    Nat → List DataObjectUtilityMetadata → List DataObjectUtilityMetadata →
      List DataObjectUtilityMetadata × List DataObjectUtilityMetadata
  | 0, heap, ties => (ties, heap)
  | fuel + 1, heap, ties =>
      match heap with
      | [] => (ties, [])
      | m :: rest =>
          if tie m then
            match extractFirst key (m :: rest) with
            | some (_, heap') => popTies key tie fuel heap' (m :: ties)
            | none => (ties, heap)
          else (ties, heap)

/-- `sortList`, by `CacheKnapsackOptimizerTiebreakerCreateTime`: the newest first. -/
def sortList (ties : List DataObjectUtilityMetadata) : List DataObjectUtilityMetadata :=
  drain (fun m => -m.createDate) ties.length (heapOf (fun m => -m.createDate) ties)

/-- The outer loop, without the bag. The ties are told by the discrete cost of the first. -/
def greedyLoop (memOnly : Bool) (bump discreteSize : Int)
    (key : DataObjectUtilityMetadata → Rat) :
    Nat → List DataObjectUtilityMetadata → List DataObjectUtilityMetadata
  | 0, _ => []
  | fuel + 1, heap =>
      match extractFirst key heap with
      | none => []
      | some (m, heap') =>
          let cost := discreteCost discreteSize m
          let (ties, rest) := popTies key
            (fun m' => marginalUtility memOnly bump cost m' = marginalUtility memOnly bump cost m)
            heap'.length heap' [m]
          sortList ties ++ greedyLoop memOnly bump discreteSize key fuel rest

/-- The order in which objects are tried. -/
def greedyOrder (discreteSize : Int) (memOnly : Bool)
    (toProcess : List DataObjectUtilityMetadata) : List DataObjectUtilityMetadata :=
  let bump := utilBump toProcess
  let key := fun m => -marginalUtility memOnly bump (discreteCost discreteSize m) m
  greedyLoop memOnly bump discreteSize key toProcess.length (heapOf key toProcess)

/-! ## The bag -/

/-- `cost3` -/
def bagCost (memOnly : Bool) (m : DataObjectUtilityMetadata) : Int := if memOnly then 1 else m.cost

/-- The loop over the ordered objects: those that are to be deleted. -/
def pack (memOnly : Bool) : Int → List DataObjectUtilityMetadata → List DataObjectUtilityMetadata
  | _, [] => []
  | totalFree, m :: l =>
      if wrapInt (totalFree - bagCost memOnly m) > 0 then
        pack memOnly (wrapInt (totalFree - bagCost memOnly m)) l
      else m :: pack memOnly totalFree l

/-- `CacheKnapsackOptimizerGreedy::solve`: what it adds to the objects to be deleted. A
discrete size of zero is divided by. -/
def solve (discreteSize bagSize : Int) (memOnly : Bool)
    (toProcess : List DataObjectUtilityMetadata) : Option (List DataObjectUtilityMetadata) :=
  if discreteSize = 0 ∧ toProcess ≠ [] then none
  else some (pack memOnly (wrapInt bagSize) (greedyOrder discreteSize memOnly toProcess))

/-! ## Every object is tried once -/

theorem popTies_spec {key : DataObjectUtilityMetadata → Rat}
    {tie : DataObjectUtilityMetadata → Bool} :
    ∀ (fuel : Nat) {heap ties : List DataObjectUtilityMetadata}, IsHeap key heap →
      IsHeap key (popTies key tie fuel heap ties).2 ∧
      ((popTies key tie fuel heap ties).1 ++ (popTies key tie fuel heap ties).2).Perm
        (ties ++ heap) ∧
      (popTies key tie fuel heap ties).2.length ≤ heap.length
  | 0, heap, ties, h => ⟨h, List.Perm.refl _, Nat.le_refl _⟩
  | fuel + 1, [], ties, h => ⟨h, List.Perm.refl _, Nat.le_refl _⟩
  | fuel + 1, m :: rest, ties, h => by
      unfold popTies
      by_cases htie : tie m = true
      · obtain ⟨ys, hys, hheap, hperm⟩ := extractFirst_spec h
        obtain ⟨hheap', hperm', hlen⟩ := @popTies_spec key tie fuel ys (m :: ties) hheap
        simp only [if_pos htie, hys]
        refine ⟨hheap', hperm'.trans ?_, ?_⟩
        · exact (List.perm_middle.symm).trans ((hperm.cons m).append_left ties)
        · have := hperm.length_eq
          rw [List.length_cons]
          omega
      · simp only [if_neg htie]
        exact ⟨h, List.Perm.refl _, Nat.le_refl _⟩

theorem sortList_perm (ties : List DataObjectUtilityMetadata) : (sortList ties).Perm ties := by
  obtain ⟨hheap, hperm⟩ :=
    @heapOf_spec _ _ (fun m : DataObjectUtilityMetadata => -m.createDate) _ ties
  exact (drain_perm ties.length hheap (Nat.le_of_eq hperm.length_eq)).trans hperm

theorem greedyLoop_perm {memOnly : Bool} {bump discreteSize : Int}
    {key : DataObjectUtilityMetadata → Rat} :
    ∀ (fuel : Nat) {heap : List DataObjectUtilityMetadata}, IsHeap key heap →
      heap.length ≤ fuel → (greedyLoop memOnly bump discreteSize key fuel heap).Perm heap
  | 0, heap, _, hlen => by
      rw [List.length_eq_zero_iff.mp (Nat.le_zero.mp hlen)]
      exact List.Perm.refl _
  | fuel + 1, [], _, _ => List.Perm.refl _
  | fuel + 1, m :: rest, h, hlen => by
      obtain ⟨ys, hys, hheap, hperm⟩ := extractFirst_spec h
      unfold greedyLoop
      rw [hys]
      simp only
      generalize hties : popTies key (fun m' =>
        decide (marginalUtility memOnly bump (discreteCost discreteSize m) m' =
          marginalUtility memOnly bump (discreteCost discreteSize m) m)) ys.length ys [m] = popped
      obtain ⟨hheap', hperm', hlen'⟩ := @popTies_spec key (fun m' =>
        decide (marginalUtility memOnly bump (discreteCost discreteSize m) m' =
          marginalUtility memOnly bump (discreteCost discreteSize m) m)) ys.length ys [m] hheap
      rw [hties] at hheap' hperm' hlen'
      have hfuel : popped.2.length ≤ fuel := by
        have := hperm.length_eq
        rw [List.length_cons] at hlen
        omega
      have hrest := @greedyLoop_perm memOnly bump discreteSize key fuel popped.2 hheap' hfuel
      exact (((sortList_perm popped.1).append hrest).trans hperm').trans (hperm.cons m)

theorem greedyOrder_perm (discreteSize : Int) (memOnly : Bool)
    (toProcess : List DataObjectUtilityMetadata) :
    (greedyOrder discreteSize memOnly toProcess).Perm toProcess := by
  unfold greedyOrder
  obtain ⟨hheap, hperm⟩ := @heapOf_spec _ _ (fun m => -marginalUtility memOnly
    (utilBump toProcess) (discreteCost discreteSize m) m) _ toProcess
  exact (greedyLoop_perm toProcess.length hheap (Nat.le_of_eq hperm.length_eq)).trans hperm

/-! ## What is kept fits -/

/-- The cost of a list. -/
def totalCost (memOnly : Bool) : List DataObjectUtilityMetadata → Int
  | [] => 0
  | m :: l => bagCost memOnly m + totalCost memOnly l

/-- The costs are positive and `int`s. -/
def CostsFit (memOnly : Bool) (l : List DataObjectUtilityMetadata) : Prop :=
  ∀ m ∈ l, 0 < bagCost memOnly m ∧ bagCost memOnly m ≤ 2147483647

/--
`used` is kept already. As long as that is nothing, the room is the bag made an `int`, which
may be negative; from the first kept object on it is positive and no more than is left.
-/
theorem pack_keeps (memOnly : Bool) {bag : Int} (hbag : 0 ≤ bag) :
    ∀ {l : List DataObjectUtilityMetadata} {free used : Int}, CostsFit memOnly l →
      (used = 0 ∧ free = wrapInt bag) ∨ (0 < free ∧ free ≤ 2147483647 ∧ free ≤ bag - used) →
      ∃ kept, (kept ++ pack memOnly free l).Perm l ∧
        (used + totalCost memOnly kept = 0 ∨ used + totalCost memOnly kept < bag)
  | [], free, used, _, hfree => by
      refine ⟨[], List.Perm.refl _, ?_⟩
      unfold totalCost
      omega
  | m :: l, free, used, hfit, hfree => by
      obtain ⟨hpos, hint⟩ := hfit m List.mem_cons_self
      have hrest : CostsFit memOnly l := fun x hx => hfit x (List.mem_cons_of_mem m hx)
      unfold pack
      -- what is free before anything was taken may have wrapped, afterwards it never does
      by_cases hroom : wrapInt (free - bagCost memOnly m) > 0
      · rw [if_pos hroom]
        have hfree' : 0 < wrapInt (free - bagCost memOnly m) ∧
            wrapInt (free - bagCost memOnly m) ≤ 2147483647 ∧
            wrapInt (free - bagCost memOnly m) ≤ bag - (used + bagCost memOnly m) := by
          refine ⟨hroom, ?_, ?_⟩
          · unfold wrapInt
            omega
          · rcases hfree with ⟨hused, hwrap⟩ | ⟨hlo, hhi, hleft⟩
            · rw [hwrap] at hroom ⊢
              unfold wrapInt at hroom ⊢
              omega
            · rw [wrapInt_of_range (by omega) (by omega)]
              omega
        obtain ⟨kept, hperm, hsum⟩ := pack_keeps memOnly hbag hrest (Or.inr hfree')
        refine ⟨m :: kept, hperm.cons m, ?_⟩
        unfold totalCost
        omega
      · rw [if_neg hroom]
        obtain ⟨kept, hperm, hsum⟩ := pack_keeps memOnly hbag hrest hfree
        exact ⟨kept, List.perm_middle.trans (hperm.cons m), hsum⟩

/-- **The knapsack** splits the objects into some that fit and those to be deleted. -/
theorem solve_spec {discreteSize bagSize : Int} {memOnly : Bool}
    {toProcess : List DataObjectUtilityMetadata} (hsize : discreteSize ≠ 0) (hbag : 0 ≤ bagSize)
    (hfit : CostsFit memOnly toProcess) :
    ∃ kept evicted, solve discreteSize bagSize memOnly toProcess = some evicted ∧
      (kept ++ evicted).Perm toProcess ∧
      (totalCost memOnly kept = 0 ∨ totalCost memOnly kept < bagSize) := by
  have hperm := greedyOrder_perm discreteSize memOnly toProcess
  have hfit' : CostsFit memOnly (greedyOrder discreteSize memOnly toProcess) :=
    fun m hm => hfit m (hperm.mem_iff.mp hm)
  obtain ⟨kept, hkept, hsum⟩ := pack_keeps memOnly hbag hfit'
    (Or.inl ⟨rfl, rfl⟩ : ((0 : Int) = 0 ∧ _) ∨ _)
  rw [Int.zero_add] at hsum
  refine ⟨kept, _, if_neg (fun h => hsize h.1), hkept.trans hperm, hsum⟩

end Encoders.Cache
