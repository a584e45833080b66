import Encoders.Cache.Knapsack
import Encoders.Container.HeapTies
import Mathlib.Algebra.Order.Field.Basic
import Mathlib.Tactic.Positivity

/-!
# What a greedy knapsack is

`CacheKnapsackOptimizerGreedy` and `ReplicationKnapsackOptimizerGreedy` were written to do the
same: to try the best bargains first, and among equal bargains the newest, and to keep what
costs less than is left. `Greedy` says that in its own terms, and says it of entries, which are
what both read of the things they are given. With dates that tell equal bargains apart there is
one way to do it, so two optimizers that both do it agree.

The cache's optimizer does not always. It tells ties by the discrete cost of the first of them,
so what it takes for a tie is an equal utility, and not an equal bargain. `TiesTold` is when that
makes no difference.
-/

namespace Encoders.Cache

open Encoders.Lib Encoders.Container

variable {discreteSize : Int}

/-! ## Entries -/

/-- What the optimizers read. -/
structure Entry where
  id : CString
  cost : Int
  utility : Rat
  createDate : Int
deriving DecidableEq

/-- A cost, rounded down to the discrete size, but not to zero. -/
def discretised (discreteSize cost : Int) : Int :=
  if wrapInt (discreteSize * cost.tdiv discreteSize) ≤ 0 then 1
  else wrapInt (discreteSize * cost.tdiv discreteSize)

theorem discretised_pos (discreteSize cost : Int) : 0 < discretised discreteSize cost := by
  unfold discretised
  split
  · exact Int.one_pos
  · omega

/-- The marginal utility: how good a bargain. -/
def Entry.worth (discreteSize : Int) (e : Entry) : Rat :=
  (e.utility + 1) / discretised discreteSize e.cost

/-- Costs are positive and `int`s. -/
def CostsInt (l : List Entry) : Prop := ∀ e ∈ l, 1 ≤ e.cost ∧ e.cost ≤ 2147483647

instance decidableCostsInt (l : List Entry) : Decidable (CostsInt l) :=
  inferInstanceAs (Decidable (∀ e ∈ l, 1 ≤ e.cost ∧ e.cost ≤ 2147483647))

/-- Of two that are equally good, one is newer. -/
def DatesTell (discreteSize : Int) (l : List Entry) : Prop :=
  l.Pairwise fun a b => a.worth discreteSize = b.worth discreteSize → a.createDate ≠ b.createDate

instance decidableDatesTell (discreteSize : Int) (l : List Entry) :
    Decidable (DatesTell discreteSize l) :=
  inferInstanceAs (Decidable (l.Pairwise fun a b =>
    a.worth discreteSize = b.worth discreteSize → a.createDate ≠ b.createDate))

/-- The better bargain first, and the newer one of two that are equally good. -/
def Sooner (discreteSize : Int) : Entry → Entry → Prop :=
  KeyThenDate (fun e => -e.worth discreteSize) Entry.createDate

theorem sooner_iff {a b : Entry} : Sooner discreteSize a b ↔
    b.worth discreteSize < a.worth discreteSize ∨
      a.worth discreteSize = b.worth discreteSize ∧ b.createDate ≤ a.createDate := by
  unfold Sooner KeyThenDate
  rw [neg_lt_neg_iff, neg_inj]

/-- What is to be done with `input`: the order in which it is tried, what is kept, and what is
not. -/
structure Greedy (discreteSize bag : Int) (input order kept dropped : List Entry) : Prop where
  perm : order.Perm input
  sorted : order.Pairwise (Sooner discreteSize)
  sifts : Sifts Entry.cost bag order kept dropped

/-- **With dates that tell, there is one way.** -/
theorem Greedy.unique {bag : Int} {input order kept dropped order' kept' dropped' : List Entry}
    (hdates : DatesTell discreteSize input) (h : Greedy discreteSize bag input order kept dropped)
    (h' : Greedy discreteSize bag input order' kept' dropped') :
    kept = kept' ∧ dropped = dropped' := by
  have hsymm : Std.Symm (fun a b : Entry =>
      a.worth discreteSize = b.worth discreteSize → a.createDate ≠ b.createDate) :=
    ⟨fun _ _ hab hba => (hab hba.symm).symm⟩
  have hdates' : order.Pairwise (fun a b =>
      a.worth discreteSize = b.worth discreteSize → a.createDate ≠ b.createDate) :=
    (h.perm.pairwise_iff fun {a b} => hsymm.symm a b).mpr hdates
  have hsame : order = order' := by
    refine List.Perm.eq_of_pairwise ?_ h.sorted h'.sorted (h.perm.trans h'.perm.symm)
    intro a b ha hb hab hba
    by_contra hne
    have hb' := h.perm.mem_iff.mpr (h'.perm.mem_iff.mp hb)
    have htell := hdates'.forall ha hb' hne
    rcases sooner_iff.mp hab with hlt | ⟨heq, hle⟩
    · rcases sooner_iff.mp hba with hlt' | ⟨heq', _⟩
      · exact lt_asymm hlt hlt'
      · exact absurd heq' (ne_of_lt hlt)
    · rcases sooner_iff.mp hba with hlt' | ⟨_, hle'⟩
      · exact absurd heq (ne_of_lt hlt')
      · exact htell heq (le_antisymm hle' hle)
  subst hsame
  exact h.sifts.unique h'.sifts

/-! ## The order of the cache -/

/-- An object as an entry. -/
def DataObjectUtilityMetadata.entry (m : DataObjectUtilityMetadata) : Entry :=
  ⟨m.id, m.cost, m.utility, m.createDate⟩

/--
Equal utilities tell ties: of two that are equally good the utilities are the same, or it does
not matter because the dates are; and of two with the same utility the better bargain is newer,
unless something of another utility comes between them.
-/
def TiesTold (discreteSize : Int) (l : List Entry) : Prop :=
  LabelsTell (fun e => -e.worth discreteSize) Entry.createDate Entry.utility l

theorem marginalUtility_entry {bump : Int} (m : DataObjectUtilityMetadata) :
    marginalUtility false bump (discreteCost discreteSize m) m =
      bump * m.entry.worth discreteSize := by
  have hcost : discreteCost discreteSize m = discretised discreteSize m.cost := rfl
  unfold marginalUtility
  rw [if_neg Bool.false_ne_true, hcost]
  unfold Entry.worth DataObjectUtilityMetadata.entry
  rw [mul_div_assoc]

theorem discreteCost_pos (discreteSize : Int) (m : DataObjectUtilityMetadata) :
    0 < discreteCost discreteSize m := discretised_pos discreteSize m.cost

/-- What the cache takes for ties: two of one utility. -/
theorem tie_iff {bump cost : Int} (hbump : 0 < bump) (hcost : 0 < cost)
    {m m' : DataObjectUtilityMetadata} :
    decide (marginalUtility false bump cost m' = marginalUtility false bump cost m) = true ↔
      m'.utility = m.utility := by
  have hbump' : (bump : Rat) ≠ 0 := Int.cast_ne_zero.mpr (ne_of_gt hbump)
  have hcost' : (cost : Rat) ≠ 0 := Int.cast_ne_zero.mpr (ne_of_gt hcost)
  unfold marginalUtility
  rw [decide_eq_true_iff, if_neg Bool.false_ne_true, if_neg Bool.false_ne_true,
    div_left_inj' hcost', mul_right_inj' hbump', add_left_inj]

/-- The greatest cost, which is at least one. -/
theorem greatest_pos {α : Type} (cost : α → Int) (l : List α) :
    0 < l.foldl (fun maxCost m => if maxCost > cost m then maxCost else cost m) 1 := by
  have hrun : ∀ (l : List α) (maxCost : Int), 0 < maxCost →
      0 < l.foldl (fun maxCost m => if maxCost > cost m then maxCost else cost m) maxCost := by
    intro l
    induction l with
    | nil => exact fun _ h => h
    | cons m l ih =>
        intro maxCost h
        rw [List.foldl_cons]
        refine ih _ ?_
        by_cases hgreater : maxCost > cost m
        · rw [if_pos hgreater]
          exact h
        · rw [if_neg hgreater]
          omega
  exact hrun l 1 Int.one_pos

theorem utilBump_pos (l : List DataObjectUtilityMetadata) : 0 < utilBump l := greatest_pos _ l

/-- The loops of the cache are the loops every optimizer has. -/
theorem popTies_eq (key : DataObjectUtilityMetadata → Rat)
    (tie : DataObjectUtilityMetadata → Bool) : ∀ (fuel : Nat)
    (heap ties : List DataObjectUtilityMetadata),
    popTies key tie fuel heap ties = popWhile key tie fuel heap ties
  | 0, _, _ => rfl
  | fuel + 1, [], _ => rfl
  | fuel + 1, m :: rest, ties => by
      unfold popTies popWhile
      by_cases htie : tie m = true
      · simp only [if_pos htie]
        cases extractFirst key (m :: rest) with
        | none => rfl
        | some popped => exact popTies_eq key tie fuel popped.2 (m :: ties)
      · simp only [if_neg htie]

theorem greedyLoop_eq (bump discreteSize : Int) (key : DataObjectUtilityMetadata → Rat) :
    ∀ (fuel : Nat) (heap : List DataObjectUtilityMetadata),
    greedyLoop false bump discreteSize key fuel heap =
      tieLoop key (fun m m' => decide (
        marginalUtility false bump (discreteCost discreteSize m) m' =
          marginalUtility false bump (discreteCost discreteSize m) m)) sortList fuel heap
  | 0, _ => rfl
  | fuel + 1, heap => by
      unfold greedyLoop tieLoop
      cases extractFirst key heap with
      | none => rfl
      | some popped =>
          simp only
          rw [popTies_eq, greedyLoop_eq bump discreteSize key fuel]

theorem sortList_spec (l : List DataObjectUtilityMetadata) :
    (sortList l).Perm l ∧ (sortList l).Pairwise (fun a b => b.createDate ≤ a.createDate) := by
  refine ⟨sortList_perm l, ?_⟩
  have hsorted := @heapSort_sorted _ _ _ (fun m : DataObjectUtilityMetadata => -m.createDate) l
  exact hsorted.imp fun {a b} hab => neg_le_neg_iff.mp hab

/-- What is sorted by a multiple of the worth is sorted by the worth. -/
theorem pairwise_worth {α : Type*} {entry : α → Entry} {key : α → Rat} {bump : Rat}
    (hbump : 0 < bump) (hkey : ∀ m, key m = bump * (entry m).worth discreteSize) {order : List α}
    (h : order.Pairwise (fun a b => -key a ≤ -key b)) :
    order.Pairwise (fun a b =>
      -(entry a).worth discreteSize ≤ -(entry b).worth discreteSize) := by
  refine h.imp fun {a b} hab => ?_
  rw [hkey, hkey, neg_le_neg_iff] at hab
  exact neg_le_neg (le_of_mul_le_mul_left hab hbump)

/-- **The cache tries things in the right order**, where equal utilities tell ties. -/
theorem greedyOrder_sorted {l : List DataObjectUtilityMetadata}
    (htold : TiesTold discreteSize (l.map DataObjectUtilityMetadata.entry)) :
    ((greedyOrder discreteSize false l).map DataObjectUtilityMetadata.entry).Pairwise
      (Sooner discreteSize) := by
  have hbump : (0 : Rat) < utilBump l := Int.cast_pos.mpr (utilBump_pos l)
  obtain ⟨hheap, hperm⟩ := @heapOf_spec _ _ (fun m => -marginalUtility false (utilBump l)
    (discreteCost discreteSize m) m) _ l
  obtain ⟨order, horder, -, hkeys, hties⟩ := @tieLoop_spec _ _ _ _ _ _ _
    DataObjectUtilityMetadata.createDate DataObjectUtilityMetadata.utility _ _
    (fun m _ => tie_iff (utilBump_pos l) (discreteCost_pos discreteSize m))
    sortList_spec l.length _ hheap (Nat.le_of_eq hperm.length_eq)
  have hsorted := pairwise_worth hbump marginalUtility_entry hkeys
  have htell := (htold.of_map.perm (horder.trans hperm))
  unfold greedyOrder
  rw [greedyLoop_eq]
  exact List.Pairwise.map _ (fun _ _ h => h) (hties.pairwise hsorted htell)

/-! ## The bag of the cache -/

/-- No room is computed that is below what an `int` can be. -/
def NoWrap (bag : Int) (l : List Entry) : Prop := ∀ e ∈ l, -2147483648 ≤ bag - e.cost

instance decidableNoWrap (bag : Int) (l : List Entry) : Decidable (NoWrap bag l) :=
  inferInstanceAs (Decidable (∀ e ∈ l, -2147483648 ≤ bag - e.cost))

/-- Room that is left is always enough to compute with. -/
theorem noWrap_of_pos {free : Int} {l : List Entry} (hcosts : CostsInt l) (hfree : 0 < free) :
    NoWrap free l := by
  intro e he
  have := hcosts e he
  omega

theorem pack_sifts : ∀ {l : List DataObjectUtilityMetadata} {free : Int},
    CostsInt (l.map DataObjectUtilityMetadata.entry) → free ≤ 2147483647 →
    NoWrap free (l.map DataObjectUtilityMetadata.entry) →
    ∃ kept, Sifts DataObjectUtilityMetadata.cost free l kept (pack false free l)
  | [], _, _, _, _ => ⟨[], Sifts.nil⟩
  | m :: l, free, hcosts, hfree, hwrap => by
      have hcost := hcosts m.entry List.mem_cons_self
      have hcosts' : CostsInt (l.map DataObjectUtilityMetadata.entry) :=
        fun e he => hcosts e (List.mem_cons_of_mem _ he)
      have hroom : wrapInt (free - bagCost false m) = free - m.cost :=
        wrapInt_of_range (hwrap m.entry List.mem_cons_self)
          (by have : 1 ≤ m.cost := hcost.1; show free - m.cost ≤ _; omega)
      unfold pack
      rw [hroom]
      by_cases hfits : free - m.cost > 0
      · obtain ⟨kept, hkept⟩ := pack_sifts hcosts' (by have : 1 ≤ m.cost := hcost.1; omega)
          (noWrap_of_pos hcosts' hfits)
        rw [if_pos hfits]
        exact ⟨m :: kept, Sifts.keep (by omega) hkept⟩
      · obtain ⟨kept, hkept⟩ := pack_sifts hcosts' hfree
          (fun e he => hwrap e (List.mem_cons_of_mem _ he))
        rw [if_neg hfits]
        exact ⟨kept, Sifts.drop (by omega) hkept⟩

theorem pack_sublist (memOnly : Bool) : ∀ (l : List DataObjectUtilityMetadata) (free : Int),
    (pack memOnly free l).Sublist l
  | [], _ => List.Sublist.slnil
  | m :: l, free => by
      unfold pack
      split
      · exact (pack_sublist memOnly l _).cons m
      · exact (pack_sublist memOnly l free).cons_cons m

/-- From a bag so far below zero that some room wraps around, something is kept. -/
theorem pack_wrapped : ∀ {l : List DataObjectUtilityMetadata} {free : Int},
    CostsInt (l.map DataObjectUtilityMetadata.entry) → -2147483648 ≤ free →
    ¬NoWrap free (l.map DataObjectUtilityMetadata.entry) →
    (pack false free l).length < l.length
  | [], _, _, _, hwrap => absurd (fun _ he => absurd he List.not_mem_nil) hwrap
  | m :: l, free, hcosts, hfree, hwrap => by
      have hcost : 1 ≤ m.cost ∧ m.cost ≤ 2147483647 := hcosts m.entry List.mem_cons_self
      unfold pack
      by_cases hfits : wrapInt (free - bagCost false m) > 0
      · rw [if_pos hfits]
        exact Nat.lt_succ_of_le (pack_sublist false l _).length_le
      · -- this one did not wrap around, since what wraps around is positive
        rw [if_neg hfits]
        refine Nat.succ_lt_succ (pack_wrapped (fun e he => hcosts e (List.mem_cons_of_mem _ he))
          hfree fun hrest => hwrap fun e he => ?_)
        rcases List.mem_cons.mp he with rfl | he
        · have hroom : ¬wrapInt (free - m.cost) > 0 := hfits
          show -2147483648 ≤ free - m.cost
          unfold wrapInt at hroom
          omega
        · exact hrest e he

end Encoders.Cache
