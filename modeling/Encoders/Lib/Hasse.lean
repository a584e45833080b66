import Mathlib.Logic.Relation
import Mathlib.Algebra.Order.BigOperators.Group.List
import Mathlib.Algebra.Order.Group.Nat
import Mathlib.Algebra.Ring.Nat
import Mathlib.Data.Finset.Card
import Encoders.Lib.Comparison

/-!
# Diagrams of an order

A diagram keeps values that compare in four ways: every node stands for one value, and
has a list of children below it. A root stands above all nodes, and its children are
taken from the front. It is like a Hasse diagram, but it need not be one. A value that
comes in is linked to what the walk from the root finds, and when the first child of the
root goes, its children come up to the root, whoever else is above them.

`Hasse` is what such a diagram keeps when the values are tame. Every list of children is
sorted, in that a node between a parent and one of its children is a child of the same
parent and stands before the other; this only happens over the foot of a fork. And from
every node there is a path to every node below it, unless the second is the foot of a
fork. So the first child of the root has nothing above it.
-/

namespace Encoders.Lib

/-! ## Pairs in a list -/

/-- In a list without repetition, what comes before `d` comes in the part before `d`. -/
theorem mem_left_of_pair {β : Type} {y d : β} {l₁ l₂ : List β}
    (hnd : (l₁ ++ d :: l₂).Nodup) (h : [y, d].Sublist (l₁ ++ d :: l₂)) : y ∈ l₁ := by
  induction l₁ with
  | nil =>
      have hd : d ∉ l₂ := (List.nodup_cons.mp hnd).1
      cases h with
      | cons _ h => exact absurd (h.subset (by simp)) hd
      | cons_cons _ h => exact absurd (h.subset (by simp)) hd
  | cons a l₁ ih =>
      rw [List.cons_append] at hnd h
      cases h with
      | cons _ h => exact List.mem_cons_of_mem _ (ih (List.nodup_cons.mp hnd).2 h)
      | cons_cons _ h => exact List.mem_cons_self

/-- A part of a list without repetition keeps the order of the pairs it has. -/
theorem pair_sublist_of_mem {β : Type} {y d : β} {l l' : List β} (hsub : l'.Sublist l)
    (hnd : l.Nodup) (h : [y, d].Sublist l) (hy : y ∈ l') (hd : d ∈ l') : [y, d].Sublist l' := by
  induction hsub with
  | slnil => exact absurd hy (List.not_mem_nil)
  | cons a hsub ih =>
      obtain ⟨ha, hnd⟩ := List.nodup_cons.mp hnd
      cases h with
      | cons _ h => exact ih hnd h hy hd
      | cons_cons _ h => exact absurd (hsub.subset hy) ha
  | cons_cons a hsub ih =>
      obtain ⟨ha, hnd⟩ := List.nodup_cons.mp hnd
      cases h with
      | cons _ h =>
          have hne : ∀ z, z ∈ [y, d] → z ≠ a := fun z hz he => ha (he ▸ h.subset hz)
          rcases List.mem_cons.mp hy with rfl | hy
          · exact absurd rfl (hne y (by simp))
          · rcases List.mem_cons.mp hd with rfl | hd
            · exact absurd rfl (hne d (by simp))
            · exact (ih hnd h hy hd).cons a
      | cons_cons _ h =>
          have hdy : d ≠ y := fun he => ha (he ▸ h.subset (by simp))
          rcases List.mem_cons.mp hd with he | hd
          · exact absurd he hdy
          · exact (List.singleton_sublist.mpr hd).cons_cons y

/-- A filter keeps a pair if it keeps both. -/
theorem pair_filter {β : Type} {y d : β} {l : List β} {q : β → Bool} (h : [y, d].Sublist l)
    (hy : q y = true) (hd : q d = true) : [y, d].Sublist (l.filter q) := by
  have hsub := h.filter q
  rwa [List.filter_cons_of_pos hy, List.filter_cons_of_pos hd, List.filter_nil] at hsub

/-! ## Diagrams -/

/-- Nodes with a value each, and the children of each node. -/
structure Diagram (α : Type) where
  root : Nat
  nodes : Finset Nat
  front : Nat → α
  children : Nat → List Nat

variable {α : Type} {cmp : α → α → Comparison} {E : List α}

namespace Diagram

/-- `c` is a child of `u`. -/
def Edge (D : Diagram α) (u c : Nat) : Prop := c ∈ D.children u

/-- From child to child. -/
def Path (D : Diagram α) : Nat → Nat → Prop := Relation.ReflTransGen D.Edge

/-- The root is above every value. -/
def Above (D : Diagram α) (cmp : α → α → Comparison) (u : Nat) (x : α) : Prop :=
  u = D.root ∨ cmp (D.front u) x = .gt

/-- Where a new value is linked: over some child, or beside all of them. -/
def Joins (D : Diagram α) (cmp : α → α → Comparison) (x : α) (u : Nat) : Prop :=
  (∃ c ∈ D.children u, cmp x (D.front c) = .gt) ∨ ∀ c ∈ D.children u, cmp x (D.front c) = .nc

end Diagram

open Diagram

/-- What a diagram of tame values keeps. -/
structure Hasse (cmp : α → α → Comparison) (E : List α) (D : Diagram α) : Prop where
  root_notMem : D.root ∉ D.nodes
  front_mem : ∀ n ∈ D.nodes, D.front n ∈ E
  closed : ∀ u ∈ insert D.root D.nodes, ∀ c ∈ D.children u, c ∈ D.nodes
  nodup : ∀ u ∈ insert D.root D.nodes, (D.children u).Nodup
  /-- A child is below its parent. -/
  edge : ∀ u ∈ D.nodes, ∀ c ∈ D.children u, cmp (D.front u) (D.front c) = .gt
  reach : ∀ n ∈ D.nodes, D.Path D.root n
  /-- Different nodes have different values. -/
  apart : ∀ n ∈ D.nodes, ∀ m ∈ D.nodes, cmp (D.front n) (D.front m) = .eq → n = m
  /-- What is between a parent and a child is a child before it. -/
  order : ∀ u ∈ insert D.root D.nodes, ∀ d ∈ D.children u, ∀ y ∈ D.nodes,
    D.Above cmp u (D.front y) → cmp (D.front y) (D.front d) = .gt →
    [y, d].Sublist (D.children u) ∧ Forked cmp E (D.front y) (D.front d)
  /-- What is below a node can be reached from it, or is the foot of a fork. -/
  cover : ∀ u ∈ D.nodes, ∀ y ∈ D.nodes, cmp (D.front u) (D.front y) = .gt →
    D.Path u y ∨ Forked cmp E (D.front u) (D.front y)

namespace Hasse

variable {D : Diagram α}

/-- A diagram of nothing. -/
theorem empty (hN : D.nodes = ∅) (hch : D.children D.root = []) : Hasse cmp E D := by
  refine ⟨?_, ?_, ?_, ?_, ?_, ?_, ?_, ?_, ?_⟩ <;> simp [hN, hch]

section Paths

variable (h : Hasse cmp E D) (T : Tame cmp E) (F : Flips cmp)

include h in
theorem ne_root {n : Nat} (hn : n ∈ D.nodes) : n ≠ D.root :=
  fun he => h.root_notMem (he ▸ hn)

include h T in
/-- A path goes down. -/
theorem path_down {u y : Nat} (hu : u ∈ D.nodes) (hp : D.Path u y) :
    y ∈ D.nodes ∧ (u = y ∨ cmp (D.front u) (D.front y) = .gt) := by
  induction hp with
  | refl => exact ⟨hu, Or.inl rfl⟩
  | @tail b c _ hbc ih =>
      obtain ⟨hb, hub⟩ := ih
      have hc : c ∈ D.nodes := h.closed b (Finset.mem_insert_of_mem hb) c hbc
      have hgt := h.edge b hb c hbc
      refine ⟨hc, Or.inr ?_⟩
      rcases hub with rfl | hub
      · exact hgt
      · exact T.trans _ (h.front_mem u hu) _ (h.front_mem b hb) _ (h.front_mem c hc) hub hgt

include h T in
/-- Every node is a child of the root, or below one. -/
theorem below_root {y : Nat} (hy : y ∈ D.nodes) : ∃ r ∈ D.children D.root,
    r ∈ D.nodes ∧ D.Path r y ∧ (r = y ∨ cmp (D.front r) (D.front y) = .gt) := by
  rcases (h.reach y hy).cases_head with he | ⟨r, hr, hp⟩
  · exact absurd he.symm (h.ne_root hy)
  · have hrN : r ∈ D.nodes := h.closed D.root (Finset.mem_insert_self _ _) r hr
    exact ⟨r, hr, hrN, hp, (h.path_down T hrN hp).2⟩

include h T F in
/-- What a path reaches from a node above it is below some child. -/
theorem below_child {u y : Nat} (hu : u ∈ D.nodes) (hp : D.Path u y)
    (hgt : cmp (D.front u) (D.front y) = .gt) : ∃ c ∈ D.children u,
    c ∈ D.nodes ∧ (c = y ∨ cmp (D.front c) (D.front y) = .gt) := by
  rcases hp.cases_head with rfl | ⟨c, hc, hp⟩
  · exact absurd hgt (F.gt_irrefl _)
  · have hcN : c ∈ D.nodes := h.closed u (Finset.mem_insert_of_mem hu) c hc
    exact ⟨c, hc, hcN, (h.path_down T hcN hp).2⟩

include h in
/-- **Nothing is above the first child of the root.** -/
theorem top_maximal {t y : Nat} {rest : List Nat} (hroot : D.children D.root = t :: rest)
    (hy : y ∈ D.nodes) : cmp (D.front y) (D.front t) ≠ .gt := by
  intro hgt
  have hmem := Finset.mem_insert_self D.root D.nodes
  have hsub := (h.order D.root hmem t (by rw [hroot]; simp) y hy (Or.inl rfl) hgt).1
  rw [hroot] at hsub
  have hnd := h.nodup D.root hmem
  rw [hroot] at hnd
  exact absurd (@mem_left_of_pair _ y t [] rest hnd hsub) (List.not_mem_nil)

end Paths

/-! ## Weights -/

/-- Twice the paths of length at most `k` from a node. -/
def paths (children : Nat → List Nat) : Nat → Nat → Nat
  | 0, _ => 2
  | k + 1, u => 2 + ((children u).map (paths children k)).sum

section Weights

variable (h : Hasse cmp E D) (T : Tame cmp E) (F : Flips cmp)
include h T F

/-- No path is longer than there are nodes below its start. -/
theorem paths_stable : ∀ (k u : Nat), u ∈ D.nodes →
    (D.nodes.filter (fun m => cmp (D.front u) (D.front m) = .gt)).card ≤ k →
    paths D.children (k + 1) u = paths D.children k u
  | 0, u, hu, hcard => by
      have hnone : D.children u = [] := by
        refine List.eq_nil_iff_forall_not_mem.mpr ?_
        intro c hc
        have hcN := h.closed u (Finset.mem_insert_of_mem hu) c hc
        have hempty := Finset.card_eq_zero.mp (Nat.le_zero.mp hcard)
        have hin : c ∈ D.nodes.filter (fun m => cmp (D.front u) (D.front m) = .gt) :=
          Finset.mem_filter.mpr ⟨hcN, h.edge u hu c hc⟩
        rw [hempty] at hin
        exact absurd hin (Finset.notMem_empty c)
      simp [paths, hnone]
  | k + 1, u, hu, hcard => by
      rw [paths, paths]
      congr 2
      refine List.map_congr_left ?_
      intro c hc
      have hcN := h.closed u (Finset.mem_insert_of_mem hu) c hc
      have hgt := h.edge u hu c hc
      refine paths_stable k c hcN (Nat.le_of_lt_succ (Nat.lt_of_lt_of_le ?_ hcard))
      -- what is below `c` is below `u`, and so is `c` itself
      refine Finset.card_lt_card (Finset.ssubset_iff_of_subset ?_ |>.mpr ?_)
      · intro m hm
        obtain ⟨hmN, hcm⟩ := Finset.mem_filter.mp hm
        refine Finset.mem_filter.mpr ⟨hmN, ?_⟩
        exact T.trans _ (h.front_mem u hu) _ (h.front_mem c hcN) _ (h.front_mem m hmN) hgt hcm
      · refine ⟨c, Finset.mem_filter.mpr ⟨hcN, hgt⟩, ?_⟩
        intro hself
        exact F.gt_irrefl _ (Finset.mem_filter.mp hself).2

/-- Nodes can be given weights such that a node outweighs its children together. -/
theorem exists_weight : ∃ W : Nat → Nat,
    ∀ u ∈ insert D.root D.nodes, 2 + ((D.children u).map W).sum ≤ W u := by
  let W := paths D.children D.nodes.card
  have hW : ∀ u ∈ D.nodes, 2 + ((D.children u).map W).sum = W u := by
    intro u hu
    have hstable := h.paths_stable T F D.nodes.card u hu (Finset.card_filter_le _ _)
    rw [paths] at hstable
    exact hstable
  refine ⟨fun u => if u = D.root then 2 + ((D.children D.root).map W).sum else W u, ?_⟩
  intro u hu
  have hmap : (D.children u).map
      (fun u => if u = D.root then 2 + ((D.children D.root).map W).sum else W u) =
      (D.children u).map W := by
    refine List.map_congr_left ?_
    intro c hc
    rw [if_neg (h.ne_root (h.closed u hu c hc))]
  rw [hmap]
  rcases Finset.mem_insert.mp hu with rfl | hu
  · simp only [if_true, le_refl]
  · simp only [if_neg (h.ne_root hu), hW u hu, le_refl]

/-- Induction from the children to their parents. -/
theorem induction {P : Nat → Prop}
    (hstep : ∀ u ∈ insert D.root D.nodes, (∀ c ∈ D.children u, P c) → P u) :
    ∀ u ∈ insert D.root D.nodes, P u := by
  obtain ⟨W, hW⟩ := h.exists_weight T F
  intro u
  induction hn : W u using Nat.strongRecOn generalizing u with
  | _ n ih =>
      intro hu
      refine hstep u hu ?_
      intro c hc
      have hle : W c ≤ ((D.children u).map W).sum :=
        List.le_sum_of_mem (List.mem_map_of_mem hc)
      have hlt : W c < n := by
        have := hW u hu
        omega
      exact ih (W c) hlt c rfl (Finset.mem_insert_of_mem (h.closed u hu c hc))

end Weights

end Hasse

end Encoders.Lib
