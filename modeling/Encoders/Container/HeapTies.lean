import Encoders.Container.Heap
import Encoders.Lib.Greedy

/-!
# Emptying a heap by ties

Both greedy optimizers empty a heap in the same way. The front leaves; as long as the next one
ties with it that one leaves too; the ties are put in order and handed on, and the loop starts
again. The order they are put in comes out of a heap again.

What counts as a tie is asked of the first one and of the candidate, and need not have to do
with the keys of the heap.
-/

namespace Encoders.Container

open Encoders.Lib

variable {α κ δ ι : Type} [LinearOrder κ]

/-! ## A heap empties in order -/

section Drain

variable {key : α → κ}

theorem drain_sorted : ∀ (fuel : Nat) {heap : List α}, IsHeap key heap → heap.length ≤ fuel →
    (drain key fuel heap).Pairwise (fun a b => key a ≤ key b)
  | 0, _, _, _ => List.Pairwise.nil
  | fuel + 1, [], _, _ => List.Pairwise.nil
  | fuel + 1, x :: rest, h, hlen => by
      obtain ⟨ys, hys, hheap, hperm⟩ := extractFirst_spec h
      have hlen' : ys.length ≤ fuel := by
        rw [hperm.length_eq]
        rw [List.length_cons] at hlen
        omega
      unfold drain
      rw [hys]
      refine List.Pairwise.cons ?_ (drain_sorted fuel hheap hlen')
      intro y hy
      have hmem : y ∈ rest := hperm.mem_iff.mp ((drain_perm fuel hheap hlen').mem_iff.mp hy)
      exact h.front_le (List.mem_cons_of_mem x hmem)

end Drain

variable (key : α → κ)

/-- A list put through a heap. -/
def heapSort (l : List α) : List α := drain key l.length (heapOf key l)

/-- The inner loop: from the front of the heap, as long as it is a tie. -/
def popWhile (tie : α → Bool) : Nat → List α → List α → List α × List α
  | 0, heap, ties => (ties, heap)
  | fuel + 1, heap, ties =>
      match heap with
      | [] => (ties, [])
      | m :: rest =>
          if tie m then
            match extractFirst key (m :: rest) with
            | some (_, heap') => popWhile tie fuel heap' (m :: ties)
            | none => (ties, heap)
          else (ties, heap)

/-- The outer loop. -/
def tieLoop (tie : α → α → Bool) (sort : List α → List α) : Nat → List α → List α
  | 0, _ => []
  | fuel + 1, heap =>
      match extractFirst key heap with
      | none => []
      | some (m, heap') =>
          let (ties, rest) := popWhile key (tie m) heap'.length heap' [m]
          sort ties ++ tieLoop tie sort fuel rest

variable {key}

theorem heapSort_perm (l : List α) : (heapSort key l).Perm l := by
  obtain ⟨hheap, hperm⟩ := @heapOf_spec _ _ key _ l
  exact (drain_perm l.length hheap (Nat.le_of_eq hperm.length_eq)).trans hperm

theorem heapSort_sorted (l : List α) :
    (heapSort key l).Pairwise (fun a b => key a ≤ key b) := by
  obtain ⟨hheap, hperm⟩ := @heapOf_spec _ _ key _ l
  exact drain_sorted l.length hheap (Nat.le_of_eq hperm.length_eq)

/-! ## One run of ties -/

/-- What the inner loop takes, and what it leaves: the ties from the front, up to one that is
none. -/
structure Popped (key : α → κ) (tie : α → Bool) (heap run rest : List α) : Prop where
  isHeap : IsHeap key rest
  perm : (run ++ rest).Perm heap
  sorted : run.Pairwise (fun a b => key a ≤ key b)
  below : ∀ a ∈ run, ∀ b ∈ rest, key a ≤ key b
  ties : ∀ a ∈ run, tie a = true
  stops : ∀ z ∈ rest.head?, tie z = false

theorem Popped.none {tie : α → Bool} {heap : List α} (h : IsHeap key heap)
    (hstop : ∀ z ∈ heap.head?, tie z = false) : Popped key tie heap [] heap where
  isHeap := h
  perm := List.Perm.refl _
  sorted := List.Pairwise.nil
  below _ ha := absurd ha List.not_mem_nil
  ties _ ha := absurd ha List.not_mem_nil
  stops := hstop

theorem Popped.cons {tie : α → Bool} {m : α} {others heap run rest : List α}
    (hfront : IsHeap key (m :: others)) (hperm : heap.Perm others) (htie : tie m = true)
    (h : Popped key tie heap run rest) : Popped key tie (m :: others) (m :: run) rest where
  isHeap := h.isHeap
  perm := (h.perm.trans hperm).cons m
  sorted := by
    refine List.Pairwise.cons (fun b hb => ?_) h.sorted
    have hmem := (h.perm.trans hperm).mem_iff.mp (List.mem_append_left rest hb)
    exact hfront.front_le (List.mem_cons_of_mem m hmem)
  below a ha b hb := by
    rcases List.mem_cons.mp ha with rfl | ha
    · have hmem := (h.perm.trans hperm).mem_iff.mp (List.mem_append_right run hb)
      exact hfront.front_le (List.mem_cons_of_mem a hmem)
    · exact h.below a ha b hb
  ties a ha := by
    rcases List.mem_cons.mp ha with rfl | ha
    · exact htie
    · exact h.ties a ha
  stops := h.stops

/-- **The inner loop** takes a run of ties. -/
theorem popWhile_spec {tie : α → Bool} : ∀ (fuel : Nat) {heap : List α} (ties : List α),
    IsHeap key heap → heap.length ≤ fuel → ∃ run rest,
      popWhile key tie fuel heap ties = (run.reverse ++ ties, rest) ∧
      Popped key tie heap run rest
  | 0, heap, ties, h, hlen => by
      have hnil : heap = [] := List.length_eq_zero_iff.mp (Nat.le_zero.mp hlen)
      exact ⟨[], heap, rfl, Popped.none h (by simp [hnil])⟩
  | fuel + 1, [], ties, h, _ => ⟨[], [], rfl, Popped.none h (by simp)⟩
  | fuel + 1, m :: others, ties, h, hlen => by
      unfold popWhile
      by_cases htie : tie m = true
      · obtain ⟨ys, hys, hheap, hperm⟩ := extractFirst_spec h
        have hlen' : ys.length ≤ fuel := by
          rw [hperm.length_eq]
          rw [List.length_cons] at hlen
          omega
        obtain ⟨run, rest, heq, hpop⟩ := @popWhile_spec tie fuel ys (m :: ties) hheap hlen'
        refine ⟨m :: run, rest, ?_, hpop.cons h hperm htie⟩
        simp only [if_pos htie, hys, heq]
        rw [List.reverse_cons, List.append_assoc]
        rfl
      · refine ⟨[], m :: others, if_neg htie, Popped.none h ?_⟩
        intro z hz
        rw [List.head?_cons, Option.mem_some_iff] at hz
        rw [← hz]
        exact Bool.eq_false_iff.mpr htie

/-! ## All the runs -/

variable [LinearOrder δ] {date : α → δ} {label : α → ι}

/-- **The outer loop** brings things out in some order of their keys, with the runs of one label
sorted. -/
theorem tieLoop_spec {tie : α → α → Bool} {sort : List α → List α}
    (htie : ∀ m m', tie m m' = true ↔ label m' = label m)
    (hsort : ∀ l, (sort l).Perm l ∧ (sort l).Pairwise (fun a b => date b ≤ date a)) :
    ∀ (fuel : Nat) {heap : List α}, IsHeap key heap → heap.length ≤ fuel →
      ∃ l, l.Perm heap ∧ l.head? = heap.head? ∧ l.Pairwise (fun a b => key a ≤ key b) ∧
        TieSorted label date l (tieLoop key tie sort fuel heap)
  | 0, heap, _, hlen => by
      rw [List.length_eq_zero_iff.mp (Nat.le_zero.mp hlen)]
      exact ⟨[], List.Perm.refl _, rfl, List.Pairwise.nil, TieSorted.nil⟩
  | fuel + 1, [], _, _ => ⟨[], List.Perm.refl _, rfl, List.Pairwise.nil, TieSorted.nil⟩
  | fuel + 1, m :: others, h, hlen => by
      obtain ⟨ys, hys, hheap, hperm⟩ := extractFirst_spec h
      obtain ⟨run, rest, hpopped, hpop⟩ :=
        @popWhile_spec _ _ _ key (tie m) ys.length ys [m] hheap (Nat.le_refl _)
      -- the run is taken off, so that the fuel is enough for the rest
      have hfuel : rest.length ≤ fuel := by
        have hlens := (hpop.perm.trans hperm).length_eq
        rw [List.length_append] at hlens
        rw [List.length_cons] at hlen
        omega
      obtain ⟨l, hl, hhead, hsorted, hties⟩ := tieLoop_spec htie hsort fuel hpop.isHeap hfuel
      unfold tieLoop
      simp only [hys, hpopped]
      refine ⟨m :: run ++ l, ?_, rfl, ?_, TieSorted.run ?_ ?_ (hsort _).2 ?_ hties⟩
      · exact ((hl.append_left run).trans (hpop.perm.trans hperm)).cons m
      · have hfront : ∀ b ∈ run ++ l, key m ≤ key b := by
          intro b hb
          have hmem := ((hl.append_left run).trans (hpop.perm.trans hperm)).mem_iff.mp hb
          exact h.front_le (List.mem_cons_of_mem m hmem)
        refine List.Pairwise.cons hfront (List.pairwise_append.mpr ⟨hpop.sorted, hsorted, ?_⟩)
        exact fun a ha b hb => hpop.below a ha b (hl.mem_iff.mp hb)
      · exact fun y hy => (htie m y).mp (hpop.ties y hy)
      · refine (hsort _).1.trans ?_
        exact (List.perm_append_singleton m _).trans ((List.reverse_perm run).cons m)
      · -- what comes next in the heap ended the run, so it has another label
        intro z hz hlabel
        rw [hhead] at hz
        have hstop := hpop.stops z hz
        rw [(htie m z).mpr hlabel] at hstop
        exact Bool.noConfusion hstop

end Encoders.Container
