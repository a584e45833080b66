import Encoders.Lib.HeapOrder
import Mathlib.Order.WithBot

/-!
# `Heap`

`libcpphaggle/Heap.cpp`: the array behind the event queue. `insert` carries a hole from
the end of the array towards the front and puts the new item where the item above is not
greater. `extractFirst` takes the front, moves the last item there, and `heapify` lets it
sink below smaller children. An item compares by a key; a place past the end of the array
loses every comparison.

The index kept in each item, which nothing reads, and the room of the array are in
`HeapMemory.lean`.
-/

namespace Encoders.Container

open Encoders.Lib

variable {α κ : Type} (key : α → κ)
variable {xs : List α}
variable {i j : Nat} {rest : List α}

/-! ## Places and their keys -/

/-- Exchange two items. -/
def swap (xs : List α) (i j : Nat) : List α :=
  match xs[i]?, xs[j]? with
  | some a, some b => (xs.set i b).set j a
  | _, _ => xs

/-- The key at a place. -/
def keyAt (xs : List α) (i : Nat) : WithTop κ :=
  match xs[i]? with
  | some a => (key a : WithTop κ)
  | none => ⊤

variable {key}

theorem keyAt_of_lt (h : i < xs.length) : keyAt key xs i = (key xs[i] : WithTop κ) := by
  unfold keyAt
  rw [List.getElem?_eq_getElem h]

theorem keyAt_of_le {xs : List α} {i : Nat} (h : xs.length ≤ i) : keyAt key xs i = ⊤ := by
  unfold keyAt
  rw [List.getElem?_eq_none h]

theorem swap_eq (hi : i < xs.length) (hj : j < xs.length) :
    swap xs i j = (xs.set i xs[j]).set j xs[i] := by
  unfold swap
  rw [List.getElem?_eq_getElem hi, List.getElem?_eq_getElem hj]

theorem swap_perm (hi : i < xs.length) (hj : j < xs.length) : (swap xs i j).Perm xs := by
  rw [swap_eq hi hj]
  exact List.set_set_perm hi hj

/-- The keys move with the items. -/
theorem keyAt_swap (hi : i < xs.length) (hj : j < xs.length) :
    keyAt key (swap xs i j) = keyAt key xs ∘ Equiv.swap i j := by
  funext k
  rw [swap_eq hi hj, Function.comp_apply]
  by_cases hkj : k = j
  · rw [hkj, Equiv.swap_apply_right]
    unfold keyAt
    rw [List.getElem?_set_self (by rw [List.length_set]; exact hj), List.getElem?_eq_getElem hi]
  · by_cases hki : k = i
    · rw [hki, Equiv.swap_apply_left]
      unfold keyAt
      rw [List.getElem?_set_ne (by omega), List.getElem?_set_self hi, List.getElem?_eq_getElem hj]
    · rw [Equiv.swap_apply_of_ne_of_ne hki hkj]
      unfold keyAt
      rw [List.getElem?_set_ne (by omega), List.getElem?_set_ne (by omega)]

variable [LinearOrder κ] (key)

/-! ## The operations -/

/-- `*heap[i] < *heap[j]`, which is not asked past the end. -/
def less (xs : List α) (i j : Nat) : Bool :=
  match xs[i]?, xs[j]? with
  | some a, some b => key a < key b
  | _, _ => false

/-- The smallest of an item and its two children. -/
def smallest (xs : List α) (i : Nat) : Nat :=
  let s := if less key xs (2 * i + 1) i then 2 * i + 1 else i
  if less key xs (2 * i + 2) s then 2 * i + 2 else s

/-- `heapify` -/
def heapify : Nat → List α → Nat → List α
  | 0, xs, _ => xs
  | fuel + 1, xs, i =>
      if smallest key xs i = i then xs
      else heapify fuel (swap xs i (smallest key xs i)) (smallest key xs i)

/-- The loop of `insert`: `i` is the hole. -/
def rise (item : α) : Nat → List α → Nat → List α
  | 0, xs, i => xs.set i item
  | fuel + 1, xs, i =>
      match xs[heapParent i]? with
      | some above =>
          if 0 < i ∧ key item < key above then rise item fuel (xs.set i above) (heapParent i)
          else xs.set i item
      | none => xs.set i item

/-- `insert` -/
def insert (item : α) (xs : List α) : List α :=
  rise key item xs.length (xs ++ [item]) xs.length

/-- `extractFirst`: nothing, which is a null pointer, if the heap is empty. -/
def extractFirst : List α → Option (α × List α)
  | [] => none
  | x :: rest =>
      let last := (x :: rest).getLast (List.cons_ne_nil x rest)
      some (x, heapify key rest.length ((x :: rest).dropLast.set 0 last) 0)

/-! ## Heaps -/

/-- The array is a heap. -/
def IsHeap (xs : List α) : Prop := HeapOrdered (keyAt key xs)

variable {key}

/-- Below another key there is an item. -/
theorem lt_length_of_keyAt_lt (h : keyAt key xs i < keyAt key xs j) : i < xs.length := by
  by_contra hge
  rw [keyAt_of_le (by omega)] at h
  exact not_top_lt h

theorem less_iff (hj : j < xs.length) :
    less key xs i j = true ↔ keyAt key xs i < keyAt key xs j := by
  unfold less keyAt
  rw [List.getElem?_eq_getElem hj]
  cases xs[i]? with
  | none => simp
  | some a => simp

/-- **The front of a heap is least.** -/
theorem IsHeap.front_le {x y : α} (h : IsHeap key (x :: xs)) (hy : y ∈ x :: xs) :
    key x ≤ key y := by
  obtain ⟨j, hj, hget⟩ := List.getElem_of_mem hy
  have hle := HeapOrdered.front_le h j
  rw [keyAt_of_lt (Nat.succ_pos _), keyAt_of_lt hj, hget] at hle
  exact WithTop.coe_le_coe.mp hle

/-! ## `heapify` -/

theorem smallest_eq_self_or_child (xs : List α) (i : Nat) :
    smallest key xs i = i ∨ smallest key xs i = 2 * i + 1 ∨ smallest key xs i = 2 * i + 2 := by
  unfold smallest
  by_cases hl : less key xs (2 * i + 1) i = true
  · rw [if_pos hl]
    by_cases hr : less key xs (2 * i + 2) (2 * i + 1) = true
    · exact Or.inr (Or.inr (if_pos hr))
    · exact Or.inr (Or.inl (if_neg hr))
  · rw [if_neg hl]
    by_cases hr : less key xs (2 * i + 2) i = true
    · exact Or.inr (Or.inr (if_pos hr))
    · exact Or.inl (if_neg hr)

/-- The smallest is not above the item, nor above either child. -/
theorem keyAt_smallest_le {xs : List α} {i : Nat} (hi : i < xs.length) :
    keyAt key xs (smallest key xs i) ≤ keyAt key xs i ∧
      ∀ j, 0 < j → heapParent j = i → keyAt key xs (smallest key xs i) ≤ keyAt key xs j := by
  have hchildren : keyAt key xs (smallest key xs i) ≤ keyAt key xs i ∧
      keyAt key xs (smallest key xs i) ≤ keyAt key xs (2 * i + 1) ∧
      keyAt key xs (smallest key xs i) ≤ keyAt key xs (2 * i + 2) := by
    unfold smallest
    by_cases hl : less key xs (2 * i + 1) i = true
    · have hlt := (less_iff hi).mp hl
      have hlen := lt_length_of_keyAt_lt hlt
      rw [if_pos hl]
      by_cases hr : less key xs (2 * i + 2) (2 * i + 1) = true
      · have hrt := (less_iff hlen).mp hr
        simp only [if_pos hr]
        exact ⟨le_of_lt (lt_trans hrt hlt), le_of_lt hrt, le_refl _⟩
      · simp only [if_neg hr]
        exact ⟨le_of_lt hlt, le_refl _, not_lt.mp (fun h => hr ((less_iff hlen).mpr h))⟩
    · have hle : keyAt key xs i ≤ keyAt key xs (2 * i + 1) :=
        not_lt.mp (fun h => hl ((less_iff hi).mpr h))
      rw [if_neg hl]
      by_cases hr : less key xs (2 * i + 2) i = true
      · have hrt := (less_iff hi).mp hr
        simp only [if_pos hr]
        exact ⟨le_of_lt hrt, le_trans (le_of_lt hrt) hle, le_refl _⟩
      · simp only [if_neg hr]
        exact ⟨le_refl _, hle, not_lt.mp (fun h => hr ((less_iff hi).mpr h))⟩
  refine ⟨hchildren.1, ?_⟩
  intro j hj hji
  rcases (heapParent_eq_iff hj).mp hji with hleft | hright
  · rw [hleft]
    exact hchildren.2.1
  · rw [hright]
    exact hchildren.2.2

/-- A child that is smallest is in the array. -/
theorem smallest_lt_length (hi : i < xs.length) : smallest key xs i < xs.length := by
  unfold smallest
  by_cases hl : less key xs (2 * i + 1) i = true
  · have hlen := lt_length_of_keyAt_lt ((less_iff hi).mp hl)
    rw [if_pos hl]
    by_cases hr : less key xs (2 * i + 2) (2 * i + 1) = true
    · simp only [if_pos hr]
      exact lt_length_of_keyAt_lt ((less_iff hlen).mp hr)
    · simp only [if_neg hr]
      exact hlen
  · rw [if_neg hl]
    by_cases hr : less key xs (2 * i + 2) i = true
    · simp only [if_pos hr]
      exact lt_length_of_keyAt_lt ((less_iff hi).mp hr)
    · simp only [if_neg hr]
      exact hi

/-- What is out of order only out of one place becomes a heap of the same items. -/
theorem heapify_spec : ∀ (fuel : Nat) (xs : List α) (i : Nat), i < xs.length →
    xs.length ≤ fuel + i → OrderedOffOutOf (keyAt key xs) i →
    IsHeap key (heapify key fuel xs i) ∧ (heapify key fuel xs i).Perm xs
  | 0, _, _, hi, hfuel, _ => by omega
  | fuel + 1, xs, i, hi, hfuel, hoff => by
      obtain ⟨hle, hmin⟩ := @keyAt_smallest_le _ _ key _ _ _ hi
      have hlen : smallest key xs i < xs.length := smallest_lt_length hi
      unfold heapify
      by_cases hself : smallest key xs i = i
      · rw [if_pos hself]
        rw [hself] at hmin
        exact ⟨hoff.finish hmin, List.Perm.refl xs⟩
      · rw [if_neg hself]
        have hchild : 0 < smallest key xs i ∧ heapParent (smallest key xs i) = i := by
          rcases @smallest_eq_self_or_child _ _ key _ xs i with h | h | h
          · exact absurd h hself
          · rw [h]
            exact ⟨by omega, by unfold heapParent; omega⟩
          · rw [h]
            exact ⟨by omega, by unfold heapParent; omega⟩
        have hgt := heapParent_lt hchild.1
        have hperm := swap_perm hi hlen
        have hmoved := hoff.move hchild.1 hchild.2 hle hmin
        rw [← keyAt_swap hi hlen] at hmoved
        obtain ⟨hheap, hrest⟩ := heapify_spec fuel (swap xs i (smallest key xs i))
          (smallest key xs i) (by rw [hperm.length_eq]; exact hlen)
          (by rw [hperm.length_eq]; omega) hmoved
        exact ⟨hheap, hrest.trans hperm⟩

/-! ## `insert` -/

/-- With the item in the hole: one step of the loop exchanges it with the item above. -/
theorem set_set_eq_swap {xs : List α} {item : α} {i p : Nat} (hi : i < xs.length)
    (hp : p < xs.length) (hne : p ≠ i) :
    (xs.set i xs[p]).set p item = swap (xs.set i item) i p := by
  have hi' : i < (xs.set i item).length := by rw [List.length_set]; exact hi
  have hp' : p < (xs.set i item).length := by rw [List.length_set]; exact hp
  rw [swap_eq hi' hp', List.getElem_set_self, List.getElem_set_ne (by omega), List.set_set]

theorem rise_spec (item : α) : ∀ (fuel : Nat) (xs : List α) (i : Nat), i < xs.length →
    i ≤ fuel → OrderedOffInto (keyAt key (xs.set i item)) i →
    IsHeap key (rise key item fuel xs i) ∧ (rise key item fuel xs i).Perm (xs.set i item)
  | 0, xs, i, _, hfuel, hoff => ⟨hoff.finish (by omega), List.Perm.refl _⟩
  -- the item is as yet smaller than its parent only: the parent comes down in its place
  | fuel + 1, xs, i, hi, hfuel, hoff => by
      have hple : heapParent i < xs.length := by
        unfold heapParent
        omega
      have hset : ∀ {j : Nat}, j < xs.length → j < (xs.set i item).length := by
        intro j hj
        rw [List.length_set]
        exact hj
      unfold rise
      rw [List.getElem?_eq_getElem hple]
      simp only
      by_cases hgo : 0 < i ∧ key item < key xs[heapParent i]
      · rw [if_pos hgo]
        have hne : heapParent i ≠ i := by
          have := heapParent_lt hgo.1
          omega
        have hle : keyAt key (xs.set i item) i ≤ keyAt key (xs.set i item) (heapParent i) := by
          rw [keyAt_of_lt (hset hi), keyAt_of_lt (hset hple), List.getElem_set_self,
            List.getElem_set_ne (by omega)]
          exact WithTop.coe_le_coe.mpr (le_of_lt hgo.2)
        have hmoved := hoff.move hgo.1 hle
        rw [← keyAt_swap (hset hi) (hset hple), ← set_set_eq_swap hi hple hne] at hmoved
        have hlt := heapParent_lt hgo.1
        obtain ⟨hheap, hperm⟩ := rise_spec item fuel (xs.set i xs[heapParent i]) (heapParent i)
          (by rw [List.length_set]; exact hple) (by omega) hmoved
        refine ⟨hheap, hperm.trans ?_⟩
        rw [set_set_eq_swap hi hple hne]
        exact swap_perm (hset hi) (hset hple)
      · -- the parent is no greater, so that the item has found its place
        rw [if_neg hgo]
        refine ⟨hoff.finish ?_, List.Perm.refl _⟩
        intro hpos
        have hne : heapParent i ≠ i := by
          have := heapParent_lt hpos
          omega
        rw [keyAt_of_lt (hset hi), keyAt_of_lt (hset hple), List.getElem_set_self,
          List.getElem_set_ne (by omega)]
        exact WithTop.coe_le_coe.mpr (not_lt.mp (fun h => hgo ⟨hpos, h⟩))

/-- **An insertion makes a heap of the item and the items that were there.** -/
theorem insert_spec {item : α} {xs : List α} (h : IsHeap key xs) :
    IsHeap key (insert key item xs) ∧ (insert key item xs).Perm (item :: xs) := by
  have hset : (xs ++ [item]).set xs.length item = xs ++ [item] := by
    rw [List.set_append_right _ _ (Nat.le_refl _), Nat.sub_self]
    rfl
  have hold : ∀ j, j < xs.length → keyAt key (xs ++ [item]) j = keyAt key xs j := by
    intro j hj
    unfold keyAt
    rw [List.getElem?_append_left hj]
  have htop : ∀ j, xs.length < j → keyAt key (xs ++ [item]) j = ⊤ := by
    intro j hj
    refine keyAt_of_le ?_
    rw [List.length_append, List.length_singleton]
    omega
  have hoff : OrderedOffInto (keyAt key ((xs ++ [item]).set xs.length item)) xs.length := by
    rw [hset]
    refine ⟨?_, ?_⟩
    · intro j hj hne
      have hlt := heapParent_lt hj
      rcases Nat.lt_or_gt_of_ne hne with hin | hout
      · rw [hold j hin, hold _ (by omega)]
        exact h j hj
      · rw [htop j hout]
        exact le_top
    · intro _ j hj hpj
      rw [htop j (hpj ▸ heapParent_lt hj)]
      exact le_top
  obtain ⟨hheap, hperm⟩ := rise_spec item xs.length (xs ++ [item]) xs.length
    (by rw [List.length_append, List.length_singleton]; omega) (Nat.le_refl _) hoff
  rw [hset] at hperm
  exact ⟨hheap, hperm.trans (List.perm_append_singleton item xs)⟩

/-! ## `extractFirst` -/

theorem isHeap_nil : IsHeap key ([] : List α) := by
  intro j _
  rw [@keyAt_of_le _ _ key [] j (Nat.zero_le j)]
  exact le_top

/-- The last item in place of the front, if it is not the front. -/
theorem set_front_last {x : α} (hne : rest ≠ []) :
    (x :: rest).dropLast.set 0 ((x :: rest).getLast (List.cons_ne_nil x rest)) =
      rest.getLast hne :: rest.dropLast := by
  rw [List.dropLast_cons_of_ne_nil hne, List.getLast_cons hne]
  rfl

/-- What is left, with the last item moved to the front. -/
theorem getLast_cons_dropLast_perm (hne : rest ≠ []) :
    (rest.getLast hne :: rest.dropLast).Perm rest :=
  (List.perm_append_singleton _ _).symm.trans (List.Perm.of_eq (List.dropLast_concat_getLast hne))

/-- **The front leaves, and a heap of the others stays.** -/
theorem extractFirst_spec {x : α} (h : IsHeap key (x :: rest)) :
    ∃ ys, extractFirst key (x :: rest) = some (x, ys) ∧ IsHeap key ys ∧ ys.Perm rest := by
  refine ⟨_, rfl, ?_⟩
  cases hrest : rest with
  | nil => exact ⟨isHeap_nil, List.Perm.refl _⟩
  | cons y ys =>
      rw [← hrest]
      have hne : rest ≠ [] := by rw [hrest]; exact List.cons_ne_nil y ys
      have hlen' := (getLast_cons_dropLast_perm hne).length_eq
      -- off the front, what is still there is where it was
      have hold : ∀ j, 0 < j → j < rest.length →
          keyAt key (rest.getLast hne :: rest.dropLast) j = keyAt key (x :: rest) j := by
        intro j hj hjlt
        obtain ⟨k, rfl⟩ : ∃ k, j = k + 1 := ⟨j - 1, by omega⟩
        unfold keyAt
        rw [List.getElem?_cons_succ, List.getElem?_cons_succ, List.getElem?_dropLast,
          if_pos (by omega)]
      have hoff : OrderedOffOutOf (keyAt key (rest.getLast hne :: rest.dropLast)) 0 := by
        refine ⟨?_, fun habs => absurd habs (Nat.lt_irrefl 0)⟩
        intro j hj hpj
        have hlt := heapParent_lt hj
        rcases Nat.lt_or_ge j rest.length with hin | hout
        · rw [hold j hj hin, hold _ (by omega) (by omega)]
          exact h j hj
        · rw [@keyAt_of_le _ _ key _ j (by rw [hlen']; exact hout)]
          exact le_top
      obtain ⟨hheap, hperm⟩ := heapify_spec rest.length (rest.getLast hne :: rest.dropLast) 0
        (by rw [hlen']; exact List.length_pos_iff.mpr hne) (by rw [hlen']; omega) hoff
      rw [set_front_last hne]
      exact ⟨hheap, hperm.trans (getLast_cons_dropLast_perm hne)⟩

/-! ## Filling and emptying -/

variable (key)

/-- A heap filled one by one. -/
def heapOf (xs : List α) : List α := xs.foldl (fun heap x => insert key x heap) []

/-- What comes out of a heap until it is empty. -/
def drain : Nat → List α → List α
  | 0, _ => []
  | fuel + 1, heap =>
      match extractFirst key heap with
      | some (x, heap') => x :: drain fuel heap'
      | none => []

variable {key}

theorem heapOf_spec (xs : List α) : IsHeap key (heapOf key xs) ∧ (heapOf key xs).Perm xs := by
  have hrun : ∀ (xs heap : List α), IsHeap key heap →
      IsHeap key (xs.foldl (fun heap x => insert key x heap) heap) ∧
        (xs.foldl (fun heap x => insert key x heap) heap).Perm (xs ++ heap) := by
    intro xs
    induction xs with
    | nil => exact fun heap h => ⟨h, List.Perm.refl heap⟩
    | cons x xs ih =>
        intro heap h
        obtain ⟨hheap, hperm⟩ := @insert_spec _ _ _ _ x _ h
        obtain ⟨hheap', hperm'⟩ := ih _ hheap
        exact ⟨hheap', hperm'.trans ((hperm.append_left xs).trans List.perm_middle)⟩
  obtain ⟨hheap, hperm⟩ := hrun xs [] isHeap_nil
  rw [List.append_nil] at hperm
  exact ⟨hheap, hperm⟩

/-- **What went in comes out.** -/
theorem drain_perm : ∀ (fuel : Nat) {heap : List α}, IsHeap key heap → heap.length ≤ fuel →
    (drain key fuel heap).Perm heap
  | 0, heap, _, hlen => by
      rw [List.length_eq_zero_iff.mp (Nat.le_zero.mp hlen)]
      exact List.Perm.refl _
  | fuel + 1, [], _, _ => List.Perm.refl _
  | fuel + 1, x :: rest, h, hlen => by
      obtain ⟨ys, hys, hheap, hperm⟩ := extractFirst_spec h
      have hlen' : ys.length ≤ fuel := by
        rw [hperm.length_eq]
        rw [List.length_cons] at hlen
        omega
      unfold drain
      rw [hys]
      exact ((drain_perm fuel hheap hlen').trans hperm).cons x

end Encoders.Container
