import Mathlib.Data.List.Nodup
import Mathlib.Order.Antisymmetrization
import Encoders.Lib.Run
import Encoders.Container.Heap

/-!
# The array of a `Heap`

`Heap.lean` has the items of a heap as a list. Here is the class as `Heap.cpp` writes it: an array
of pointers with room for `_max_size` of them, of which `_size` are used, and in each item a field
`index` that is set whenever the item is put somewhere. The items are compared by virtual
functions, so that any total preorder may be behind them.

The array refines the list (`insert_refines`, `extractFirst_refines`). What `index` says of an
item can only be right when the item is in one place, and `insert` does not look whether it is
there already. So `index` is right along sequences of calls in which no item is inserted while it
is in the heap; the rest holds along all of them (`heap_sound`).
-/

namespace Encoders.Container

open Encoders.Lib

variable {α : Type}

/-- `class Heap`, and the field `index` of the items. A place that was never written is empty. -/
structure HeapMemory (α : Type) where
  maxSize : Nat
  size : Nat
  heap : List (Option α)
  index : α → Nat

namespace HeapMemory

/-- `npos` -/
def npos : Nat := 18446744073709551615

/-- `Heap(max_size)`, before any item was in a heap. -/
def new (maxSize : Nat) : HeapMemory α := ⟨maxSize, 0, List.replicate maxSize none, fun _ => npos⟩

/-- `*heap[i]` -/
def get (h : HeapMemory α) (i : Nat) : Option α := (h.heap[i]?).join

/-- What is in the heap. -/
def items (h : HeapMemory α) : List α := (h.heap.take h.size).filterMap id

/-- `(i - 1) / 2`, where `i - 1` wraps at the root. -/
def parent (i : Nat) : Nat := if i = 0 then 9223372036854775807 else (i - 1) / 2

/-- `increaseSize`, when there is memory for it. -/
def increaseSize (h : HeapMemory α) (increase : Nat) : HeapMemory α :=
  { h with
    heap := h.heap.take h.size ++ List.replicate (h.maxSize + increase - h.size) none
    maxSize := h.maxSize + increase }

section Place

variable [DecidableEq α]

/-- `heap[i] = item; heap[i]->index = i;` -/
def place (h : HeapMemory α) (i : Nat) (item : α) : Option (HeapMemory α) :=
  if i < h.heap.length then
    some { h with
      heap := h.heap.set i (some item)
      index := Function.update h.index item i }
  else none

variable [Preorder α] [DecidableLT α]

/-- A child of an item, if there is one and it is less than what was the smallest so far. -/
def lesser (h : HeapMemory α) (child smallest : Nat) : Option Nat :=
  if child < h.size then do
    let below ← h.get child
    let least ← h.get smallest
    some (if below < least then child else smallest)
  else some smallest

/-- The first half of `heapify`: the smallest of an item and its children. An array of pointers is
too short for `2 * i + 1` to wrap. -/
def smallestOf (h : HeapMemory α) (i : Nat) : Option Nat := do
  let l := 2 * i + 1
  let r := l + 1
  let smallest ← h.lesser l i
  h.lesser r smallest

/-- `heapify` -/
def heapify : Nat → HeapMemory α → Nat → Option (HeapMemory α)
  | 0, _, _ => none
  | fuel + 1, h, i => do
      let smallest ← h.smallestOf i
      if smallest = i then some h
      else do
        let tmp ← h.get smallest
        let item ← h.get i
        let h ← h.place smallest item
        let h ← h.place i tmp
        heapify fuel h smallest

/-- The loop of `insert`, which is not entered at the root. -/
def insertLoop (item : α) : Nat → HeapMemory α → Nat → Option (HeapMemory α)
  | 0, _, _ => none
  | fuel + 1, h, i =>
      if i = 0 then h.place i item
      else do
        let above ← h.get (parent i)
        if item < above then do
          let h ← h.place i above
          insertLoop item fuel h (parent i)
        else h.place i item

/-- `insert`, and what it returns. Whether the array can grow is not up to the heap. -/
def insert (grows : Bool) (item : α) (h : HeapMemory α) : Option (HeapMemory α × Bool) :=
  if h.maxSize ≤ h.size ∧ grows = false then some (h, false)
  else do
    let h := if h.maxSize ≤ h.size then h.increaseSize 100 else h
    let h ← insertLoop item (h.size + 1) h h.size
    some ({ h with size := h.size + 1 }, true)

/-- `extractFirst`, and what it returns. -/
def extractFirst (h : HeapMemory α) : Option (HeapMemory α × Option α) :=
  if h.size = 0 then some (h, none)
  else do
    let max ← h.get 0
    let h := { h with size := h.size - 1 }
    let last ← h.get h.size
    let h ← h.place 0 last
    let h ← heapify (h.size + 1) h 0
    some (h, some max)

end Place

/-! ## The array of a list -/

variable {distinct : Prop}

/-- The list is in the array, but for a hole if there is one. If the items are distinct they know
where they are. -/
structure Holds (distinct : Prop) (h : HeapMemory α) (xs : List α) (hole : Option Nat) : Prop where
  room : xs.length ≤ h.heap.length
  slots : ∀ j a, hole ≠ some j → xs[j]? = some a → h.get j = some a
  indexed : distinct → ∀ j a, hole ≠ some j → xs[j]? = some a → h.index a = j

theorem Holds.get {h : HeapMemory α} {xs : List α} {hole : Option Nat}
    (hh : Holds distinct h xs hole) {i : Nat} (hi : i < xs.length) (hne : hole ≠ some i) :
    h.get i = some xs[i] :=
  hh.slots i xs[i] hne (List.getElem?_eq_getElem hi)

/-- A place behind the list, as a hole for an item. -/
theorem Holds.append {h : HeapMemory α} {xs : List α} (hh : Holds distinct h xs none)
    (hlt : xs.length < h.heap.length) (item : α) :
    Holds distinct h (xs ++ [item]) (some xs.length) := by
  have hback : ∀ {j a}, some xs.length ≠ some j → (xs ++ [item])[j]? = some a →
      xs[j]? = some a := by
    intro j a hne hj
    obtain ⟨hjlt, -⟩ := List.getElem?_eq_some_iff.mp hj
    rw [List.length_append, List.length_singleton] at hjlt
    have hjne : xs.length ≠ j := fun heq => hne (congrArg some heq)
    rwa [List.getElem?_append_left (by omega)] at hj
  refine ⟨?_, fun j a hne hj => hh.slots j a nofun (hback hne hj),
    fun hdistinct j a hne hj => hh.indexed hdistinct j a nofun (hback hne hj)⟩
  rw [List.length_append, List.length_singleton]
  exact hlt

theorem Holds.dropLast {h : HeapMemory α} {xs : List α} (hh : Holds distinct h xs none) :
    Holds distinct h xs.dropLast none := by
  have hback : ∀ {j : Nat} {a}, xs.dropLast[j]? = some a → xs[j]? = some a := by
    intro j a hj
    rw [List.getElem?_dropLast] at hj
    split at hj
    · exact hj
    · cases hj
  refine ⟨?_, fun j a hne hj => hh.slots j a hne (hback hj),
    fun hdistinct j a hne hj => hh.indexed hdistinct j a hne (hback hj)⟩
  rw [List.length_dropLast]
  exact Nat.le_trans (Nat.sub_le ..) hh.room

/-- What the class does not touch when it puts an item somewhere. -/
structure SameRoom (h h' : HeapMemory α) : Prop where
  size : h'.size = h.size
  maxSize : h'.maxSize = h.maxSize
  length : h'.heap.length = h.heap.length

theorem SameRoom.trans {h h' h'' : HeapMemory α} (hs : SameRoom h h') (hs' : SameRoom h' h'') :
    SameRoom h h'' :=
  ⟨hs'.size.trans hs.size, hs'.maxSize.trans hs.maxSize, hs'.length.trans hs.length⟩

section Place

variable [DecidableEq α]

theorem place_spec {h : HeapMemory α} {i : Nat} (item : α) (hi : i < h.heap.length) :
    ∃ h', h.place i item = some h' ∧ SameRoom h h' ∧
      (∀ j, h'.get j = if j = i then some item else h.get j) ∧
      ∀ a, h'.index a = if a = item then i else h.index a := by
  refine ⟨_, if_pos hi, ⟨rfl, rfl, List.length_set ..⟩, fun j => ?_, fun a => ?_⟩
  · unfold HeapMemory.get
    dsimp only
    rw [List.getElem?_set]
    by_cases hji : j = i
    · rw [if_pos hji, if_pos hji.symm, if_pos hi]
      rfl
    · rw [if_neg hji, if_neg (fun h => hji h.symm)]
  · dsimp only
    rw [Function.update_apply]

/-- An item is put somewhere: what held it before, if anything, is a hole from then on. -/
theorem Holds.put {h : HeapMemory α} {xs : List α} {hole hole' : Option Nat} {i : Nat} {item : α}
    (hh : Holds distinct h xs hole) (hi : i < xs.length)
    (hhole : ∀ j, hole = some j → j = i ∨ hole' = some j)
    (hother : distinct → ∀ j, j ≠ i → hole' ≠ some j → xs[j]? ≠ some item) :
    ∃ h', h.place i item = some h' ∧ SameRoom h h' ∧ Holds distinct h' (xs.set i item) hole' := by
  obtain ⟨h', hplace, hsame, hget, hindex⟩ :=
    place_spec (h := h) item (Nat.lt_of_lt_of_le hi hh.room)
  have hold : ∀ {j}, j ≠ i → hole' ≠ some j → hole ≠ some j :=
    fun hji hne heq => (hhole _ heq).elim hji hne
  refine ⟨h', hplace, hsame, ⟨?_, ?_, ?_⟩⟩
  · rw [List.length_set, hsame.length]
    exact hh.room
  · intro j a hne hj
    rw [hget]
    by_cases hji : j = i
    · rw [hji, List.getElem?_set_self hi] at hj
      rw [if_pos hji]
      exact hj
    · rw [List.getElem?_set_ne (fun h => hji h.symm)] at hj
      rw [if_neg hji]
      exact hh.slots j a (hold hji hne) hj
  · intro hdistinct j a hne hj
    rw [hindex]
    by_cases hji : j = i
    · rw [hji, List.getElem?_set_self hi] at hj
      rw [if_pos (Option.some.inj hj).symm, hji]
    · rw [List.getElem?_set_ne (fun h => hji h.symm)] at hj
      have hitem : a ≠ item := by
        rintro rfl
        exact hother hdistinct j hji hne hj
      rw [if_neg hitem]
      exact hh.indexed hdistinct j a (hold hji hne) hj

/-- Filling the hole. -/
theorem Holds.fill {h : HeapMemory α} {xs : List α} {i : Nat} {item : α}
    (hh : Holds distinct h xs (some i)) (hi : i < xs.length)
    (hnodup : distinct → (xs.set i item).Nodup) :
    ∃ h', h.place i item = some h' ∧ SameRoom h h' ∧ Holds distinct h' (xs.set i item) none := by
  refine hh.put hi (fun j hj => Or.inl (Option.some.inj hj).symm) ?_
  intro hdistinct j hji _ hj
  have hitem : (xs.set i item)[i]? = some item := List.getElem?_set_self hi
  rw [← List.getElem?_set_ne (fun h => hji h.symm)] at hj
  obtain ⟨hj', hja⟩ := List.getElem?_eq_some_iff.mp hj
  obtain ⟨hi', hia⟩ := List.getElem?_eq_some_iff.mp hitem
  exact hji ((hnodup hdistinct).getElem_inj_iff.mp (hja.trans hia.symm))

/-- Moving an item into the hole, which leaves a hole where the item was. -/
theorem Holds.shift {h : HeapMemory α} {xs : List α} {i p : Nat} {item : α}
    (hh : Holds distinct h xs (some i)) (hi : i < xs.length) (hp : p < xs.length) (hpi : p ≠ i)
    (hnodup : distinct → (xs.set i item).Nodup) :
    ∃ h', h.place i xs[p] = some h' ∧ SameRoom h h' ∧
      Holds distinct h' (xs.set i xs[p]) (some p) := by
  refine hh.put hi (fun j hj => Or.inl (Option.some.inj hj).symm) ?_
  intro hdistinct j hji hne hj
  have hthere : (xs.set i item)[p]? = some xs[p] := by
    rw [List.getElem?_set_ne (fun h => hpi h.symm), List.getElem?_eq_getElem hp]
  rw [← List.getElem?_set_ne (fun h => hji h.symm)] at hj
  obtain ⟨hj', hja⟩ := List.getElem?_eq_some_iff.mp hj
  obtain ⟨hp', hpa⟩ := List.getElem?_eq_some_iff.mp hthere
  exact hne (congrArg some ((hnodup hdistinct).getElem_inj_iff.mp (hpa.trans hja.symm)))

/-- Exchanging two items: the one below is overwritten first. -/
theorem Holds.exchange {h : HeapMemory α} {xs : List α} (hh : Holds distinct h xs none)
    (hnodup : distinct → xs.Nodup) {i j : Nat} (hi : i < xs.length) (hj : j < xs.length)
    (hij : j ≠ i) :
    ∃ h₁ h₂, h.place j xs[i] = some h₁ ∧ h₁.place i xs[j] = some h₂ ∧ SameRoom h h₂ ∧
      Holds distinct h₂ (swap xs i j) none := by
  obtain ⟨h₁, hplace₁, hsame₁, hh₁⟩ := @Holds.put α _ _ h xs none (some i) j xs[i] hh hj
    nofun (by
      intro hdistinct k _ hki hk
      obtain ⟨hk', hka⟩ := List.getElem?_eq_some_iff.mp hk
      exact hki (congrArg some ((hnodup hdistinct).getElem_inj_iff.mp hka).symm))
  have hswap : (xs.set j xs[i]).set i xs[j] = swap xs i j := by
    rw [swap_eq hi hj, List.set_comm _ _ hij]
  obtain ⟨h₂, hplace₂, hsame₂, hh₂⟩ := @Holds.fill α _ _ h₁ _ i xs[j] hh₁
    (by rw [List.length_set]; exact hi) (by
      rw [hswap]
      exact fun hdistinct => (swap_perm hi hj).nodup_iff.mpr (hnodup hdistinct))
  exact ⟨h₁, h₂, hplace₁, hplace₂, hsame₁.trans hsame₂, hswap ▸ hh₂⟩

end Place

/-! ## The operations refine those of the list -/

section Refine

variable [Preorder α] [DecidableLE α] [DecidableLT α] [@Std.Total α (· ≤ ·)]
variable {xs : List α}
variable {i : Nat}

/-- The rank of an item: items that are as great as each other have one. -/
def rank (a : α) : Antisymmetrization α (· ≤ ·) := toAntisymmetrization (· ≤ ·) a

theorem less_rank {j : Nat} (hi : i < xs.length) (hj : j < xs.length) :
    less rank xs i j = decide (xs[i] < xs[j]) := by
  unfold less
  rw [List.getElem?_eq_getElem hi, List.getElem?_eq_getElem hj]
  exact decide_eq_decide.mpr Iff.rfl

theorem less_out {j : Nat} (hi : xs.length ≤ i) : less (rank (α := α)) xs i j = false := by
  unfold less
  rw [List.getElem?_eq_none hi]

theorem lesser_refines {h : HeapMemory α} (hh : Holds distinct h xs none)
    (hsize : h.size = xs.length) (child : Nat) (hi : i < xs.length) :
    h.lesser child i = some (if less rank xs child i then child else i) ∧
      (if less rank xs child i then child else i) < xs.length := by
  unfold lesser
  rw [hsize]
  by_cases hc : child < xs.length
  · rw [if_pos hc, hh.get hc nofun, hh.get hi nofun, less_rank hc hi]
    refine ⟨by simp, ?_⟩
    split
    · exact hc
    · exact hi
  · rw [if_neg hc, less_out (Nat.not_lt.mp hc)]
    exact ⟨rfl, hi⟩

/-- The smallest is the one of the list. -/
theorem smallestOf_refines {h : HeapMemory α} (hh : Holds distinct h xs none)
    (hsize : h.size = xs.length) (hi : i < xs.length) :
    h.smallestOf i = some (smallest rank xs i) := by
  obtain ⟨hfirst, hlt⟩ := lesser_refines hh hsize (2 * i + 1) hi
  unfold smallestOf smallest
  dsimp only
  rw [hfirst, Option.bind_eq_bind, Option.bind_some]
  exact (lesser_refines hh hsize (2 * i + 1 + 1) hlt).1

/-- What the class keeps between two calls: its array holds a heap. -/
structure Sound (distinct : Prop) (h : HeapMemory α) (xs : List α) : Prop where
  holds : Holds distinct h xs none
  size : h.size = xs.length
  room : h.heap.length = h.maxSize
  nodup : distinct → xs.Nodup
  heap : IsHeap rank xs

theorem sound_new (maxSize : Nat) : Sound distinct (new maxSize : HeapMemory α) [] where
  holds := ⟨Nat.zero_le _, nofun, nofun⟩
  size := rfl
  room := List.length_replicate ..
  nodup _ := List.nodup_nil
  heap := isHeap_nil

theorem Sound.increaseSize {h : HeapMemory α} (hs : Sound distinct h xs) (increase : Nat) :
    Sound distinct (h.increaseSize increase) xs := by
  have hfits : xs.length ≤ h.heap.length := hs.holds.room
  have hlen : (h.increaseSize increase).heap.length = h.maxSize + increase := by
    unfold HeapMemory.increaseSize
    rw [List.length_append, List.length_take, List.length_replicate, ← hs.room, hs.size]
    omega
  refine ⟨⟨?_, ?_, hs.holds.indexed⟩, hs.size, hlen, hs.nodup, hs.heap⟩
  · rw [hlen, ← hs.room]
    omega
  · intro j a hne hj
    obtain ⟨hjlt, -⟩ := List.getElem?_eq_some_iff.mp hj
    have hold := hs.holds.slots j a hne hj
    unfold HeapMemory.get HeapMemory.increaseSize at *
    rw [List.getElem?_append_left (by rw [List.length_take, hs.size]; omega), List.getElem?_take,
      if_pos (by rw [hs.size]; exact hjlt)]
    exact hold

/-- What is in the heap is in the list. -/
theorem Sound.items_eq {h : HeapMemory α} (hs : Sound distinct h xs) : h.items = xs := by
  have htake : h.heap.take h.size = xs.map some := by
    refine List.ext_getElem? (fun j => ?_)
    rw [List.getElem?_take, List.getElem?_map, hs.size]
    by_cases hj : j < xs.length
    · have hget := hs.holds.get hj nofun
      unfold HeapMemory.get at hget
      rw [if_pos hj, List.getElem?_eq_getElem hj]
      exact Option.join_eq_some_iff.mp hget
    · rw [if_neg hj, List.getElem?_eq_none (Nat.not_lt.mp hj)]
      rfl
  unfold items
  rw [htake, List.filterMap_map]
  exact List.filterMap_some

variable [DecidableEq α]

theorem heapify_refines : ∀ (fuel : Nat) {h : HeapMemory α} {xs : List α} {i : Nat},
    Holds distinct h xs none → (distinct → xs.Nodup) → h.size = xs.length → i < xs.length →
    xs.length ≤ fuel + i → ∃ h', heapify (fuel + 1) h i = some h' ∧ SameRoom h h' ∧
      Holds distinct h' (Container.heapify rank fuel xs i) none := by
  intro fuel
  induction fuel with
  | zero => intro h xs i _ _ _ hi hfuel; omega
  | succ fuel ih =>
      intro h xs i hh hnodup hsize hi hfuel
      have hlt : smallest rank xs i < xs.length := smallest_lt_length hi
      rw [heapify, smallestOf_refines hh hsize hi, Container.heapify]
      dsimp only [Option.bind_eq_bind, Option.bind_some]
      by_cases hself : smallest rank xs i = i
      · rw [if_pos hself, if_pos hself]
        exact ⟨h, rfl, ⟨rfl, rfl, rfl⟩, hh⟩
      · obtain ⟨h₁, h₂, hplace₁, hplace₂, hsame, hholds⟩ := hh.exchange hnodup hi hlt hself
        have hperm := swap_perm hi hlt
        have hbelow : i < smallest rank xs i := by
          rcases @smallest_eq_self_or_child _ _ rank _ xs i with heq | heq | heq
          · exact absurd heq hself
          · omega
          · omega
        obtain ⟨h', hrec, hsame', hholds'⟩ := ih hholds
          (fun hdistinct => hperm.nodup_iff.mpr (hnodup hdistinct))
          (by rw [hsame.size, hsize, hperm.length_eq]) (by rw [hperm.length_eq]; exact hlt)
          (by rw [hperm.length_eq]; omega)
        refine ⟨h', ?_, hsame.trans hsame', ?_⟩
        · -- the two reads are of the places that `exchange` writes
          rw [if_neg hself, hh.get hlt nofun, hh.get hi nofun]
          dsimp only [Option.bind_some]
          rw [hplace₁]
          dsimp only [Option.bind_some]
          rw [hplace₂]
          exact hrec
        · rw [if_neg hself]
          exact hholds'

/-- The loop of `insert` carries the hole towards the front. -/
theorem insertLoop_refines (item : α) : ∀ (fuel : Nat) {h : HeapMemory α} {xs : List α} {i : Nat},
    Holds distinct h xs (some i) → (distinct → (xs.set i item).Nodup) → i < xs.length →
    i ≤ fuel → ∃ h', insertLoop item (fuel + 1) h i = some h' ∧ SameRoom h h' ∧
      Holds distinct h' (rise rank item fuel xs i) none := by
  intro fuel
  induction fuel with
  | zero =>
      intro h xs i hh hnodup hi hfuel
      rw [insertLoop, if_pos (Nat.le_zero.mp hfuel)]
      exact hh.fill hi hnodup
  | succ fuel ih =>
      intro h xs i hh hnodup hi hfuel
      rw [insertLoop, rise]
      by_cases hzero : i = 0
      · subst hzero
        rw [if_pos rfl, List.getElem?_eq_getElem (show heapParent 0 < xs.length from hi)]
        dsimp only
        rw [if_neg (fun hgo => Nat.lt_irrefl 0 hgo.1)]
        exact hh.fill hi hnodup
      · -- the source asks for index zero first, the list's loop with the comparison
        have hpos : 0 < i := Nat.pos_of_ne_zero hzero
        have hlt := heapParent_lt hpos
        have hp : heapParent i < xs.length := by omega
        have hparent : parent i = heapParent i := if_neg hzero
        have hget : h.get (heapParent i) = some xs[heapParent i] :=
          hh.get hp (fun heq => Nat.ne_of_gt hlt (Option.some.inj heq))
        rw [if_neg hzero, hparent, hget, List.getElem?_eq_getElem hp]
        dsimp only [Option.bind_eq_bind, Option.bind_some]
        by_cases hless : item < xs[heapParent i]
        · rw [if_pos hless, if_pos ⟨hpos, hless⟩]
          obtain ⟨h₁, hplace, hsame, hh₁⟩ := hh.shift hi hp (Nat.ne_of_lt hlt) hnodup
          have hswap := @set_set_eq_swap _ xs item i (heapParent i) hi hp (Nat.ne_of_lt hlt)
          have hperm : ((xs.set i xs[heapParent i]).set (heapParent i) item).Perm
              (xs.set i item) := by
            rw [hswap]
            exact swap_perm (by rw [List.length_set]; exact hi) (by rw [List.length_set]; exact hp)
          obtain ⟨h', hrec, hsame', hh'⟩ := ih hh₁
            (fun hdistinct => hperm.nodup_iff.mpr (hnodup hdistinct))
            (by rw [List.length_set]; exact hp) (by omega)
          rw [hplace, Option.bind_some]
          exact ⟨h', hrec, hsame.trans hsame', hh'⟩
        · rw [if_neg hless, if_neg (fun hgo => hless hgo.2)]
          exact hh.fill hi hnodup

/-- **An insertion** fails only if the array is full and there is no memory. -/
theorem insert_refines {h : HeapMemory α} (hs : Sound distinct h xs) (item : α)
    (hnew : distinct → item ∉ xs) (grows : Bool) :
    ∃ h', h.insert grows item = some (h', decide (h.size < h.maxSize ∨ grows = true)) ∧
      Sound distinct h' (if h.size < h.maxSize ∨ grows = true then Container.insert rank item xs
        else xs) := by
  unfold HeapMemory.insert
  by_cases hroom : h.size < h.maxSize ∨ grows = true
  · rw [if_neg (by rintro ⟨hfull, rfl⟩; exact hroom.elim (Nat.not_lt.mpr hfull) nofun),
      decide_eq_true hroom, if_pos hroom]
    -- the array that the item goes into
    obtain ⟨h₁, hh₁, hs₁, hlt⟩ : ∃ h₁, (if h.maxSize ≤ h.size then h.increaseSize 100 else h) = h₁ ∧
        Sound distinct h₁ xs ∧ h₁.size < h₁.maxSize := by
      refine ⟨_, rfl, ?_⟩
      have hfits := hs.holds.room
      rw [hs.room, ← hs.size] at hfits
      by_cases hfull : h.maxSize ≤ h.size
      · rw [if_pos hfull]
        exact ⟨hs.increaseSize 100, Nat.lt_of_le_of_lt hfits (Nat.lt_add_of_pos_right (by omega))⟩
      · rw [if_neg hfull]
        exact ⟨hs, Nat.not_le.mp hfull⟩
    have hset : (xs ++ [item]).set xs.length item = xs ++ [item] := by
      rw [List.set_append_right _ _ (Nat.le_refl _), Nat.sub_self]
      rfl
    obtain ⟨hheap, hperm⟩ := @insert_spec α _ rank _ item xs hs.heap
    have hnodup : distinct → (item :: xs).Nodup := fun hdistinct =>
      List.nodup_cons.mpr ⟨hnew hdistinct, hs₁.nodup hdistinct⟩
    obtain ⟨h₂, hloop, hsame, hh₂⟩ := insertLoop_refines item xs.length
      (hs₁.holds.append (by rw [hs₁.room, ← hs₁.size]; exact hlt) item) (by
        rw [hset]
        exact fun hdistinct =>
          (List.perm_append_singleton item xs).nodup_iff.mpr (hnodup hdistinct))
      (by rw [List.length_append]; exact Nat.lt_succ_self _) (Nat.le_refl _)
    dsimp only
    rw [hh₁, hs₁.size, hloop]
    refine ⟨_, rfl, ⟨hh₂.room, hh₂.slots, hh₂.indexed⟩, ?_, ?_, ?_, hheap⟩
    · rw [hperm.length_eq, List.length_cons, hsame.size, hs₁.size]
    · exact hsame.length.trans (hs₁.room.trans hsame.maxSize.symm)
    · exact fun hdistinct => hperm.nodup_iff.mpr (hnodup hdistinct)
  · obtain ⟨hfull, hgrows⟩ := not_or.mp hroom
    rw [if_pos ⟨Nat.not_lt.mp hfull, Bool.not_eq_true _ ▸ hgrows⟩, decide_eq_false hroom,
      if_neg hroom]
    exact ⟨h, rfl, hs⟩

omit [DecidableLE α] [@Std.Total α (· ≤ ·)] in
/-- Without items there is nothing to let sink. -/
theorem heapify_empty {h : HeapMemory α} (hsize : h.size = 0) (fuel : Nat) :
    heapify (fuel + 1) h 0 = some h := by
  have hsmallest : h.smallestOf 0 = some 0 := by
    unfold smallestOf lesser
    rw [hsize]
    rfl
  rw [heapify, hsmallest]
  rfl

/-- The last item goes to the front and sinks. -/
theorem last_to_front_refines {h : HeapMemory α} {x : α} {rest : List α}
    (hh : Holds distinct h (x :: rest) none) (hsize : h.size = rest.length)
    (hnodup : distinct → (x :: rest).Nodup) {last : α}
    (hlast : (x :: rest).getLast (List.cons_ne_nil x rest) = last) :
    ∃ h₁ h₂, h.place 0 last = some h₁ ∧ heapify (h₁.size + 1) h₁ 0 = some h₂ ∧ SameRoom h h₂ ∧
      Holds distinct h₂
        (Container.heapify rank rest.length ((x :: rest).dropLast.set 0 last) 0) none := by
  by_cases hne : rest = []
  · subst hne
    obtain ⟨h₁, hplace, hsame, -⟩ := place_spec (h := h) last hh.room
    exact ⟨h₁, h₁, hplace, heapify_empty (hsame.size.trans hsize) _, hsame, Nat.zero_le _, nofun,
      nofun⟩
  · have hset := set_front_last (x := x) hne
    have hperm := getLast_cons_dropLast_perm hne
    have hpos := List.length_pos_iff.mpr hne
    rw [hlast] at hset
    rw [← List.getLast_cons hne, hlast] at hperm hset
    obtain ⟨h₁, hplace, hsame₁, hh₁⟩ := @Holds.put α _ _ h _ none none 0 last hh.dropLast
      (by rw [List.length_dropLast]; exact hpos) nofun (by
        -- the last item is not among the others
        have hmem := getLast_cons_dropLast_perm (List.cons_ne_nil x rest)
        rw [hlast] at hmem
        intro hdistinct j _ _ hj
        exact (List.nodup_cons.mp (hmem.nodup_iff.mpr (hnodup hdistinct))).1
          (List.mem_of_getElem? hj))
    have hlen : (last :: rest.dropLast).length = rest.length := hperm.length_eq
    obtain ⟨h₂, hheapify, hsame₂, hh₂⟩ := heapify_refines rest.length (hset ▸ hh₁)
      (fun hdistinct => hperm.nodup_iff.mpr (List.nodup_cons.mp (hnodup hdistinct)).2)
      (by rw [hsame₁.size, hsize, hlen]) (by rw [hlen]; exact hpos) (by rw [hlen]; omega)
    rw [hset]
    refine ⟨h₁, h₂, hplace, ?_, hsame₁.trans hsame₂, hh₂⟩
    rw [hsame₁.size, hsize]
    exact hheapify

/-- **An extraction** leaves what an extraction from the list leaves. -/
theorem extractFirst_refines {h : HeapMemory α} {x : α} {rest : List α}
    (hs : Sound distinct h (x :: rest)) :
    ∃ h' ys, h.extractFirst = some (h', some x) ∧
      Container.extractFirst rank (x :: rest) = some (x, ys) ∧ Sound distinct h' ys := by
  obtain ⟨ys, hys, hheap, hperm⟩ := extractFirst_spec hs.heap
  have hsize : h.size - 1 = rest.length := by rw [hs.size, List.length_cons, Nat.add_sub_cancel]
  have hfirst : h.get 0 = some x := hs.holds.slots 0 x nofun rfl
  have hlast : { h with size := rest.length }.get rest.length =
      some ((x :: rest).getLast (List.cons_ne_nil x rest)) := by
    refine hs.holds.slots _ _ nofun ?_
    rw [List.getLast_eq_getElem]
    exact List.getElem?_eq_getElem _
  obtain ⟨h₁, h₂, hplace, hheapify, hsame, hh₂⟩ := @last_to_front_refines α distinct _ _ _ _ _
    { h with size := rest.length } x rest ⟨hs.holds.room, hs.holds.slots, hs.holds.indexed⟩ rfl
    hs.nodup _ rfl
  refine ⟨h₂, ys, ?_, hys, ?_, ?_, ?_, ?_, hheap⟩
  · unfold HeapMemory.extractFirst
    rw [if_neg (by rw [hs.size]; exact Nat.succ_ne_zero _), hfirst, hsize]
    dsimp only [Option.bind_eq_bind, Option.bind_some]
    rw [hlast, Option.bind_some, hplace, Option.bind_some, hheapify]
    rfl
  · exact (Prod.mk.inj (Option.some.inj hys)).2 ▸ hh₂
  · rw [hsame.size, hperm.length_eq]
  · exact hsame.length.trans (hs.room.trans hsame.maxSize.symm)
  · exact fun hdistinct => hperm.nodup_iff.mpr (List.nodup_cons.mp (hs.nodup hdistinct)).2

theorem Sound.extract_nothing {h : HeapMemory α} (hs : Sound distinct h h.items)
    (hempty : h.items = []) : h.extractFirst = some (h, none) :=
  if_pos (by rw [hs.size, hempty]; rfl)

/-- What comes out of a heap that is not empty. -/
theorem Sound.extract_least {h : HeapMemory α} (hs : Sound distinct h h.items)
    (hne : h.items ≠ []) : ∃ h' first, h.extractFirst = some (h', some first) ∧
      Sound distinct h' h'.items ∧ (first :: h'.items).Perm h.items ∧
      ∀ item ∈ h.items, first ≤ item := by
  obtain ⟨x, rest, hitems⟩ := List.exists_cons_of_ne_nil hne
  rw [hitems] at hs ⊢
  obtain ⟨h', ys, hextract, hys, hs'⟩ := extractFirst_refines hs
  obtain ⟨ys', hys', -, hperm⟩ := extractFirst_spec hs.heap
  obtain rfl : ys = ys' := (Prod.mk.inj (Option.some.inj (hys.symm.trans hys'))).2
  have hitems' := hs'.items_eq
  refine ⟨h', x, hextract, ?_, ?_, fun item hitem => hs.heap.front_le hitem⟩
  · rw [hitems']
    exact hs'
  · rw [hitems']
    exact hperm.cons x

end Refine

end HeapMemory

/-! ## Sequences of calls -/

/-- The calls, each insertion with whether there is memory to grow. -/
inductive HeapOp (α : Type) where
  | insert (item : α) (grows : Bool)
  | extractFirst

/-- A heap, what was inserted and what was extracted. -/
structure HeapRun (α : Type) where
  heap : HeapMemory α
  inserted : List α
  extracted : List α

namespace HeapRun

/-- Before the first call. -/
def start (maxSize : Nat) : HeapRun α := ⟨HeapMemory.new maxSize, [], []⟩

/-- One call. -/
def step [DecidableEq α] [Preorder α] [DecidableLT α] (w : HeapRun α) :
    HeapOp α → Option (HeapRun α)
  | .insert item grows => do
      let (heap, inserted) ← w.heap.insert grows item
      some { w with
        heap := heap
        inserted := if inserted then w.inserted ++ [item] else w.inserted }
  | .extractFirst => do
      let (heap, first) ← w.heap.extractFirst
      some { w with heap := heap, extracted := w.extracted ++ first.toList }

/-- An item is inserted while it is not in the heap. -/
def Fresh (w : HeapRun α) : HeapOp α → Prop
  | .insert item _ => item ∉ w.heap.items
  | .extractFirst => True

instance [DecidableEq α] (w : HeapRun α) : ∀ op, Decidable (w.Fresh op)
  | .insert item _ => inferInstanceAs (Decidable (item ∉ w.heap.items))
  | .extractFirst => inferInstanceAs (Decidable True)

/-- What a heap is good for, whatever was inserted. -/
structure Good [DecidableEq α] [Preorder α] [DecidableLT α] (w : HeapRun α) : Prop where
  /-- The array is in heap order. -/
  ordered : ∀ i, 0 < i → i < w.heap.size → ∃ above item,
    w.heap.get (HeapMemory.parent i) = some above ∧ w.heap.get i = some item ∧ above ≤ item
  /-- The size is what was inserted and not extracted. -/
  counted : w.heap.size = w.heap.items.length ∧
    w.heap.size + w.extracted.length = w.inserted.length
  /-- No item is lost or there twice. -/
  kept : (w.heap.items ++ w.extracted).Perm w.inserted
  /-- An insertion only needs room. -/
  inserts : ∀ item grows, ∃ heap, w.heap.insert grows item =
    some (heap, decide (w.heap.size < w.heap.maxSize ∨ grows = true))
  /-- An extraction from an empty heap has nothing. -/
  nothing : w.heap.items = [] → w.heap.extractFirst = some (w.heap, none)
  /-- Otherwise it takes an item that is not greater than any other. -/
  least : w.heap.items ≠ [] → ∃ heap first, w.heap.extractFirst = some (heap, some first) ∧
    (first :: heap.items).Perm w.heap.items ∧ ∀ item ∈ w.heap.items, first ≤ item

/-- Each stored item knows where it is. -/
def Indexed (w : HeapRun α) : Prop :=
  ∀ i < w.heap.size, ∃ item, w.heap.get i = some item ∧ w.heap.index item = i

section Sound

open HeapMemory

variable [Preorder α] [DecidableLE α] [DecidableLT α] [@Std.Total α (· ≤ ·)]
variable {w : HeapRun α}

/-- The invariant: the heap is sound, and nothing got lost. -/
structure Kept (distinct : Prop) (w : HeapRun α) : Prop where
  sound : Sound distinct w.heap w.heap.items
  perm : (w.heap.items ++ w.extracted).Perm w.inserted

variable {distinct : Prop}

theorem kept_start (maxSize : Nat) : (start maxSize : HeapRun α).Kept distinct := by
  have hs : Sound distinct (new maxSize : HeapMemory α) [] := sound_new maxSize
  have hitems : (start maxSize : HeapRun α).heap.items = [] := hs.items_eq
  refine ⟨?_, ?_⟩
  · rw [hitems]
    exact hs
  · rw [hitems]
    exact List.Perm.refl _

theorem Kept.indexed (hw : w.Kept distinct) (hdistinct : distinct) : w.Indexed := by
  intro i hi
  rw [hw.sound.size] at hi
  exact ⟨_, hw.sound.holds.get hi nofun,
    hw.sound.holds.indexed hdistinct i _ nofun (List.getElem?_eq_getElem hi)⟩

/-- In an array that holds a heap no item is less than the one above it. -/
theorem Kept.ordered (hw : w.Kept distinct) {i : Nat} (hpos : 0 < i) (hi : i < w.heap.size) :
    ∃ above item, w.heap.get (parent i) = some above ∧
      w.heap.get i = some item ∧ above ≤ item := by
  rw [hw.sound.size] at hi
  have hp : heapParent i < w.heap.items.length := Nat.lt_trans (heapParent_lt hpos) hi
  have hparent : parent i = heapParent i := if_neg (Nat.ne_of_gt hpos)
  rw [hparent]
  refine ⟨_, _, hw.sound.holds.get hp nofun, hw.sound.holds.get hi nofun, ?_⟩
  have hle := hw.sound.heap i hpos
  rw [keyAt_of_lt hp, keyAt_of_lt hi] at hle
  exact toAntisymmetrization_le_toAntisymmetrization_iff.mp (WithTop.coe_le_coe.mp hle)

variable [DecidableEq α]

/-- **One call keeps the invariant.** -/
theorem Kept.step {w : HeapRun α} (hw : w.Kept distinct) (op : HeapOp α)
    (hfresh : distinct → w.Fresh op) : ∃ w', w.step op = some w' ∧ w'.Kept distinct := by
  cases op with
  | insert item grows =>
      obtain ⟨heap, hinsert, hs⟩ := insert_refines hw.sound item hfresh grows
      unfold HeapRun.step
      dsimp only
      rw [hinsert]
      refine ⟨_, rfl, ?_, ?_⟩
      · rw [hs.items_eq]
        exact hs
      · dsimp only
        -- inserted where there is room, left out where growing failed
        rw [hs.items_eq]
        by_cases hroom : w.heap.size < w.heap.maxSize ∨ grows = true
        · rw [if_pos hroom, if_pos (decide_eq_true hroom)]
          have hperm := (@insert_spec α _ rank _ item _ hw.sound.heap).2
          refine (hperm.append_right w.extracted).trans ?_
          exact (List.Perm.cons item hw.perm).trans (List.perm_append_singleton item _).symm
        · rw [if_neg hroom, if_neg (by rw [decide_eq_false hroom]; exact Bool.false_ne_true)]
          exact hw.perm
  | extractFirst =>
      unfold HeapRun.step
      dsimp only
      by_cases hempty : w.heap.items = []
      · rw [hw.sound.extract_nothing hempty]
        refine ⟨_, rfl, hw.sound, ?_⟩
        dsimp only [Option.toList_none]
        rw [List.append_nil]
        exact hw.perm
      · obtain ⟨heap, first, hextract, hs, hperm, -⟩ := hw.sound.extract_least hempty
        rw [hextract]
        refine ⟨_, rfl, hs, ?_⟩
        dsimp only [Option.toList_some]
        -- the item moves from the heap to the end of what was extracted
        have hlast : (heap.items ++ (w.extracted ++ [first])).Perm
            (heap.items ++ first :: w.extracted) :=
          (List.perm_append_singleton first w.extracted).append_left heap.items
        exact hlast.trans (List.perm_middle.trans ((hperm.append_right w.extracted).trans hw.perm))

/-- The invariant says what a heap is good for. -/
theorem Kept.good (hw : w.Kept distinct) : w.Good where
  ordered _ hpos hi := hw.ordered hpos hi
  counted := ⟨hw.sound.size, by rw [hw.sound.size, ← List.length_append, hw.perm.length_eq]⟩
  kept := hw.perm
  inserts item grows := by
    have hs : Sound False w.heap w.heap.items :=
      { hw.sound with
        holds := { hw.sound.holds with indexed := nofun }
        nodup := nofun }
    obtain ⟨heap, hinsert, -⟩ := insert_refines hs item nofun grows
    exact ⟨heap, hinsert⟩
  nothing := hw.sound.extract_nothing
  least hne := by
    obtain ⟨heap, first, hextract, -, hperm, hleast⟩ := hw.sound.extract_least hne
    exact ⟨heap, first, hextract, hperm, hleast⟩

/--
**A heap** of any initial size, with items in any total preorder, is in heap order after any
sequence of calls, has lost no item and none is there twice, and its first item is a least one.
After a sequence that inserts no item that is in the heap, the items know where they are.
-/
theorem heap_sound (maxSize : Nat) (ops : List (HeapOp α)) :
    ∃ w, run step (start maxSize) ops = some w ∧ w.Good ∧
      (Guarded step Fresh (start maxSize) ops → w.Indexed) := by
  have hguard : Guarded step (fun w op => Guarded step Fresh (start maxSize) ops → w.Fresh op)
      (start maxSize) ops :=
    (guarded_iff _ _ ops _).mpr (fun pre op post heq w hw hfresh =>
      (guarded_iff _ _ ops _).mp hfresh pre op post heq w hw)
  obtain ⟨w, hrun, hw⟩ := run_invariant
    (fun w op (hw : Kept (Guarded step Fresh (start maxSize) ops) w) hfresh => hw.step op hfresh)
    ops (start maxSize) (kept_start maxSize) hguard
  exact ⟨w, hrun, hw.good, hw.indexed⟩

/-- Three items in an array that has room for one. -/
def threeItems : List (HeapOp Nat) :=
  [.insert 3 true, .insert 1 true, .insert 2 true, .extractFirst]

theorem heap_sound_three : Guarded step Fresh (start 1) threeItems ∧
    ∃ w, run step (start 1) threeItems = some w ∧ w.Good ∧
      (Guarded step Fresh (start 1) threeItems → w.Indexed) :=
  ⟨by decide, heap_sound 1 threeItems⟩

/-- An item that is inserted twice is in two places and can only know about one. -/
theorem inserted_twice : ∃ w, run step (start 2) [.insert 0 true, .insert 0 true] =
    some (w : HeapRun Nat) ∧ w.heap.size = 2 ∧ ¬ w.Indexed := by
  refine ⟨_, rfl, rfl, fun hindexed => ?_⟩
  obtain ⟨item, hitem, hindex⟩ := hindexed 0 (by decide)
  obtain rfl : 0 = item := Option.some.inj hitem
  exact absurd hindex (by decide)

end Sound

end HeapRun

end Encoders.Container
