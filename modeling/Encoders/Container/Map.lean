import Mathlib.Order.Lattice
import Encoders.Lib.Run

/-!
# `BasicMap`, the map of the default build

`libcpphaggle/Map.h` keeps its entries in an array of pointers ordered by key,
finds them by bisection and makes room by shifting. This module embeds the class
as it is written: the array with the slots that were allocated for it, the two
counters `number_of_entries` and `map_size` that are supposed to describe it, and
the iterators, which are plain indices.

The array is a list of slots. A slot is `none` when its pointer is not to be
followed, because it was never written or because what it pointed at was deleted.
Every function is partial: the result is `none` where the C++ reads or writes
outside the array, or follows such a pointer.

`npos`, the largest `size_type`, is `none : Option Nat`. It is what `0 - 1` wraps
to, which is how an empty map and the left edge of a search present themselves.
-/

namespace Encoders.Container

/-- The class: allocated slots, entries in use, and the size it believes it has. -/
structure BasicMap (κ α : Type) where
  theMap : List (Option (κ × α))
  numberOfEntries : Nat
  mapSize : Nat

/-- A position: an index, or `npos`. -/
abbrev Pos := Option Nat

namespace BasicMap

variable {κ α : Type}

/-- `BasicMap()`: no array, both counters zero. -/
def empty : BasicMap κ α := ⟨[], 0, 0⟩

/-- `*(the_map[i])`: follow the pointer in slot `i`. -/
def deref (m : BasicMap κ α) (i : Nat) : Option (κ × α) := (m.theMap[i]?).join

/-- `the_map[i] = p`, stuck outside the array. -/
def writeSlot (slots : List (Option (κ × α))) (i : Nat) (p : Option (κ × α)) :
    Option (List (Option (κ × α))) :=
  if i < slots.length then some (slots.set i p) else none

/-! ## Iterators -/

/-- `begin()` -/
def begin (m : BasicMap κ α) : Pos := if 0 < m.numberOfEntries then some 0 else none

/-- `operator++`: step to the next index, or to `npos` after the last entry. -/
def next (m : BasicMap κ α) : Pos → Pos
  | none => none
  | some i => if m.numberOfEntries ≤ i + 1 then none else some (i + 1)

/-- The loop `for (it = begin(); it != end(); it++)`, collecting `*it`. -/
def iterateFrom (m : BasicMap κ α) (it : Pos) : Option (List (κ × α)) :=
  match it with
  | none => some []
  | some i => do
      let x ← m.deref i
      let xs ← iterateFrom m (m.next (some i))
      some (x :: xs)
termination_by it.elim 0 (fun i => m.numberOfEntries - i + 1)
decreasing_by
  simp only [next]
  split
  · simp
  · simp only [Option.elim_some]; omega

/-- What a client sees walking the whole map. -/
def iterate (m : BasicMap κ α) : Option (List (κ × α)) := m.iterateFrom m.begin

/-! ## Search -/

section Search

variable [LinearOrder κ]

/-- `while (pos > 0 && the_map[pos-1]->first == k) pos--;` -/
def backtrack (m : BasicMap κ α) (k : κ) : Nat → Option Nat
  | 0 => some 0
  | pos + 1 => do
      let x ← m.deref pos
      if x.1 = k then backtrack m k pos else some (pos + 1)

/-- `pos - 1` as `size_type` has it. -/
def pred : Nat → Pos
  | 0 => none
  | i + 1 => some i

/--
`_find(k, left_min, right_max, before, find_first)`: bisection. The flag says
whether the key is there; if not, the position is where it should be inserted.
-/
def find' (m : BasicMap κ α) (k : κ) (findFirst : Bool) (leftMin : Nat) (rightMax : Pos)
    (before : Nat) : Option (Nat × Bool) :=
  match rightMax with
  | none => some (before, false)
  | some r =>
      if hlt : r < leftMin then some (before, false)
      else do
        let pos := (r - leftMin + 1) / 2 + leftMin
        let x ← m.deref pos
        if x.1 < k then
          find' m k findFirst (pos + 1) (some r) (pos + 1)
        else if k < x.1 then
          find' m k findFirst leftMin (pred pos) pos
        else if findFirst then do
          let pos ← m.backtrack k pos
          some (pos, true)
        else some (pos, true)
termination_by rightMax.elim 0 (fun r => r + 1 - leftMin)
decreasing_by
  · simp only [Option.elim_some]; omega
  · rcases hp : (r - leftMin + 1) / 2 + leftMin with _ | p
    · simp only [pred, Option.elim_none, Option.elim_some]; omega
    · simp only [pred, Option.elim_some]; omega

/-- `_find(k, find_first)`: search the whole array. -/
def findWhole (m : BasicMap κ α) (k : κ) (findFirst : Bool) : Option (Nat × Bool) :=
  m.find' k findFirst 0 (pred m.numberOfEntries) 0

/-- `find(k)`: an iterator to the entry, or `end()`. -/
def find (m : BasicMap κ α) (k : κ) : Option Pos := do
  let tmp ← m.findWhole k true
  some (if tmp.2 then some tmp.1 else none)

end Search

/-! ## Insertion -/

/-- `for (i = n; i > pos; i--) the_map[i] = the_map[i-1];` -/
def shiftUp (pos : Nat) : Nat → List (Option (κ × α)) → Option (List (Option (κ × α)))
  | 0, slots => some slots
  | i + 1, slots =>
      if pos < i + 1 then do
        let p ← slots[i]?
        let slots' ← writeSlot slots (i + 1) p
        shiftUp pos i slots'
      else some slots

/-- `for (i = from; i < from + n; i++) new_map[i + off] = the_map[i];` -/
def copySlots (src : List (Option (κ × α))) (off : Nat) :
    Nat → Nat → List (Option (κ × α)) → Option (List (Option (κ × α)))
  | _, 0, dst => some dst
  | i, n + 1, dst => do
      let p ← src[i]?
      let dst' ← writeSlot dst (i + off) p
      copySlots src off (i + 1) n dst'

/--
`_insert(pos, x)`. With `map_size > number_of_entries` the array is taken to have
a spare slot and the entries above `pos` move up by one; otherwise they move to a
new array with one slot more.
-/
def insert' (m : BasicMap κ α) (pos : Pos) (x : κ × α) : Option (BasicMap κ α) := do
  -- `npos` is past every array: the write through it has no meaning
  let pos ← pos
  if m.numberOfEntries < m.mapSize then
    let slots ← shiftUp pos m.numberOfEntries m.theMap
    let slots ← writeSlot slots pos (some x)
    some { m with theMap := slots, numberOfEntries := m.numberOfEntries + 1 }
  else
    let fresh := List.replicate (m.numberOfEntries + 1) none
    let slots ← copySlots m.theMap 0 0 pos fresh
    let slots ← writeSlot slots pos (some x)
    let slots ← copySlots m.theMap 1 pos (m.numberOfEntries - pos) slots
    some { theMap := slots, numberOfEntries := m.numberOfEntries + 1, mapSize := m.mapSize + 1 }

section Operations

variable [LinearOrder κ]

/-- `insert_unique(x)`, the `Map::insert` of a value: keep the entry that is there. -/
def insertUnique (m : BasicMap κ α) (x : κ × α) : Option (BasicMap κ α) := do
  let tmp ← m.findWhole x.1 false
  if tmp.2 then some m else m.insert' (some tmp.1) x

/-- `insert_unique(pos, x)`, the `Map::insert` with a position: no search is made. -/
def insertUniqueAt (m : BasicMap κ α) (pos : Pos) (x : κ × α) : Option (BasicMap κ α) :=
  match pos with
  | none => m.insert' none x
  | some i =>
      if i < m.numberOfEntries then do
        let y ← m.deref i
        if y.1 = x.1 then some m else m.insert' (some i) x
      else m.insert' (some i) x

/--
`operator[](k)`: the position of the entry for `k`, which is made with the
default value where there is none.
-/
def index (m : BasicMap κ α) (dflt : α) (k : κ) : Option (BasicMap κ α × Nat) := do
  let tmp ← m.findWhole k false
  if tmp.2 then some (m, tmp.1)
  else
    let m' ← m.insertUniqueAt (some tmp.1) (k, dflt)
    some (m', tmp.1)

/-- `m[k] = v`: assign through the reference `operator[]` returns. -/
def assignAt (m : BasicMap κ α) (dflt : α) (k : κ) (v : α) : Option (BasicMap κ α) := do
  let (m', i) ← m.index dflt k
  let y ← m'.deref i
  let slots ← writeSlot m'.theMap i (some (y.1, v))
  some { m' with theMap := slots }

end Operations

/-! ## Removal, copying -/

/-- `for (i = from; i < n; i++) the_map[i-1] = the_map[i];` with `n - from` rounds left. -/
def shiftDown : Nat → Nat → List (Option (κ × α)) → Option (List (Option (κ × α)))
  | _, 0, slots => some slots
  | i, n + 1, slots => do
      let p ← slots[i]?
      let slots' ← writeSlot slots (i - 1) p
      shiftDown (i + 1) n slots'

/-- `erase(iterator)`: delete the entry, close the gap, keep the array. -/
def erase (m : BasicMap κ α) (pos : Pos) : Option (BasicMap κ α) :=
  match pos with
  | none => some m
  | some i =>
      if m.numberOfEntries ≤ i then some m
      else do
        let _ ← m.deref i
        -- `delete the_map[pos.i]`: the pointer stays, but must not be followed
        let slots ← writeSlot m.theMap i none
        let slots ← shiftDown (i + 1) (m.numberOfEntries - (i + 1)) slots
        some { m with theMap := slots, numberOfEntries := m.numberOfEntries - 1 }

/--
The loop of `erase(k)`: the iterator is advanced before the entry under it is
erased. `n` bounds the rounds; each one takes an entry away.
-/
def eraseLoop [DecidableEq κ] (k : κ) : Nat → BasicMap κ α → Pos → Option (BasicMap κ α)
  | _, m, none => some m
  | 0, _, some _ => none
  | n + 1, m, some i => do
      let x ← m.deref i
      if x.1 = k then
        let it := m.next (some i)
        let m' ← m.erase (some i)
        eraseLoop k n m' it
      else some m

/-- `erase(k)` -/
def eraseKey [LinearOrder κ] (m : BasicMap κ α) (k : κ) : Option (BasicMap κ α) := do
  let it ← m.find k
  eraseLoop k (m.numberOfEntries + 1) m it

/-- `clear()` -/
def clear (_ : BasicMap κ α) : BasicMap κ α := empty

/-- `new member(*m.the_map[i])` for every entry: a fresh array of just the entries. -/
def copyEntries (m : BasicMap κ α) : Option (List (Option (κ × α))) :=
  (List.range m.numberOfEntries).mapM (fun i => (m.deref i).map some)

/-- The copy constructor: `map_size` is set to the number of entries. -/
def copyConstruct (m : BasicMap κ α) : Option (BasicMap κ α) := do
  let slots ← m.copyEntries
  some ⟨slots, m.numberOfEntries, m.numberOfEntries⟩

/-- `operator=`: `map_size` is taken over from the source, the array is not. -/
def assign (m : BasicMap κ α) : Option (BasicMap κ α) := do
  let slots ← m.copyEntries
  some ⟨slots, m.numberOfEntries, m.mapSize⟩

/-- `size()` -/
def size (m : BasicMap κ α) : Nat := m.numberOfEntries

end BasicMap

/-! ## Programs over several maps -/

/-- The operations of `Map`, on maps named by numbers. -/
inductive MapOp (κ α : Type) where
  | insert (i : Nat) (k : κ) (v : α)
  | insertAt (i : Nat) (pos : Pos) (k : κ) (v : α)
  | index (i : Nat) (k : κ)
  | assignAt (i : Nat) (k : κ) (v : α)
  | eraseKey (i : Nat) (k : κ)
  | erase (i : Nat) (pos : Pos)
  | clear (i : Nat)
  | copyConstruct (i j : Nat)
  | assign (i j : Nat)

/-- All maps of a program. -/
abbrev Maps (κ α : Type) := Nat → BasicMap κ α

/-- Every map starts empty. -/
def Maps.init {κ α : Type} : Maps κ α := fun _ => BasicMap.empty

/-- Replace one map. -/
def Maps.put {κ α : Type} (w : Maps κ α) (i : Nat) (m : BasicMap κ α) : Maps κ α :=
  fun j => if j = i then m else w j

/-- One operation of a program. Self-assignment returns at once. -/
def Maps.step {κ α : Type} [LinearOrder κ] (dflt : α) (w : Maps κ α) :
    MapOp κ α → Option (Maps κ α)
  | .insert i k v => ((w i).insertUnique (k, v)).map (w.put i)
  | .insertAt i pos k v => ((w i).insertUniqueAt pos (k, v)).map (w.put i)
  | .index i k => ((w i).index dflt k).map (fun r => w.put i r.1)
  | .assignAt i k v => ((w i).assignAt dflt k v).map (w.put i)
  | .eraseKey i k => ((w i).eraseKey k).map (w.put i)
  | .erase i pos => ((w i).erase pos).map (w.put i)
  | .clear i => some (w.put i (w i).clear)
  | .copyConstruct i j => ((w j).copyConstruct).map (w.put i)
  | .assign i j => if i = j then some w else ((w j).assign).map (w.put i)

end Encoders.Container
