import Mathlib.Logic.Function.Basic
import Encoders.Lib.Ring
import Encoders.Lib.Run

/-!
# `List`, the list of the default build

`libcpphaggle/List.h` keeps its elements in a ring of nodes. The head is a node without an
object that is part of the `List` itself; every other node is made by `new` and taken out of the
ring by its own destructor. How many there are is counted beside the ring, in `_size`, and it is
the count that `empty`, `clear` and the destructor go by.

This module embeds the class with its pointers. A step is partial: `none` stands for a pointer
that leads nowhere and for the deletion of a head, which `new` did not make. The object of list
`i` stands at a place of its own, and every node that is made has a new one.
-/

namespace Encoders.Container

open Encoders.Lib

/-- Where a node stands: in a `List` object, or where `new` made it. -/
inductive Place where
  | head (i : Nat)
  | node (k : Nat)
deriving DecidableEq

/-- `list_head`, and the object of a `container`; a head has none. -/
structure ListHead (α : Type) where
  prev : Place
  next : Place
  obj : Option α

/-- All nodes, the place for the next one, and the member `_size` of every list. -/
structure ListMemory (α : Type) where
  node : Place → Option (ListHead α)
  fresh : Nat
  size : Nat → Nat

/-- `List::iterator`: the node it stands on, and the one it goes to next. -/
structure ListIterator where
  pos : Place
  tmp : Place

/-- `_size--`, for an unsigned type. -/
def sizePred : Nat → Nat
  | 0 => 18446744073709551615
  | n + 1 => n

namespace ListMemory

variable {α : Type}

/-- A `List` that was just made: a ring of its head alone. -/
def selfRing (i : Nat) : ListHead α := ⟨.head i, .head i, none⟩

/-- Every list begins as `List()` makes it. -/
def init : ListMemory α where
  node := fun a => match a with
    | .head i => some (selfRing i)
    | .node _ => none
  fresh := 0
  size := fun _ => 0

def put (m : ListMemory α) (a : Place) (n : Option (ListHead α)) : ListMemory α :=
  { m with node := Function.update m.node a n }

def putSize (m : ListMemory α) (i n : Nat) : ListMemory α :=
  { m with size := Function.update m.size i n }

/-- `a->next = v` -/
def setNext (m : ListMemory α) (a v : Place) : Option (ListMemory α) :=
  (m.node a).map (fun n => m.put a (some { n with next := v }))

/-- `a->prev = v` -/
def setPrev (m : ListMemory α) (a v : Place) : Option (ListMemory α) :=
  (m.node a).map (fun n => m.put a (some { n with prev := v }))

/-- `new container(obj, next)`, which links itself in before `next`. -/
def newContainer (m : ListMemory α) (x : α) (next : Place) : Option (ListMemory α) := do
  let n ← m.node next
  let c := Place.node m.fresh
  let made := { m.put c (some ⟨n.prev, next, some x⟩) with fresh := m.fresh + 1 }
  let made ← made.setNext n.prev c
  made.setPrev next c

/-- `~list_head()`: `next->prev = prev; prev->next = next;` -/
def unlink (m : ListMemory α) (n : ListHead α) : Option (ListMemory α) := do
  let m ← m.setPrev n.next n.prev
  m.setNext n.prev n.next

/-- `delete` of a node. There is no deleting a head. -/
def delete (m : ListMemory α) (a : Place) : Option (ListMemory α) := do
  let n ← m.node a
  let _ ← n.obj
  let m ← m.unlink n
  some (m.put a none)

/-! ## Iterators -/

/-- `iterator(l)` -/
def iterator (m : ListMemory α) (l : Place) : Option ListIterator :=
  (m.node l).map (fun n => ⟨l, n.next⟩)

/-- `it++`: `pos = tmp; tmp = pos->next;` -/
def next (m : ListMemory α) (it : ListIterator) : Option ListIterator := m.iterator it.tmp

/-- `begin()` -/
def begin (m : ListMemory α) (i : Nat) : Option ListIterator := do
  let h ← m.node (.head i)
  m.iterator h.next

/-- `*it` -/
def deref (m : ListMemory α) (it : ListIterator) : Option α := (m.node it.pos).bind ListHead.obj

/-- The loop `for (it = begin(); it != end(); it++)`, collecting `*it`. -/
def iterateFrom (m : ListMemory α) (i : Nat) : Nat → ListIterator → Option (List α)
  | 0, it => if it.pos = .head i then some [] else none
  | rounds + 1, it =>
      if it.pos = .head i then some []
      else do
        let x ← m.deref it
        let it ← m.next it
        let xs ← iterateFrom m i rounds it
        some (x :: xs)

/-- What a client sees walking the list; there are no more rounds than nodes that were made. -/
def iterate (m : ListMemory α) (i : Nat) : Option (List α) := do
  let it ← m.begin i
  m.iterateFrom i m.fresh it

/-- A client's walk to an element, or to `end()` if there are too few. -/
def advance (m : ListMemory α) (i : Nat) : Nat → ListIterator → Option ListIterator
  | 0, it => some it
  | n + 1, it =>
      if it.pos = .head i then some it
      else do
        let it ← m.next it
        advance m i n it

/-- The iterator of the `n`-th element. -/
def nth (m : ListMemory α) (i n : Nat) : Option ListIterator := do
  let it ← m.begin i
  m.advance i n it

/-! ## The members of `List` -/

/-- `empty()` -/
def empty (m : ListMemory α) (i : Nat) : Bool := m.size i = 0

/-- `insert(it, obj)` -/
def insert (m : ListMemory α) (i : Nat) (it : ListIterator) (x : α) : Option (ListMemory α) := do
  let m ← m.newContainer x it.pos
  some (m.putSize i (m.size i + 1))

/-- `push_front(obj)` -/
def pushFront (m : ListMemory α) (i : Nat) (x : α) : Option (ListMemory α) := do
  let h ← m.node (.head i)
  let m ← m.newContainer x h.next
  some (m.putSize i (m.size i + 1))

/-- `push_back(obj)` -/
def pushBack (m : ListMemory α) (i : Nat) (x : α) : Option (ListMemory α) := do
  let m ← m.newContainer x (.head i)
  some (m.putSize i (m.size i + 1))

/-- `pop_front()` -/
def popFront (m : ListMemory α) (i : Nat) : Option (ListMemory α) :=
  if m.empty i then some m
  else do
    let m := m.putSize i (sizePred (m.size i))
    let h ← m.node (.head i)
    m.delete h.next

/-- `pop_back()` -/
def popBack (m : ListMemory α) (i : Nat) : Option (ListMemory α) :=
  if m.empty i then some m
  else do
    let m := m.putSize i (sizePred (m.size i))
    let h ← m.node (.head i)
    m.delete h.prev

/-- `erase(it)` -/
def erase (m : ListMemory α) (i : Nat) (it : ListIterator) : Option (ListMemory α) :=
  if m.empty i = false ∧ it.pos ≠ .head i then do
    let _ ← m.next it
    let m := m.putSize i (sizePred (m.size i))
    m.delete it.pos
  else some m

/-- The loop of `remove(value)`: the iterator goes on before the node under it is deleted. -/
def removeLoop [DecidableEq α] (i : Nat) (value : α) :
    Nat → ListMemory α → ListIterator → Option (ListMemory α)
  | 0, m, it => if it.pos = .head i then some m else none
  | rounds + 1, m, it =>
      if it.pos = .head i then some m
      else do
        let x ← m.deref it
        let next ← m.next it
        if x = value then
          let m ← (m.putSize i (sizePred (m.size i))).delete it.pos
          removeLoop i value rounds m next
        else removeLoop i value rounds m next

/-- `remove(value)` -/
def remove [DecidableEq α] (m : ListMemory α) (i : Nat) (value : α) : Option (ListMemory α) := do
  let it ← m.begin i
  removeLoop i value m.fresh m it

/-- `while (!empty()) pop_front();`, a round for each that `_size` counts. -/
def clearLoop (i : Nat) : Nat → ListMemory α → Option (ListMemory α)
  | 0, m => some m
  | n + 1, m => do
      let m ← m.popFront i
      clearLoop i n m

/-- `clear()` -/
def clear (m : ListMemory α) (i : Nat) : Option (ListMemory α) := clearLoop i (m.size i) m

/-- `for (it = l.begin(); it != l.end(); it++) push_back(*it);` -/
def copyLoop (i j : Nat) : Nat → ListMemory α → ListIterator → Option (ListMemory α)
  | 0, m, it => if it.pos = .head j then some m else none
  | rounds + 1, m, it =>
      if it.pos = .head j then some m
      else do
        let x ← m.deref it
        let m ← m.pushBack i x
        let it ← m.next it
        copyLoop i j rounds m it

/-- The loop over the whole of list `j`. -/
def copyFrom (m : ListMemory α) (i j : Nat) : Option (ListMemory α) := do
  let it ← m.begin j
  copyLoop i j m.fresh m it

/-- `~List()`, and then the destructor of the member `head`. -/
def destruct (m : ListMemory α) (i : Nat) : Option (ListMemory α) := do
  let m ← m.clear i
  let h ← m.node (.head i)
  let m ← m.unlink h
  some (m.put (.head i) none)

/-- `List()`, where a list was destructed. -/
def construct (m : ListMemory α) (i : Nat) : ListMemory α :=
  (m.put (.head i) (some (selfRing i))).putSize i 0

/-- `List(l)`: the size is that of the source before the first element is pushed. -/
def copyConstruct (m : ListMemory α) (i j : Nat) : Option (ListMemory α) :=
  ((m.put (.head i) (some (selfRing i))).putSize i (m.size j)).copyFrom i j

/-- `operator=` -/
def assign (m : ListMemory α) (i j : Nat) : Option (ListMemory α) := do
  let m ← m.clear i
  m.copyFrom i j

end ListMemory

/-! ## Programs -/

/-- The operations of `List`, on lists named by numbers, at elements named by their number. -/
inductive ListOp (α : Type) where
  | pushFront (i : Nat) (x : α)
  | pushBack (i : Nat) (x : α)
  | popFront (i : Nat)
  | popBack (i : Nat)
  | insert (i n : Nat) (x : α)
  | erase (i n : Nat)
  | remove (i : Nat) (value : α)
  | clear (i : Nat)
  | destruct (i : Nat)
  | copyConstruct (i j : Nat)
  | assign (i j : Nat)

/--
One operation. A list that is destructed is made again, empty or as a copy of another one; a
list is not made as a copy of itself.
-/
def ListMemory.step {α : Type} [DecidableEq α] (m : ListMemory α) :
    ListOp α → Option (ListMemory α)
  | .pushFront i x => m.pushFront i x
  | .pushBack i x => m.pushBack i x
  | .popFront i => m.popFront i
  | .popBack i => m.popBack i
  | .insert i n x => (m.nth i n).bind (fun it => m.insert i it x)
  | .erase i n => (m.nth i n).bind (fun it => m.erase i it)
  | .remove i value => m.remove i value
  | .clear i => m.clear i
  | .destruct i => (m.destruct i).map (fun m => m.construct i)
  | .copyConstruct i j =>
      if i = j then some m else (m.destruct i).bind (fun m => m.copyConstruct i j)
  | .assign i j => m.assign i j

/-- The same on sequences. -/
def Sequences.step {α : Type} [DecidableEq α] (f : Nat → List α) : ListOp α → Nat → List α
  | .pushFront i x => Function.update f i (x :: f i)
  | .pushBack i x => Function.update f i (f i ++ [x])
  | .popFront i => Function.update f i (f i).tail
  | .popBack i => Function.update f i (f i).dropLast
  | .insert i n x => Function.update f i ((f i).take n ++ x :: (f i).drop n)
  | .erase i n => Function.update f i ((f i).eraseIdx n)
  | .remove i value => Function.update f i ((f i).filter (fun x => x ≠ value))
  | .clear i => Function.update f i []
  | .destruct i => Function.update f i []
  | .copyConstruct i j => Function.update f i (f j)
  | .assign i j => Function.update f i (f j)

end Encoders.Container
