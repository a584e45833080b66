import Mathlib.Logic.Function.Basic
import Encoders.Lib.Worklist

/-!
# `Reference`

`libcpphaggle/Reference.h`: references to an object share a counter, and the counters are found
by the address of the object, in a table. The counter that comes down to zero is taken out of the
table and deleted, and then the object is; References that are part of the object are destroyed
with it, and may bring other counters down to zero.

A step is partial: `none` stands for the use of a counter that was deleted, for a second deletion
of an object, and for a read or a write of a Reference that is no longer there. `RefCounter::objects`
is taken for the map it is. A counter counts References that all lie in memory, so that it is far
from the end of its range.
-/

namespace Encoders.Container

open Encoders.Lib

/-- Where a Reference is: it is part of the object at an address, or of none. -/
structure RefPlace where
  home : Option Nat
  index : Nat
deriving DecidableEq

/-- `class RefCounter` -/
structure RefCounter where
  refcount : Nat
  obj : Nat
deriving DecidableEq

/-- The References there are, with their `refCount`; the counters; and the objects. -/
structure Refs where
  places : List RefPlace
  refCount : RefPlace → Option Nat
  counters : Nat → Option RefCounter
  totNum : Nat
  objects : Nat → Option Nat
  live : Nat → Bool

namespace Refs

def init : Refs := ⟨[], fun _ => none, fun _ => none, 0, fun _ => none, fun _ => false⟩

def setCounter (s : Refs) (c : Nat) (rc : Option RefCounter) : Refs :=
  { s with counters := Function.update s.counters c rc }

def setRef (s : Refs) (r : RefPlace) (p : Option Nat) : Refs :=
  { s with refCount := Function.update s.refCount r p }

/-- A Reference that is new. -/
def addRef (s : Refs) (r : RefPlace) (p : Option Nat) : Refs :=
  { s with places := r :: s.places, refCount := Function.update s.refCount r p }

def removeRef (s : Refs) (r : RefPlace) : Refs := { s with places := s.places.erase r }

/-- `inc_count`, with the assertion of its callers. -/
def incCount (s : Refs) (c : Nat) : Option Refs :=
  match s.counters c with
  | none => none
  | some rc =>
      if rc.refcount = 0 then none
      else some (s.setCounter c (some { rc with refcount := rc.refcount + 1 }))

/-- `new RefCounter(obj)` -/
def newCounter (s : Refs) (a : Nat) : Refs :=
  { s with
    counters := Function.update s.counters s.totNum (some ⟨1, a⟩)
    objects := Function.update s.objects a (some s.totNum)
    totNum := s.totNum + 1 }

/-- `RefCounter::create` -/
def create (s : Refs) (obj : Option Nat) : Option (Refs × Option Nat) :=
  match obj with
  | none => some (s, none)
  | some a =>
      match s.objects a with
      | some c => (s.incCount c).map (fun s => (s, some c))
      | none => some (s.newCounter a, some s.totNum)

/-- The counter and its object are deleted: table, counter and object, in this order. -/
def delete (s : Refs) (c a : Nat) : Refs :=
  { s with
    objects := Function.update s.objects a none
    counters := Function.update s.counters c none
    live := Function.update s.live a false }

/-- The References that are part of an object. -/
def partsOf (s : Refs) (a : Nat) : List RefPlace := s.places.filter (fun r => r.home = some a)

/-- `dec_count`, and the References that are destroyed with what it deletes. -/
def decCount (s : Refs) (c : Nat) : Option (Refs × List RefPlace) :=
  match s.counters c with
  | none => none
  | some rc =>
      if rc.refcount = 0 then some (s, [])
      else if rc.refcount - 1 = 0 then
        if s.live rc.obj then some (s.delete c rc.obj, s.partsOf rc.obj) else none
      else some (s.setCounter c (some { rc with refcount := rc.refcount - 1 }), [])

/-- `dec_count`, if there is a counter. -/
def release (s : Refs) (p : Option Nat) : Option (Refs × List RefPlace) :=
  match p with
  | none => some (s, [])
  | some c => s.decCount c

/-- `inc_count`, if there is a counter. -/
def acquire (s : Refs) (p : Option Nat) : Option Refs :=
  match p with
  | none => some s
  | some c => s.incCount c

/-- `~Reference`, up to the References that it destroys in turn. -/
def destroy (s : Refs) (r : RefPlace) : Option (Refs × List RefPlace) :=
  if r ∈ s.places then (s.removeRef r).release (s.refCount r) else none

/-- References are destroyed, with all that goes with them; each takes one Reference away. -/
def destroyAll (s : Refs) (work : List RefPlace) : Option Refs :=
  nested destroy s.places.length s work

/-- There is room for a new Reference: none is there, and what it is to be part of is. -/
def Vacant (s : Refs) (r : RefPlace) : Prop :=
  r ∉ s.places ∧ ∀ a, r.home = some a → s.live a = true

theorem vacant_iff (s : Refs) (r : RefPlace) :
    (r ∉ s.places ∧ r.home.all s.live = true) ↔ s.Vacant r := by
  rw [Vacant]
  cases r.home with
  | none => simp
  | some a => simp

instance (s : Refs) (r : RefPlace) : Decidable (s.Vacant r) := decidable_of_iff _ (s.vacant_iff r)

/-- `operator=` -/
def assign (s : Refs) (r q : RefPlace) : Option Refs :=
  if r = q then some s
  else do
    let s ← s.acquire (s.refCount q)
    let (s, parts) ← s.release (s.refCount r)
    let s ← s.destroyAll parts
    -- `eo` is read, and this Reference is written, when all this is over
    if r ∈ s.places ∧ q ∈ s.places then some (s.setRef r (s.refCount q)) else none

end Refs

/-- What a program does with References; `create` is `new T`, at an address. -/
inductive RefOp where
  | create (a : Nat)
  | construct (r : RefPlace) (obj : Option Nat)
  | copy (r q : RefPlace)
  | assign (r q : RefPlace)
  | destruct (r : RefPlace)

/--
One operation. A new object takes an address where there is none; References are made where
there is room, from a pointer to an object, or to nothing, or from a Reference that is there; and
only a Reference that is there is assigned or destroyed. What a program cannot do otherwise
changes nothing.
-/
def Refs.step (s : Refs) : RefOp → Option Refs
  | .create a => some { s with live := Function.update s.live a true }
  | .construct r obj =>
      if s.Vacant r ∧ obj.all s.live = true then
        (s.create obj).map (fun x => x.1.addRef r x.2)
      else some s
  | .copy r q =>
      if s.Vacant r ∧ q ∈ s.places then
        (s.acquire (s.refCount q)).map (fun s => s.addRef r (s.refCount q))
      else some s
  | .assign r q => if r ∈ s.places ∧ q ∈ s.places then s.assign r q else some s
  | .destruct r => if r ∈ s.places then s.destroyAll [r] else some s

/-! ## What References are for -/

/-- What each Reference points to, where there is one; and which objects there are. -/
structure Graph where
  points : RefPlace → Option (Option Nat)
  live : Nat → Prop

/--
**An object dies when the last Reference to it goes**: it was referred to, and every Reference to
it now is part of an object that dies.
-/
inductive Dies (before after : RefPlace → Option (Option Nat)) : Nat → Prop
  | intro {a : Nat} (hwas : ∃ q, before q = some (some a))
      (hpart : ∀ q, after q = some (some a) → q.home ≠ none)
      (hdies : ∀ q b, after q = some (some a) → q.home = some b → Dies before after b) :
      Dies before after a

/-- What is referred to only from objects that die, dies. -/
theorem Dies.of_homes {before after : RefPlace → Option (Option Nat)} {a : Nat}
    (hwas : ∃ q, before q = some (some a))
    (hhome : ∀ q, after q = some (some a) → ∃ b, q.home = some b ∧ Dies before after b) :
    Dies before after a := by
  refine Dies.intro hwas (fun q hq => ?_) (fun q b hq hb => ?_)
  · obtain ⟨b, hb, -⟩ := hhome q hq
    rw [hb]
    exact Option.some_ne_none _
  · obtain ⟨b', hb', hdies⟩ := hhome q hq
    rw [hb, Option.some.injEq] at hb'
    exact hb' ▸ hdies

namespace Graph

open Classical in
/-- The References change, and what dies goes with its parts. -/
noncomputable def change (g : Graph) (after : RefPlace → Option (Option Nat)) : Graph where
  points q := if ∃ b, q.home = some b ∧ Dies g.points after b then none else after q
  live a := g.live a ∧ ¬ Dies g.points after a

/-- There is room for a new Reference. -/
def Vacant (g : Graph) (r : RefPlace) : Prop :=
  g.points r = none ∧ ∀ a, r.home = some a → g.live a

open Classical in
noncomputable def step (g : Graph) : RefOp → Graph
  | .create a => { g with live := Function.update g.live a True }
  | .construct r obj =>
      if g.Vacant r ∧ ∀ a, obj = some a → g.live a then
        { g with points := Function.update g.points r (some obj) }
      else g
  | .copy r q =>
      if g.Vacant r ∧ g.points q ≠ none then
        { g with points := Function.update g.points r (g.points q) }
      else g
  | .assign r q =>
      if g.points r ≠ none ∧ g.points q ≠ none then
        g.change (Function.update g.points r (g.points q))
      else g
  | .destruct r =>
      if g.points r ≠ none then g.change (Function.update g.points r none) else g

def init : Graph := ⟨fun _ => none, fun _ => False⟩

end Graph

end Encoders.Container
