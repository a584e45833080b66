import Mathlib.Algebra.BigOperators.Group.Finset.Basic
import Mathlib.Logic.Function.Basic
import Mathlib.Logic.Relation
import Encoders.Lib.Worklist
import Encoders.Send.Order

/-!
# `TopologicalSorter`

The queue of what waits for a node, as a graph: a `PartialOrderElement` holds elements
that compare as equal, and has children below it. `addElement` walks from the root along
strands, pairs of a node and the parent it was reached from, and links the new node where
it finds something to compare with. `popTop` takes from the first child of the root, and
when that is empty deletes it and moves its children up.

Nodes are addresses, and what C++ keeps at an address is spread over maps. A step that
reads through a pointer to a deleted node has no result, and nor has an `addElement` whose
strands do not come to an end with the fuel it is given. `addElement` is never given a null
pointer here.
-/

namespace Encoders.Send

open Encoders.Lib

/-- The graph of a `TopologicalSorter`. -/
structure TopologicalSorter where
  partialOrder : PartialOrder
  /-- The address the next node gets. -/
  next : Nat
  /-- What is allocated and not deleted. -/
  live : Nat → Bool
  equivObjs : Nat → List SendPriorityElement
  children : Nat → List Nat
  parentCount : Nat → Int
  numElements : Int
  maxElements : Int

/-- The address of the root, which is `Inf`. -/
def root : Nat := 0

namespace TopologicalSorter

/-- `TopologicalSorter(_partialOrder)` -/
def new (partialOrder : PartialOrder) : TopologicalSorter where
  partialOrder := partialOrder
  next := root + 1
  live n := n = root
  equivObjs _ := []
  children _ := []
  parentCount _ := 0
  numElements := 0
  maxElements := 0

/-! ## Nodes -/

/-- The node at an address, as the orders see it. -/
def element (s : TopologicalSorter) (n : Nat) : PartialOrderElement :=
  ⟨n = root, s.equivObjs n⟩

/-- `partialOrder->compare`, through two pointers. -/
def compare (s : TopologicalSorter) (a b : Nat) : Option Comparison :=
  if s.live a && s.live b then some (s.partialOrder.compare (s.element a) (s.element b)) else none

/-- `new PartialOrderElement(se)` -/
def alloc (s : TopologicalSorter) (se : SendPriorityElement) : TopologicalSorter :=
  { s with
    next := s.next + 1
    live := Function.update s.live s.next true
    equivObjs := Function.update s.equivObjs s.next [se]
    children := Function.update s.children s.next []
    parentCount := Function.update s.parentCount s.next 0 }

/-- `delete` -/
def delete (s : TopologicalSorter) (n : Nat) : TopologicalSorter :=
  { s with live := Function.update s.live n false }

/-- `addChild`: a child is linked once. -/
def addChild (s : TopologicalSorter) (parent child : Nat) : Option TopologicalSorter :=
  if child ∈ s.children parent then some s
  else if s.live child then
    some { s with
      children := Function.update s.children parent (s.children parent ++ [child])
      parentCount := Function.update s.parentCount child (s.parentCount child + 1) }
  else none

/-- `addChildren` -/
def addChildren (s : TopologicalSorter) (parent : Nat) : List Nat → Option TopologicalSorter
  | [] => some s
  | child :: rest => (s.addChild parent child).bind (fun s => s.addChildren parent rest)

/-- `removeChild` -/
def removeChild (s : TopologicalSorter) (parent child : Nat) : Option TopologicalSorter :=
  if child ∈ s.children parent then
    if s.live child then
      some { s with
        children := Function.update s.children parent ((s.children parent).erase child)
        parentCount := Function.update s.parentCount child (s.parentCount child - 1) }
    else none
  else some s

/-- `addEquivalent`: an element is added once. -/
def addEquivalent (s : TopologicalSorter) (n : Nat) (se : SendPriorityElement) :
    TopologicalSorter :=
  if (s.equivObjs n).any (fun e => e.addr = se.addr) then s
  else { s with equivObjs := Function.update s.equivObjs n (s.equivObjs n ++ [se]) }

/-- `addEquivalents` -/
def addEquivalents (s : TopologicalSorter) (n : Nat) (ses : List SendPriorityElement) :
    TopologicalSorter :=
  ses.foldl (fun s se => s.addEquivalent n se) s

/-! ## `addElement` -/

/-- The nodes of a list that the new node compares with. -/
def comparables (s : TopologicalSorter) (po_se : Nat) : List Nat → Option (List Nat)
  | [] => some []
  | n :: rest =>
      (s.compare po_se n).bind (fun compare =>
        (s.comparables po_se rest).bind (fun comparable =>
          some (if compare ≠ .nc then n :: comparable else comparable)))

/-- The body of the loop: one strand, and the strands it leaves to do. -/
def followStrand (po_se : Nat) (s : TopologicalSorter) (strand : Nat × Nat) :
    Option (TopologicalSorter × List (Nat × Nat)) :=
  let child := strand.1
  let parent := strand.2
  (s.compare po_se child).bind (fun compare =>
    match compare with
    | .nc => some (s, [])
    | .eq => some (s.addEquivalents child (s.equivObjs po_se), [])
    | .lt =>
        if (s.children child).length = 0 then
          (s.addChild child po_se).bind (fun s => some (s, []))
        else
          (s.comparables po_se (s.children child)).bind (fun comparable =>
            if comparable = [] then (s.addChild child po_se).bind (fun s => some (s, []))
            else some (s, comparable.map (fun n => (n, child))))
    | .gt =>
        (s.removeChild parent child).bind (fun s =>
          (s.addChild po_se child).bind (fun s =>
            (s.addChild parent po_se).bind (fun s => some (s, [])))))

/-- One element more. -/
def counted (s : TopologicalSorter) : TopologicalSorter :=
  { s with
    numElements := s.numElements + 1
    maxElements := if s.numElements + 1 > s.maxElements then s.numElements + 1 else s.maxElements }

/-- `addElement` -/
def addElement (fuel : Nat) (s : TopologicalSorter) (se : SendPriorityElement) :
    Option TopologicalSorter :=
  let po_se := s.next
  let s := s.alloc se
  (s.comparables po_se (s.children root)).bind (fun comparable =>
    if comparable = [] then (s.addChild root po_se).map counted
    else (worklist (followStrand po_se) fuel s (comparable.map (fun n => (n, root)))).map counted)

/-! ## `popTop` -/

/-- `popTop` -/
def popTop (s : TopologicalSorter) : Option (Option SendPriorityElement × TopologicalSorter) :=
  match s.children root with
  | [] => some (none, s)
  | topChild :: _ =>
      if s.live topChild then
        match s.equivObjs topChild with
        | [] => some (none, s)
        | topChildSE :: rest =>
            let s := { s with
              equivObjs := Function.update s.equivObjs topChild rest
              numElements := s.numElements - 1 }
            if rest.length = 0 then
              (s.addChildren root (s.children topChild)).bind (fun s =>
                (s.removeChild root topChild).bind (fun s =>
                  some (some topChildSE, s.delete topChild)))
            else some (some topChildSE, s)
      else none

/-- `getSize` -/
def getSize (s : TopologicalSorter) : Int := s.numElements

/-! ## What is in it -/

/-- There is a chain of children from the root. -/
def Linked (s : TopologicalSorter) : Nat → Prop :=
  Relation.ReflTransGen (fun parent child => child ∈ s.children parent) root

open Classical in
/-- The elements that can be reached from the root, each as often as it can be found. -/
noncomputable def held (s : TopologicalSorter) : Multiset SendPriorityElement :=
  ∑ n ∈ (Finset.range s.next).filter (fun n => s.Linked n),
    (s.equivObjs n : Multiset SendPriorityElement)

open Classical in
/-- The elements that can be reached from the root and equal a given one, in the order they
stand in. -/
noncomputable def line (s : TopologicalSorter) (c : SendPriorityElement) :
    List SendPriorityElement :=
  ((List.range s.next).filter (fun n => s.Linked n)).flatMap (fun n =>
    (s.equivObjs n).filter (fun e => s.partialOrder.compareElements c e = .eq))

/-- An element that can be found from the root is held. -/
theorem mem_held_of_linked {s : TopologicalSorter} {n : Nat} {e : SendPriorityElement}
    (hn : n < s.next) (hl : s.Linked n) (he : e ∈ s.equivObjs n) : e ∈ s.held := by
  classical
  unfold held
  rw [Multiset.mem_sum]
  exact ⟨n, Finset.mem_filter.mpr ⟨Finset.mem_range.mpr hn, hl⟩, he⟩

end TopologicalSorter

/-! ## Runs -/

/-- What is done to a sorter. -/
inductive SorterOp where
  | addElement (se : SendPriorityElement)
  | popTop

/-- A sorter, with what was put in and what came out, the last first. -/
structure SorterRun where
  sorter : TopologicalSorter
  added : List SendPriorityElement
  popped : List SendPriorityElement

namespace SorterRun

/-- Before anything is done. -/
def start (partialOrder : PartialOrder) : SorterRun := ⟨.new partialOrder, [], []⟩

/-- One call. -/
def step (fuel : Nat) (r : SorterRun) : SorterOp → Option SorterRun
  | .addElement se => (r.sorter.addElement fuel se).map (fun s => ⟨s, se :: r.added, r.popped⟩)
  | .popTop => r.sorter.popTop.map (fun p => ⟨p.2, r.added, p.1.toList ++ r.popped⟩)

/-- The calls of a list. -/
def after (fuel : Nat) (partialOrder : PartialOrder) (ops : List SorterOp) : Option SorterRun :=
  run (step fuel) (start partialOrder) ops

/-- A pointer is added only when every time it was added before it has come out again. -/
def Fresh (r : SorterRun) : SorterOp → Prop
  | .addElement se =>
      r.added.countP (fun e => e.addr = se.addr) = r.popped.countP (fun e => e.addr = se.addr)
  | .popTop => True

instance instDecidableFresh (r : SorterRun) : ∀ op, Decidable (r.Fresh op)
  | .addElement _ => inferInstanceAs (Decidable (_ = _))
  | .popTop => inferInstanceAs (Decidable True)

end SorterRun

/-- The elements that a list of calls adds. -/
def addedBy (ops : List SorterOp) : List SendPriorityElement :=
  ops.filterMap (fun op => match op with
    | .addElement se => some se
    | .popTop => none)

end Encoders.Send
