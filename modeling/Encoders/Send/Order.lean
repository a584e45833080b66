import Encoders.Data.Object
import Encoders.Lib.Comparison
import Encoders.Lib.Text

/-!
# What is sent first

`PartialOrder` and its subclasses, of `SendPriorityManager.cpp`. An element of the send
queue is a data object on its way to a node, and the configuration says how two of them
compare: by the age, by the number in some attribute, by whether they have some
attribute, or by one order first and another where the first has nothing to say.

Each of the simple orders is one on every list of elements, and is tame. A combination
need not be: where only some elements have the number, age decides about the others, and
three elements can go round in a circle.

An element is a pointer, and `addr` is its address: two elements with the same content
are two. Of data objects and nodes only what the queue reads is here.
-/

namespace Encoders.Send

open Encoders.Lib Encoders.Data

variable {a b : SendPriorityElement}
variable {s t : Timeval}

/-! ## Elements -/

/-- `DataObjectRef`: a reference, and what it refers to. -/
structure DataObjectRef where
  ref : Nat
  id : CString
  attrs : List Attribute
deriving DecidableEq

/-- References are equal if they are the same, or what they refer to has the same id. -/
def DataObjectRef.eq (a b : DataObjectRef) : Bool := a.ref = b.ref || a.id = b.id

/-- `getAttribute`: any value, of whatever weight. -/
def DataObjectRef.getAttribute (d : DataObjectRef) (name : CString) : Option Attribute :=
  find d.attrs ⟨name, wildcard, 0⟩

/-- `NodeRef`; `undefined` is the type of a node that only its interfaces tell apart. -/
structure NodeRef where
  ref : Nat
  id : CString
  name : CString
  undefined : Bool
  interfaces : List CString
deriving DecidableEq

/-- `operator==` -/
def NodeRef.eq (a b : NodeRef) : Bool :=
  a.ref = b.ref ||
    if a.undefined || b.undefined then a.interfaces.any (fun i => b.interfaces.any (fun j => i = j))
    else a.id = b.id

/-- `class SendPriorityElement`, at its address. -/
structure SendPriorityElement where
  addr : Nat
  dObj : Option DataObjectRef
  node : Option NodeRef
  createTime : Timeval
  sendCallback : Int
deriving DecidableEq

instance instInhabitedElement : Inhabited SendPriorityElement := ⟨⟨0, none, none, noTime, 0⟩⟩

/-- `operator<` of times. -/
def Timeval.before (s t : Timeval) : Bool := s.sec < t.sec || (s.sec = t.sec && s.usec < t.usec)

/-- `atoi`, which is `strtol` made an `int`. -/
def atoi (value : CString) : Int := (strtol (chars value)).bmod 4294967296

/-! ## Orders -/

/-- The orders `PartialOrderFactory` makes. -/
inductive PartialOrder where
  | fifo
  | priorityAttribute (priorityAttributeName : CString)
  | attribute (attributeName : CString)
  | combinerOrdered (high low : PartialOrder)
deriving DecidableEq

/-- `PartialOrderFIFO::compare` -/
def compareFifo (a b : SendPriorityElement) : Comparison :=
  match a.dObj, b.dObj with
  | some _, some _ =>
      if Timeval.before a.createTime b.createTime then .gt
      else if a.createTime = b.createTime then .eq
      else .lt
  | _, _ => .nc

/-- `PartialOrderPriorityAttribute::compare` -/
def comparePriority (name : CString) (a b : SendPriorityElement) : Comparison :=
  match a.dObj, b.dObj with
  | some x, some y =>
      match x.getAttribute name, y.getAttribute name with
      | some p, some q =>
          if atoi p.value = atoi q.value then .eq
          else if atoi p.value < atoi q.value then .lt
          else .gt
      | _, _ => .nc
  | _, _ => .nc

/-- `PartialOrderAttribute::compare` -/
def compareAttribute (name : CString) (a b : SendPriorityElement) : Comparison :=
  match a.dObj, b.dObj with
  | some x, some y =>
      match x.getAttribute name, y.getAttribute name with
      | none, some _ => .lt
      | some _, none => .gt
      | _, _ => .nc
  | _, _ => .nc

/-- What two elements compare as. -/
def PartialOrder.compareElements : PartialOrder → SendPriorityElement → SendPriorityElement →
    Comparison
  | .fifo, a, b => compareFifo a b
  | .priorityAttribute name, a, b => comparePriority name a b
  | .attribute name, a, b => compareAttribute name a b
  | .combinerOrdered high low, a, b =>
      if high.compareElements a b ≠ .nc then high.compareElements a b else low.compareElements a b

/-- `class PartialOrderElement`, without its place in the graph. -/
structure PartialOrderElement where
  isInf : Bool
  equivObjs : List SendPriorityElement

/-- `compare`: the first of the equivalent elements speaks for all, and `Inf` is above. -/
def PartialOrder.compare (po : PartialOrder) (a b : PartialOrderElement) : Comparison :=
  if a.isInf then .gt
  else if b.isInf then .lt
  else
    match a.equivObjs.head?, b.equivObjs.head? with
    | some x, some y => po.compareElements x y
    | _, _ => .nc

/-! ## Which of them are orders -/

theorem Timeval.eq_of_not_before (h : Timeval.before s t = false) (h' : Timeval.before t s = false)
    : s = t := by
  obtain ⟨ssec, susec, _, _, _⟩ := s
  obtain ⟨tsec, tusec, _, _, _⟩ := t
  simp only [Timeval.before, Bool.or_eq_false_iff, decide_eq_false_iff_not, Bool.and_eq_false_imp,
    decide_eq_true_eq, not_lt] at h h'
  have hsec : ssec = tsec := le_antisymm h'.1 h.1
  have husec : susec = tusec := le_antisymm (h'.2 hsec.symm) (h.2 hsec)
  simp only [hsec, husec]

theorem Timeval.not_before_self (t : Timeval) : Timeval.before t t = false := by
  simp [Timeval.before]

theorem Timeval.before_trans {u : Timeval} (h : Timeval.before s t = true)
    (h' : Timeval.before t u = true) : Timeval.before s u = true := by
  simp only [Timeval.before, Bool.or_eq_true, Bool.and_eq_true, decide_eq_true_eq] at *
  omega

theorem Timeval.before_asymm (h : Timeval.before s t = true) : Timeval.before t s = false := by
  simp only [Timeval.before, Bool.or_eq_true, Bool.and_eq_true, decide_eq_true_eq,
    Bool.or_eq_false_iff, decide_eq_false_iff_not, Bool.and_eq_false_imp] at *
  omega

theorem flips_fifo : Flips compareFifo := by
  intro a b
  unfold compareFifo
  cases a.dObj <;> cases b.dObj <;> try rfl
  cases hab : Timeval.before a.createTime b.createTime <;>
    cases hba : Timeval.before b.createTime a.createTime
  · simp [Timeval.eq_of_not_before hab hba, Comparison.flip]
  · have hne : a.createTime ≠ b.createTime := by
      intro he
      rw [he, Timeval.not_before_self] at hba
      exact absurd hba (by decide)
    simp [hne, Comparison.flip]
  · have hne : b.createTime ≠ a.createTime := by
      intro he
      rw [he, Timeval.not_before_self] at hab
      exact absurd hab (by decide)
    simp [hne, Comparison.flip]
  · rw [Timeval.before_asymm hab] at hba
    exact absurd hba (by decide)

theorem flips_priority (name : CString) : Flips (comparePriority name) := by
  intro a b
  unfold comparePriority
  cases a.dObj <;> cases b.dObj <;> try rfl
  rename_i x y
  dsimp only
  cases x.getAttribute name <;> cases y.getAttribute name <;> try rfl
  rename_i p q
  dsimp only
  rcases lt_trichotomy (atoi p.value) (atoi q.value) with hlt | heq | hgt
  · simp [hlt.ne, hlt.ne', hlt, hlt.le, Comparison.flip]
  · simp [heq, Comparison.flip]
  · simp [hgt.ne, hgt.ne', hgt, not_lt_of_gt hgt, Comparison.flip]

theorem flips_attribute (name : CString) : Flips (compareAttribute name) := by
  intro a b
  unfold compareAttribute
  cases a.dObj <;> cases b.dObj <;> try rfl
  rename_i x y
  dsimp only
  cases x.getAttribute name <;> cases y.getAttribute name <;> rfl

/-- **Every order answers the same question from both sides.** -/
theorem PartialOrder.flips : ∀ po : PartialOrder, Flips po.compareElements
  | .fifo => flips_fifo
  | .priorityAttribute name => flips_priority name
  | .attribute name => flips_attribute name
  | .combinerOrdered high low => by
      intro a b
      have hhigh := high.flips a b
      have hlow := low.flips a b
      simp only [compareElements, hhigh, hlow]
      cases high.compareElements a b <;> simp [Comparison.flip]

/-! ### By age -/

theorem compareFifo_gt : compareFifo a b = .gt ↔
    a.dObj.isSome ∧ b.dObj.isSome ∧ Timeval.before a.createTime b.createTime = true := by
  unfold compareFifo
  cases a.dObj <;> cases b.dObj <;> simp
  split_ifs <;> simp_all

theorem compareFifo_eq : compareFifo a b = .eq ↔
    a.dObj.isSome ∧ b.dObj.isSome ∧ a.createTime = b.createTime := by
  unfold compareFifo
  cases a.dObj <;> cases b.dObj <;> simp
  cases hab : Timeval.before a.createTime b.createTime
  · simp
  · have hne : a.createTime ≠ b.createTime := by
      intro he
      rw [he, Timeval.not_before_self] at hab
      exact absurd hab (by decide)
    simp [hne]

theorem compareFifo_nc : compareFifo a b = .nc ↔
    a.dObj = none ∨ b.dObj = none := by
  unfold compareFifo
  cases a.dObj <;> cases b.dObj <;> simp
  split_ifs <;> simp

/-- What `compareFifo` reads of an element. -/
theorem compareFifo_congr (h : compareFifo a b = .eq) (c : SendPriorityElement) :
    compareFifo a c = compareFifo b c := by
  obtain ⟨ha, hb, htime⟩ := compareFifo_eq.mp h
  obtain ⟨x, hx⟩ := Option.isSome_iff_exists.mp ha
  obtain ⟨y, hy⟩ := Option.isSome_iff_exists.mp hb
  unfold compareFifo
  rw [hx, hy, htime]
  cases c.dObj <;> rfl

/-- **Age alone orders every list of elements.** -/
theorem tame_fifo (E : List SendPriorityElement) : Tame PartialOrder.fifo.compareElements E := by
  refine tame_of_no_forks ?_ ?_ ?_
  · intro x _ y _ z _ hxy hyz
    obtain ⟨hx, -, hxy⟩ := compareFifo_gt.mp hxy
    obtain ⟨-, hz, hyz⟩ := compareFifo_gt.mp hyz
    exact compareFifo_gt.mpr ⟨hx, hz, Timeval.before_trans hxy hyz⟩
  · intro x _ y _ z _ hxy
    exact compareFifo_congr hxy z
  · intro x _ y _ d _ hnc hxd hyd
    obtain ⟨hx, -, -⟩ := compareFifo_gt.mp hxd
    obtain ⟨hy, -, -⟩ := compareFifo_gt.mp hyd
    rcases compareFifo_nc.mp hnc with hnone | hnone
    · rw [hnone] at hx
      exact absurd hx (by decide)
    · rw [hnone] at hy
      exact absurd hy (by decide)

/-! ### By the number in an attribute -/

/-- The number that the priority attribute holds. -/
def priorityOf (name : CString) (a : SendPriorityElement) : Option Int :=
  (a.dObj.bind (fun d => d.getAttribute name)).map (fun p => atoi p.value)

theorem comparePriority_eq_priorityOf (name : CString) (a b : SendPriorityElement) :
    comparePriority name a b =
      match priorityOf name a, priorityOf name b with
      | some p, some q => if p = q then .eq else if p < q then .lt else .gt
      | _, _ => .nc := by
  unfold comparePriority priorityOf
  cases ha : a.dObj <;> cases hb : b.dObj <;> try rfl
  · rename_i x
    cases hx : x.getAttribute name <;> simp [hx]
  · rename_i x y
    cases hx : x.getAttribute name <;> cases hy : y.getAttribute name <;> simp [hx, hy]

/-- **The number alone orders every list of elements.** -/
theorem tame_priority (name : CString) (E : List SendPriorityElement) :
    Tame (PartialOrder.priorityAttribute name).compareElements E := by
  refine tame_of_no_forks ?_ ?_ ?_ <;>
    simp only [PartialOrder.compareElements, comparePriority_eq_priorityOf]
  · intro x _ y _ z _ hxy hyz
    cases hx : priorityOf name x <;> cases hy : priorityOf name y <;>
      cases hz : priorityOf name z <;> simp only [hx, hy, hz] at hxy hyz ⊢ <;>
      first
      | exact absurd hxy (by decide)
      | exact absurd hyz (by decide)
      | (split_ifs at * <;> first | rfl | omega)
  · intro x _ y _ z _ hxy
    cases hx : priorityOf name x <;> cases hy : priorityOf name y <;>
      simp only [hx, hy] at hxy ⊢ <;>
      first
      | exact absurd hxy (by decide)
      | (split_ifs at hxy with heq; rw [heq])
  · intro x _ y _ d _ hnc hxd hyd
    cases hx : priorityOf name x <;> cases hy : priorityOf name y <;>
      cases hd : priorityOf name d <;> simp only [hx, hy, hd] at hnc hxd hyd <;>
      first
      | exact absurd hxd (by decide)
      | exact absurd hyd (by decide)
      | (split_ifs at hnc)

/-! ### By whether they have an attribute -/

/-- Whether the object has the attribute; `none` without an object. -/
def marked (name : CString) (a : SendPriorityElement) : Option Bool :=
  a.dObj.map (fun d => (d.getAttribute name).isSome)

theorem compareAttribute_eq_marked (name : CString) (a b : SendPriorityElement) :
    compareAttribute name a b =
      match marked name a, marked name b with
      | some false, some true => .lt
      | some true, some false => .gt
      | _, _ => .nc := by
  unfold compareAttribute marked
  cases ha : a.dObj <;> cases hb : b.dObj <;> try rfl
  · rename_i x
    cases hx : x.getAttribute name <;> simp [hx]
  · rename_i x y
    cases hx : x.getAttribute name <;> cases hy : y.getAttribute name <;> simp [hx, hy]

theorem compareAttribute_gt {name : CString} :
    compareAttribute name a b = .gt ↔ marked name a = some true ∧ marked name b = some false := by
  rw [compareAttribute_eq_marked]
  rcases marked name a with _ | _ | _ <;> rcases marked name b with _ | _ | _ <;> simp

theorem compareAttribute_ne_eq (name : CString) (a b : SendPriorityElement) :
    compareAttribute name a b ≠ .eq := by
  rw [compareAttribute_eq_marked]
  rcases marked name a with _ | _ | _ <;> rcases marked name b with _ | _ | _ <;> simp

/-- **Whether elements have an attribute orders every list of them.** -/
theorem tame_attribute (name : CString) (E : List SendPriorityElement) :
    Tame (PartialOrder.attribute name).compareElements E where
  trans x _ y _ z _ hxy hyz := by
    have hy := (compareAttribute_gt.mp hxy).2
    rw [(compareAttribute_gt.mp hyz).1] at hy
    exact absurd hy (by decide)
  congr x _ y _ z _ hxy := absurd hxy (compareAttribute_ne_eq name x y)
  fork x _ y _ d _ e _ _ _ _ := by
    rintro ⟨hxe, hed⟩
    have he := (compareAttribute_gt.mp hxe).2
    rw [(compareAttribute_gt.mp hed).1] at he
    exact absurd he (by decide)
  alone x _ y _ d _ w _ _ _ _ :=
    ⟨fun h => absurd h (compareAttribute_ne_eq name w x),
      fun h => absurd h (compareAttribute_ne_eq name w d)⟩

end Encoders.Send
