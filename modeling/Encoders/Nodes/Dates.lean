import Encoders.Nodes.Continuity
import Encoders.Nodes.NodeManager

/-!
# Whether a stored description goes back in time

The manager compares the age of a description with the first stored node that equals its own,
and `update` replaces all that do. The first may be an undefined node, which has no age, and a
node the data store returns is compared with none. Besides, a node of this device that has an
interface come up is dated anew, by a clock that may be behind the date of its description.

So a stored description never goes back exactly if what takes the place of a description is not
older than it, at its own date, or at the clock's where the node is dated anew (`Fits`).
-/

namespace Encoders.Nodes

open Encoders.Lib Encoders.Data Encoders.Bloom Encoders.Connectivity NodeStore

variable {s : NodeStore}

/-! ## Dates -/

/-- The nodes whose description is dated anew when an interface comes up. -/
def Node.isLocal (n : Node) : Bool := n.isLocalDevice || n.localApplication

/-- An interface is there, and down. -/
def isDown (k : InterfaceKey) (l : List NodeInterface) : Bool :=
  l.any (fun j => j.key = k && !j.isUp)

/-- The interfaces, with some of them up. -/
def liftUp (ups : InterfaceKey → Bool) (l : List NodeInterface) : List NodeInterface :=
  l.map (fun j => { j with isUp := j.isUp || ups j.key })

theorem lifted_eq {j : NodeInterface} {up : Bool} (h : up = true → j.isUp = true) :
    ({ j with isUp := j.isUp || up } : NodeInterface) = j := by
  obtain ⟨key, isUp⟩ := j
  cases up with
  | false => rw [Bool.or_false]
  | true =>
      obtain rfl : isUp = true := h rfl
      rfl

theorem liftUp_of_up {ups : InterfaceKey → Bool} {l : List NodeInterface}
    (h : ∀ j ∈ l, ups j.key = true → j.isUp = true) : liftUp ups l = l := by
  unfold liftUp
  refine Eq.trans (List.map_congr_left (fun j hj => lifted_eq (h j hj))) (List.map_id' l)

theorem isUp_of_not_down {k : InterfaceKey} {l : List NodeInterface} (h : isDown k l = false) :
    ∀ j ∈ l, j.key = k → j.isUp = true := by
  intro j hj hk
  have hnot := List.any_eq_false.mp h j hj
  simpa [hk] using hnot

theorem raise_eq {k : InterfaceKey} : ∀ {l : List NodeInterface},
    (l.map NodeInterface.key).Nodup →
      raise k l = if isDown k l then some (liftUp (fun k' => k' = k) l) else none
  | [], _ => rfl
  | j :: l, h => by
      obtain ⟨hnot, hnodup⟩ := List.nodup_cons.mp h
      have ih := raise_eq (k := k) hnodup
      rw [raise]
      by_cases hj : j.key = k ∧ j.isUp = false
      · -- the others have other keys
        have hrest : liftUp (fun k' => k' = k) l = l := by
          refine liftUp_of_up (fun i hi hkey => ?_)
          have heq : i.key = j.key := (of_decide_eq_true hkey).trans hj.1.symm
          exact absurd (heq ▸ List.mem_map_of_mem hi) hnot
        have hdown : isDown k (j :: l) = true := by simp [isDown, hj.1, hj.2]
        rw [if_pos hj, hdown, if_pos rfl]
        unfold liftUp at hrest ⊢
        rw [List.map_cons, hrest]
        simp [hj.1]
      · have hdown : isDown k (j :: l) = isDown k l := by
          have hfalse : (decide (j.key = k) && !j.isUp) = false := by
            by_cases hk : j.key = k
            · have hup : j.isUp = true := by
                by_contra hup
                exact hj ⟨hk, Bool.not_eq_true _ ▸ hup⟩
              simp [hup]
            · simp [hk]
          unfold isDown
          rw [List.any_cons, hfalse, Bool.false_or]
        have hkeep : ({ j with isUp := j.isUp || decide (j.key = k) } : NodeInterface) = j := by
          refine lifted_eq (fun hk => ?_)
          by_contra hup
          exact hj ⟨of_decide_eq_true hk, Bool.not_eq_true _ ▸ hup⟩
        rw [if_neg hj, ih, hdown]
        unfold liftUp
        rw [List.map_cons, hkeep]
        split
        · rfl
        · rfl

theorem stamps_date (now : Timeval) (n : Node) :
    let n' := (n.setNodeDescriptionCreateTime now).setNodeDescriptionUpdateTime now
    n'.nodeDescriptionCreateTime = (if n.isLocal then now else n.nodeDescriptionCreateTime) ∧
      n'.isLocal = n.isLocal ∧ n'.interfaces = n.interfaces := by
  unfold Node.setNodeDescriptionUpdateTime Node.setNodeDescriptionCreateTime Node.isLocal
  by_cases hlocal : (n.isLocalDevice || n.localApplication) = true
  · rw [if_pos hlocal, if_pos hlocal]
    split
    · exact ⟨rfl, rfl, rfl⟩
    · exact ⟨rfl, rfl, rfl⟩
  · rw [if_neg hlocal, if_neg hlocal]
    split
    · exact ⟨rfl, rfl, rfl⟩
    · exact ⟨rfl, rfl, rfl⟩

/-- What a change of a node does to its interfaces and to its date. -/
structure Dated (now : Timeval) (n n' : Node) (ups : InterfaceKey → Bool) (anew : Bool) : Prop where
  interfaces : n'.interfaces.list = liftUp ups n.interfaces.list
  date : n'.nodeDescriptionCreateTime =
    if n.isLocal && anew then now else n.nodeDescriptionCreateTime
  isLocal : n'.isLocal = n.isLocal

theorem dated_refl (now : Timeval) (n : Node) : Dated now n n (fun _ => false) false := by
  refine ⟨(liftUp_of_up (fun j _ h => absurd h Bool.false_ne_true)).symm, ?_, rfl⟩
  rw [Bool.and_false]
  rfl

theorem dated_setInterfaceUp (now : Timeval) (k : InterfaceKey) (n : Node) :
    Dated now n (n.setInterfaceUp now k) (fun k' => k' = k) (isDown k n.interfaces.list) := by
  have hraise := raise_eq (k := k) n.interfaces.distinct
  unfold Node.setInterfaceUp
  cases hs : n.interfaces.setUp k with
  | none =>
      have hdown : isDown k n.interfaces.list = false := by
        unfold NodeInterfaces.setUp at hs
        rw [Option.pmap_eq_none_iff] at hs
        rw [hs] at hraise
        by_contra hdown
        rw [Bool.not_eq_false] at hdown
        rw [if_pos hdown] at hraise
        cases hraise
      rw [hdown]
      refine ⟨(liftUp_of_up (fun j hj hk => ?_)).symm, ?_, rfl⟩
      · exact isUp_of_not_down hdown j hj (of_decide_eq_true hk)
      · rw [Bool.and_false]
        rfl
  | some l =>
      have hl := setUp_some hs
      rw [hl] at hraise
      by_cases hdown : isDown k n.interfaces.list = true
      · rw [if_pos hdown, Option.some.injEq] at hraise
        obtain ⟨hdate, hlocal, hifaces⟩ := stamps_date now { n with interfaces := l }
        rw [hdown]
        refine ⟨(congrArg NodeInterfaces.list hifaces).trans hraise, ?_, hlocal⟩
        rw [Bool.and_true]
        exact hdate
      · rw [if_neg hdown] at hraise
        cases hraise

/-! ## What is taken over -/

/-- An interface of an old node that is up raises one of the new. -/
def raises (old l : List NodeInterface) : Bool := old.any (fun i => i.isUp && isDown i.key l)

/-- The keys of the interfaces that are up in an old node. -/
def ups (old : List NodeInterface) (k : InterfaceKey) : Bool := old.any (fun i => i.isUp && i.key = k)

theorem liftUp_liftUp (u v : InterfaceKey → Bool) (l : List NodeInterface) :
    liftUp v (liftUp u l) = liftUp (fun k => u k || v k) l := by
  unfold liftUp
  rw [List.map_map]
  refine List.map_congr_left (fun j _ => ?_)
  rw [Function.comp_apply, Bool.or_assoc]

theorem Dated.trans {now : Timeval} {n n' n'' : Node} {u v : InterfaceKey → Bool} {a b : Bool}
    (h : Dated now n n' u a) (h' : Dated now n' n'' v b) :
    Dated now n n'' (fun k => u k || v k) (a || b) := by
  refine ⟨?_, ?_, h'.isLocal.trans h.isLocal⟩
  · rw [h'.interfaces, h.interfaces, liftUp_liftUp]
  · rw [h'.date, h.date, h.isLocal]
    cases n.isLocal <;> cases a <;> cases b <;> rfl

/-- What is lifted is not down any more. -/
theorem isDown_liftUp (u : InterfaceKey → Bool) (k : InterfaceKey) (l : List NodeInterface) :
    isDown k (liftUp u l) = (isDown k l && !u k) := by
  unfold isDown liftUp
  rw [List.any_map]
  induction l with
  | nil => rfl
  | cons j l ih =>
      rw [List.any_cons, List.any_cons, ih, Function.comp_apply, Bool.and_or_distrib_right]
      by_cases hk : j.key = k
      · simp [hk, Bool.not_or]
      · simp [hk]

theorem isDown_of_not_has {k : InterfaceKey} {s : NodeInterfaces} (h : s.has k = false) :
    isDown k s.list = false := by
  refine List.any_eq_false.mpr (fun j hj => ?_)
  have hne := List.any_eq_false.mp h j hj
  rw [decide_eq_true_eq] at hne
  simp [hne]

theorem dated_takeInterface (now : Timeval) (i : NodeInterface) (n : Node) :
    Dated now n (if n.interfaces.has i.key && i.isUp then n.setInterfaceUp now i.key else n)
      (fun k => i.isUp && i.key = k) (i.isUp && isDown i.key n.interfaces.list) := by
  by_cases hup : i.isUp = true
  · have hswap : (fun k => i.isUp && decide (i.key = k)) = (fun k => decide (k = i.key)) := by
      funext k
      rw [hup, Bool.true_and]
      exact decide_eq_decide.mpr eq_comm
    rw [hswap, hup, Bool.and_true, Bool.true_and]
    by_cases hhas : n.interfaces.has i.key = true
    · rw [if_pos hhas]
      exact dated_setInterfaceUp now i.key n
    · rw [if_neg hhas, isDown_of_not_has (Bool.not_eq_true _ ▸ hhas)]
      have hnone := isUp_of_not_down (isDown_of_not_has (Bool.not_eq_true _ ▸ hhas))
      refine ⟨(liftUp_of_up (fun j hj hk => hnone j hj (of_decide_eq_true hk))).symm, ?_, rfl⟩
      rw [Bool.and_false]
      rfl
  · rw [Bool.not_eq_true] at hup
    rw [hup, Bool.and_false]
    exact dated_refl now n

theorem dated_takeInterfaces (now : Timeval) : ∀ (old : List NodeInterface) (n : Node),
    Dated now n (takeInterfaces now old n) (ups old) (raises old n.interfaces.list)
  | [], n => dated_refl now n
  | i :: old, n => by
      have hstep := dated_takeInterface now i n
      have hboth := hstep.trans (dated_takeInterfaces now old _)
      have hraises : raises (i :: old) n.interfaces.list =
          ((i.isUp && isDown i.key n.interfaces.list) || raises old
            (if n.interfaces.has i.key && i.isUp then n.setInterfaceUp now i.key
              else n).interfaces.list) := by
        unfold raises
        rw [List.any_cons, hstep.interfaces]
        simp only [isDown_liftUp]
        -- what is up already now was raised by the first
        by_cases hfirst : (i.isUp && isDown i.key n.interfaces.list) = true
        · rw [hfirst, Bool.true_or, Bool.true_or]
        · rw [Bool.not_eq_true] at hfirst
          rw [hfirst, Bool.false_or, Bool.false_or]
          refine congrArg old.any (funext (fun j => ?_))
          by_cases hsame : (i.isUp && decide (i.key = j.key)) = true
          · rw [Bool.and_eq_true, decide_eq_true_eq] at hsame
            rw [hsame.1, Bool.true_and, hsame.2] at hfirst
            rw [hfirst, Bool.false_and]
          · rw [Bool.not_eq_true] at hsame
            rw [hsame, Bool.not_false, Bool.and_true]
      rw [hraises]
      exact hboth

/-- What `update` takes over of the date and of what makes it new. -/
theorem takeOver_date (cfg : StoreConfig) (env : UpdateEnv) (ref oldRef : Nat) (old n : Node) :
    (takeOver cfg env ref oldRef old n).interfaces.list =
        liftUp (ups old.interfaces.list) n.interfaces.list ∧
      (takeOver cfg env ref oldRef old n).nodeDescriptionCreateTime =
        (if n.isLocal && raises old.interfaces.list n.interfaces.list then env.now
          else n.nodeDescriptionCreateTime) ∧
      (takeOver cfg env ref oldRef old n).isLocal = (n.isLocal || old.localApplication) := by
  have htake := dated_takeInterfaces env.now old.interfaces.list n
  have hstate : ∀ m : Node,
      (takeState cfg env ref oldRef old m).nodeDescriptionCreateTime =
          m.nodeDescriptionCreateTime ∧
        (takeState cfg env ref oldRef old m).isLocal = (m.isLocal || old.localApplication) := by
    intro m
    unfold takeState Node.isLocal
    by_cases hlocal : old.localApplication = true
    · rw [if_pos hlocal, hlocal]
      refine ⟨rfl, ?_⟩
      rw [Bool.or_true, Bool.or_true]
    · rw [if_neg hlocal, Bool.eq_false_iff.mpr hlocal, Bool.or_false]
      split
      · split
        · exact ⟨rfl, rfl⟩
        · exact ⟨rfl, rfl⟩
      · exact ⟨rfl, rfl⟩
  obtain ⟨hdate, hlocal⟩ := hstate (takeInterfaces env.now old.interfaces.list n)
  refine ⟨?_, hdate.trans htake.date, hlocal.trans (by rw [htake.isLocal])⟩
  rw [takeOver_interfaces, htake.interfaces]

/-! ## What an update leaves -/

/-- An interface comes up in the new node while it counts as one of this device: the nodes it
replaces come one after the other, and each may raise interfaces and make it local. -/
def stamps : Bool → List NodeInterface → List Node → Bool
  | _, _, [] => false
  | isLocal, l, old :: rest =>
      (isLocal && raises old.interfaces.list l) ||
        stamps (isLocal || old.localApplication) (liftUp (ups old.interfaces.list) l) rest

theorem handOver_date (cfg : StoreConfig) (env : UpdateEnv) (ref : Nat) :
    ∀ (replaced : List NodeRecord) (n : Node),
      (handOver cfg env ref n replaced).nodeDescriptionCreateTime =
        if stamps n.isLocal n.interfaces.list (replaced.map NodeRecord.node) then env.now
        else n.nodeDescriptionCreateTime
  | [], _ => rfl
  | q :: replaced, n => by
      obtain ⟨hifaces, hdate, hlocal⟩ := takeOver_date cfg env ref q.ref q.node n
      rw [handOver_cons, handOver_date, hifaces, hdate, hlocal, List.map_cons, stamps]
      by_cases hrest : stamps (n.isLocal || q.node.localApplication)
          (liftUp (ups q.node.interfaces.list) n.interfaces.list)
          (replaced.map NodeRecord.node) = true
      · rw [if_pos hrest, hrest, Bool.or_true]
        rfl
      · rw [if_neg hrest, Bool.eq_false_iff.mpr hrest, Bool.or_false]

/-- The date at which the node is in the store after `update`. -/
def dateAfter (now : Timeval) (s : NodeStore) (n : Node) : Timeval :=
  if stamps n.isLocal n.interfaces.list
      ((s.filter (fun nr => n.eqNode nr.node)).map NodeRecord.node) then now
  else n.nodeDescriptionCreateTime

/-- No record has the number. -/
def Fresh (s : NodeStore) (ref : Nat) : Prop := ∀ nr ∈ s, nr.ref ≠ ref

theorem eqRef_of_fresh {ref : Nat} (h : Fresh s ref) (n : Node) :
    ∀ nr ∈ s, NodeRecord.eqRef ⟨ref, n⟩ nr = n.eqNode nr.node := by
  intro nr hnr
  unfold NodeRecord.eqRef
  rw [decide_eq_false (fun heq => h nr hnr heq.symm), Bool.false_or]

/-- **What `update` leaves of a store**: without an equal record, the store as it was; with one,
the others and the node, as old as it is or as the clock. -/
theorem update_spec (cfg : StoreConfig) (env : UpdateEnv) {r : NodeRecord} (h : Fresh s r.ref) :
    ((NodeStore.update cfg env s (some r)).found = false ∧
        (∀ nr ∈ s, r.node.eqNode nr.node = false) ∨
      (NodeStore.update cfg env s (some r)).found = true ∧
        ∃ n, (NodeStore.update cfg env s (some r)).store =
            s.filter (fun nr => !r.node.eqNode nr.node) ++ [⟨r.ref, n⟩] ∧
          Alike n r.node ∧ n.nodeDescriptionCreateTime = dateAfter env.now s r.node) := by
  obtain ⟨hnode, hkept, hnl⟩ := updateLoop_spec cfg env r.ref s r.node
  have hdate := @updateLoop_node cfg env r.ref s r.node h
  have heq := eqRef_of_fresh h r.node
  rw [List.filter_congr heq] at hnl hdate
  rw [List.filter_congr (fun nr hnr => congrArg Bool.not (heq nr hnr))] at hkept
  unfold NodeStore.update
  dsimp only
  by_cases hempty : (updateLoop cfg env r.ref r.node s).nl.isEmpty = true
  · rw [if_pos hempty]
    refine Or.inl ⟨rfl, fun nr hnr => ?_⟩
    rw [List.isEmpty_iff.mp hempty, List.map_nil] at hnl
    have hnil := List.map_eq_nil_iff.mp hnl.symm
    exact Bool.not_eq_true _ ▸ List.filter_eq_nil_iff.mp hnil nr hnr
  · rw [if_neg hempty]
    refine Or.inr ⟨rfl, { (updateLoop cfg env r.ref r.node s).node with stored := true }, ?_,
      ⟨hnode.type, hnode.id, hnode.keys⟩, ?_⟩
    · rw [hkept]
    · dsimp only
      rw [hdate, handOver_date]
      rfl

/-! ## Older or not -/

/-- What is wanted of a step: a description that is there before and after is not older after. -/
def NeverOlder (s s' : NodeStore) : Prop :=
  ∀ nr ∈ s, ∀ nr' ∈ s', nr.node.type ≠ .undefined → nr'.node.type ≠ .undefined →
    nr.node.id = nr'.node.id →
      nr.node.nodeDescriptionCreateTime.le nr'.node.nodeDescriptionCreateTime = true

/-- What takes the place of a description with its id is not older, or the clock is not where
the node is dated anew. -/
def NotOlder (now : Timeval) (s : NodeStore) (n : Node) : Prop :=
  ∀ nr ∈ s, nr.node.type ≠ .undefined → n.type ≠ .undefined → nr.node.id = n.id →
    if stamps n.isLocal n.interfaces.list
        ((s.filter (fun nr => n.eqNode nr.node)).map NodeRecord.node) then
      nr.node.nodeDescriptionCreateTime.le now = true
    else nr.node.nodeDescriptionCreateTime.le n.nodeDescriptionCreateTime = true

/-- Two defined nodes are equal by their ids. -/
theorem eqNode_of_defined {a b : Node} (ha : a.type ≠ .undefined) (hb : b.type ≠ .undefined) :
    a.eqNode b = decide (a.id = b.id) := by
  unfold Node.eqNode
  rw [if_neg (fun hor => hor.elim ha hb)]

/-- In a store without doubles, a description is only as old as itself. -/
theorem neverOlder_of_mem (h : Apart s) {nr nr' : NodeRecord} (hnr : nr ∈ s) (hnr' : nr' ∈ s)
    (hdef : nr.node.type ≠ .undefined) (hdef' : nr'.node.type ≠ .undefined)
    (hid : nr.node.id = nr'.node.id) :
    nr.node.nodeDescriptionCreateTime.le nr'.node.nodeDescriptionCreateTime = true := by
  by_cases hsame : nr = nr'
  · rw [hsame]
    exact Timeval.le_refl _
  · have hsymm : Std.Symm (fun a b : NodeRecord => a.node.eqNode b.node = false) :=
      ⟨fun a b hab => by rw [eqNode_comm]; exact hab⟩
    have hne := List.Pairwise.forall (R := fun a b : NodeRecord => a.node.eqNode b.node = false)
      h hnr hnr' hsame
    rw [eqNode_of_defined hdef hdef', decide_eq_false_iff_not] at hne
    exact absurd hid hne

theorem neverOlder_refl (h : Apart s) : NeverOlder s s :=
  fun _ hnr _ hnr' => neverOlder_of_mem h hnr hnr'

/-- What comes into a store in which nothing equals it has no older self. -/
theorem neverOlder_push (h : Apart s) {ref : Nat} {n : Node}
    (hn : ∀ nr ∈ s, n.eqNode nr.node = false) : NeverOlder s (s ++ [⟨ref, n⟩]) := by
  intro nr hnr nr' hnr' hdef hdef' hid
  rcases List.mem_append.mp hnr' with hold | hnew
  · exact neverOlder_of_mem h hnr hold hdef hdef' hid
  · rw [List.mem_singleton.mp hnew] at hdef' hid
    have hne := hn nr hnr
    rw [eqNode_of_defined hdef' hdef, decide_eq_false_iff_not] at hne
    exact absurd hid.symm hne

theorem notOlder_of_none (now : Timeval) {n : Node} (hn : ∀ nr ∈ s, n.eqNode nr.node = false) :
    NotOlder now s n := by
  intro nr hnr hdef hdef' hid
  have hne := hn nr hnr
  rw [eqNode_of_defined hdef' hdef, decide_eq_false_iff_not] at hne
  exact absurd hid.symm hne

/-- **Where a node replaces others, descriptions do not go back exactly if it is not older.** -/
theorem neverOlder_replace_iff {now : Timeval} {ref : Nat} {n n' : Node} (h : Apart s)
    (halike : Alike n' n) (hdate : n'.nodeDescriptionCreateTime = dateAfter now s n) :
    NeverOlder s (s.filter (fun nr => !n.eqNode nr.node) ++ [⟨ref, n'⟩]) ↔ NotOlder now s n := by
  unfold dateAfter at hdate
  constructor
  · intro hnever nr hnr hdef hdef' hid
    have hle := hnever nr hnr ⟨ref, n'⟩ (List.mem_append_right _ List.mem_cons_self) hdef
      (by rw [halike.type]; exact hdef') (hid.trans halike.id.symm)
    dsimp only at hle
    rw [hdate] at hle
    split at hle
    · rename_i hstamps
      rw [if_pos hstamps]
      exact hle
    · rename_i hstamps
      rw [if_neg hstamps]
      exact hle
  · intro hnot nr hnr nr' hnr' hdef hdef' hid
    -- the node put in is the only new one, the others were there before
    rcases List.mem_append.mp hnr' with hold | hnew
    · exact neverOlder_of_mem h hnr (List.mem_of_mem_filter hold) hdef hdef' hid
    · rw [List.mem_singleton.mp hnew] at hdef' hid ⊢
      dsimp only at hdef' hid ⊢
      rw [halike.type] at hdef'
      have hle := hnot nr hnr hdef hdef' (hid.trans halike.id)
      rw [hdate]
      split at hle
      · rename_i hstamps
        rw [if_pos hstamps]
        exact hle
      · rename_i hstamps
        rw [if_neg hstamps]
        exact hle

/-! ## Handlers -/

namespace NodeManager

/-- Each node is stored once, under a number below the next. -/
structure Sound (m : NodeManager) : Prop where
  apart : Apart m.nodeStore
  fresh : ∀ nr ∈ m.nodeStore, nr.ref < m.nextRef

theorem Sound.fresh_next {m : NodeManager} (h : Sound m) : Fresh m.nodeStore m.nextRef :=
  fun nr hnr => Nat.ne_of_lt (h.fresh nr hnr)

/-- What a handler does with a new node: it replaces what it equals, or comes to what is there,
or is not taken in. -/
structure Takes (now : Timeval) (s : NodeStore) (r : NodeRecord) (s' : NodeStore) : Prop where
  apart : Apart s'
  fresh : ∀ nr ∈ s', nr ∈ s ∨ nr.ref = r.ref
  iff : NeverOlder s s' ↔ NotOlder now s r.node

/-- The clock is not behind the date of a neighbour that has the interface come up. -/
def ClockFits (now : Timeval) (iface : InterfaceKey) : NodeStore → Prop
  | [] => True
  | nr :: s =>
      if nr.node.isNeighbor && nr.node.interfaces.has iface then
        nr.node.type ≠ .undefined → nr.node.isLocal = true →
          isDown iface nr.node.interfaces.list = true →
            nr.node.nodeDescriptionCreateTime.le now = true
      else ClockFits now iface s

/-- What an event needs of the store, for no description to go back. -/
def Fits (cfg : ManagerConfig) (m : NodeManager) (e : NodeEvent × ManagerEnv) : Prop :=
  match e.1 with
  | .received d =>
      match acceptedNode cfg e.2.now m.nodeStore d with
      | none => True
      | some node => NotOlder e.2.now m.nodeStore node
  | .interfaceUp iface => ClockFits e.2.now iface m.nodeStore
  | .retrieved answer => NotOlder e.2.now m.nodeStore (retrievedNode e.2.now answer)

/-- Adding a node that equals none. -/
theorem takes_addRef (now : Timeval) {s : NodeStore} {r : NodeRecord} {n : Node} (h : Apart s)
    (hfresh : Fresh s r.ref) (hn : ∀ nr ∈ s, r.node.eqNode nr.node = false) (halike : Alike n r.node) :
    Takes now s r (NodeStore.addRef s (some ⟨r.ref, n⟩)).1 := by
  have hn' : ∀ nr ∈ s, n.eqNode nr.node = false := fun nr hnr =>
    (halike.eqNode (Alike.refl nr.node)).trans (hn nr hnr)
  have hstored : storedRef s ⟨r.ref, n⟩ = false := by
    refine List.any_eq_false.mpr (fun nr hnr => ?_)
    unfold NodeRecord.eqRef
    rw [decide_eq_false (hfresh nr hnr), Bool.false_or, eqNode_comm, hn' nr hnr]
    exact Bool.false_ne_true
  have heq : (NodeStore.addRef s (some ⟨r.ref, n⟩)).1 = s ++ [⟨r.ref, { n with stored := true }⟩] := by
    unfold NodeStore.addRef
    dsimp only
    rw [hstored]
    rfl
  rw [heq]
  refine ⟨h.push (fun nr hnr => ?_), fun nr hnr => ?_, ?_⟩
  · rw [eqNode_comm]
    exact hn' nr hnr
  · rcases List.mem_append.mp hnr with hold | hnew
    · exact Or.inl hold
    · exact Or.inr (by rw [List.mem_singleton.mp hnew])
  · exact iff_of_true (neverOlder_push h hn') (notOlder_of_none now hn)

theorem takes_update {cfg : StoreConfig} {env : UpdateEnv} {s : NodeStore} {r : NodeRecord}
    {n : Node} (h : Apart s) (halike : Alike n r.node)
    (hdate : n.nodeDescriptionCreateTime = dateAfter env.now s r.node)
    (hstore : (NodeStore.update cfg env s (some r)).store =
      s.filter (fun nr => !r.node.eqNode nr.node) ++ [⟨r.ref, n⟩]) :
    Takes env.now s r (NodeStore.update cfg env s (some r)).store := by
  refine ⟨h.update cfg env (some r), fun nr hnr => ?_, ?_⟩
  · rw [hstore] at hnr
    rcases List.mem_append.mp hnr with hold | hnew
    · exact Or.inl (List.mem_of_mem_filter hold)
    · exact Or.inr (by rw [List.mem_singleton.mp hnew])
  · rw [hstore]
    exact neverOlder_replace_iff h halike hdate

theorem takes_nodeUpdate (cfg : ManagerConfig) (env : ManagerEnv) {s : NodeStore}
    {r : NodeRecord} (h : Apart s) (hfresh : Fresh s r.ref) :
    Takes env.now s r (nodeUpdate cfg env s r) := by
  unfold nodeUpdate
  dsimp only
  rcases update_spec cfg.store env.toUpdateEnv hfresh with
    ⟨hfound, hn⟩ | ⟨hfound, n, hstore, halike, hdate⟩
  · rw [if_neg (by rw [hfound]; exact Bool.false_ne_true)]
    split
    · exact ⟨h, fun nr hnr => Or.inl hnr, iff_of_true (neverOlder_refl h) (notOlder_of_none _ hn)⟩
    · refine takes_addRef env.now h hfresh hn ?_
      have hfold : ∀ (l : List NodeInterface) (n : Node), Alike n r.node →
          Alike (l.foldl (fun n i =>
            if env.interfaceStored i.key then n.setInterfaceUp env.now i.key else n) n) r.node := by
        intro l
        induction l with
        | nil => exact fun n hn => hn
        | cons i l ih =>
            intro n hn
            rw [List.foldl_cons]
            refine ih _ ?_
            split
            · exact (setInterfaceUp_alike env.now i.key n).trans hn
            · exact hn
      exact hfold _ _ (Alike.refl _)
  · rw [if_pos hfound]
    exact takes_update h halike hdate hstore

theorem takes_onRetrieveNode (cfg : ManagerConfig) (env : ManagerEnv) {m : NodeManager}
    (h : Sound m) (answer : Node ⊕ NodeInterface) :
    Takes env.now m.nodeStore ⟨m.nextRef, retrievedNode env.now answer⟩
      (m.onRetrieveNode cfg env answer).nodeStore := by
  unfold onRetrieveNode
  dsimp only
  rcases update_spec cfg.store env.toUpdateEnv (r := ⟨m.nextRef, retrievedNode env.now answer⟩)
    h.fresh_next with ⟨hfound, hn⟩ | ⟨hfound, n, hstore, halike, hdate⟩
  · rw [if_neg (by rw [hfound]; exact Bool.false_ne_true)]
    exact takes_addRef env.now h.apart h.fresh_next hn (Alike.refl _)
  · rw [if_pos hfound]
    exact takes_update h.apart halike hdate hstore

/-- The first neighbour with the interface is changed in its place. -/
theorem setNeighborUp_spec (now : Timeval) (iface : InterfaceKey) : ∀ s : NodeStore,
    s.setNeighborUp now iface = none ∧ ClockFits now iface s ∨
      ∃ pre nr post, s = pre ++ nr :: post ∧
        s.setNeighborUp now iface =
          some (pre ++ { nr with node := nr.node.setInterfaceUp now iface } :: post) ∧
        (ClockFits now iface s ↔
          (nr.node.type ≠ .undefined → nr.node.isLocal = true →
            isDown iface nr.node.interfaces.list = true →
              nr.node.nodeDescriptionCreateTime.le now = true))
  | [] => Or.inl ⟨rfl, trivial⟩
  | nr :: s => by
      rw [NodeStore.setNeighborUp, ClockFits]
      by_cases hfirst : (nr.node.isNeighbor && nr.node.interfaces.has iface) = true
      · rw [if_pos hfirst, if_pos hfirst]
        exact Or.inr ⟨[], nr, s, rfl, rfl, Iff.rfl⟩
      · rw [if_neg hfirst, if_neg hfirst]
        rcases setNeighborUp_spec now iface s with ⟨hnone, hfits⟩ | ⟨pre, x, post, hs, hset, hiff⟩
        · rw [hnone]
          exact Or.inl ⟨rfl, hfits⟩
        · rw [hset]
          refine Or.inr ⟨nr :: pre, x, post, by rw [hs]; rfl, rfl, hiff⟩

/-- What is in a list with one entry changed is the new entry, or was there. -/
theorem mem_of_mem_changed {pre post : NodeStore} {nr nr' x : NodeRecord}
    (h : x ∈ pre ++ nr' :: post) : x = nr' ∨ x ∈ pre ++ nr :: post := by
  rcases List.mem_append.mp h with hpre | hpost
  · exact Or.inr (List.mem_append_left _ hpre)
  · rcases List.mem_cons.mp hpost with heq | hpost
    · exact Or.inl heq
    · exact Or.inr (List.mem_append_right _ (List.mem_cons_of_mem _ hpost))

/-- An interface that comes up makes nothing equal that was not, and dates one node at most. -/
theorem neverOlder_raise {now : Timeval} {iface : InterfaceKey} {pre post : NodeStore}
    {nr : NodeRecord} (h : Apart (pre ++ nr :: post)) :
    Apart (pre ++ { nr with node := nr.node.setInterfaceUp now iface } :: post) ∧
      (NeverOlder (pre ++ nr :: post)
          (pre ++ { nr with node := nr.node.setInterfaceUp now iface } :: post) ↔
        (nr.node.type ≠ .undefined → nr.node.isLocal = true →
          isDown iface nr.node.interfaces.list = true →
            nr.node.nodeDescriptionCreateTime.le now = true)) := by
  have halike := setInterfaceUp_alike now iface nr.node
  have hdate := (dated_setInterfaceUp now iface nr.node).date
  have hmem : nr ∈ pre ++ nr :: post := List.mem_append_right _ List.mem_cons_self
  refine ⟨h.congr ?_, fun hnever hdef hlocal hdown => ?_, fun hclock x hx y hy hdef hdef' hid => ?_⟩
  · rw [List.map_append, List.map_append, List.map_cons, List.map_cons]
    unfold identity
    dsimp only
    rw [halike.type, halike.id, halike.keys]
  -- what the clock has to be is read off the node itself, before and after
  · have hle := hnever nr hmem { nr with node := nr.node.setInterfaceUp now iface }
      (List.mem_append_right _ List.mem_cons_self) hdef (by rw [halike.type]; exact hdef)
      halike.id.symm
    dsimp only at hle
    rw [hdate, hlocal, hdown] at hle
    exact hle
  · by_cases hraised : y = { nr with node := nr.node.setInterfaceUp now iface }
    · rw [hraised] at hdef' hid ⊢
      dsimp only at hdef' hid ⊢
      rw [halike.type] at hdef'
      have hle := neverOlder_of_mem h hx hmem hdef hdef' (hid.trans halike.id)
      rw [hdate]
      split
      · rename_i hanew
        rw [Bool.and_eq_true] at hanew
        exact Timeval.le_trans hle (hclock hdef' hanew.1 hanew.2)
      · exact hle
    · have hold : y ∈ pre ++ nr :: post := (mem_of_mem_changed hy).resolve_left hraised
      exact neverOlder_of_mem h hx hold hdef hdef' hid

/-- **One event**: the store stays sound, and no description goes back exactly if it fits. -/
theorem step_spec (cfg : ManagerConfig) {m : NodeManager} (h : Sound m)
    (e : NodeEvent × ManagerEnv) :
    Sound (m.step cfg e) ∧
      (NeverOlder m.nodeStore (m.step cfg e).nodeStore ↔ Fits cfg m e) := by
  -- a node that is taken in has the next reference, and those before it are less
  have hnew : ∀ {r : NodeRecord} {s' : NodeStore}, r.ref = m.nextRef →
      Takes e.2.now m.nodeStore r s' → Sound ⟨s', m.nextRef + 1⟩ := by
    intro r s' hr htakes
    refine ⟨htakes.apart, fun nr hnr => ?_⟩
    rcases htakes.fresh nr hnr with hold | heq
    · exact Nat.lt_succ_of_lt (h.fresh nr hold)
    · rw [heq, hr]
      exact Nat.lt_succ_self _
  obtain ⟨e, env⟩ := e
  cases e with
  | received d =>
      unfold step Fits onReceiveNodeDescription
      dsimp only
      cases hacc : acceptedNode cfg env.now m.nodeStore d with
      | none => exact ⟨h, iff_of_true (neverOlder_refl h.apart) trivial⟩
      | some node =>
          have htakes := takes_nodeUpdate cfg env (r := ⟨m.nextRef, node⟩) h.apart h.fresh_next
          exact ⟨hnew rfl htakes, htakes.iff⟩
  | interfaceUp iface =>
      unfold step Fits onNeighborInterfaceUp
      dsimp only
      rcases setNeighborUp_spec env.now iface m.nodeStore with
        ⟨hnone, hfits⟩ | ⟨pre, nr, post, hs, hset, hiff⟩
      · rw [hnone]
        exact ⟨h, iff_of_true (neverOlder_refl h.apart) hfits⟩
      · have hapart := h.apart
        have hfresh := h.fresh
        rw [hs] at hapart hfresh
        obtain ⟨hapart', hnever⟩ := @neverOlder_raise env.now iface _ _ _ hapart
        rw [hiff, hset, hs, Option.getD_some]
        refine ⟨⟨hapart', fun x hx => ?_⟩, hnever⟩
        rcases mem_of_mem_changed hx with rfl | hold
        · exact hfresh nr (List.mem_append_right _ List.mem_cons_self)
        · exact hfresh x hold
  | retrieved answer =>
      have htakes := takes_onRetrieveNode cfg env h answer
      exact ⟨hnew rfl htakes, htakes.iff⟩

instance (s s' : NodeStore) : Decidable (NeverOlder s s') := by
  unfold NeverOlder
  infer_instance

def ethernet (mac : UInt8) : InterfaceKey := ⟨.ethernet, [2, 0, 0, 0, 0, mac]⟩

theorem early_lo (sec : UInt8) : -9223372036854775808 ≤ (sec.toNat : Int) := by omega

theorem early_hi (sec : UInt8) : (sec.toNat : Int) ≤ 9223372036854775807 := by
  have hlt := sec.toNat_lt
  omega

/-- One of the first seconds. -/
def early (sec : UInt8) : Timeval := ⟨sec.toNat, 0, early_lo sec, early_hi sec, Timeval.whole_usec⟩

/-- A peer with one interface, and the date of its description. -/
def describedPeer (mac sec : UInt8) : Node :=
  { nodeOn .peer 1 mac false with nodeDescriptionCreateTime := early sec }

theorem describedPeer_defined (mac sec : UInt8) :
    (describedPeer mac sec).type ≠ .undefined := by
  intro h
  cases h

/-- Its description, received on an interface. -/
def received (mac sec remote : UInt8) : NodeEvent :=
  .received ⟨describedPeer mac sec, some (ethernet remote), describedPeer_defined mac sec⟩

end NodeManager

end Encoders.Nodes
