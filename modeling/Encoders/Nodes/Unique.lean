import Mathlib.Data.List.Nodup
import Mathlib.Data.List.Pairwise
import Encoders.Lib.Run
import Encoders.Nodes.NodeStore

/-!
# Each node is stored once

Equality of nodes is not transitive: an undefined node can equal two defined ones that are
different. What makes one record a node work all the same is that `update` removes *every*
record that equals the new node before it stores it, and that nothing it does to the new
node on the way changes what the comparison sees (`Alike`). So the loop can be read as two
filters and a fold (`updateLoop_spec`), and no two records that remain are equal, in any
order of calls (`node_store_keeps_nodes_apart`).
-/

namespace Encoders.Nodes

open Encoders.Lib Encoders.Data Encoders.Bloom Encoders.Connectivity

variable {k : InterfaceKey}

/-! ## What the comparison sees -/

/-- The two nodes look the same to `operator==`. -/
structure Alike (a b : Node) : Prop where
  type : a.type = b.type
  id : a.id = b.id
  keys : a.interfaces.keys = b.interfaces.keys

theorem Alike.refl (a : Node) : Alike a a := ⟨rfl, rfl, rfl⟩

theorem Alike.trans {a b c : Node} (h : Alike a b) (h' : Alike b c) : Alike a c :=
  ⟨h.type.trans h'.type, h.id.trans h'.id, h.keys.trans h'.keys⟩

theorem eqNode_eq (a b : Node) : a.eqNode b =
    if a.type = .undefined ∨ b.type = .undefined then
      a.interfaces.keys.any (fun k => b.interfaces.keys.any (fun k' => k = k'))
    else a.id = b.id := by
  unfold Node.eqNode NodeInterfaces.keys
  rw [List.any_map]
  simp only [Function.comp_def, List.any_map]

theorem Alike.eqNode {a a' b b' : Node} (h : Alike a a') (h' : Alike b b') :
    a.eqNode b = a'.eqNode b' := by
  rw [eqNode_eq, eqNode_eq, h.type, h'.type, h.id, h'.id, h.keys, h'.keys]

theorem has_of_alike {a b : Node} (h : Alike a b) (k : InterfaceKey) :
    a.interfaces.has k = b.interfaces.has k := by
  have hhas : ∀ s : NodeInterfaces, s.has k = s.keys.any (fun k' => k' = k) := by
    intro s
    unfold NodeInterfaces.has NodeInterfaces.keys
    rw [List.any_map]
    rfl
  rw [hhas, hhas, h.keys]

/-- The comparison does not mind the order. -/
theorem eqNode_comm (a b : Node) : a.eqNode b = b.eqNode a := by
  rw [eqNode_eq, eqNode_eq]
  by_cases hundef : a.type = .undefined ∨ b.type = .undefined
  · rw [if_pos hundef, if_pos hundef.symm, Bool.eq_iff_iff]
    simp only [List.any_eq_true, decide_eq_true_eq]
    refine ⟨fun h => ?_, fun h => ?_⟩
    · obtain ⟨k, hk, k', hk', heq⟩ := h
      exact ⟨k', hk', k, hk, heq.symm⟩
    · obtain ⟨k, hk, k', hk', heq⟩ := h
      exact ⟨k', hk', k, hk, heq.symm⟩
  · rw [if_neg hundef, if_neg (fun h => hundef h.symm)]
    simp only [eq_comm]

/-! ## Interfaces that are up -/

/-- The node has the interface, and has it up. -/
def IsUp (n : Node) (k : InterfaceKey) : Prop := ∃ i ∈ n.interfaces.list, i.key = k ∧ i.isUp = true

theorem raise_none : ∀ {l : List NodeInterface}, raise k l = none →
    ∀ i ∈ l, i.key = k → i.isUp = true
  | [], _, i, hi, _ => absurd hi List.not_mem_nil
  | x :: l, h, i, hi, hk => by
      rw [raise] at h
      by_cases hx : x.key = k ∧ x.isUp = false
      · rw [if_pos hx] at h
        cases h
      · rw [if_neg hx, Option.map_eq_none_iff] at h
        rcases List.mem_cons.mp hi with rfl | hmem
        · by_cases hup : i.isUp = true
          · exact hup
          · rw [Bool.not_eq_true] at hup
            exact absurd ⟨hk, hup⟩ hx
        · exact raise_none h i hmem hk

theorem raise_some : ∀ {l l' : List NodeInterface}, raise k l = some l' →
    (∃ i ∈ l', i.key = k ∧ i.isUp = true) ∧
    ∀ k', (∃ i ∈ l, i.key = k' ∧ i.isUp = true) → ∃ i ∈ l', i.key = k' ∧ i.isUp = true
  | [], _, h => by cases h
  | x :: l, l', h => by
      rw [raise] at h
      by_cases hx : x.key = k ∧ x.isUp = false
      · rw [if_pos hx, Option.some.injEq] at h
        subst h
        refine ⟨⟨_, List.mem_cons_self, hx.1, rfl⟩, ?_⟩
        intro k' hk'
        obtain ⟨i, hi, hik, hup⟩ := hk'
        rcases List.mem_cons.mp hi with rfl | hmem
        · rw [hx.2] at hup
          cases hup
        · exact ⟨i, List.mem_cons_of_mem _ hmem, hik, hup⟩
      · rw [if_neg hx] at h
        obtain ⟨t, ht, rfl⟩ := Option.map_eq_some_iff.mp h
        obtain ⟨⟨j, hj, hjk⟩, hkeep⟩ := raise_some ht
        refine ⟨⟨j, List.mem_cons_of_mem _ hj, hjk⟩, ?_⟩
        intro k' hk'
        obtain ⟨i, hi, hik, hup⟩ := hk'
        rcases List.mem_cons.mp hi with rfl | hmem
        · exact ⟨i, List.mem_cons_self, hik, hup⟩
        · obtain ⟨i', hi', hik'⟩ := hkeep k' ⟨i, hmem, hik, hup⟩
          exact ⟨i', List.mem_cons_of_mem _ hi', hik'⟩

theorem setUp_some {s l : NodeInterfaces} (h : s.setUp k = some l) :
    raise k s.list = some l.list := by
  obtain ⟨_, _, hraise, rfl⟩ := Option.pmap_eq_some_iff.mp h
  exact hraise

theorem setUp_none {s : NodeInterfaces} (h : s.setUp k = none) :
    raise k s.list = none := Option.pmap_eq_none_iff.mp h

/-- The time stamps are all that writing them changes. -/
theorem stamps_keep (now : Timeval) (n : Node) :
    let n' := (n.setNodeDescriptionCreateTime now).setNodeDescriptionUpdateTime now
    n'.type = n.type ∧ n'.id = n.id ∧ n'.interfaces = n.interfaces := by
  unfold Node.setNodeDescriptionUpdateTime Node.setNodeDescriptionCreateTime
  by_cases hlocal : (n.isLocalDevice || n.localApplication) = true
  · rw [if_pos hlocal]
    split
    · exact ⟨rfl, rfl, rfl⟩
    · exact ⟨rfl, rfl, rfl⟩
  · rw [if_neg hlocal]
    split
    · exact ⟨rfl, rfl, rfl⟩
    · exact ⟨rfl, rfl, rfl⟩

/-- What `setInterfaceUp` does to the interfaces, whatever it writes besides. -/
theorem setInterfaceUp_spec (now : Timeval) (k : InterfaceKey) (n : Node) :
    (n.setInterfaceUp now k).type = n.type ∧ (n.setInterfaceUp now k).id = n.id ∧
      (n.setInterfaceUp now k).interfaces = (n.interfaces.setUp k).getD n.interfaces := by
  unfold Node.setInterfaceUp
  cases n.interfaces.setUp k with
  | none => exact ⟨rfl, rfl, rfl⟩
  | some l => exact stamps_keep now { n with interfaces := l }

theorem setInterfaceUp_alike (now : Timeval) (k : InterfaceKey) (n : Node) :
    Alike (n.setInterfaceUp now k) n := by
  obtain ⟨htype, hid, hifaces⟩ := setInterfaceUp_spec now k n
  refine ⟨htype, hid, ?_⟩
  rw [hifaces]
  cases hs : n.interfaces.setUp k with
  | none => rfl
  | some l => exact map_key_raise (setUp_some hs)

/-- What is up stays up. -/
theorem setInterfaceUp_keeps {now : Timeval} {k' : InterfaceKey} {n : Node} (h : IsUp n k') :
    IsUp (n.setInterfaceUp now k) k' := by
  unfold IsUp
  rw [(setInterfaceUp_spec now k n).2.2]
  cases hs : n.interfaces.setUp k with
  | none => exact h
  | some l => exact (raise_some (setUp_some hs)).2 k' h

/-- **What `setInterfaceUp` is for.** -/
theorem setInterfaceUp_up {now : Timeval} {n : Node} (h : n.interfaces.has k = true) :
    IsUp (n.setInterfaceUp now k) k := by
  unfold IsUp
  rw [(setInterfaceUp_spec now k n).2.2]
  cases hs : n.interfaces.setUp k with
  | none =>
      obtain ⟨i, hi, hik⟩ := List.any_eq_true.mp h
      rw [decide_eq_true_eq] at hik
      exact ⟨i, hi, hik, raise_none (setUp_none hs) i hi hik⟩
  | some l => exact (raise_some (setUp_some hs)).1

/-- An interface of the node that is up is the only one with its key. -/
theorem IsUp.unique {n : Node} {i : NodeInterface} (hi : i ∈ n.interfaces.list)
    (h : IsUp n i.key) : i.isUp = true := by
  obtain ⟨j, hj, hkey, hup⟩ := h
  have heq : i = j := List.inj_on_of_nodup_map n.interfaces.distinct hi hj hkey.symm
  exact heq ▸ hup

/-! ## What an old node hands on -/

namespace NodeStore

variable {s : NodeStore}
variable {ref : Nat} {cfg : StoreConfig} {env : UpdateEnv}

theorem takeInterfaces_alike (now : Timeval) : ∀ (old : List NodeInterface) (n : Node),
    Alike (takeInterfaces now old n) n
  | [], n => Alike.refl n
  | i :: old, n => by
      unfold takeInterfaces
      rw [List.foldl_cons]
      by_cases hi : (n.interfaces.has i.key && i.isUp) = true
      · rw [if_pos hi]
        exact (takeInterfaces_alike now old _).trans (setInterfaceUp_alike now i.key n)
      · rw [if_neg hi]
        exact takeInterfaces_alike now old n

theorem takeInterfaces_keeps {now : Timeval} {k : InterfaceKey} :
    ∀ (old : List NodeInterface) (n : Node), IsUp n k → IsUp (takeInterfaces now old n) k
  | [], _, h => h
  | i :: old, n, h => by
      unfold takeInterfaces
      rw [List.foldl_cons]
      by_cases hi : (n.interfaces.has i.key && i.isUp) = true
      · rw [if_pos hi]
        exact takeInterfaces_keeps old _ (setInterfaceUp_keeps h)
      · rw [if_neg hi]
        exact takeInterfaces_keeps old n h

/-- **An interface that was up is up in the new node**, if the new node has it. -/
theorem takeInterfaces_up {now : Timeval} : ∀ (old : List NodeInterface) (n : Node)
    (j : NodeInterface), j ∈ old → j.isUp = true → n.interfaces.has j.key = true →
    IsUp (takeInterfaces now old n) j.key
  | [], _, _, hj, _, _ => absurd hj List.not_mem_nil
  | i :: old, n, j, hj, hup, hhas => by
      unfold takeInterfaces
      rw [List.foldl_cons]
      rcases List.mem_cons.mp hj with rfl | hmem
      · rw [if_pos (by rw [hhas, hup]; rfl)]
        exact takeInterfaces_keeps old _ (setInterfaceUp_up hhas)
      · by_cases hi : (n.interfaces.has i.key && i.isUp) = true
        · rw [if_pos hi]
          refine takeInterfaces_up old _ j hmem hup ?_
          exact (has_of_alike (setInterfaceUp_alike now i.key n) j.key).trans hhas
        · rw [if_neg hi]
          exact takeInterfaces_up old n j hmem hup hhas

/-- Only the interfaces change what the node has up. -/
theorem takeState_keeps (cfg : StoreConfig) (env : UpdateEnv) (ref oldRef : Nat) (old n : Node) :
    (takeState cfg env ref oldRef old n).type = n.type ∧
      (takeState cfg env ref oldRef old n).id = n.id ∧
      (takeState cfg env ref oldRef old n).interfaces = n.interfaces := by
  unfold takeState
  by_cases hlocal : old.localApplication = true
  · rw [if_pos hlocal]
    exact ⟨rfl, rfl, rfl⟩
  rw [if_neg hlocal]
  by_cases hcontinuous : cfg.continuousBloomfilters = true
  · rw [if_pos hcontinuous]
    by_cases hyoung : muchYounger cfg n old = true
    · rw [if_pos hyoung]
      exact ⟨rfl, rfl, rfl⟩
    · rw [if_neg hyoung]
      exact ⟨rfl, rfl, rfl⟩
  · rw [if_neg hcontinuous]
    exact ⟨rfl, rfl, rfl⟩

theorem takeOver_interfaces (cfg : StoreConfig) (env : UpdateEnv) (ref oldRef : Nat)
    (old n : Node) : (takeOver cfg env ref oldRef old n).interfaces =
      (takeInterfaces env.now old.interfaces.list n).interfaces :=
  (takeState_keeps cfg env ref oldRef old _).2.2

/-- **Nothing the new node takes over changes what it equals.** -/
theorem takeOver_alike (cfg : StoreConfig) (env : UpdateEnv) (ref oldRef : Nat) (old n : Node) :
    Alike (takeOver cfg env ref oldRef old n) n := by
  have hifaces := takeInterfaces_alike env.now old.interfaces.list n
  obtain ⟨htype, hid, hlist⟩ := takeState_keeps cfg env ref oldRef old
    (takeInterfaces env.now old.interfaces.list n)
  refine ⟨htype.trans hifaces.type, hid.trans hifaces.id, ?_⟩
  rw [← hifaces.keys, ← hlist]
  rfl

/-! ## The loop of `update` -/

/-- The node a record holds, when the call is given the node `r`: perhaps that very node. -/
def held (r nr : NodeRecord) : Node := if nr.ref = r.ref then r.node else nr.node

theorem eqRef_alike {n n' : Node} (h : Alike n n') (nr : NodeRecord) :
    NodeRecord.eqRef ⟨ref, n⟩ nr = NodeRecord.eqRef ⟨ref, n'⟩ nr := by
  unfold NodeRecord.eqRef
  rw [h.eqNode (Alike.refl nr.node)]

/-- **The loop, read as two filters.** The records that equal the node go and are listed, the
others stay, and the node is still the same to the comparison. -/
theorem updateLoop_spec (cfg : StoreConfig) (env : UpdateEnv) (ref : Nat) :
    ∀ (s : NodeStore) (n : Node),
      Alike (updateLoop cfg env ref n s).node n ∧
      (updateLoop cfg env ref n s).kept = s.filter (fun nr => !NodeRecord.eqRef ⟨ref, n⟩ nr) ∧
      (updateLoop cfg env ref n s).nl.map NodeRecord.ref =
        (s.filter (fun nr => NodeRecord.eqRef ⟨ref, n⟩ nr)).map NodeRecord.ref
  | [], n => ⟨Alike.refl n, rfl, rfl⟩
  | nr :: s, n => by
      rw [updateLoop]
      by_cases heq : NodeRecord.eqRef ⟨ref, n⟩ nr = true
      · rw [if_pos heq]
        have hover := takeOver_alike cfg env ref nr.ref (if nr.ref = ref then n else nr.node) n
        obtain ⟨hnode, hkept, hnl⟩ := updateLoop_spec cfg env ref s
          (takeOver cfg env ref nr.ref (if nr.ref = ref then n else nr.node) n)
        simp only [eqRef_alike hover] at hkept hnl
        refine ⟨hnode.trans hover, ?_, ?_⟩
        · rw [List.filter_cons_of_neg (by rw [heq]; exact Bool.false_ne_true)]
          exact hkept
        · rw [List.filter_cons_of_pos heq, List.map_cons, List.map_cons]
          exact congrArg (nr.ref :: ·) hnl
      · rw [if_neg heq]
        obtain ⟨hnode, hkept, hnl⟩ := updateLoop_spec cfg env ref s n
        refine ⟨hnode, ?_, ?_⟩
        · rw [List.filter_cons_of_pos (by rw [Bool.not_eq_true] at heq; rw [heq]; rfl)]
          exact congrArg (nr :: ·) hkept
        · rw [List.filter_cons_of_neg heq]
          exact hnl

/-- What the node has up at some point of the loop, it has up at the end. -/
theorem updateLoop_keeps {k : InterfaceKey} :
    ∀ (s : NodeStore) (n : Node), IsUp n k → IsUp (updateLoop cfg env ref n s).node k
  | [], _, h => h
  | nr :: s, n, h => by
      rw [updateLoop]
      by_cases heq : NodeRecord.eqRef ⟨ref, n⟩ nr = true
      · rw [if_pos heq]
        refine updateLoop_keeps s _ ?_
        unfold IsUp
        rw [takeOver_interfaces]
        exact takeInterfaces_keeps _ n h
      · rw [if_neg heq]
        exact updateLoop_keeps s n h

/-- **Interfaces stay up.** What an old node had up, the new node has up if it has it. -/
theorem updateLoop_up :
    ∀ (s : NodeStore) (n : Node) (nr : NodeRecord) (j : NodeInterface), nr ∈ s →
      NodeRecord.eqRef ⟨ref, n⟩ nr = true → nr.ref ≠ ref →
      j ∈ nr.node.interfaces.list → j.isUp = true → n.interfaces.has j.key = true →
      IsUp (updateLoop cfg env ref n s).node j.key
  | [], _, _, _, hnr, _, _, _, _, _ => absurd hnr List.not_mem_nil
  | x :: s, n, nr, j, hnr, heq, hother, hj, hup, hhas => by
      rw [updateLoop]
      rcases List.mem_cons.mp hnr with rfl | hmem
      · rw [if_pos heq, if_neg hother]
        refine updateLoop_keeps s _ ?_
        unfold IsUp
        rw [takeOver_interfaces]
        exact takeInterfaces_up _ n j hj hup hhas
      · by_cases hx : NodeRecord.eqRef ⟨ref, n⟩ x = true
        · rw [if_pos hx]
          have hover := takeOver_alike cfg env ref x.ref (if x.ref = ref then n else x.node) n
          refine updateLoop_up s _ nr j hmem ?_ hother hj hup ?_
          · rw [eqRef_alike hover]
            exact heq
          · exact (has_of_alike hover j.key).trans hhas
        · rw [if_neg hx]
          exact updateLoop_up s n nr j hmem heq hother hj hup hhas

/-! ## One record a node -/

/-- No two stored nodes are equal. -/
def Apart (s : NodeStore) : Prop := s.Pairwise (fun a b => a.node.eqNode b.node = false)

/-- A node that equals none is stored. -/
theorem Apart.push (h : Apart s) {n : Node} (hn : ∀ nr ∈ s, nr.node.eqNode n = false) :
    Apart (s ++ [⟨ref, n⟩]) := by
  refine List.pairwise_append.mpr ⟨h, List.pairwise_singleton _ _, ?_⟩
  intro a ha b hb
  rw [List.mem_singleton.mp hb]
  exact hn a ha

theorem eqNode_false_of_eqRef {a b : NodeRecord} (h : a.eqRef b = false) :
    a.node.eqNode b.node = false := by
  unfold NodeRecord.eqRef at h
  rw [Bool.or_eq_false_iff] at h
  exact h.2

theorem Apart.addRef (h : Apart s) (r : Option NodeRecord) : Apart (addRef s r).1 := by
  cases r with
  | none => exact h
  | some r =>
      have hadd : NodeStore.addRef s (some r) = if storedRef s r then (s, false)
        else (s ++ [⟨r.ref, { r.node with stored := true }⟩], true) := rfl
      rw [hadd]
      by_cases hstored : storedRef s r = true
      · rw [if_pos hstored]
        exact h
      · rw [if_neg hstored]
        refine h.push ?_
        intro nr hnr
        rw [Bool.not_eq_true] at hstored
        have hne := List.any_eq_false.mp hstored nr hnr
        exact eqNode_false_of_eqRef (Bool.not_eq_true _ ▸ hne)

theorem Apart.addPtr (h : Apart s) (r : Option NodeRecord) : Apart (addPtr s r).1 := by
  cases r with
  | none => exact h
  | some r =>
      have hadd : NodeStore.addPtr s (some r) = if storedNode s r.node then (s, false)
        else (s ++ [⟨r.ref, { r.node with stored := true }⟩], true) := rfl
      rw [hadd]
      by_cases hstored : storedNode s r.node = true
      · rw [if_pos hstored]
        exact h
      · rw [if_neg hstored]
        refine h.push ?_
        intro nr hnr
        rw [Bool.not_eq_true] at hstored
        exact Bool.not_eq_true _ ▸ List.any_eq_false.mp hstored nr hnr

/-- What is left when the equal records are gone is apart from the node. -/
theorem kept_apart {n n' : Node} (h : Alike n' n) :
    ∀ nr ∈ s.filter (fun nr => !NodeRecord.eqRef ⟨ref, n⟩ nr), nr.node.eqNode n' = false := by
  intro nr hnr
  have hne : NodeRecord.eqRef ⟨ref, n⟩ nr = false := by
    rw [← Bool.not_eq_true']
    exact (List.mem_filter.mp hnr).2
  rw [eqNode_comm, h.eqNode (Alike.refl nr.node)]
  exact eqNode_false_of_eqRef hne

theorem Apart.update (h : Apart s) (cfg : StoreConfig) (env : UpdateEnv) (r : Option NodeRecord) :
    Apart (NodeStore.update cfg env s r).store := by
  cases r with
  | none => exact h
  | some r =>
      obtain ⟨hnode, hkept, _⟩ := updateLoop_spec cfg env r.ref s r.node
      have hleft : Apart (updateLoop cfg env r.ref r.node s).kept := by
        rw [hkept]
        exact h.filter _
      unfold NodeStore.update
      by_cases hfound : (updateLoop cfg env r.ref r.node s).nl.isEmpty = true
      · simp only [hfound, if_true]
        exact hleft
      · simp only [hfound]
        refine hleft.push ?_
        rw [hkept]
        exact kept_apart ⟨hnode.type, hnode.id, hnode.keys⟩

/-- What nothing but the store and `update` changes in the stored nodes. -/
def identity (r : NodeRecord) : NodeType × Vector UInt8 20 × List InterfaceKey :=
  (r.node.type, r.node.id, r.node.interfaces.keys)

/-- The comparison, of what it is made by. -/
def eqIdentity (a b : NodeType × Vector UInt8 20 × List InterfaceKey) : Bool :=
  if a.1 = .undefined ∨ b.1 = .undefined then a.2.2.any (fun k => b.2.2.any (fun k' => k = k'))
  else a.2.1 = b.2.1

theorem Apart.iff_identity (s : NodeStore) :
    Apart s ↔ (s.map identity).Pairwise (fun a b => eqIdentity a b = false) := by
  rw [List.pairwise_map]
  refine iff_of_eq (congrArg (fun R => List.Pairwise R s) ?_)
  funext a b
  rw [eqNode_eq]
  rfl

theorem Apart.congr {s' : NodeStore} (h : Apart s) (heq : s'.map identity = s.map identity) :
    Apart s' := by
  rw [Apart.iff_identity, heq, ← Apart.iff_identity]
  exact h

/-- Between the calls, the stored nodes keep what they are compared by. -/
def Undisturbed (s : NodeStore) : NodeOp → Prop
  | .meanwhile s' => s'.map identity = s.map identity
  | _ => True

instance (s : NodeStore) : ∀ op, Decidable (Undisturbed s op)
  | .meanwhile s' => inferInstanceAs (Decidable (s'.map identity = s.map identity))
  | .addRef _ => inferInstanceAs (Decidable True)
  | .addPtr _ => inferInstanceAs (Decidable True)
  | .update _ _ => inferInstanceAs (Decidable True)
  | .removeIface _ => inferInstanceAs (Decidable True)
  | .removeType _ => inferInstanceAs (Decidable True)
  | .removeNode _ => inferInstanceAs (Decidable True)

/-- **One call.** -/
theorem Apart.step {cfg : StoreConfig} {s : NodeStore} (h : Apart s) {op : NodeOp}
    (hop : Undisturbed s op) : Apart (s.step cfg op) := by
  cases op with
  | addRef r => exact h.addRef r
  | addPtr r => exact h.addPtr r
  | update env r => exact h.update cfg env r
  | removeIface iface =>
      cases iface with
      | none => exact h
      | some k => exact List.Pairwise.sublist List.eraseP_sublist h
  | removeType type => exact List.Pairwise.sublist List.filter_sublist h
  | removeNode r =>
      cases r with
      | none => exact h
      | some r => exact List.Pairwise.sublist List.eraseP_sublist h
  | meanwhile s' => exact h.congr hop

/-- What a successful `update` leaves. -/
structure Replaced (s : NodeStore) (r : NodeRecord) (u : Updated) : Prop where
  /-- the stored nodes equal to the node are listed -/
  listed : u.nl.map NodeRecord.ref =
    (s.filter (fun nr => r.eqRef nr)).map NodeRecord.ref
  /-- and exactly they are gone; the node is there, once, looks as it did, and has up what one
  of them had up -/
  store : ∃ n, u.store = s.filter (fun nr => !r.eqRef nr) ++ [⟨r.ref, n⟩] ∧
    u.store.filter (fun nr => r.eqRef nr) = [⟨r.ref, n⟩] ∧ Alike n r.node ∧ n.stored = true ∧
    ∀ i ∈ n.interfaces.list, ∀ nr ∈ s, r.eqRef nr = true →
      ∀ j ∈ (held r nr).interfaces.list, j.key = i.key → j.isUp = true → i.isUp = true

theorem update_replaces {r : NodeRecord} (h : (NodeStore.update cfg env s (some r)).found = true) :
    Replaced s r (NodeStore.update cfg env s (some r)) := by
  obtain ⟨hnode, hkept, hnl⟩ := updateLoop_spec cfg env r.ref s r.node
  have hfound : (updateLoop cfg env r.ref r.node s).nl.isEmpty = false := by
    by_cases hempty : (updateLoop cfg env r.ref r.node s).nl.isEmpty = true
    · unfold NodeStore.update at h
      simp only [hempty, if_true] at h
      exact absurd h Bool.false_ne_true
    · exact Bool.not_eq_true _ ▸ hempty
  have hu : NodeStore.update cfg env s (some r) =
      ⟨(updateLoop cfg env r.ref r.node s).kept ++
          [⟨r.ref, { (updateLoop cfg env r.ref r.node s).node with stored := true }⟩],
        (updateLoop cfg env r.ref r.node s).nl,
        (updateLoop cfg env r.ref r.node s).obsolete, true⟩ := by
    unfold NodeStore.update
    simp only [hfound, Bool.false_eq_true, if_false]
  rw [hu]
  refine ⟨hnl, _, congrArg (· ++ _) hkept, ?_, ⟨hnode.type, hnode.id, hnode.keys⟩, rfl, ?_⟩
  · show List.filter _ ((updateLoop cfg env r.ref r.node s).kept ++ [_]) = _
    have hself : ∀ n, r.eqRef ⟨r.ref, n⟩ = true := fun n => by
      unfold NodeRecord.eqRef
      rw [decide_eq_true rfl, Bool.true_or]
    have hnone : (s.filter (fun nr => !r.eqRef nr)).filter (fun nr => r.eqRef nr) = [] := by
      refine List.filter_eq_nil_iff.mpr (fun nr hnr heq => ?_)
      have hne := (List.mem_filter.mp hnr).2
      rw [heq] at hne
      exact absurd hne Bool.false_ne_true
    rw [hkept, List.filter_append, hnone, List.filter_cons_of_pos (hself _)]
    rfl
  · intro i hi nr hnr heq j hj hkey hup
    refine IsUp.unique hi ?_
    rw [← hkey]
    have hhas : r.node.interfaces.has j.key = true := by
      rw [← has_of_alike hnode, hkey]
      exact List.any_eq_true.mpr ⟨i, hi, decide_eq_true rfl⟩
    by_cases hsame : nr.ref = r.ref
    · -- the record held the very node, which had the interface up all along
      have hheld : held r nr = r.node := if_pos hsame
      rw [hheld] at hj
      exact updateLoop_keeps s r.node ⟨j, hj, rfl, hup⟩
    · have hheld : held r nr = nr.node := if_neg hsame
      rw [hheld] at hj
      exact updateLoop_up s r.node nr j hnr heq hsame hj hup hhas

/--
**Each node is stored once, and replaced whole.** In every run no two stored nodes are equal;
and an `update` that succeeds there removes the stored nodes that equal the node and no other,
lists them, stores the node once, and leaves up in it every interface of its own that was up in
one of them.
-/
theorem node_store_keeps_nodes_apart (cfg : StoreConfig) (ops : List NodeOp)
    (h : Guarded (fun s op => some (NodeStore.step cfg s op)) Undisturbed [] ops) :
    Apart (ops.foldl (NodeStore.step cfg) []) ∧
    ∀ (env : UpdateEnv) (r : NodeRecord),
      (NodeStore.update cfg env (ops.foldl (NodeStore.step cfg) []) (some r)).found = true →
      Replaced (ops.foldl (NodeStore.step cfg) []) r
        (NodeStore.update cfg env (ops.foldl (NodeStore.step cfg) []) (some r)) := by
  refine ⟨?_, fun env r hfound => update_replaces hfound⟩
  obtain ⟨s, hs, hapart⟩ := run_invariant (P := Apart)
    (fun s op happ hop => ⟨_, rfl, @Apart.step cfg s happ op hop⟩) ops [] List.Pairwise.nil h
  rw [run_total, Option.some.injEq] at hs
  rw [hs]
  exact hapart

/-- A node with one interface. -/
def nodeOn (type : NodeType) (id : UInt8) (mac : UInt8) (isUp : Bool) : Node where
  type := type
  id := Vector.replicate 20 id
  proxyId := Vector.replicate 20 0
  interfaces := ⟨[⟨⟨.ethernet, [2, 0, 0, 0, 0, mac]⟩, isUp⟩], List.nodup_singleton _⟩
  doBF := none
  doBF2 := none
  nodeDescriptionCreateTime := Timeval.invalid
  nodeDescriptionUpdateTime := Timeval.invalid
  localApplication := false
  matchThreshold := 0
  numberOfDataObjectsPerMatch := 10
  deleteStateOnDeRegister := false
  nodeDescExch := false
  stored := false

/-- A filter of one byte and one salt, with nothing in it. -/
def emptyFilter : KernelFilter := ⟨.normal ⟨1, 8, 0, #v[7], #v[0]⟩, 0, 0⟩

/-- A peer is known, and a neighbour is found that has only an interface; then it goes down. -/
def acquaintance : List NodeOp :=
  [.addRef (some ⟨1, nodeOn .peer 1 1 true⟩), .addPtr (some ⟨2, nodeOn .undefined 0 2 true⟩),
    .meanwhile [⟨1, nodeOn .peer 1 1 false⟩, ⟨2, nodeOn .undefined 0 2 true⟩]]

/-- The neighbour was the peer, on another interface. -/
theorem node_store_keeps_nodes_apart_acquaintance :
    Apart (acquaintance.foldl (NodeStore.step ⟨true, true, 5000⟩) []) ∧
    Replaced (acquaintance.foldl (NodeStore.step ⟨true, true, 5000⟩) [])
      ⟨3, nodeOn .peer 1 2 false⟩
      (NodeStore.update ⟨true, true, 5000⟩ ⟨Timeval.invalid, fun _ => emptyFilter, fun _ => false⟩
        (acquaintance.foldl (NodeStore.step ⟨true, true, 5000⟩) [])
        (some ⟨3, nodeOn .peer 1 2 false⟩)) :=
  have h := node_store_keeps_nodes_apart ⟨true, true, 5000⟩ acquaintance (by decide)
  ⟨h.1, h.2 _ _ (by decide +kernel)⟩

end NodeStore

end Encoders.Nodes
