import Mathlib.Data.List.Perm.Subperm
import Mathlib.Data.List.Nodup
import Mathlib.Order.Lattice
import Encoders.Container.LinkedList

/-!
# `List` refines a sequence

`Owns m i cs` ties the ring of list `i` to its nodes and their objects, in order. Two edits are
made of a ring, a node linked in and a node taken out, and both say what became of the nodes
of the list and that no other node was touched (`Changes`), so that a loop of edits of one list
is seen by no other list.

The count is not part of `Owns`: the copy constructor takes it over from the source and then
counts every element again.
-/

namespace Encoders.Container

open Encoders.Lib

namespace ListMemory

variable {α : Type}
variable {cs ys zs : List (Place × α)} {c : Place × α} {m m' : ListMemory α} {i : Nat}
variable {cs' : List (Place × α)} {a : Place}
  {n : ListHead α}

/-- The links of all nodes. -/
def links (m : ListMemory α) : Links Place where
  prev a := (m.node a).map ListHead.prev
  next a := (m.node a).map ListHead.next

/-- The object in a node. -/
def objAt (m : ListMemory α) (a : Place) : Option α := (m.node a).bind ListHead.obj

/-- The places of nodes with their objects. -/
def places (cs : List (Place × α)) : List Place := cs.map Prod.fst

@[simp] theorem places_cons (c : Place × α) (cs : List (Place × α)) :
    places (c :: cs) = c.1 :: places cs := rfl

@[simp] theorem places_append (cs ds : List (Place × α)) :
    places (cs ++ ds) = places cs ++ places ds := List.map_append

theorem mem_places (h : c ∈ cs) : c.1 ∈ places cs :=
  List.mem_map_of_mem h

/-- A node that was made by `new`, before the place for the next one. -/
def Made (m : ListMemory α) (a : Place) : Prop := ∃ k, a = .node k ∧ k < m.fresh

/-- The ring of a list: its nodes, and the object in each. -/
structure Owns (m : ListMemory α) (i : Nat) (cs : List (Place × α)) : Prop where
  ring : Ring m.links (.head i) (places cs)
  nodup : (places cs).Nodup
  objs : ∀ c ∈ cs, m.objAt c.1 = some c.2
  made : ∀ a ∈ places cs, m.Made a

/-- An edit of list `i`, which had the nodes `cs` and has `cs'` now. -/
structure Changes (m m' : ListMemory α) (i : Nat) (cs cs' : List (Place × α)) : Prop where
  owned : m.Owns i cs
  owns : m'.Owns i cs'
  others : ∀ a, a ≠ .head i → a ∉ places cs → (∀ k, a = .node k → k < m.fresh) →
    m'.node a = m.node a
  grows : m.fresh ≤ m'.fresh
  new : ∀ a ∈ places cs', a ∈ places cs ∨ ∃ k, a = .node k ∧ m.fresh ≤ k
  sizes : ∀ j, j ≠ i → m'.size j = m.size j

theorem Owns.head_notMem (h : m.Owns i cs) (j : Nat) : Place.head j ∉ places cs := by
  intro hmem
  obtain ⟨k, hk, -⟩ := h.made _ hmem
  cases hk

theorem Owns.nodup_cons (h : m.Owns i cs) : (Place.head i :: places cs).Nodup :=
  List.nodup_cons.mpr ⟨h.head_notMem i, h.nodup⟩

theorem Owns.fresh_notMem (h : m.Owns i cs) : Place.node m.fresh ∉ Place.head i :: places cs := by
  intro hmem
  rcases List.mem_cons.mp hmem with hcon | hmem
  · cases hcon
  · obtain ⟨k, hk, hlt⟩ := h.made _ hmem
    injection hk with hk
    omega

/-- No list has more nodes than were ever made. -/
theorem Owns.length_le (h : m.Owns i cs) : cs.length ≤ m.fresh := by
  have hsub : places cs ⊆ (List.range m.fresh).map Place.node := by
    intro a ha
    obtain ⟨k, rfl, hk⟩ := h.made a ha
    exact List.mem_map_of_mem (List.mem_range.mpr hk)
  have hle := (h.nodup.subperm hsub).length_le
  rwa [places, List.length_map, List.length_map, List.length_range] at hle

theorem Changes.refl (h : m.Owns i cs) : Changes m m i cs cs :=
  ⟨h, h, fun _ _ _ _ => rfl, le_refl _, fun _ ha => Or.inl ha, fun _ _ => rfl⟩

theorem Changes.trans {m m' m'' : ListMemory α} {i : Nat} {cs cs' cs'' : List (Place × α)}
    (h : Changes m m' i cs cs') (h' : Changes m' m'' i cs' cs'') : Changes m m'' i cs cs'' := by
  refine ⟨h.owned, h'.owns, fun a hhead ha hold => ?_, le_trans h.grows h'.grows, fun a ha => ?_,
    fun j hj => (h'.sizes j hj).trans (h.sizes j hj)⟩
  · refine (h'.others a hhead (fun hmem => ?_) (fun k hk => ?_)).trans (h.others a hhead ha hold)
    · rcases h.new a hmem with hmem | ⟨k, hk, hle⟩
      · exact ha hmem
      · have := hold k hk
        omega
    · exact lt_of_lt_of_le (hold k hk) h.grows
  · rcases h'.new a ha with ha | ⟨k, hk, hle⟩
    · exact h.new a ha
    · exact Or.inr ⟨k, hk, le_trans h.grows hle⟩

/-- Another list is not changed. -/
theorem Owns.frame {j : Nat} {ds : List (Place × α)} (h : m.Owns j ds)
    (hchange : Changes m m' i cs cs') (hij : j ≠ i) (hapart : ∀ a ∈ places ds, a ∉ places cs) :
    m'.Owns j ds := by
  have hsame : ∀ a ∈ Place.head j :: places ds, m'.node a = m.node a := by
    intro a ha
    rcases List.mem_cons.mp ha with rfl | ha
    · exact hchange.others _ (fun hcon => hij (Place.head.inj hcon)) (hchange.owned.head_notMem j)
        (fun k hk => by cases hk)
    · obtain ⟨k, rfl, hk⟩ := h.made a ha
      refine hchange.others _ (fun hcon => by cases hcon) (hapart _ ha) (fun k' hk' => ?_)
      injection hk' with hk'
      exact hk' ▸ hk
  refine ⟨h.ring.congr (fun a ha => ?_), h.nodup, fun c hc => ?_, fun a ha => ?_⟩
  · simp only [links, hsame a ha, and_self]
  · rw [objAt, hsame _ (List.mem_cons_of_mem _ (mem_places hc))]
    exact h.objs c hc
  · obtain ⟨k, hk, hlt⟩ := h.made a ha
    exact ⟨k, hk, lt_of_lt_of_le hlt hchange.grows⟩

/-! ## The two edits -/

/-- The node at a place of a ring. -/
theorem Owns.node_at {m : ListMemory α} {i : Nat} {ys zs : List (Place × α)}
    (h : m.Owns i (ys ++ zs)) :
    ∃ p n, m.node (nodeBefore (.head i) (places ys)) = some p ∧
      m.node (nodeAt (.head i) (places zs)) = some n ∧
      p.next = nodeAt (.head i) (places zs) ∧ n.prev = nodeBefore (.head i) (places ys) := by
  have hring := h.ring
  rw [places_append] at hring
  obtain ⟨hnext, hprev⟩ := hring.joined
  obtain ⟨p, hp, hpn⟩ := Option.map_eq_some_iff.mp hnext
  obtain ⟨n, hn, hnp⟩ := Option.map_eq_some_iff.mp hprev
  exact ⟨p, n, hp, hn, hpn, hnp⟩

@[simp] theorem next_put (m : ListMemory α) (a : Place) (n : Option (ListHead α)) :
    (m.put a n).links.next = Function.update m.links.next a (n.map ListHead.next) :=
  Function.comp_update (Option.map ListHead.next) m.node a n

@[simp] theorem prev_put (m : ListMemory α) (a : Place) (n : Option (ListHead α)) :
    (m.put a n).links.prev = Function.update m.links.prev a (n.map ListHead.prev) :=
  Function.comp_update (Option.map ListHead.prev) m.node a n

@[simp] theorem objAt_put (m : ListMemory α) (a : Place) (n : Option (ListHead α)) :
    (m.put a n).objAt = Function.update m.objAt a (n.bind ListHead.obj) :=
  Function.comp_update (fun o : Option (ListHead α) => o.bind ListHead.obj) m.node a n

/-- What is left alone by setting links of a node. -/
structure Relinks (m m' : ListMemory α) (a : Place) : Prop where
  objs : m'.objAt = m.objAt
  others : ∀ b, b ≠ a → m'.node b = m.node b
  there : ∃ n, m'.node a = some n
  fresh : m'.fresh = m.fresh
  size : m'.size = m.size

/-- What `a->next = v` does. -/
theorem setNext_spec (v : Place) (h : m.node a = some n) :
    ∃ m', m.setNext a v = some m' ∧ m'.links.next = Function.update m.links.next a (some v) ∧
      m'.links.prev = m.links.prev ∧ Relinks m m' a := by
  have hprev : some n.prev = m.links.prev a := (congrArg (Option.map ListHead.prev) h).symm
  have hobj : n.obj = m.objAt a := by rw [objAt, h, Option.bind_some]
  refine ⟨m.put a (some { n with next := v }), by rw [setNext, h, Option.map_some], ?_, ?_, ?_,
    fun b hb => Function.update_of_ne hb _ _, ⟨_, Function.update_self a _ _⟩, rfl, rfl⟩
  · rw [next_put, Option.map_some]
  · rw [prev_put, Option.map_some, hprev, Function.update_eq_self]
  · rw [objAt_put, Option.bind_some, hobj, Function.update_eq_self]

/-- What `a->prev = v` does. -/
theorem setPrev_spec (v : Place) (h : m.node a = some n) :
    ∃ m', m.setPrev a v = some m' ∧ m'.links.prev = Function.update m.links.prev a (some v) ∧
      m'.links.next = m.links.next ∧ Relinks m m' a := by
  have hnext : some n.next = m.links.next a := (congrArg (Option.map ListHead.next) h).symm
  have hobj : n.obj = m.objAt a := by rw [objAt, h, Option.bind_some]
  refine ⟨m.put a (some { n with prev := v }), by rw [setPrev, h, Option.map_some], ?_, ?_, ?_,
    fun b hb => Function.update_of_ne hb _ _, ⟨_, Function.update_self a _ _⟩, rfl, rfl⟩
  · rw [prev_put, Option.map_some]
  · rw [next_put, Option.map_some, hnext, Function.update_eq_self]
  · rw [objAt_put, Option.bind_some, hobj, Function.update_eq_self]

/-- A node is somewhere else if another one stays where it is. -/
theorem Relinks.node {b : Place} (h : Relinks m m' a) (hb : m.node b = some n) :
    ∃ n', m'.node b = some n' := by
  by_cases hab : b = a
  · rw [hab]
    exact h.there
  · exact ⟨n, (h.others b hab).trans hb⟩

/-- What `new container(obj, next)` does to the links. -/
theorem newContainer_links {before behind : Place} {p : ListHead α} (hp : m.node before = some p)
    (hn : m.node behind = some n) (hnp : n.prev = before) (hpc : before ≠ .node m.fresh)
    (hnc : behind ≠ .node m.fresh) (x : α) :
    ∃ m', m.newContainer x behind = some m' ∧
      m'.links.next = Function.update (Function.update m.links.next (.node m.fresh) (some behind))
        before (some (.node m.fresh)) ∧
      m'.links.prev = Function.update (Function.update m.links.prev (.node m.fresh) (some before))
        behind (some (.node m.fresh)) ∧
      m'.objAt = Function.update m.objAt (.node m.fresh) (some x) ∧
      (∀ b, b ≠ .node m.fresh → b ≠ before → b ≠ behind → m'.node b = m.node b) ∧
      m'.fresh = m.fresh + 1 ∧ m'.size = m.size := by
  generalize hc : Place.node m.fresh = c at *
  -- the node is made, then known to the one before it and to the one behind it
  generalize hm₁ : ({ m.put c (some ⟨before, behind, some x⟩) with fresh := m.fresh + 1 } :
    ListMemory α) = m₁
  have hnode₁ : ∀ b, b ≠ c → m₁.node b = m.node b := by
    intro b hb
    rw [← hm₁]
    exact Function.update_of_ne hb _ _
  have hnext₁ : m₁.links.next = Function.update m.links.next c (some behind) := by
    rw [← hm₁]
    exact next_put m c _
  have hprev₁ : m₁.links.prev = Function.update m.links.prev c (some before) := by
    rw [← hm₁]
    exact prev_put m c _
  have hobj₁ : m₁.objAt = Function.update m.objAt c (some x) := by
    rw [← hm₁]
    exact objAt_put m c _
  obtain ⟨m₂, hm₂, hnext₂, hprev₂, hkeep₂⟩ :=
    setNext_spec c (show m₁.node before = some p from (hnode₁ before hpc).trans hp)
  obtain ⟨n', hn'⟩ := hkeep₂.node (show m₁.node behind = some n from (hnode₁ behind hnc).trans hn)
  obtain ⟨m₃, hm₃, hprev₃, hnext₃, hkeep₃⟩ := setPrev_spec c hn'
  refine ⟨m₃, ?_, by rw [hnext₃, hnext₂, hnext₁], by rw [hprev₃, hprev₂, hprev₁],
    by rw [hkeep₃.objs, hkeep₂.objs, hobj₁], fun b hb hbp hbn => ?_, ?_, ?_⟩
  · rw [newContainer, hn, Option.bind_eq_bind, Option.bind_some]
    dsimp only
    rw [hc, hnp, hm₁, hm₂, Option.bind_eq_bind, Option.bind_some, hm₃]
  · rw [hkeep₃.others b hbn, hkeep₂.others b hbp, hnode₁ b hb]
  · rw [hkeep₃.fresh, hkeep₂.fresh, ← hm₁]
  · rw [hkeep₃.size, hkeep₂.size, ← hm₁]
    rfl

/-- What is no node of a list is not next to a place of it. -/
theorem ne_neighbours {i : Nat} {ys zs : List (Place × α)} {a : Place} (hhead : a ≠ .head i)
    (ha : a ∉ places (ys ++ zs)) : a ≠ nodeBefore (.head i) (places ys) ∧
      a ≠ nodeAt (.head i) (places zs) := by
  rw [places_append] at ha
  constructor
  · rintro rfl
    rcases List.mem_cons.mp (nodeBefore_mem (Place.head i) (places ys)) with hcon | hmem
    · exact hhead hcon
    · exact ha (List.mem_append_left _ hmem)
  · rintro rfl
    rcases List.mem_cons.mp (nodeAt_mem (Place.head i) (places zs)) with hcon | hmem
    · exact hhead hcon
    · exact ha (List.mem_append_right _ hmem)

theorem mem_places_middle : a ∈ places (ys ++ c :: zs) ↔ a = c.1 ∨ a ∈ places (ys ++ zs) := by
  rw [places_append, places_cons, places_append, List.perm_middle.mem_iff, List.mem_cons]

/-- **`new container` links a node in**: the new element comes before the one at `next`. -/
theorem newContainer_spec {m : ListMemory α} {i : Nat} {ys zs : List (Place × α)}
    (h : m.Owns i (ys ++ zs)) (x : α) :
    ∃ m', m.newContainer x (nodeAt (.head i) (places zs)) = some m' ∧ m'.size = m.size ∧
      Changes m m' i (ys ++ zs) (ys ++ (.node m.fresh, x) :: zs) := by
  obtain ⟨p, n, hp, hn, -, hnp⟩ := h.node_at
  have hnew := h.fresh_notMem
  have hcons := h.nodup_cons
  have hring := h.ring
  obtain ⟨hpc, hnc⟩ := @ne_neighbours α i ys zs (.node m.fresh) (fun hcon => by cases hcon)
    (fun hmem => hnew (List.mem_cons_of_mem _ hmem))
  rw [places_append] at hcons hring
  obtain ⟨m', hm', hnext, hprev, hobj, hothers, hfresh, hsize⟩ :=
    newContainer_links hp hn hnp hpc.symm hnc.symm x
  refine ⟨m', hm', hsize, h, ⟨?_, ?_, fun c hc => ?_, fun a ha => ?_⟩, fun a hhead ha hold => ?_,
    by omega, fun a ha => ?_, fun j _ => congrFun hsize j⟩
  · rw [places_append, places_cons]
    rw [places_append] at hnew
    -- the four links between the new node and its neighbours, and then all others
    refine hring.link hcons hnew ⟨?_, ?_⟩ ⟨?_, ?_⟩ (fun b hb hbc => ?_) (fun b hb hbc => ?_)
    · rw [hnext, Function.update_self]
    · rw [hprev, Function.update_of_ne hnc, Function.update_self]
    · rw [hnext, Function.update_of_ne hpc, Function.update_self]
    · rw [hprev, Function.update_self]
    · rw [hnext, Function.update_of_ne hb, Function.update_of_ne hbc]
    · rw [hprev, Function.update_of_ne hb, Function.update_of_ne hbc]
  · rw [places_append, places_cons]
    refine List.nodup_middle.mpr (List.nodup_cons.mpr ⟨?_, (List.nodup_cons.mp hcons).2⟩)
    rw [← places_append]
    exact fun hmem => hnew (List.mem_cons_of_mem _ hmem)
  · rw [hobj]
    rcases List.mem_cons.mp (List.perm_middle.mem_iff.mp hc) with rfl | hc
    · rw [Function.update_self]
    · rw [Function.update_of_ne, h.objs c hc]
      exact fun heq => hnew (List.mem_cons_of_mem _ (heq ▸ mem_places hc))
  · rcases mem_places_middle.mp ha with rfl | ha
    · exact ⟨m.fresh, rfl, by omega⟩
    · obtain ⟨k, hk, hlt⟩ := h.made a ha
      exact ⟨k, hk, by omega⟩
  · obtain ⟨hap, han⟩ := ne_neighbours hhead ha
    exact hothers a (fun heq => absurd (hold _ heq) (Nat.lt_irrefl _)) hap han
  · rcases mem_places_middle.mp ha with rfl | ha
    · exact Or.inr ⟨m.fresh, rfl, Nat.le_refl _⟩
    · exact Or.inl ha

/-- What the destructor of a node does to the links. -/
theorem unlink_links {before behind : Place} {p c : ListHead α} (hp : m.node before = some p)
    (hn : m.node behind = some n) (hcp : c.prev = before) (hcn : c.next = behind) :
    ∃ m', m.unlink c = some m' ∧
      m'.links.next = Function.update m.links.next before (some behind) ∧
      m'.links.prev = Function.update m.links.prev behind (some before) ∧ m'.objAt = m.objAt ∧
      (∀ b, b ≠ before → b ≠ behind → m'.node b = m.node b) ∧ m'.fresh = m.fresh ∧
      m'.size = m.size := by
  obtain ⟨m₁, hm₁, hprev₁, hnext₁, hkeep₁⟩ := setPrev_spec before hn
  obtain ⟨p', hp'⟩ := hkeep₁.node hp
  obtain ⟨m₂, hm₂, hnext₂, hprev₂, hkeep₂⟩ := setNext_spec behind hp'
  refine ⟨m₂, ?_, by rw [hnext₂, hnext₁], by rw [hprev₂, hprev₁],
    by rw [hkeep₂.objs, hkeep₁.objs], fun b hbp hbn => ?_, by rw [hkeep₂.fresh, hkeep₁.fresh],
    by rw [hkeep₂.size, hkeep₁.size]⟩
  · rw [unlink, hcn, hcp, hm₁, Option.bind_eq_bind, Option.bind_some, hm₂]
  · rw [hkeep₂.others b hbp, hkeep₁.others b hbn]

/-- **`delete` takes a node out** of its list. -/
theorem delete_spec (h : m.Owns i (ys ++ c :: zs)) :
    ∃ m', m.delete c.1 = some m' ∧ m'.size = m.size ∧
      Changes m m' i (ys ++ c :: zs) (ys ++ zs) := by
  have hcons := h.nodup_cons
  have hring := h.ring
  have hobj := h.objs c (List.mem_append_right _ List.mem_cons_self)
  obtain ⟨p, d, hp, hd, -, hdp⟩ := h.node_at
  obtain ⟨d', n, hd', hn, hdn, -⟩ :=
    @Owns.node_at α m i (ys ++ [c]) zs (by rw [List.append_assoc]; exact h)
  -- both neighbours of the node point at it, so that unlinking joins them
  have hlast : nodeBefore (Place.head i) (places (ys ++ [c])) = c.1 := by
    rw [places_append, nodeBefore]
    exact List.getLastD_concat
  rw [hlast] at hd'
  rw [places_cons, nodeAt_cons] at hd
  obtain rfl : d = d' := Option.some.inj (hd.symm.trans hd')
  obtain ⟨m₁, hm₁, hnext₁, hprev₁, hobj₁, hothers₁, hfresh₁, hsize₁⟩ := unlink_links hp hn hdp hdn
  rw [places_append, places_cons] at hcons hring
  have hout : c.1 ∉ Place.head i :: (places ys ++ places zs) :=
    (List.nodup_cons.mp (List.nodup_middle.mp (List.cons_append ▸ hcons))).1
  have hrest : c.1 ≠ .head i ∧ c.1 ∉ places (ys ++ zs) := by
    rw [places_append]
    exact ⟨fun heq => hout (heq ▸ List.mem_cons_self), fun hmem => hout (List.mem_cons_of_mem _ hmem)⟩
  obtain ⟨hcp, hcn⟩ := ne_neighbours hrest.1 hrest.2
  have hnodup := List.nodup_middle.mp (List.nodup_cons.mp hcons).2
  refine ⟨m₁.put c.1 none, ?_, hsize₁, h, ⟨?_, ?_, fun e he => ?_, fun a ha => ?_⟩,
    fun a hhead ha hold => ?_, hfresh₁.ge, fun a ha => ?_, fun j _ => congrFun hsize₁ j⟩
  · have hobj' : d.obj = some c.2 := by
      rw [objAt, hd, Option.bind_some] at hobj
      exact hobj
    rw [delete, hd, Option.bind_eq_bind, Option.bind_some, hobj', Option.bind_eq_bind,
      Option.bind_some, hm₁, Option.bind_eq_bind, Option.bind_some]
  · rw [places_append]
    -- the ring is judged by the links alone, whatever becomes of the object
    refine hring.unlink hcons ⟨?_, ?_⟩ (fun b hb hbc => ?_) (fun b hb hbc => ?_)
    · rw [next_put, Function.update_of_ne hcp.symm, hnext₁, Function.update_self]
    · rw [prev_put, Function.update_of_ne hcn.symm, hprev₁, Function.update_self]
    · rw [next_put, Function.update_of_ne hbc, hnext₁, Function.update_of_ne hb]
    · rw [prev_put, Function.update_of_ne hbc, hprev₁, Function.update_of_ne hb]
  · rw [places_append]
    exact (List.nodup_cons.mp hnodup).2
  · have hec : e.1 ≠ c.1 := fun heq => hrest.2 (heq ▸ mem_places he)
    rw [objAt_put, Function.update_of_ne hec, hobj₁]
    exact h.objs e (List.perm_middle.mem_iff.mpr (List.mem_cons_of_mem _ he))
  · obtain ⟨k, hk, hlt⟩ := h.made a (mem_places_middle.mpr (Or.inr ha))
    exact ⟨k, hk, by rw [put, hfresh₁]; exact hlt⟩
  · have ha' : a ≠ c.1 ∧ a ∉ places (ys ++ zs) :=
      ⟨fun heq => ha (mem_places_middle.mpr (Or.inl heq)),
        fun hmem => ha (mem_places_middle.mpr (Or.inr hmem))⟩
    obtain ⟨hap, han⟩ := ne_neighbours hhead ha'.2
    exact (Function.update_of_ne ha'.1 _ _).trans (hothers₁ a hap han)
  · exact Or.inl (mem_places_middle.mpr (Or.inr ha))

/-! ## Iterators -/

@[simp] theorem size_putSize (m : ListMemory α) (i n : Nat) : (m.putSize i n).size i = n :=
  Function.update_self (β := fun _ => Nat) i n m.size

theorem Owns.putSize (h : m.Owns i cs) (j n : Nat) :
    (m.putSize j n).Owns i cs := ⟨h.ring, h.nodup, h.objs, h.made⟩

/-- The count of the list itself may change with its nodes. -/
theorem Changes.putSize (h : Changes m m' i cs cs') (n : Nat) :
    Changes m (m'.putSize i n) i cs cs' :=
  ⟨h.owned, h.owns.putSize i n, h.others, h.grows, h.new,
    fun j hj => (Function.update_of_ne hj _ _).trans (h.sizes j hj)⟩

theorem Changes.of_putSize {n : Nat} (h : Changes (m.putSize i n) m' i cs cs') :
    Changes m m' i cs cs' :=
  ⟨⟨h.owned.ring, h.owned.nodup, h.owned.objs, h.owned.made⟩, h.owns, h.others, h.grows, h.new,
    fun j hj => (h.sizes j hj).trans (Function.update_of_ne hj _ _)⟩

/-- The iterator stands on the first of these elements, or on the head if there are none. -/
structure Stands (i : Nat) (it : ListIterator) (zs : List (Place × α)) : Prop where
  pos : it.pos = nodeAt (.head i) (places zs)
  tmp : zs ≠ [] → it.tmp = nodeAt (.head i) (places zs.tail)

theorem Stands.not_end {it : ListIterator} {z : Place × α} (h : Stands i it (z :: zs))
    (ho : m.Owns i (ys ++ z :: zs)) : it.pos ≠ .head i := by
  rw [h.pos, places_cons, nodeAt_cons]
  intro heq
  exact ho.head_notMem i (heq ▸ mem_places_middle.mpr (Or.inl rfl))

/-- An iterator that is made at a place of the ring. -/
theorem Owns.iterator {m : ListMemory α} {i : Nat} {ys zs : List (Place × α)}
    (h : m.Owns i (ys ++ zs)) :
    ∃ it, m.iterator (nodeAt (.head i) (places zs)) = some it ∧ Stands i it zs := by
  obtain ⟨-, n, -, hn, -, -⟩ := h.node_at
  refine ⟨⟨nodeAt (.head i) (places zs), n.next⟩, ?_, rfl, fun hne => ?_⟩
  · rw [ListMemory.iterator, hn, Option.map_some]
  cases zs with
  | nil => exact absurd rfl hne
  | cons z zs =>
      obtain ⟨d, -, hd, -, hdn, -⟩ :=
        @Owns.node_at α m i (ys ++ [z]) zs (by rw [List.append_assoc]; exact h)
      have hlast : nodeBefore (Place.head i) (places (ys ++ [z])) = z.1 := by
        rw [places_append, nodeBefore]
        exact List.getLastD_concat
      rw [hlast] at hd
      rw [places_cons, nodeAt_cons, hd] at hn
      rw [← Option.some.inj hn]
      exact hdn

theorem Owns.begin (h : m.Owns i cs) : ∃ it, m.begin i = some it ∧ Stands i it cs := by
  obtain ⟨p, -, hp, -, hpn, -⟩ := @Owns.node_at α m i [] cs h
  obtain ⟨it, hit, hstands⟩ := @Owns.iterator α m i [] cs h
  refine ⟨it, ?_, hstands⟩
  rw [ListMemory.begin, show m.node (.head i) = some p from hp, Option.bind_eq_bind,
    Option.bind_some, hpn, hit]

/-- `it++` -/
theorem Owns.next {m : ListMemory α} {i : Nat} {ys zs : List (Place × α)} {z : Place × α}
    (h : m.Owns i (ys ++ z :: zs)) {it : ListIterator} (hit : Stands i it (z :: zs)) :
    ∃ it', m.next it = some it' ∧ Stands i it' zs := by
  have hsplit : m.Owns i ((ys ++ [z]) ++ zs) := by
    rw [List.append_assoc]
    exact h
  obtain ⟨it', hit', hstands⟩ := hsplit.iterator
  exact ⟨it', by rw [ListMemory.next, hit.tmp (List.cons_ne_nil z zs)]; exact hit', hstands⟩

theorem Owns.deref {z : Place × α} (h : m.Owns i (ys ++ z :: zs)) {it : ListIterator}
    (hit : Stands i it (z :: zs)) : m.deref it = some z.2 := by
  rw [ListMemory.deref, hit.pos]
  exact h.objs z (List.mem_append_right _ List.mem_cons_self)

theorem Owns.iterateFrom {m : ListMemory α} {i : Nat} : ∀ {zs : List (Place × α)} (rounds : Nat)
    {ys : List (Place × α)} {it : ListIterator}, m.Owns i (ys ++ zs) → Stands i it zs →
    zs.length ≤ rounds → m.iterateFrom i rounds it = some (zs.map Prod.snd) := by
  intro zs
  induction zs with
  | nil =>
      intro rounds ys it _ hit _
      cases rounds with
      | zero => rw [ListMemory.iterateFrom, hit.pos]; exact if_pos rfl
      | succ rounds => rw [ListMemory.iterateFrom, hit.pos]; exact if_pos rfl
  | cons z zs ih =>
      intro rounds ys it h hit hle
      cases rounds with
      | zero => exact absurd hle (by simp)
      | succ rounds =>
          obtain ⟨it', hit', hstands⟩ := h.next hit
          have hrest := @ih rounds (ys ++ [z]) _ (by rw [List.append_assoc]; exact h) hstands
            (by simpa using hle)
          rw [ListMemory.iterateFrom, if_neg (hit.not_end h), h.deref hit]
          simp only [Option.bind_eq_bind, Option.bind_some, hit', hrest]
          rfl

/-- **A walk from `begin` to `end` meets the elements in order.** -/
theorem Owns.iterate (h : m.Owns i cs) : m.iterate i = some (cs.map Prod.snd) := by
  obtain ⟨it, hit, hstands⟩ := h.begin
  rw [ListMemory.iterate, hit, Option.bind_eq_bind, Option.bind_some]
  exact @Owns.iterateFrom α m i cs m.fresh [] _ h hstands h.length_le

theorem Owns.advance {m : ListMemory α} {i : Nat} : ∀ (n : Nat) {ys zs : List (Place × α)}
    {it : ListIterator}, m.Owns i (ys ++ zs) → Stands i it zs →
    ∃ it', m.advance i n it = some it' ∧ Stands i it' (zs.drop n)
  | 0, _, _, it, _, hit => ⟨it, rfl, hit⟩
  | n + 1, ys, [], it, h, hit => by
      refine ⟨it, ?_, hit⟩
      rw [ListMemory.advance, hit.pos]
      exact if_pos rfl
  | n + 1, ys, z :: zs, it, h, hit => by
      obtain ⟨it', hit', hstands⟩ := h.next hit
      rw [ListMemory.advance, if_neg (hit.not_end h), hit', Option.bind_eq_bind, Option.bind_some]
      exact @Owns.advance m i n (ys ++ [z]) zs _ (by rw [List.append_assoc]; exact h) hstands

theorem Owns.nth (h : m.Owns i cs) (n : Nat) :
    ∃ it, m.nth i n = some it ∧ Stands i it (cs.drop n) := by
  obtain ⟨it, hit, hstands⟩ := h.begin
  rw [ListMemory.nth, hit, Option.bind_eq_bind, Option.bind_some]
  exact @Owns.advance α m i n [] cs _ h hstands

/-! ## The members of `List` -/

theorem insert_spec {m : ListMemory α} {i : Nat} {ys zs : List (Place × α)}
    (h : m.Owns i (ys ++ zs)) {it : ListIterator} (hit : Stands i it zs) (x : α) :
    ∃ m', m.insert i it x = some m' ∧ m'.size i = m.size i + 1 ∧
      Changes m m' i (ys ++ zs) (ys ++ (.node m.fresh, x) :: zs) := by
  obtain ⟨m', hm', hsize, hchange⟩ := newContainer_spec h x
  refine ⟨m'.putSize i (m'.size i + 1), ?_, ?_, hchange.putSize _⟩
  · rw [insert, hit.pos, hm', Option.bind_eq_bind, Option.bind_some]
  · rw [size_putSize, hsize]

theorem pushFront_spec (h : m.Owns i cs) (x : α) :
    ∃ m', m.pushFront i x = some m' ∧ m'.size i = m.size i + 1 ∧
      Changes m m' i cs ((.node m.fresh, x) :: cs) := by
  obtain ⟨p, -, hp, -, hpn, -⟩ := @Owns.node_at α m i [] cs h
  obtain ⟨m', hm', hsize, hchange⟩ := @newContainer_spec α m i [] cs h x
  refine ⟨m'.putSize i (m'.size i + 1), ?_, ?_, hchange.putSize _⟩
  · rw [pushFront, show m.node (.head i) = some p from hp, Option.bind_eq_bind, Option.bind_some,
      hpn, hm', Option.bind_eq_bind, Option.bind_some]
  · rw [size_putSize, hsize]

theorem pushBack_spec (h : m.Owns i cs) (x : α) :
    ∃ m', m.pushBack i x = some m' ∧ m'.size i = m.size i + 1 ∧
      Changes m m' i cs (cs ++ [(.node m.fresh, x)]) := by
  obtain ⟨m', hm', hsize, hchange⟩ :=
    @newContainer_spec α m i cs [] (by rw [List.append_nil]; exact h) x
  rw [List.append_nil] at hchange
  refine ⟨m'.putSize i (m'.size i + 1), ?_, ?_, hchange.putSize _⟩
  · rw [pushBack, show Place.head i = nodeAt (.head i) (places ([] : List (Place × α))) from rfl,
      hm', Option.bind_eq_bind, Option.bind_some]
  · rw [size_putSize, hsize]

/-- A node is deleted and the count goes down. -/
theorem delete_counted {m : ListMemory α} {i n : Nat} {ys zs : List (Place × α)} {c : Place × α}
    (h : m.Owns i (ys ++ c :: zs)) (hsize : m.size i = n + 1) :
    ∃ m', (m.putSize i (sizePred (m.size i))).delete c.1 = some m' ∧ m'.size i = n ∧
      Changes m m' i (ys ++ c :: zs) (ys ++ zs) := by
  obtain ⟨m', hm', hsize', hchange⟩ := delete_spec (h.putSize i (sizePred (m.size i)))
  refine ⟨m', hm', ?_, hchange.of_putSize⟩
  rw [hsize', size_putSize, hsize]
  rfl

theorem popFront_spec {n : Nat} (h : m.Owns i (c :: cs)) (hsize : m.size i = n + 1) :
    ∃ m', m.popFront i = some m' ∧ m'.size i = n ∧ Changes m m' i (c :: cs) cs := by
  obtain ⟨p, -, hp, -, hpn, -⟩ := @Owns.node_at α m i [] (c :: cs) h
  obtain ⟨m', hm', hdone⟩ := @delete_counted α m i n [] cs c h hsize
  refine ⟨m', ?_, hdone⟩
  have hempty : m.empty i = false := by rw [empty, hsize]; rfl
  have hhead : (m.putSize i (sizePred (m.size i))).node (.head i) = some p := hp
  rw [popFront, hempty, if_neg Bool.false_ne_true]
  dsimp only
  rw [hhead, Option.bind_eq_bind, Option.bind_some, hpn]
  exact hm'

theorem popBack_spec {n : Nat} (h : m.Owns i (cs ++ [c])) (hsize : m.size i = n + 1) :
    ∃ m', m.popBack i = some m' ∧ m'.size i = n ∧ Changes m m' i (cs ++ [c]) cs := by
  obtain ⟨-, q, -, hq, -, hqp⟩ :=
    @Owns.node_at α m i (cs ++ [c]) [] (by rw [List.append_nil]; exact h)
  obtain ⟨m', hm', hdone, hchange⟩ := @delete_counted α m i n cs [] c h hsize
  rw [List.append_nil] at hchange
  refine ⟨m', ?_, hdone, hchange⟩
  have hempty : m.empty i = false := by rw [empty, hsize]; rfl
  have hhead : (m.putSize i (sizePred (m.size i))).node (.head i) = some q := hq
  have hlast : nodeBefore (Place.head i) (places (cs ++ [c])) = c.1 := by
    rw [places_append, nodeBefore]
    exact List.getLastD_concat
  rw [popBack, hempty, if_neg Bool.false_ne_true]
  dsimp only
  rw [hhead, Option.bind_eq_bind, Option.bind_some, hqp, hlast]
  exact hm'

/-- `erase` at an element; at `end()` it does nothing. -/
theorem erase_spec {m : ListMemory α} {i : Nat} {ys zs : List (Place × α)}
    (h : m.Owns i (ys ++ zs)) (hsize : m.size i = (ys ++ zs).length) {it : ListIterator}
    (hit : Stands i it zs) :
    ∃ m', m.erase i it = some m' ∧ m'.size i = (ys ++ zs.tail).length ∧
      Changes m m' i (ys ++ zs) (ys ++ zs.tail) := by
  cases zs with
  | nil =>
      refine ⟨m, ?_, hsize, Changes.refl h⟩
      rw [erase, if_neg]
      exact fun hcon => hcon.2 hit.pos
  | cons z zs =>
      have hcount : m.size i = (ys ++ zs).length + 1 := by
        rw [hsize, List.length_append, List.length_append, List.length_cons]
        omega
      obtain ⟨m', hm', hdone⟩ := delete_counted h hcount
      obtain ⟨it', hit', -⟩ := h.next hit
      refine ⟨m', ?_, hdone⟩
      have hempty : m.empty i = false := by rw [empty, hcount]; rfl
      rw [erase, if_pos ⟨hempty, hit.not_end h⟩, hit', Option.bind_eq_bind, Option.bind_some,
        hit.pos]
      exact hm'

/-- The loop of `clear` goes as often as `_size` says, which is right for a list in order. -/
theorem clearLoop_spec : ∀ (cs : List (Place × α)) {m : ListMemory α}, m.Owns i cs →
    m.size i = cs.length →
    ∃ m', clearLoop i cs.length m = some m' ∧ m'.size i = 0 ∧ Changes m m' i cs []
  | [], m, h, hsize => ⟨m, rfl, hsize, Changes.refl h⟩
  | c :: cs, m, h, hsize => by
      obtain ⟨m₁, hm₁, hsize₁, hchange₁⟩ := popFront_spec h hsize
      obtain ⟨m', hm', hsize', hchange'⟩ := clearLoop_spec cs hchange₁.owns hsize₁
      refine ⟨m', ?_, hsize', hchange₁.trans hchange'⟩
      rw [List.length_cons, clearLoop, hm₁, Option.bind_eq_bind, Option.bind_some, hm']

theorem clear_spec (h : m.Owns i cs) (hsize : m.size i = cs.length) :
    ∃ m', m.clear i = some m' ∧ m'.size i = 0 ∧ Changes m m' i cs [] := by
  rw [clear, hsize]
  exact clearLoop_spec cs h hsize

/-- What is left behind the iterator is gone through, what was gone through stays. -/
theorem removeLoop_spec [DecidableEq α] {i : Nat} (value : α) : ∀ (zs : List (Place × α))
    (rounds : Nat) {m : ListMemory α} {ys : List (Place × α)} {it : ListIterator},
    m.Owns i (ys ++ zs) → m.size i = (ys ++ zs).length → Stands i it zs → zs.length ≤ rounds →
    ∃ m', removeLoop i value rounds m it = some m' ∧
      m'.size i = (ys ++ zs.filter (fun c => c.2 ≠ value)).length ∧
      Changes m m' i (ys ++ zs) (ys ++ zs.filter (fun c => c.2 ≠ value)) := by
  intro zs
  induction zs with
  | nil =>
      intro rounds m ys it h hsize hit _
      refine ⟨m, ?_, hsize, Changes.refl h⟩
      cases rounds with
      | zero => rw [removeLoop, hit.pos]; exact if_pos rfl
      | succ rounds => rw [removeLoop, hit.pos]; exact if_pos rfl
  | cons z zs ih =>
      intro rounds m ys it h hsize hit hle
      cases rounds with
      | zero => exact absurd hle (by simp)
      | succ rounds =>
          have hle' : zs.length ≤ rounds := by simpa using hle
          obtain ⟨it', hit', hstands⟩ := h.next hit
          rw [removeLoop, if_neg (hit.not_end h), h.deref hit]
          simp only [Option.bind_eq_bind, Option.bind_some, hit']
          -- the iterator is already at the next node when this one is deleted
          by_cases hz : z.2 = value
          · rw [if_pos hz, List.filter_cons_of_neg (by simpa using hz), hit.pos, places_cons,
              nodeAt_cons]
            have hcount : m.size i = (ys ++ zs).length + 1 := by
              rw [hsize, List.length_append, List.length_append, List.length_cons]
              omega
            obtain ⟨m₁, hm₁, hsize₁, hchange₁⟩ := delete_counted h hcount
            obtain ⟨m', hm', hsize', hchange'⟩ := ih rounds hchange₁.owns hsize₁ hstands hle'
            exact ⟨m', by rw [hm₁, Option.bind_some, hm'], hsize', hchange₁.trans hchange'⟩
          · rw [if_neg hz, List.filter_cons_of_pos (by simpa using hz)]
            have hsplit : ∀ ws : List (Place × α), ys ++ z :: ws = (ys ++ [z]) ++ ws :=
              fun ws => (List.append_assoc ys [z] ws).symm
            rw [hsplit (zs.filter _), hsplit zs]
            exact ih rounds (hsplit zs ▸ h) (hsplit zs ▸ hsize) hstands hle'

theorem remove_spec [DecidableEq α] (h : m.Owns i cs) (hsize : m.size i = cs.length) (value : α) :
    ∃ m', m.remove i value = some m' ∧ m'.size i = (cs.filter (fun c => c.2 ≠ value)).length ∧
      Changes m m' i cs (cs.filter (fun c => c.2 ≠ value)) := by
  obtain ⟨it, hit, hstands⟩ := h.begin
  rw [remove, hit, Option.bind_eq_bind, Option.bind_some]
  exact @removeLoop_spec α _ i value cs m.fresh m [] _ h hsize hstands h.length_le

/-- Pushing what another list has from an iterator on; each push counts. -/
theorem copyLoop_spec {i j : Nat} (hij : j ≠ i) : ∀ (zs : List (Place × α)) (rounds : Nat)
    {m : ListMemory α} {ys ds : List (Place × α)} {it : ListIterator}, m.Owns j (ys ++ zs) →
    m.Owns i ds → (∀ a ∈ places (ys ++ zs), a ∉ places ds) → Stands j it zs →
    zs.length ≤ rounds →
    ∃ m' es, copyLoop i j rounds m it = some m' ∧ m'.size i = m.size i + zs.length ∧
      es.map Prod.snd = zs.map Prod.snd ∧ Changes m m' i ds (ds ++ es) := by
  intro zs
  induction zs with
  | nil =>
      intro rounds m ys ds it _ h _ hit _
      refine ⟨m, [], ?_, rfl, rfl, by rw [List.append_nil]; exact Changes.refl h⟩
      cases rounds with
      | zero => rw [copyLoop, hit.pos]; exact if_pos rfl
      | succ rounds => rw [copyLoop, hit.pos]; exact if_pos rfl
  | cons z zs ih =>
      intro rounds m ys ds it hsrc h hapart hit hle
      cases rounds with
      | zero => exact absurd hle (by simp)
      | succ rounds =>
          obtain ⟨m₁, hm₁, hsize₁, hchange₁⟩ := pushBack_spec h z.2
          -- the push is onto the other list, and the iterator stays where it stands
          have hsrc₁ := hsrc.frame hchange₁ hij hapart
          obtain ⟨it', hit', hstands⟩ := hsrc₁.next hit
          have hsplit : ys ++ z :: zs = (ys ++ [z]) ++ zs := (List.append_assoc ys [z] zs).symm
          have hapart₁ : ∀ a ∈ places ((ys ++ [z]) ++ zs),
              a ∉ places (ds ++ [(Place.node m.fresh, z.2)]) := by
            intro a ha hmem
            rw [← hsplit] at ha
            rw [places_append] at hmem
            rcases List.mem_append.mp hmem with hmem | hmem
            · exact hapart a ha hmem
            · rw [List.mem_singleton.mp hmem] at ha
              exact hsrc.fresh_notMem (List.mem_cons_of_mem _ ha)
          obtain ⟨m', es, hm', hsize', hes, hchange'⟩ := ih rounds (hsplit ▸ hsrc₁) hchange₁.owns
            hapart₁ hstands (by simpa using hle)
          refine ⟨m', (.node m.fresh, z.2) :: es, ?_, ?_, by rw [List.map_cons, List.map_cons, hes],
            ?_⟩
          · rw [copyLoop, if_neg (hit.not_end hsrc), hsrc.deref hit]
            simp only [Option.bind_eq_bind, Option.bind_some, hm₁, hit', hm']
          · rw [hsize', hsize₁, List.length_cons]
            omega
          · rw [List.append_assoc] at hchange'
            exact hchange₁.trans hchange'

theorem copyFrom_spec {j : Nat} (hij : j ≠ i) (hsrc : m.Owns j cs) (h : m.Owns i []) :
    ∃ m' es, m.copyFrom i j = some m' ∧ m'.size i = m.size i + cs.length ∧
      es.map Prod.snd = cs.map Prod.snd ∧ Changes m m' i [] es := by
  obtain ⟨it, hit, hstands⟩ := hsrc.begin
  rw [copyFrom, hit, Option.bind_eq_bind, Option.bind_some]
  exact @copyLoop_spec α i j hij cs m.fresh m [] [] _ hsrc h
    (fun _ _ hmem => List.not_mem_nil hmem) hstands hsrc.length_le

/-- There is nothing to copy from a list that was cleared, such as the list itself. -/
theorem copyFrom_self (h : m.Owns i []) : m.copyFrom i i = some m := by
  obtain ⟨it, hit, hstands⟩ := h.begin
  rw [copyFrom, hit, Option.bind_eq_bind, Option.bind_some]
  cases m.fresh with
  | zero => rw [copyLoop, hstands.pos]; exact if_pos rfl
  | succ n => rw [copyLoop, hstands.pos]; exact if_pos rfl

/-- A head made again where a list was. -/
theorem owns_selfRing (m : ListMemory α) (i : Nat) :
    (m.put (.head i) (some (selfRing i))).Owns i [] := by
  refine ⟨ring_nil.mpr ⟨?_, ?_⟩, List.nodup_nil, fun c hc => ?_, fun a ha => ?_⟩
  · rw [next_put, Function.update_self]
    rfl
  · rw [prev_put, Function.update_self]
    rfl
  · cases hc
  · cases ha

/-- A list destructed, and its head made again with some count. -/
theorem destruct_spec (h : m.Owns i cs) (hsize : m.size i = cs.length) :
    ∃ m', m.destruct i = some m' ∧ (∀ j, j ≠ i → m'.size j = m.size j) ∧ ∀ n,
      Changes m ((m'.put (.head i) (some (selfRing i))).putSize i n) i cs [] := by
  obtain ⟨m₁, hm₁, -, hchange⟩ := clear_spec h hsize
  obtain ⟨p, q, hp, hq, hpn, hqp⟩ := @Owns.node_at α m₁ i [] [] hchange.owns
  have hhead : m₁.node (.head i) = some p := hp
  obtain rfl : p = q := Option.some.inj (hp.symm.trans hq)
  obtain ⟨m₂, hm₂, -, -, -, hothers, hfresh, hsize₂⟩ := unlink_links hp hq hqp hpn
  refine ⟨m₂.put (.head i) none, ?_, fun j hj => ?_, fun n => ?_⟩
  · rw [destruct, hm₁, Option.bind_eq_bind, Option.bind_some, hhead, Option.bind_eq_bind,
      Option.bind_some, hm₂, Option.bind_some]
  · exact (congrFun hsize₂ j).trans (hchange.sizes j hj)
  · refine (@Changes.trans α m m₁ _ i cs [] [] hchange ?_).putSize n
    refine ⟨hchange.owns, owns_selfRing _ i, fun a hhead _ _ => ?_, hfresh.ge, fun a ha => ?_,
      fun j _ => congrFun hsize₂ j⟩
    · refine (Function.update_of_ne hhead _ _).trans ((Function.update_of_ne hhead _ _).trans ?_)
      exact hothers a hhead hhead
    · cases ha

end ListMemory

/-! ## Programs -/

namespace ListMemory

variable {α : Type}
variable {cs' : List (Place × α)}

/-- All lists: the nodes of each are its own, and there are as many as it counts. -/
structure Represents (m : ListMemory α) (cs : Nat → List (Place × α)) : Prop where
  owns : ∀ i, m.Owns i (cs i)
  apart : ∀ i j, i ≠ j → ∀ a ∈ places (cs i), a ∉ places (cs j)
  sizes : ∀ i, m.size i = (cs i).length

/-- The lists hold these sequences. -/
def Holds (m : ListMemory α) (f : Nat → List α) : Prop :=
  ∃ cs, Represents m cs ∧ ∀ i, (cs i).map Prod.snd = f i

/--
What a program sees of its lists: a walk gives the sequence, `size` its length, and `empty`
whether there is nothing in it.
-/
def Shows (m : ListMemory α) (f : Nat → List α) : Prop :=
  ∀ i, m.iterate i = some (f i) ∧ m.size i = (f i).length ∧ (m.empty i = true ↔ f i = [])

theorem Holds.shows {m : ListMemory α} {f : Nat → List α} (h : m.Holds f) : m.Shows f := by
  obtain ⟨cs, hcs, hf⟩ := h
  intro i
  have hsize : m.size i = (f i).length := by rw [hcs.sizes, ← hf, List.length_map]
  refine ⟨by rw [(hcs.owns i).iterate, hf], hsize, ?_⟩
  rw [empty, hsize, decide_eq_true_iff, List.length_eq_zero_iff]

theorem holds_init : (init : ListMemory α).Holds (fun _ => []) := by
  refine ⟨fun _ => [], ⟨fun i => ⟨ring_nil.mpr ⟨rfl, rfl⟩, List.nodup_nil, ?_, ?_⟩, ?_, ?_⟩,
    fun _ => rfl⟩
  · intro c hc
    cases hc
  · intro a ha
    cases ha
  · intro i j _ a ha
    cases ha
  · intro i
    rfl

/-- An edit of one list, with the count in order, leaves all lists in order. -/
theorem Represents.changes {m m' : ListMemory α} {cs : Nat → List (Place × α)} {i : Nat}
    (h : Represents m cs) (hchange : Changes m m' i (cs i) cs') (hsize : m'.size i = cs'.length) :
    Represents m' (Function.update cs i cs') := by
  have hnew : ∀ j, j ≠ i → ∀ a ∈ places cs', a ∉ places (cs j) := by
    intro j hj a ha hmem
    rcases hchange.new a ha with hold | ⟨k, rfl, hle⟩
    · exact h.apart i j hj.symm a hold hmem
    · obtain ⟨k', hk', hlt⟩ := (h.owns j).made _ hmem
      injection hk' with hk'
      omega
  refine ⟨fun j => ?_, fun j k hjk a ha => ?_, fun j => ?_⟩
  · by_cases hj : j = i
    · rw [hj, Function.update_self]
      exact hchange.owns
    · rw [Function.update_of_ne hj]
      exact (h.owns j).frame hchange hj (h.apart j i hj)
  · by_cases hj : j = i
    · rw [hj, Function.update_self] at ha
      have hk : k ≠ i := fun heq => hjk (hj.trans heq.symm)
      rw [Function.update_of_ne hk]
      exact hnew k hk a ha
    · rw [Function.update_of_ne hj] at ha
      by_cases hk : k = i
      · rw [hk, Function.update_self]
        exact fun hmem => hnew j hj a hmem ha
      · rw [Function.update_of_ne hk]
        exact h.apart j k hjk a ha
  · by_cases hj : j = i
    · rw [hj, Function.update_self]
      exact hsize
    · rw [Function.update_of_ne hj, hchange.sizes j hj]
      exact h.sizes j

/-- The same, told by the sequences. -/
theorem Represents.holds {m m' : ListMemory α} {cs : Nat → List (Place × α)} {f : Nat → List α}
    {i : Nat} {xs : List α} (h : Represents m cs) (hf : ∀ i, (cs i).map Prod.snd = f i)
    (hchange : Changes m m' i (cs i) cs') (hsize : m'.size i = cs'.length)
    (hxs : cs'.map Prod.snd = xs) : m'.Holds (Function.update f i xs) := by
  refine ⟨_, h.changes hchange hsize, fun j => ?_⟩
  by_cases hj : j = i
  · rw [hj, Function.update_self, Function.update_self]
    exact hxs
  · rw [Function.update_of_ne hj, Function.update_of_ne hj]
    exact hf j

/--
What keeps a program within sequences: it makes no copy of a list with elements by the copy
constructor, and it assigns no list with elements to itself.
-/
def InOrder (m : ListMemory α) : ListOp α → Prop
  | .copyConstruct i j => i = j ∨ m.empty j = true
  | .assign i j => i ≠ j ∨ m.empty i = true
  | _ => True

instance (m : ListMemory α) : ∀ op : ListOp α, Decidable (m.InOrder op)
  | .copyConstruct _ _ => inferInstanceAs (Decidable (_ ∨ _))
  | .assign _ _ => inferInstanceAs (Decidable (_ ∨ _))
  | .pushFront _ _ | .pushBack _ _ | .popFront _ | .popBack _ | .insert _ _ _ | .erase _ _
  | .remove _ _ | .clear _ | .destruct _ => inferInstanceAs (Decidable True)

section Steps

variable [DecidableEq α]

/-- What the copy constructor makes of a list: its elements, and a count of them and of theirs. -/
theorem Represents.copyConstruct {m : ListMemory α} {cs : Nat → List (Place × α)}
    (h : Represents m cs) {i j : Nat} (hij : i ≠ j) :
    ∃ m' es, m.step (.copyConstruct i j) = some m' ∧ m'.size i = m.size j + (cs j).length ∧
      es.map Prod.snd = (cs j).map Prod.snd ∧ Changes m m' i (cs i) es := by
  obtain ⟨m₁, hm₁, hsizes, hrenew⟩ := destruct_spec (h.owns i) (h.sizes i)
  have hchange := hrenew (m₁.size j)
  have hsrc := (h.owns j).frame hchange hij.symm (h.apart j i hij.symm)
  obtain ⟨m', es, hm', hsize', hes, hchange'⟩ := copyFrom_spec hij.symm hsrc hchange.owns
  refine ⟨m', es, ?_, ?_, hes, hchange.trans hchange'⟩
  · rw [step, if_neg hij, hm₁, Option.bind_some, ListMemory.copyConstruct, hm']
  · rw [hsize', size_putSize, hsizes j hij.symm]

/-- **An operation that is fit does to every list what it does to its sequence.** -/
theorem Holds.step {m : ListMemory α} {f : Nat → List α} (h : m.Holds f) {op : ListOp α}
    (hok : m.InOrder op) : ∃ m', m.step op = some m' ∧ m'.Holds (Sequences.step f op) := by
  obtain ⟨cs, hcs, hf⟩ := h
  cases op with
  | pushFront i x =>
      obtain ⟨m', hm', hsize, hchange⟩ := pushFront_spec (hcs.owns i) x
      refine ⟨m', hm', hcs.holds hf hchange ?_ ?_⟩
      · rw [hsize, hcs.sizes, List.length_cons]
      · rw [List.map_cons, hf]
  | pushBack i x =>
      obtain ⟨m', hm', hsize, hchange⟩ := pushBack_spec (hcs.owns i) x
      refine ⟨m', hm', hcs.holds hf hchange ?_ ?_⟩
      · rw [hsize, hcs.sizes, List.length_append, List.length_singleton]
      · rw [List.map_append, hf]
        rfl
  | popFront i =>
      cases hci : cs i with
      | nil =>
          have hsize : m.size i = 0 := by rw [hcs.sizes, hci]; rfl
          refine ⟨m, ?_, hcs.holds hf (Changes.refl (hcs.owns i)) (hcs.sizes i) ?_⟩
          · rw [ListMemory.step, popFront, empty, hsize]
            exact if_pos rfl
          · rw [← hf, hci]
            rfl
      | cons c cs' =>
          have howns := hcs.owns i
          have hsize := hcs.sizes i
          rw [hci] at howns hsize
          obtain ⟨m', hm', hsize', hchange⟩ := popFront_spec howns hsize
          refine ⟨m', hm', hcs.holds hf (hci ▸ hchange) hsize' ?_⟩
          rw [← hf, hci]
          rfl
  | popBack i =>
      rcases List.eq_nil_or_concat (cs i) with hci | ⟨cs', c, hci⟩
      · have hsize : m.size i = 0 := by rw [hcs.sizes, hci]; rfl
        refine ⟨m, ?_, hcs.holds hf (Changes.refl (hcs.owns i)) (hcs.sizes i) ?_⟩
        · rw [ListMemory.step, popBack, empty, hsize]
          exact if_pos rfl
        · rw [← hf, hci]
          rfl
      · rw [List.concat_eq_append] at hci
        have howns := hcs.owns i
        have hsize := hcs.sizes i
        rw [hci] at howns hsize
        rw [List.length_append, List.length_singleton] at hsize
        obtain ⟨m', hm', hsize', hchange⟩ := popBack_spec howns hsize
        refine ⟨m', hm', hcs.holds hf (hci ▸ hchange) hsize' ?_⟩
        rw [← hf, hci, List.map_append, List.map_singleton, List.dropLast_concat]
  | insert i n x =>
      -- an iterator to the `n`-th place cuts the sequence there
      obtain ⟨it, hit, hstands⟩ := (hcs.owns i).nth n
      have hsplit := List.take_append_drop n (cs i)
      obtain ⟨m', hm', hsize, hchange⟩ :=
        @insert_spec α m i ((cs i).take n) ((cs i).drop n) (hsplit.symm ▸ hcs.owns i) it hstands x
      rw [hsplit] at hchange
      refine ⟨m', ?_, hcs.holds hf hchange ?_ ?_⟩
      · rw [ListMemory.step, hit, Option.bind_some, hm']
      · rw [hsize, hcs.sizes, List.length_append, List.length_cons, ← Nat.add_assoc,
          ← List.length_append, hsplit]
      · rw [List.map_append, List.map_cons, List.map_take, List.map_drop, hf]
  | erase i n =>
      obtain ⟨it, hit, hstands⟩ := (hcs.owns i).nth n
      have hsplit := List.take_append_drop n (cs i)
      obtain ⟨m', hm', hsize, hchange⟩ :=
        @erase_spec α m i ((cs i).take n) ((cs i).drop n) (hsplit.symm ▸ hcs.owns i)
          (hsplit.symm ▸ hcs.sizes i) it hstands
      rw [hsplit] at hchange
      refine ⟨m', ?_, hcs.holds hf hchange hsize ?_⟩
      · rw [ListMemory.step, hit, Option.bind_some, hm']
      · rw [List.tail_drop, ← List.eraseIdx_eq_take_drop_succ, ← hf, List.eraseIdx_map]
  | remove i value =>
      obtain ⟨m', hm', hsize, hchange⟩ := remove_spec (hcs.owns i) (hcs.sizes i) value
      refine ⟨m', hm', hcs.holds hf hchange hsize ?_⟩
      rw [← hf, List.filter_map]
      rfl
  | clear i =>
      obtain ⟨m', hm', hsize, hchange⟩ := clear_spec (hcs.owns i) (hcs.sizes i)
      exact ⟨m', hm', hcs.holds hf hchange hsize rfl⟩
  | destruct i =>
      obtain ⟨m', hm', -, hrenew⟩ := destruct_spec (hcs.owns i) (hcs.sizes i)
      refine ⟨m'.construct i, ?_, hcs.holds hf (hrenew 0) (size_putSize _ i 0) rfl⟩
      rw [ListMemory.step, hm', Option.map_some]
  | copyConstruct i j =>
      by_cases hij : i = j
      · refine ⟨m, by rw [ListMemory.step, if_pos hij], cs, hcs, fun k => ?_⟩
        rw [Sequences.step, hij, Function.update_eq_self]
        exact hf k
      · obtain ⟨m', es, hm', hsize, hes, hchange⟩ := hcs.copyConstruct hij
        have hempty : m.size j = 0 := of_decide_eq_true (hok.resolve_left hij)
        refine ⟨m', hm', hcs.holds hf hchange ?_ (hes.trans (hf j))⟩
        have hlen := congrArg List.length hes
        rw [List.length_map, List.length_map] at hlen
        rw [hsize, hempty, hlen, Nat.zero_add]
  | assign i j =>
      obtain ⟨m₁, hm₁, hsize₁, hchange₁⟩ := clear_spec (hcs.owns i) (hcs.sizes i)
      rw [ListMemory.step, ListMemory.assign, hm₁, Option.bind_eq_bind, Option.bind_some]
      by_cases hij : i = j
      · -- nothing was in it, and nothing is
        subst hij
        have hempty : m.size i = 0 := of_decide_eq_true (hok.resolve_left (fun hne => hne rfl))
        refine ⟨m₁, copyFrom_self hchange₁.owns, hcs.holds hf hchange₁ hsize₁ ?_⟩
        rw [hcs.sizes] at hempty
        rw [← hf, List.length_eq_zero_iff.mp hempty]
      · -- the source is another list, which clearing left alone
        have hsrc := (hcs.owns j).frame hchange₁ (Ne.symm hij) (hcs.apart j i (Ne.symm hij))
        obtain ⟨m', es, hm', hsize', hes, hchange'⟩ :=
          copyFrom_spec (Ne.symm hij) hsrc hchange₁.owns
        refine ⟨m', hm', hcs.holds hf (hchange₁.trans hchange') ?_ (hes.trans (hf j))⟩
        have hlen := congrArg List.length hes
        rw [List.length_map, List.length_map] at hlen
        rw [hsize', hsize₁, hlen, Nat.zero_add]

/-- An operation that leaves the lists as their sequences was fit. -/
theorem inOrder_of_shows {m m' : ListMemory α} {f : Nat → List α} (h : m.Holds f) {op : ListOp α}
    (hstep : m.step op = some m') (hshows : m'.Shows (Sequences.step f op)) : m.InOrder op := by
  obtain ⟨cs, hcs, hf⟩ := h
  cases op with
  | copyConstruct i j =>
      by_cases hij : i = j
      · exact Or.inl hij
      · obtain ⟨m'', es, hm'', hsize, -, -⟩ := hcs.copyConstruct hij
        obtain rfl := Option.some.inj (hm''.symm.trans hstep)
        have hlen := (hshows i).2.1
        rw [Sequences.step, Function.update_self, hsize, ← hf, List.length_map] at hlen
        refine Or.inr (decide_eq_true ?_)
        omega
  | assign i j =>
      by_cases hij : i = j
      · obtain ⟨m₁, hm₁, hsize₁, hchange₁⟩ := clear_spec (hcs.owns i) (hcs.sizes i)
        rw [ListMemory.step, ListMemory.assign, hm₁, Option.bind_eq_bind, Option.bind_some, ← hij,
          copyFrom_self hchange₁.owns] at hstep
        obtain rfl := Option.some.inj hstep
        have hlen := (hshows i).2.1
        rw [Sequences.step, Function.update_self, hsize₁, ← hij, ← hf, List.length_map,
          ← hcs.sizes] at hlen
        exact Or.inr (decide_eq_true hlen.symm)
      · exact Or.inl hij
  | pushFront | pushBack | popFront | popBack | insert | erase | remove | clear | destruct =>
      trivial

/--
**Lists are sequences exactly as long as no list with elements is copied by the copy constructor
or assigned to itself.** They are sequences if no step goes wrong, so that no head is ever
deleted, and if walks, `size` and `empty` show what the sequences are.
-/
theorem list_refines_iff (ops : List (ListOp α)) :
    (∀ pre post, ops = pre ++ post →
      ∃ m, run ListMemory.step init pre = some m ∧
        m.Shows (pre.foldl Sequences.step (fun _ => []))) ↔
      Guarded ListMemory.step InOrder init ops :=
  @run_related_iff (ListMemory α) (Nat → List α) (ListOp α) ListMemory.step Sequences.step
    InOrder Holds Shows (fun _ _ => True) (fun _ _ h => h.shows) (fun _ _ _ h _ hok => h.step hok)
    (fun _ _ _ _ h _ hstep hshows => inOrder_of_shows h hstep hshows) ops init (fun _ => [])
    holds_init ((guarded_iff _ _ _ _).mpr (fun _ _ _ _ _ _ => trivial))

end Steps

/-- A list of one element that is copied counts two, and clearing the copy deletes its head. -/
theorem list_refines_fails :
    ¬ ∀ pre post : List (ListOp Nat),
      [.pushBack 0 7, .copyConstruct 1 0, .clear 1] = pre ++ post →
      ∃ m, run ListMemory.step init pre = some m ∧
        m.Shows (pre.foldl Sequences.step (fun _ => [])) := by
  intro h
  obtain ⟨m, hm, -⟩ := h _ [] (List.append_nil _).symm
  have hstuck : (run ListMemory.step init
      ([.pushBack 0 7, .copyConstruct 1 0, .clear 1] : List (ListOp Nat))).isSome = false := by
    decide
  rw [hm] at hstuck
  cases hstuck

end ListMemory

end Encoders.Container
