import Mathlib.Data.List.Perm.Basic
import Mathlib.Data.List.Nodup
import Encoders.Connectivity.InterfaceStore

/-!
# The forest of interfaces

What the store is for is kept by three facts: no interface is stored twice, the parent of
every stored interface is stored, and following parents never comes back (`Forest`). All
three speak of the keys and parents of the records only, so a step is told by what it does
to these (`link`).

A removal takes keys out, and a removed key is the parent of nothing that is left. While
the recursion runs this holds but for the interfaces still waiting to be popped, which is
the invariant `Pending`. Ageing ends in the same loop.

An `addupdate` keeps the forest unless it gives a parent that leads back to the interface
itself, and `leads` computes whether it does.
-/

namespace Encoders.Connectivity

open Encoders.Lib Encoders.Data Relation

namespace InterfaceStore

variable {s : InterfaceStore} {roots : InterfaceKey → Prop} {r : InterfaceRecord}
variable {a b k : InterfaceKey} {t : Removed} {hit : InterfaceRecord → Bool}
  {parent : Option InterfaceKey} {i : Interface}
  {due : InterfaceRecord → Bool} {clock : InterfaceKey → Timeval}

/-- What the forest sees of a record: its key, and its parent's. -/
def link (r : InterfaceRecord) : InterfaceKey × Option InterfaceKey := (key r, r.parent)

/-- The interface `b` is the parent of the interface `a`. -/
def ParentOf (s : InterfaceStore) (a b : InterfaceKey) : Prop := (a, some b) ∈ s.map link

/-- **The forest.** No interface is stored twice, parents are stored, and following them
never comes back. -/
structure Forest (s : InterfaceStore) : Prop where
  distinct : (s.map key).Nodup
  stored : ∀ a b, ParentOf s a b → b ∈ s.map key
  acyclic : Acyclic (ParentOf s)

theorem map_key (s : InterfaceStore) : s.map key = (s.map link).map Prod.fst := by
  rw [List.map_map]
  rfl

theorem ParentOf.child_mem (h : ParentOf s a b) : a ∈ s.map key := by
  rw [map_key]
  exact List.mem_map_of_mem h

theorem forest_empty : Forest [] where
  distinct := List.nodup_nil
  stored := fun _ _ h => absurd h List.not_mem_nil
  acyclic := acyclic_of_no_step (fun _ _ h => absurd h List.not_mem_nil)

/-- Only the links matter. -/
theorem Forest.congr {s' : InterfaceStore} (h : Forest s) (heq : s'.map link = s.map link) :
    Forest s' := by
  have hparent : ParentOf s' = ParentOf s := by
    unfold ParentOf
    rw [heq]
  have hkey : s'.map key = s.map key := by rw [map_key, map_key, heq]
  refine ⟨?_, ?_, ?_⟩
  · rw [hkey]
    exact h.distinct
  · rw [hkey, hparent]
    exact h.stored
  · rw [hparent]
    exact h.acyclic

/-! ## Removing -/

/-- **What the removal keeps while it runs.** It has taken the interfaces of its list out of
`s`; what is left has no parent among the roots, and none on the list but those in `todo`. -/
structure Pending (s : InterfaceStore) (roots : InterfaceKey → Prop) (todo : List Interface)
    (t : Removed) : Prop where
  links : (t.store.map link).Sublist (s.map link)
  keys : (t.store.map key ++ t.ifl.map Interface.key).Perm (s.map key)
  parents : ∀ a b, ParentOf t.store a b →
    ¬ roots b ∧ (b ∈ t.ifl.map Interface.key → b ∈ todo.map Interface.key)
  removed : t.removed = t.ifl.length

theorem Pending.length_le {todo : List Interface} (h : Pending s roots todo t) :
    t.store.length ≤ s.length := by
  have hle := h.links.length_le
  rw [List.length_map, List.length_map] at hle
  exact hle

/-- One interface is popped, and its children removed. -/
theorem Pending.pop {child : Interface} {todo : List Interface} {u : Removed}
    (h : Pending s roots (child :: todo) t) (hu : Pending t.store (· = child.key) [] u) :
    Pending s roots todo ⟨u.store, t.ifl ++ u.ifl, t.removed + u.removed⟩ where
  links := hu.links.trans h.links
  keys := by
    have hleft : (t.store.map key ++ t.ifl.map Interface.key).Perm
        (u.store.map key ++ (t.ifl.map Interface.key ++ u.ifl.map Interface.key)) := by
      refine (hu.keys.symm.append_right _).trans ?_
      rw [List.append_assoc]
      exact List.Perm.append_left _ List.perm_append_comm
    rw [List.map_append]
    exact hleft.symm.trans h.keys
  parents := by
    intro a b hab
    obtain ⟨hchild, hnew⟩ := hu.parents a b hab
    obtain ⟨hroots, hold⟩ := h.parents a b (hu.links.subset hab)
    refine ⟨hroots, ?_⟩
    intro hmem
    rw [List.map_append, List.mem_append] at hmem
    rcases hmem with hmem | hmem
    · have hwait := hold hmem
      rw [List.map_cons, List.mem_cons] at hwait
      exact hwait.resolve_left hchild
    · exact absurd (hnew hmem) List.not_mem_nil
  removed := by rw [h.removed, hu.removed, List.length_append]

/-- **The popping loop**, when the removal it calls does its part on stores of this size. -/
theorem popChildren_spec {remove : InterfaceStore → Option InterfaceKey → Removed} {n : Nat}
    (hremove : ∀ u k, u.length ≤ n → Pending u (· = k) [] (remove u (some k))) :
    ∀ (todo : List Interface) (t : Removed),
    t.store.length ≤ n → Pending s roots todo t → Pending s roots [] (popChildren remove t todo)
  | [], _, _, h => h
  | child :: todo, t, hn, h => by
      have hu := hremove t.store child.key hn
      exact popChildren_spec hremove todo _ (Nat.le_trans hu.length_le hn) (h.pop hu)

theorem hasParent_iff : hasParent (some k) r = true ↔ r.parent = some k := by
  unfold hasParent
  cases r.parent with
  | none => simp
  | some p => simp

/-- Where the recursion starts: the children are out, and wait. -/
theorem pending_start (s : InterfaceStore) (k : InterfaceKey) :
    Pending s (· = k) ((s.filter (hasParent (some k))).map (fun r => r.iface.resetStored)).reverse
      ⟨s.filter (fun r => !hasParent (some k) r),
        (s.filter (hasParent (some k))).map (fun r => r.iface.resetStored),
        ((s.filter (hasParent (some k))).map (fun r => r.iface.resetStored)).length⟩ where
  links := List.filter_sublist.map link
  keys := by
    have hsplit := List.filter_append_perm (fun r => !hasParent (some k) r) s
    simp only [Bool.not_not] at hsplit
    have hmap := hsplit.map key
    rw [List.map_append] at hmap
    rw [List.map_map]
    exact hmap
  parents := by
    intro a b hab
    obtain ⟨r, hr, hlink⟩ := List.mem_map.mp hab
    have hparent : r.parent = some b := congrArg Prod.snd hlink
    refine ⟨?_, ?_⟩
    · intro hbk
      have hkeep := (List.mem_filter.mp hr).2
      rw [hasParent_iff.mpr (hparent.trans (congrArg some hbk))] at hkeep
      exact absurd hkeep Bool.false_ne_true
    · intro hmem
      rw [List.map_reverse, List.mem_reverse]
      exact hmem
  removed := rfl

/-- A call that collects children works on fewer records from there on. -/
theorem length_rest_lt (h : s.filter (hasParent (some k)) ≠ []) :
    (s.filter (fun r => !hasParent (some k) r)).length < s.length := by
  have hlen := (List.filter_append_perm (hasParent (some k)) s).length_eq
  rw [List.length_append] at hlen
  have hpos := List.length_pos_iff.mpr h
  omega

/-- **`remove_children` clears the children of an interface** and theirs, given the depth. -/
theorem removeChildrenTo_spec : ∀ (depth : Nat) (s : InterfaceStore) (k : InterfaceKey),
    s.length < depth → Pending s (· = k) [] (removeChildrenTo depth s (some k))
  | 0, _, _, h => absurd h (Nat.not_lt_zero _)
  | depth + 1, s, k, h => by
      have hstart := pending_start s k
      rw [removeChildrenTo]
      by_cases hnone : s.filter (hasParent (some k)) = []
      · rw [hnone] at hstart ⊢
        exact hstart
      · -- at least one record is out, so the calls are on a smaller store
        have hfewer := length_rest_lt hnone
        have hcall : ∀ u q, u.length ≤ depth - 1 →
            Pending u (· = q) [] (removeChildrenTo depth u (some q)) := by
          intro u q hu
          exact removeChildrenTo_spec depth u q (by omega)
        refine popChildren_spec hcall _ _ ?_ hstart
        show (s.filter (fun r => !hasParent (some k) r)).length ≤ depth - 1
        omega

theorem removeChildren_spec (s : InterfaceStore) (k : InterfaceKey) :
    Pending s (· = k) [] (removeChildren s (some k)) :=
  removeChildrenTo_spec (s.length + 1) s k (Nat.lt_succ_self _)

/-- The popping loop only sees the removal on stores of the size it starts with. -/
theorem popChildren_congr {f g : InterfaceStore → Option InterfaceKey → Removed} {n : Nat}
    (hfg : ∀ u k, u.length ≤ n →
      f u (some k) = g u (some k) ∧ (f u (some k)).store.length ≤ u.length) :
    ∀ (todo : List Interface) (t : Removed), t.store.length ≤ n →
      popChildren f t todo = popChildren g t todo
  | [], _, _ => rfl
  | child :: todo, t, hn => by
      obtain ⟨heq, hle⟩ := hfg t.store child.key hn
      rw [popChildren, popChildren, ← heq]
      exact popChildren_congr hfg todo _ (Nat.le_trans hle hn)

/-- More depth than there are records changes nothing. -/
theorem removeChildrenTo_enough : ∀ (depth depth' : Nat) (s : InterfaceStore) (k : InterfaceKey),
    s.length < depth → s.length < depth' →
    removeChildrenTo depth s (some k) = removeChildrenTo depth' s (some k)
  | 0, _, _, _, h, _ => absurd h (Nat.not_lt_zero _)
  | _ + 1, 0, _, _, _, h => absurd h (Nat.not_lt_zero _)
  | depth + 1, depth' + 1, s, k, h, h' => by
      rw [removeChildrenTo, removeChildrenTo]
      by_cases hnone : s.filter (hasParent (some k)) = []
      · rw [hnone]
        rfl
      · have hfewer := length_rest_lt hnone
        refine popChildren_congr (n := s.length - 1) ?_ _ _ (Nat.le_sub_one_of_lt hfewer)
        intro u q hu
        exact ⟨removeChildrenTo_enough depth depth' u q (by omega) (by omega),
          (removeChildrenTo_spec depth u q (by omega)).length_le⟩

/-- **`remove_children` calls itself**, and the depth is only there to see that it ends. -/
theorem removeChildren_eq (s : InterfaceStore) (k : InterfaceKey) :
    removeChildren s (some k) = popChildren removeChildren
      ⟨s.filter (fun r => !hasParent (some k) r),
        (s.filter (hasParent (some k))).map (fun r => r.iface.resetStored),
        ((s.filter (hasParent (some k))).map (fun r => r.iface.resetStored)).length⟩
      ((s.filter (hasParent (some k))).map (fun r => r.iface.resetStored)).reverse := by
  rw [removeChildren, removeChildrenTo]
  by_cases hnone : s.filter (hasParent (some k)) = []
  · rw [hnone]
    rfl
  · have hfewer := length_rest_lt hnone
    refine popChildren_congr (n := s.length - 1) ?_ _ _ (Nat.le_sub_one_of_lt hfewer)
    intro u q hu
    exact ⟨removeChildrenTo_enough _ _ u q (by omega) (Nat.lt_succ_self _),
      (removeChildrenTo_spec _ u q (by omega)).length_le⟩

/-- Nothing has a null reference for its parent. -/
theorem removeChildren_none (s : InterfaceStore) : removeChildren s none = ⟨s, [], 0⟩ := by
  have hnone : ∀ r : InterfaceRecord, hasParent none r = false := by
    intro r
    unfold hasParent
    cases r.parent with
    | none => rfl
    | some p => simp
  have hall : s.filter (fun r => !hasParent none r) = s :=
    List.filter_eq_self.mpr (fun r _ => by rw [hnone r]; rfl)
  have hfew : s.filter (hasParent none) = [] :=
    List.filter_eq_nil_iff.mpr (fun r _ => by rw [hnone r]; exact Bool.false_ne_true)
  rw [removeChildren, removeChildrenTo, hall, hfew]
  rfl

/-- Fewer records, and none twice. -/
theorem distinct_of_links {s' : InterfaceStore} (h : (s.map key).Nodup)
    (hlinks : (s'.map link).Sublist (s.map link)) : (s'.map key).Nodup := by
  rw [map_key] at h ⊢
  exact List.Nodup.sublist (hlinks.map Prod.fst) h

/-- **A forest stays one** when keys go that are the parent of nothing left. -/
theorem Forest.cleared {s₁ : InterfaceStore} (h : Forest s)
    (hsub : (s₁.map link).Sublist (s.map link)) (hkeys : ∀ q ∈ s.map key, q ∈ s₁.map key ∨ roots q)
    (ht : Pending s₁ roots [] t) : Forest t.store := by
  have hlinks := ht.links.trans hsub
  refine ⟨distinct_of_links h.distinct hlinks, ?_,
    h.acyclic.mono (fun a b hab => hlinks.subset hab)⟩
  · intro a b hab
    obtain ⟨hroots, hgone⟩ := ht.parents a b hab
    have hb : b ∈ s₁.map key := (hkeys b (h.stored a b (hlinks.subset hab))).resolve_right hroots
    rcases List.mem_append.mp (ht.keys.mem_iff.mpr hb) with hleft | hout
    · exact hleft
    · exact absurd (hgone hout) List.not_mem_nil

/-- What was found is what goes. -/
theorem perm_eraseP :
    ∀ {s : InterfaceStore}, s.find? hit = some r → s.Perm (r :: s.eraseP hit)
  | [], h => nomatch h
  | x :: s, h => by
      by_cases hx : hit x = true
      · rw [List.find?_cons_of_pos hx] at h
        rw [List.eraseP_cons_of_pos hx, Option.some.inj h]
      · rw [List.find?_cons_of_neg hx] at h
        rw [List.eraseP_cons_of_neg hx]
        exact ((perm_eraseP h).cons x).trans (List.Perm.swap r x _)

/-- A record goes, and then what was found on it. -/
theorem Forest.erased (h : Forest s) (hr : s.find? hit = some r) :
    Forest (removeChildren (s.eraseP hit) (some (key r))).store := by
  refine h.cleared (List.eraseP_sublist.map link) ?_ (removeChildren_spec _ (key r))
  intro q hq
  have hq' := ((perm_eraseP hr).map key).mem_iff.mp hq
  rw [List.map_cons, List.mem_cons] at hq'
  exact hq'.symm

theorem removeFirst_forest (h : Forest s) (hit : InterfaceRecord → Bool) :
    Forest (removeFirst hit s).store := by
  unfold removeFirst
  cases hr : s.find? hit with
  | none => exact h
  | some r => exact h.erased hr

theorem removeRef_forest (h : Forest s) (iface : Option Interface) :
    Forest (removeRef s iface).store := by
  cases iface with
  | none => exact (congrArg Removed.store (removeChildren_none s)) ▸ h
  | some i => exact removeFirst_forest h _

theorem removeId_forest (h : Forest s) (type : InterfaceType) (identifier : Option (Nat → UInt8)) :
    Forest (removeId s type identifier).store := by
  cases identifier with
  | none => exact (congrArg Removed.store (removeChildren_none s)) ▸ h
  | some bytes =>
      unfold removeId
      cases hr : s.find? (fun r => r.iface.equal type bytes) with
      | none =>
          simp only [hr]
          exact h
      | some r =>
          simp only [hr]
          exact h.erased hr

/-! ## Ageing -/

/-- The loop of `age` sorts the records into those that stay and those that died. -/
theorem ageLoop_spec :
    ∀ (s : InterfaceStore) (lifetime : Timeval) (a : Aged), ageLoop due clock lifetime s = some a →
      (a.kept.map link).Sublist (s.map link) ∧
      (a.kept.map key ++ a.dead.map Interface.key).Perm (s.map key)
  | [], lifetime, a, h => by
      rw [ageLoop, Option.some.injEq] at h
      subst h
      exact ⟨List.Sublist.refl _, List.Perm.refl _⟩
  | r :: s, lifetime, a, h => by
      -- a record that stays keeps its link, aged or not
      have hstay : ∀ (r' : InterfaceRecord) (l : Timeval), link r' = link r →
          (ageLoop due clock l s).map (fun a => (⟨r' :: a.kept, a.dead, a.lifetime⟩ : Aged)) =
            some a →
          (a.kept.map link).Sublist ((r :: s).map link) ∧
          (a.kept.map key ++ a.dead.map Interface.key).Perm ((r :: s).map key) := by
        intro r' l hlink hmap
        obtain ⟨b, hb, rfl⟩ := Option.map_eq_some_iff.mp hmap
        obtain ⟨hsub, hperm⟩ := ageLoop_spec s l b hb
        have hkey : key r' = key r := congrArg Prod.fst hlink
        refine ⟨?_, ?_⟩
        · rw [List.map_cons, List.map_cons, hlink]
          exact hsub.cons_cons _
        · rw [List.map_cons, List.map_cons, hkey, List.cons_append]
          exact hperm.cons _
      rw [ageLoop] at h
      by_cases hdue : due r = true
      · rw [if_pos hdue] at h
        cases hcip : r.cip with
        | none =>
            simp only [hcip] at h
            exact nomatch h
        | some cip =>
            simp only [hcip] at h
            by_cases hdead : cip.isDead (clock (key r)) = true
            · rw [if_pos hdead] at h
              obtain ⟨b, hb, rfl⟩ := Option.map_eq_some_iff.mp h
              obtain ⟨hsub, hperm⟩ := ageLoop_spec s lifetime b hb
              refine ⟨hsub.cons _, ?_⟩
              rw [List.map_cons, List.map_cons]
              exact List.perm_middle.trans (hperm.cons _)
            · rw [if_neg hdead] at h
              exact hstay { r with cip := some cip.age } _ rfl h
      · rw [if_neg hdue] at h
        exact hstay _ _ rfl h

/-- Ageing ends as a removal does. -/
theorem ageWith_pending {lifetime : Timeval} (hage : ageWith due clock s = some (t, lifetime)) :
    Pending s (fun _ => False) [] t := by
  obtain ⟨a, ha, hres⟩ := Option.map_eq_some_iff.mp hage
  obtain ⟨hsub, hperm⟩ := ageLoop_spec s _ a ha
  -- nothing is a root here: what died is on the list and waits
  have hstart : Pending s (fun _ => False) a.dead.reverse ⟨a.kept, a.dead, a.dead.length⟩ := by
    refine ⟨hsub, hperm, ?_, rfl⟩
    intro p q _
    refine ⟨not_false, ?_⟩
    intro hq
    rw [List.map_reverse, List.mem_reverse]
    exact hq
  have hcall : ∀ u k, u.length ≤ a.kept.length →
      Pending u (· = k) [] (removeChildren u (some k)) := fun u k _ => removeChildren_spec u k
  have hdone := popChildren_spec hcall _ _ (Nat.le_refl a.kept.length) hstart
  have ht : popChildren removeChildren ⟨a.kept, a.dead, a.dead.length⟩ a.dead.reverse = t :=
    congrArg Prod.fst hres
  rw [ht] at hdone
  exact hdone

theorem ageWith_forest (h : Forest s) {lifetime : Timeval}
    (hage : ageWith due clock s = some (t, lifetime)) : Forest t.store :=
  h.cleared (List.Sublist.refl _) (fun _ hq => Or.inl hq) (ageWith_pending hage)

/-! ## Adding -/

/-- Whether following parents leads from one interface to another, looking at each record
once. -/
def leadsTo : Nat → InterfaceStore → InterfaceKey → InterfaceKey → Bool
  | 0, _, a, b => a = b
  | n + 1, s, a, b => a = b || s.any (fun r => key r = a && r.parent.any (fun p =>
      leadsTo n (s.filter (fun r => key r ≠ a)) p b))

/-- Whether following parents leads from one interface to another. -/
def leads (s : InterfaceStore) (a b : InterfaceKey) : Bool := leadsTo s.length s a b

theorem parentOf_iff : ParentOf s a b ↔ ∃ r ∈ s, key r = a ∧ r.parent = some b := by
  unfold ParentOf
  rw [List.mem_map]
  refine exists_congr (fun r => and_congr_right (fun _ => ?_))
  rw [link, Prod.mk.injEq]

theorem reaches_of_leadsTo : ∀ (n : Nat) (s : InterfaceStore) (a b : InterfaceKey),
    leadsTo n s a b = true → ReflTransGen (ParentOf s) a b
  | 0, s, a, b, h => by
      rw [leadsTo, decide_eq_true_eq] at h
      rw [h]
  | n + 1, s, a, b, h => by
      rw [leadsTo, Bool.or_eq_true, decide_eq_true_eq] at h
      rcases h with h | h
      · rw [h]
      · obtain ⟨r, hr, hleads⟩ := List.any_eq_true.mp h
        rw [Bool.and_eq_true, decide_eq_true_eq] at hleads
        obtain ⟨hkey, hany⟩ := hleads
        obtain ⟨p, hp, hrest⟩ := (Option.any_eq_true _ _).mp hany
        have hway := reaches_of_leadsTo n _ p b hrest
        refine ReflTransGen.head (parentOf_iff.mpr ⟨r, hr, hkey, hp⟩) ?_
        refine ReflTransGen.mono ?_ p b hway
        intro c d hcd
        exact (List.filter_sublist.map link).subset hcd

theorem leadsTo_of_reaches : ∀ (n : Nat) (s : InterfaceStore) (a b : InterfaceKey),
    s.length ≤ n → Acyclic (ParentOf s) → ReflTransGen (ParentOf s) a b →
    leadsTo n s a b = true
  | 0, s, a, b, hn, _, h => by
      have hnil : s = [] := List.length_eq_zero_iff.mp (Nat.le_zero.mp hn)
      rcases ReflTransGen.cases_head h with hab | ⟨c, hac, _⟩
      · rw [leadsTo, decide_eq_true_eq]
        exact hab
      · rw [hnil] at hac
        exact absurd hac List.not_mem_nil
  | n + 1, s, a, b, hn, hacyclic, h => by
      rw [leadsTo, Bool.or_eq_true, decide_eq_true_eq]
      rcases ReflTransGen.cases_head h with hab | ⟨p, hap, hpb⟩
      · exact Or.inl hab
      · obtain ⟨r, hr, hkey, hp⟩ := parentOf_iff.mp hap
        -- the way on does not come back to `a`, so its record is not needed again
        have hway : ReflTransGen (ParentOf (s.filter (fun r => key r ≠ a))) p b := by
          refine ReflTransGen.mono ?_ p b (hacyclic.leaves hap hpb)
          rintro c d ⟨hca, hcd⟩
          obtain ⟨x, hx, hxc, hxd⟩ := parentOf_iff.mp hcd
          refine parentOf_iff.mpr ⟨x, List.mem_filter.mpr ⟨hx, ?_⟩, hxc, hxd⟩
          rw [decide_eq_true_eq, hxc]
          exact hca
        have hshort : (s.filter (fun r => key r ≠ a)).length ≤ n := by
          have hlt : (s.filter (fun r => key r ≠ a)).length < s.length := by
            refine List.length_filter_lt_length_iff_exists.mpr ⟨r, hr, ?_⟩
            rw [decide_eq_true_eq]
            exact fun hne => hne hkey
          omega
        have hless : Acyclic (ParentOf (s.filter (fun r => key r ≠ a))) :=
          hacyclic.mono (fun c d hcd => (List.filter_sublist.map link).subset hcd)
        refine Or.inr (List.any_eq_true.mpr ⟨r, hr, ?_⟩)
        rw [Bool.and_eq_true, decide_eq_true_eq]
        exact ⟨hkey, (Option.any_eq_true _ _).mpr
          ⟨p, hp, leadsTo_of_reaches n _ p b hshort hless hway⟩⟩

/-- **`leads` follows parents.** -/
theorem leads_iff (h : Acyclic (ParentOf s)) : leads s a b = true ↔ ReflTransGen (ParentOf s) a b :=
  ⟨reaches_of_leadsTo s.length s a b, leadsTo_of_reaches s.length s a b (Nat.le_refl _) h⟩

/-- Whether an `addupdate` would hang the stored interface under something found through it:
it was only overheard so far, and the new parent leads to it. -/
def wouldCycle (s : InterfaceStore) (iface : Interface) (parent : Option InterfaceKey) : Bool :=
  (retrieve s iface).any Interface.isSnooped && parent.any (fun p => leads s p iface.key)

theorem find_none_iff : s.find? (fun r => key r = k) = none ↔ k ∉ s.map key := by
  rw [List.find?_eq_none, List.mem_map]
  simp only [decide_eq_true_eq, not_exists, not_and]

/-- The loop of `addupdate`, on an interface that is stored. -/
theorem updateFirst_found {k : InterfaceKey} {parent : Option InterfaceKey}
    {policy : Option Policy} {r : InterfaceRecord} : ∀ {s : InterfaceStore},
    s.find? (fun r => key r = k) = some r →
    ∃ pre post, s = pre ++ r :: post ∧ updateFirst k parent policy s =
      some (pre ++ refresh parent policy r :: post, (refresh parent policy r).iface)
  | [], h => nomatch h
  | x :: s, h => by
      rw [updateFirst]
      by_cases hx : key x = k
      · rw [List.find?_cons_of_pos (by simpa using hx), Option.some.injEq] at h
        rw [if_pos hx, ← h]
        exact ⟨[], s, rfl, rfl⟩
      · rw [List.find?_cons_of_neg (by simpa using hx)] at h
        obtain ⟨pre, post, hs, hu⟩ := @updateFirst_found k parent policy r s h
        rw [if_neg hx, hu, hs]
        exact ⟨x :: pre, post, rfl, rfl⟩

/-- The loop of `addupdate`, on an interface that is not. -/
theorem updateFirst_missing {policy : Option Policy} : ∀ {s : InterfaceStore},
    s.find? (fun r => key r = k) = none → updateFirst k parent policy s = none
  | [], _ => rfl
  | x :: s, h => by
      have hx : key x ≠ k := by
        intro hx
        rw [List.find?_cons_of_pos (by simpa using hx)] at h
        exact nomatch h
      rw [List.find?_cons_of_neg (by simpa using hx)] at h
      rw [updateFirst, if_neg hx, updateFirst_missing h]
      rfl

/-- A parent for a record of the forest: what it closes, and nothing else. -/
theorem parentOf_replace {pre post : InterfaceStore} {x : InterfaceRecord} {p : InterfaceKey}
    (h : Forest (pre ++ r :: post)) (hx : link x = (key r, some p)) :
    ParentOf (pre ++ x :: post) = redirect (ParentOf (pre ++ r :: post)) (key r) p := by
  -- every other row has another key, so its link stays
  have hothers : ∀ y ∈ pre ++ post, key y ≠ key r := by
    have hd := h.distinct
    rw [List.map_append, List.map_cons] at hd
    have hnot := (List.nodup_cons.mp (List.nodup_middle.mp hd)).1
    intro y hy heq
    rw [← List.map_append] at hnot
    exact hnot (heq ▸ List.mem_map_of_mem hy)
  funext a b
  refine propext ?_
  unfold redirect ParentOf
  rw [List.map_append, List.map_cons, List.map_append, List.map_cons, hx]
  constructor
  · intro hab
    rcases List.mem_append.mp hab with hpre | hrest
    · obtain ⟨y, hy, hlink⟩ := List.mem_map.mp hpre
      have hya : key y = a := congrArg Prod.fst hlink
      exact Or.inl ⟨hya ▸ hothers y (List.mem_append_left _ hy), List.mem_append_left _ hpre⟩
    · rcases List.mem_cons.mp hrest with heq | hpost
      · rw [Prod.mk.injEq, Option.some.injEq] at heq
        exact Or.inr heq
      · obtain ⟨y, hy, hlink⟩ := List.mem_map.mp hpost
        have hya : key y = a := congrArg Prod.fst hlink
        exact Or.inl ⟨hya ▸ hothers y (List.mem_append_right _ hy),
          List.mem_append_right _ (List.mem_cons_of_mem _ hpost)⟩
  · intro hab
    rcases hab with ⟨hne, hab⟩ | ⟨rfl, rfl⟩
    · rcases List.mem_append.mp hab with hpre | hrest
      · exact List.mem_append_left _ hpre
      · rcases List.mem_cons.mp hrest with heq | hpost
        · exact absurd (congrArg Prod.fst heq) hne
        · exact List.mem_append_right _ (List.mem_cons_of_mem _ hpost)
    · exact List.mem_append_right _ List.mem_cons_self

theorem key_refresh (parent : Option InterfaceKey) (policy : Option Policy)
    (r : InterfaceRecord) : key (refresh parent policy r) = key r := by
  unfold key refresh
  by_cases hs : r.iface.isSnooped = true
  · rw [if_pos hs]
    rfl
  · rw [if_neg hs]

/-- **The record that is found.** The forest is kept unless the record takes a parent that
leads back to it. -/
theorem forest_refresh_iff {pre post : InterfaceStore} {policy : Option Policy}
    (h : Forest (pre ++ r :: post))
    (hparent : ∀ p, parent = some p → p ∈ (pre ++ r :: post).map key) :
    Forest (pre ++ refresh parent policy r :: post) ↔
      (r.iface.isSnooped && parent.any (fun p => leads (pre ++ r :: post) p (key r))) = false := by
  have hkey := key_refresh parent policy r
  have hkeys : (pre ++ refresh parent policy r :: post).map key = (pre ++ r :: post).map key := by
    rw [List.map_append, List.map_append, List.map_cons, List.map_cons, hkey]
  by_cases hs : r.iface.isSnooped = true
  · have hlink : link (refresh parent policy r) = (key r, parent) := by
      have hp : (refresh parent policy r).parent = parent := if_pos hs
      rw [link, hkey, hp]
    rw [hs, Bool.true_and]
    cases parent with
    | none =>
        -- a parent is taken away
        have hless : ∀ a b, ParentOf (pre ++ refresh none policy r :: post) a b →
            ParentOf (pre ++ r :: post) a b := by
          intro a b hab
          unfold ParentOf at hab ⊢
          rw [List.map_append, List.map_cons, hlink, List.mem_append, List.mem_cons,
            Prod.mk.injEq] at hab
          rw [List.map_append, List.map_cons, List.mem_append, List.mem_cons]
          rcases hab with hpre | ⟨_, hnone⟩ | hpost
          · exact Or.inl hpre
          · exact nomatch hnone
          · exact Or.inr (Or.inr hpost)
        refine iff_of_true ⟨hkeys ▸ h.distinct, ?_, h.acyclic.mono hless⟩ rfl
        intro a b hab
        rw [hkeys]
        exact h.stored a b (hless a b hab)
    | some p =>
        have hrel := parentOf_replace h hlink
        rw [Option.any_some, ← Bool.not_eq_true, leads_iff h.acyclic]
        rw [← acyclic_redirect_iff h.acyclic, ← hrel]
        refine ⟨fun hforest => hforest.acyclic, fun hacyclic => ⟨hkeys ▸ h.distinct, ?_, hacyclic⟩⟩
        intro a b hab
        rw [hkeys]
        rw [hrel] at hab
        rcases hab with ⟨_, hab⟩ | ⟨_, hbp⟩
        · exact h.stored a b hab
        · rw [hbp]
          exact hparent p rfl
  · rw [Bool.not_eq_true] at hs
    have hlink : link (refresh parent policy r) = link r := by
      have hp : (refresh parent policy r).parent = r.parent :=
        if_neg (by rw [hs]; exact Bool.false_ne_true)
      rw [link, hkey, hp, link]
    rw [hs, Bool.false_and]
    refine iff_of_true (h.congr ?_) rfl
    rw [List.map_append, List.map_append, List.map_cons, List.map_cons, hlink]

/-- **A new record** under a stored parent, or none, is a leaf. -/
theorem Forest.push {x : InterfaceRecord} (h : Forest s) (hx : key x ∉ s.map key)
    (hparent : ∀ p, x.parent = some p → p ∈ s.map key) : Forest (s ++ [x]) := by
  have hstep : ∀ a b, ParentOf (s ++ [x]) a b →
      ParentOf s a b ∨ (a = key x ∧ x.parent = some b) := by
    intro a b hab
    unfold ParentOf at hab
    rw [List.map_append, List.mem_append, List.map_singleton, List.mem_singleton, link,
      Prod.mk.injEq] at hab
    rcases hab with hab | ⟨ha, hb⟩
    · exact Or.inl hab
    · exact Or.inr ⟨ha, hb.symm⟩
  refine ⟨?_, ?_, ?_⟩
  · rw [List.map_append, List.map_singleton]
    exact List.nodup_append'.mpr ⟨h.distinct, List.nodup_singleton _,
      fun k hk hk' => hx (List.mem_singleton.mp hk' ▸ hk)⟩
  · intro a b hab
    rw [List.map_append]
    rcases hstep a b hab with hold | ⟨_, hb⟩
    · exact List.mem_append_left _ (h.stored a b hold)
    · exact List.mem_append_left _ (hparent b hb)
  · cases hp : x.parent with
    | none =>
        refine h.acyclic.mono ?_
        intro a b hab
        rcases hstep a b hab with hold | ⟨_, hb⟩
        · exact hold
        · rw [hp] at hb
          exact nomatch hb
    | some p =>
        -- nothing leads to a key that is not stored
        have hfree : ¬ ReflTransGen (ParentOf s) p (key x) := by
          intro hlead
          rcases ReflTransGen.cases_tail hlead with heq | ⟨c, _, hc⟩
          · exact hx (heq ▸ hparent p hp)
          · exact hx (h.stored c _ hc)
        refine ((acyclic_redirect_iff h.acyclic).mpr hfree).mono ?_
        intro a b hab
        rcases hstep a b hab with hold | ⟨ha, hb⟩
        · exact Or.inl ⟨fun hax => hx (hax ▸ hold.child_mem), hold⟩
        · rw [hp] at hb
          exact Or.inr ⟨ha, (Option.some.inj hb).symm⟩

theorem retrieve_none_iff : retrieve s i = none ↔ i.key ∉ s.map key := by
  unfold retrieve
  rw [Option.map_eq_none_iff, find_none_iff]

theorem retrieve_key {j : Interface} (h : retrieve s i = some j) :
    j.key = i.key ∧ i.key ∈ s.map key := by
  obtain ⟨r, hr, rfl⟩ := Option.map_eq_some_iff.mp h
  have hkey : key r = i.key := by simpa using List.find?_some hr
  exact ⟨hkey, hkey ▸ List.mem_map_of_mem (List.mem_of_find?_eq_some hr)⟩

/-- **`addupdate` keeps the forest** exactly when it hangs nothing under its own descendant. -/
theorem addLoop_forest_iff {s : InterfaceStore} {i fresh : Interface}
    {parent : Option InterfaceKey} (policy : Option Policy) (asked : Bool) (h : Forest s)
    (hfresh : fresh.key = i.key) (hparent : ∀ p, parent = some p → p ∈ s.map key) :
    Forest (addLoop s i fresh parent policy asked).store ↔ wouldCycle s i parent = false := by
  unfold addLoop wouldCycle retrieve
  cases hr : s.find? (fun r => key r = i.key) with
  | none =>
      rw [updateFirst_missing hr]
      refine iff_of_true (h.push ?_ hparent) rfl
      show fresh.key ∉ s.map key
      rw [hfresh]
      exact find_none_iff.mp hr
  | some r =>
      have hkey : key r = i.key := by simpa using List.find?_some hr
      obtain ⟨pre, post, hs, hu⟩ := @updateFirst_found _ parent policy r s hr
      rw [hu, Option.map_some, Option.any_some, ← hkey]
      subst hs
      exact forest_refresh_iff h hparent

/-- What is stored after `addupdate`: what was, and the interface. -/
theorem addLoop_keys {s : InterfaceStore} {i fresh : Interface} {parent : Option InterfaceKey}
    (policy : Option Policy) (asked : Bool) (hfresh : fresh.key = i.key) :
    (addLoop s i fresh parent policy asked).store.map key =
      if retrieve s i = none then s.map key ++ [i.key] else s.map key := by
  unfold addLoop
  cases hr : s.find? (fun r => key r = i.key) with
  | none =>
      rw [updateFirst_missing hr, if_pos (retrieve_none_iff.mpr (find_none_iff.mp hr)),
        List.map_append]
      show s.map key ++ [fresh.key] = s.map key ++ [i.key]
      rw [hfresh]
  | some r =>
      obtain ⟨pre, post, hs, hu⟩ := @updateFirst_found _ parent policy r s hr
      have hin : retrieve s i ≠ none := by
        unfold retrieve
        rw [hr]
        exact Option.some_ne_none _
      rw [hu, if_neg hin, hs, List.map_append, List.map_append, List.map_cons, List.map_cons,
        key_refresh]

/-! ## Runs -/

/-- The interface an `addupdate` is given has a parent that is not stored. -/
def orphan (s : InterfaceStore) (iface parent : Option Interface) : Bool :=
  iface.isSome && parent.any (fun p => retrieve s p = none)

/-- The parent an `addupdate` finds in the store. -/
def parentStore (s : InterfaceStore) (parent : Option Interface) : Option InterfaceKey :=
  (parent.bind (retrieve s)).map Interface.key

/-- An `addupdate` hangs nothing under its own descendant. -/
def hangsWell (s : InterfaceStore) (iface parent : Option Interface) : Bool :=
  iface.all (fun i => !wouldCycle s i (parentStore s parent))

/-- **What the store relies on its callers for.** -/
def wellCalled (s : InterfaceStore) : StoreOp → Bool
  | .addupdateRef iface parent _ _ => hangsWell s iface parent
  | .addupdatePtr iface parent _ _ => hangsWell s iface parent
  | .addupdateFound iface parent _ _ =>
      hangsWell s iface parent && (!orphan s iface parent || (iface.bind (retrieve s)).isSome)
  | _ => true

/-- The call is an `addupdate` with a parent that is not stored. -/
def parentMissing (s : InterfaceStore) : StoreOp → Bool
  | .addupdateRef iface parent _ _ => orphan s iface parent
  | .addupdateFound iface parent _ _ => orphan s iface parent
  | .addupdatePtr iface parent _ _ => orphan s iface parent
  | _ => false

/-- What a call is to leave: a forest, and nothing added under a missing parent. -/
def Correct (s : InterfaceStore) (op : StoreOp) : Prop :=
  ∀ t, step s op = some t →
    Forest t ∧ (parentMissing s op = true → t.map key = s.map key)

theorem parentStore_mem {s : InterfaceStore} {parent : Option Interface} {p : InterfaceKey}
    (h : parentStore s parent = some p) : p ∈ s.map key := by
  obtain ⟨stored, hstored, rfl⟩ := Option.map_eq_some_iff.mp h
  obtain ⟨i, rfl, hi⟩ := Option.bind_eq_some_iff.mp hstored
  obtain ⟨hkey, hmem⟩ := retrieve_key hi
  exact hkey ▸ hmem

/-- The two overloads that give up on a parent that is not stored. -/
theorem addKnown_correct (h : Forest s) {fresh : Interface} (hfresh : fresh.key = i.key)
    (parent : Option Interface) (policy : Option Policy) (asked : Bool) :
    (Forest (addKnown s i fresh parent policy asked).store ∧ (orphan s (some i) parent = true →
      (addKnown s i fresh parent policy asked).store.map key = s.map key)) ↔
      hangsWell s (some i) parent = true := by
  have hwell : hangsWell s (some i) parent = true ↔
      wouldCycle s i (parentStore s parent) = false := by
    unfold hangsWell
    rw [Option.all_some, Bool.not_eq_true']
  rw [hwell]
  cases parent with
  | none =>
      have hkept := @addLoop_forest_iff s i fresh none policy asked h hfresh
        (fun p hp => nomatch hp)
      exact (and_iff_left (fun horphan => absurd horphan Bool.false_ne_true)).trans hkept
  | some p =>
      cases hp : retrieve s p with
      | none =>
          -- it gives up, and there is no parent to hang anything under
          have hnone : parentStore s (some p) = none := by
            unfold parentStore
            rw [Option.bind_some, hp]
            rfl
          have hgive : (addKnown s i fresh (some p) policy asked).store = s := by
            unfold addKnown
            simp only [hp]
          rw [hnone, hgive]
          refine iff_of_true ⟨h, fun _ => rfl⟩ ?_
          rw [wouldCycle, Option.any_none, Bool.and_false]
      | some stored =>
          have hsome : parentStore s (some p) = some stored.key := by
            unfold parentStore
            rw [Option.bind_some, hp]
            rfl
          have hkept := @addLoop_forest_iff s i fresh (some stored.key) policy asked h hfresh
            (fun q hq => parentStore_mem (hsome.trans hq))
          have hgo : addKnown s i fresh (some p) policy asked =
              addLoop s i fresh (some stored.key) policy asked := by
            unfold addKnown
            simp only [hp]
          rw [hsome, hgo]
          refine (and_iff_left ?_).trans hkept
          intro horphan
          simp [orphan, hp] at horphan

/-- The overload that takes a parent that is not stored for none. -/
theorem addupdateFound_correct (h : Forest s) (i : Interface) (parent : Option Interface)
    (policy : Option Policy) (asked : Bool) :
    (Forest (addupdateFound s (some i) parent policy asked).store ∧
      (orphan s (some i) parent = true →
        (addupdateFound s (some i) parent policy asked).store.map key = s.map key)) ↔
      (hangsWell s (some i) parent &&
        (!orphan s (some i) parent || (retrieve s i).isSome)) = true := by
  have hfresh : i.copy.setStored.key = i.key := rfl
  have hkept := addLoop_forest_iff policy asked h hfresh
    (fun p hp => @parentStore_mem s parent p hp)
  have hkeys := @addLoop_keys s _ _ (parentStore s parent) policy asked hfresh
  rw [Bool.and_eq_true]
  refine and_congr ?_ ?_
  · rw [hangsWell, Option.all_some, Bool.not_eq_true']
    exact hkept
  · show (orphan s (some i) parent = true →
      (addLoop s i i.copy.setStored (parentStore s parent) policy asked).store.map key =
        s.map key) ↔ _
    rw [hkeys]
    -- a new interface makes the store longer, so an orphan must have been there
    cases hi : retrieve s i with
    | none =>
        rw [if_pos rfl, Option.isSome_none, Bool.or_false, Bool.not_eq_true']
        constructor
        · intro himp
          rw [← Bool.not_eq_true]
          intro horphan
          have hlen := congrArg List.length (himp horphan)
          rw [List.length_append, List.length_singleton] at hlen
          omega
        · intro hno horphan
          rw [hno] at horphan
          exact absurd horphan Bool.false_ne_true
    | some j =>
        rw [if_neg (Option.some_ne_none j), Option.isSome_some, Bool.or_true]
        exact iff_of_true (fun _ => rfl) rfl

/-- **One call.** A forest stays one, with nothing added under a missing parent, exactly when
the call is one the store can rely on. -/
theorem correct_iff (h : Forest s) (op : StoreOp) : Correct s op ↔ wellCalled s op = true := by
  -- a call that always succeeds, and one that is no `addupdate`
  have hdone : ∀ (t : InterfaceStore) (P : InterfaceStore → Prop),
      (∀ t', some t = some t' → P t') ↔ P t :=
    fun t P => ⟨fun hall => hall t rfl, fun ht t' heq => Option.some.inj heq ▸ ht⟩
  have hother : ∀ t : InterfaceStore, Forest t →
      (Forest t ∧ (false = true → t.map key = s.map key)) := fun t ht =>
    ⟨ht, fun hfalse => absurd hfalse Bool.false_ne_true⟩
  have hage : ∀ (due : InterfaceRecord → Bool) (clock : InterfaceKey → Timeval)
      (t : InterfaceStore), (ageWith due clock s).map (fun u => u.1.store) = some t →
      Forest t := by
    intro due clock t ht
    obtain ⟨u, hu, rfl⟩ := Option.map_eq_some_iff.mp ht
    exact ageWith_forest h hu
  unfold Correct
  cases op with
  | addupdateRef iface parent policy asked =>
      refine (hdone _ _).trans ?_
      cases iface with
      | none => exact iff_of_true (hother s h) rfl
      | some i =>
          refine addKnown_correct h ?_ parent policy asked
          cases asked with
          | true => rfl
          | false => rfl
  | addupdateFound iface parent policy asked =>
      refine (hdone _ _).trans ?_
      cases iface with
      | none => exact iff_of_true (hother s h) rfl
      | some i => exact addupdateFound_correct h i parent policy asked
  | addupdatePtr iface parent policy asked =>
      refine (hdone _ _).trans ?_
      cases iface with
      | none => exact iff_of_true (hother s h) rfl
      | some i =>
          refine addKnown_correct h ?_ parent policy asked
          cases asked with
          | true => rfl
          | false => rfl
  | removeName name => exact iff_of_true ((hdone _ _).mpr (hother _ (removeFirst_forest h _))) rfl
  | removePtr iface => exact iff_of_true ((hdone _ _).mpr (hother _ (removeRef_forest h iface))) rfl
  | removeRef iface => exact iff_of_true ((hdone _ _).mpr (hother _ (removeRef_forest h iface))) rfl
  | removeId type identifier =>
      exact iff_of_true ((hdone _ _).mpr (hother _ (removeId_forest h type identifier))) rfl
  | agePtr parent clock => exact iff_of_true (fun t ht => hother t (hage _ clock t ht)) rfl
  | ageRef parent clock => exact iff_of_true (fun t ht => hother t (hage _ clock t ht)) rfl
  | ageId type identifier clock =>
      exact iff_of_true (fun t ht => hother t (hage _ clock t ht)) rfl

/--
**The interfaces are a forest in every run**, with nothing added under a parent that is not
stored, exactly when no call hangs an interface under its own descendant, and the overload
that forgets to ask is given no new interface with a parent that is not stored.
-/
theorem interfaces_are_a_forest_iff (ops : List StoreOp) :
    (∀ pre op post, ops = pre ++ op :: post → ∀ s t, run step [] pre = some s →
      step s op = some t → Forest t ∧ (parentMissing s op = true → t.map key = s.map key)) ↔
      Guarded step (fun s op => wellCalled s op = true) [] ops := by
  have hsame := @guarded_congr _ _ step (fun s op => wellCalled s op = true) Correct Forest
    (fun s op h => (correct_iff h op).symm)
    (fun s op t h hok ht => ((correct_iff h op).mpr hok t ht).1) ops [] forest_empty
  rw [hsame, guarded_iff]
  constructor
  · intro h pre op post heq s hs t ht
    exact h pre op post heq s t hs ht
  · intro h pre op post heq s t hs ht
    exact h pre op post heq s hs t ht

/-- A local interface of this node. -/
def eth0 : Interface := ⟨⟨.ethernet, [2, 0, 0, 0, 0, 1]⟩, [101, 48], true, false, false⟩

/-- A neighbour, overheard. -/
def overheard : Interface := ⟨⟨.ethernet, [2, 0, 0, 0, 0, 2]⟩, [110], false, true, false⟩

/-- Another neighbour. -/
def further : Interface := ⟨⟨.ethernet, [2, 0, 0, 0, 0, 3]⟩, [109], false, false, false⟩

/-- A neighbour is overheard, another found through it, and the first announces itself; then
everything grows old. -/
def forestDay : List StoreOp :=
  [.addupdateFound (some eth0) none (some .ageless) true,
    .addupdateRef (some overheard) (some eth0) (some (.ttl 1 1)) true,
    .addupdatePtr (some further) (some overheard) (some (.ttl 3 3)) false,
    .addupdateFound (some overheard) (some eth0) (some (.ttl 1 1)) true,
    .ageRef (some eth0) (fun _ => Timeval.invalid),
    .ageRef (some eth0) (fun _ => Timeval.invalid),
    .removeRef (some eth0)]

theorem interfaces_are_a_forest_day :
    ∀ pre op post, forestDay = pre ++ op :: post → ∀ s t, run step [] pre = some s →
      step s op = some t → Forest t ∧ (parentMissing s op = true → t.map key = s.map key) :=
  (interfaces_are_a_forest_iff forestDay).mpr (by decide +kernel)

/--
**Not without the conditions.** The overload that `report_interface` calls adds an interface
whose parent the store has never seen. And two interfaces that each report the other become
each other's parents.
-/
theorem forest_fails :
    (∃ t, step [] (.addupdateFound (some further) (some eth0) (some .ageless) true) = some t ∧
      retrieve [] eth0 = none ∧ further.key ∈ t.map key) ∧
    (∃ s, run step [] [.addupdateRef (some overheard) none (some .ageless) true,
        .addupdateRef (some further) (some overheard) (some .ageless) true,
        .addupdateRef (some overheard) (some further) (some .ageless) true] = some s ∧
      ¬ Acyclic (ParentOf s)) := by
  refine ⟨⟨_, rfl, rfl, by decide +kernel⟩, _, rfl, ?_⟩
  intro hacyclic
  refine hacyclic overheard.key (TransGen.head (b := further.key) ?_ (TransGen.single ?_))
  · unfold ParentOf
    decide +kernel
  · unfold ParentOf
    decide +kernel

end InterfaceStore

end Encoders.Connectivity
