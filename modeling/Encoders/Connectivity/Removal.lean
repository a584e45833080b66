import Encoders.Connectivity.Forest
import Encoders.Data.TimeArithmetic

/-!
# What goes when an interface goes

When an interface is removed, everything found on it goes, and everything found on that: the
records whose parents lead to it (`Below`). The source walks the list over and over and
collects children as it goes, and the store may hold parents that lead round in a circle. What
counts is which records are left out in the end (`Removes`): they stand in their old order, and
each record that went is listed once.

Every removal is then a set of records to go, and the four overloads only differ in the record
they look up. A name may belong to several interfaces, and a bare identifier is compared over
the length of the stored one, so a shorter one in front of it is taken for it.

Ageing goes over the children of one interface: what is dead goes with what is below it, the
rest ages. The overload that takes a reference still leaves out the children that were only
overheard, which the other two no longer do.
-/

namespace Encoders.Connectivity

open Encoders.Lib Encoders.Data Relation

namespace InterfaceStore

variable {f : InterfaceRecord → InterfaceRecord} {due gone hit : InterfaceRecord → Bool}
variable {gone' : InterfaceRecord → Bool} {k : InterfaceKey}
  {t : Removed} {q : InterfaceRecord}

/-! ## What goes -/

/-- The record was found on an interface, or on something found on it. -/
def Below (s : InterfaceStore) (k : InterfaceKey) (q : InterfaceRecord) : Prop :=
  TransGen (ParentOf s) (key q) k

/-- What goes with a record: the record, and what is below it. -/
def GoesWith (s : InterfaceStore) (r q : InterfaceRecord) : Prop := q = r ∨ Below s (key r) q

/-- **What a removal leaves**: the other records in their order, changed by `f`; a list that has
each record that went once; and their number. -/
structure Removes (f : InterfaceRecord → InterfaceRecord) (s : InterfaceStore)
    (gone : InterfaceRecord → Bool) (t : Removed) : Prop where
  kept : t.store = (s.filter (fun r => !gone r)).map f
  listed : t.ifl.Perm ((s.filter gone).map (fun r => r.iface.resetStored))
  counted : t.removed = t.ifl.length

theorem Removes.congr {s : InterfaceStore} (h : Removes f s gone t)
    (hsame : ∀ r ∈ s, gone r = gone' r) : Removes f s gone' t where
  kept := by
    rw [h.kept]
    exact congrArg (List.map f) (List.filter_congr (fun r hr => congrArg _ (hsame r hr)))
  listed := by
    refine h.listed.trans (List.Perm.of_eq ?_)
    exact congrArg (List.map _) (List.filter_congr hsame)
  counted := h.counted

/-- What is left can be told from the store. -/
theorem Removes.mem_store {s : InterfaceStore} (h : Removes f s gone t) :
    q ∈ t.store ↔ ∃ r ∈ s, gone r = false ∧ f r = q := by
  rw [h.kept, List.mem_map]
  refine exists_congr (fun r => ?_)
  rw [List.mem_filter, Bool.not_eq_true', and_assoc]

/-- And what went, from the list. -/
theorem Removes.mem_keys {s : InterfaceStore} (h : Removes f s gone t) :
    k ∈ t.ifl.map Interface.key ↔ ∃ r ∈ s, gone r = true ∧ key r = k := by
  have hkeys := h.listed.map Interface.key
  rw [List.map_map] at hkeys
  rw [hkeys.mem_iff, List.mem_map]
  refine exists_congr (fun r => ?_)
  rw [List.mem_filter, and_assoc]
  rfl

/-- **One removal after the other.** -/
theorem Removes.trans {f : InterfaceRecord → InterfaceRecord} {s : InterfaceStore}
    {gone gone' : InterfaceRecord → Bool} {t u : Removed} (h : Removes f s gone t)
    (hu : Removes id t.store gone' u) (hf : ∀ r, (f r).iface = r.iface) :
    Removes f s (fun r => gone r || gone' (f r))
      ⟨u.store, t.ifl ++ u.ifl, t.removed + u.removed⟩ where
  kept := by
    dsimp only
    rw [hu.kept, List.map_id, h.kept, List.filter_map, List.filter_filter]
    refine congrArg (List.map f) (List.filter_congr (fun r _ => ?_))
    rw [Function.comp_apply, Bool.not_or, Bool.and_comm]
  listed := by
    have hsplit := List.filter_append_perm gone (s.filter (fun r => gone r || gone' (f r)))
    have hfirst : (s.filter (fun r => gone r || gone' (f r))).filter gone = s.filter gone := by
      rw [List.filter_filter]
      refine List.filter_congr (fun r _ => ?_)
      cases gone r <;> rfl
    have hrest : (s.filter (fun r => gone r || gone' (f r))).filter (fun r => !gone r) =
        (s.filter (fun r => !gone r)).filter (fun r => gone' (f r)) := by
      rw [List.filter_filter, List.filter_filter]
      refine List.filter_congr (fun r _ => ?_)
      cases gone r <;> cases gone' (f r) <;> rfl
    rw [hfirst, hrest] at hsplit
    refine List.Perm.trans ?_ (hsplit.map _)
    rw [List.map_append]
    refine h.listed.append (hu.listed.trans (List.Perm.of_eq ?_))
    rw [h.kept, List.filter_map, List.map_map]
    refine List.map_congr_left (fun r _ => ?_)
    rw [Function.comp_apply, hf]
  counted := by rw [h.counted, hu.counted, List.length_append]

/-- A removal gives nothing a parent. -/
theorem Removes.parentOf {s : InterfaceStore} (h : Removes f s gone t)
    (hf : ∀ r, link (f r) = link r) {a b : InterfaceKey} (hab : ParentOf t.store a b) :
    ParentOf s a b := by
  obtain ⟨q, hq, hlink⟩ := List.mem_map.mp hab
  obtain ⟨r, hr, -, rfl⟩ := h.mem_store.mp hq
  rw [hf] at hlink
  exact List.mem_map.mpr ⟨r, hr, hlink⟩

theorem Removes.below {s : InterfaceStore} (h : Removes f s gone t) (hf : ∀ r, link (f r) = link r)
    {r : InterfaceRecord} (hbelow : Below t.store k (f r)) : Below s k r := by
  have hkey : key (f r) = key r := congrArg Prod.fst (hf r)
  rw [Below, hkey] at hbelow
  exact TransGen.mono (fun a b hab => h.parentOf hf hab) _ _ hbelow

/-- A removal took out nothing that was not to go. -/
def Cuts (f : InterfaceRecord → InterfaceRecord) (s : InterfaceStore)
    (P : InterfaceRecord → Prop) (t : Removed) : Prop :=
  ∃ gone, Removes f s gone t ∧ ∀ r ∈ s, gone r = true → P r

/-- **The popping loop** takes out no more than what goes with the interfaces it pops. -/
theorem popChildren_cuts (hf : ∀ r, (f r).iface = r.iface ∧ (f r).parent = r.parent)
    {remove : InterfaceStore → Option InterfaceKey → Removed}
    (hremove : ∀ u k, Cuts id u (Below u k) (remove u (some k))) {s : InterfaceStore}
    {P : InterfaceRecord → Prop} (hP : ∀ p q, P p → Below s (key p) q → P q) :
    ∀ (todo : List Interface) (t : Removed), (∀ c ∈ todo, ∃ p, P p ∧ key p = c.key) →
      Cuts f s P t → Cuts f s P (popChildren remove t todo)
  | [], _, _, h => h
  | child :: todo, t, htodo, ⟨gone, ht, hgone⟩ => by
      obtain ⟨gone', hu, hgone'⟩ := hremove t.store child.key
      obtain ⟨p, hp, hkey⟩ := htodo child List.mem_cons_self
      have hlink : ∀ r, link (f r) = link r := fun r => by
        rw [link, link, key, key, (hf r).1, (hf r).2]
      refine popChildren_cuts hf hremove hP todo _ (fun c hc => htodo c (List.mem_cons_of_mem _ hc))
        ⟨_, ht.trans hu (fun r => (hf r).1), fun r hr hout => ?_⟩
      by_cases hr' : gone r = true
      · exact hgone r hr hr'
      · rw [Bool.or_eq_true] at hout
        have hkept : f r ∈ t.store := ht.mem_store.mpr ⟨r, hr, Bool.eq_false_iff.mpr hr', rfl⟩
        have hbelow := ht.below hlink (hgone' (f r) hkept (hout.resolve_left hr'))
        exact hP p r hp (hkey ▸ hbelow)

theorem parentOf_of_mem {s : InterfaceStore} (hq : q ∈ s) (hparent : q.parent = some k) :
    ParentOf s (key q) k :=
  parentOf_iff.mpr ⟨q, hq, rfl, hparent⟩

/-- Where the recursion starts: the children are out. -/
theorem cuts_start (s : InterfaceStore) (k : InterfaceKey) :
    Cuts id s (Below s k) ⟨s.filter (fun r => !hasParent (some k) r),
      (s.filter (hasParent (some k))).map (fun r => r.iface.resetStored),
      ((s.filter (hasParent (some k))).map (fun r => r.iface.resetStored)).length⟩ :=
  ⟨hasParent (some k), ⟨(List.map_id _).symm, List.Perm.refl _, rfl⟩, fun _ hr hchild =>
    TransGen.single (parentOf_of_mem hr (hasParent_iff.mp hchild))⟩

/-- **`remove_children` takes out no more than what is below**, to any depth. -/
theorem removeChildrenTo_cuts : ∀ (depth : Nat) (s : InterfaceStore) (k : InterfaceKey),
    Cuts id s (Below s k) (removeChildrenTo depth s (some k))
  | 0, s, k => by
      refine ⟨fun _ => false, ⟨?_, List.Perm.of_eq ?_, rfl⟩, fun _ _ hno => by cases hno⟩
      · rw [List.map_id]
        exact (List.filter_eq_self.mpr (fun _ _ => rfl)).symm
      · rw [List.filter_false]
        rfl
  | depth + 1, s, k => by
      rw [removeChildrenTo]
      refine popChildren_cuts (fun _ => ⟨rfl, rfl⟩) (removeChildrenTo_cuts depth)
        (fun p q hp hq => TransGen.trans hq hp) _ _ (fun c hc => ?_) (cuts_start s k)
      rw [List.mem_reverse] at hc
      obtain ⟨p, hp, rfl⟩ := List.mem_map.mp hc
      obtain ⟨hmem, hchild⟩ := List.mem_filter.mp hp
      exact ⟨p, TransGen.single (parentOf_of_mem hmem (hasParent_iff.mp hchild)), rfl⟩

/-! ## What stays -/

open Classical in
/-- `Below`, to be counted. -/
noncomputable def below (s : InterfaceStore) (k : InterfaceKey) (q : InterfaceRecord) : Bool :=
  decide (Below s k q)

theorem below_iff {s : InterfaceStore} : below s k q = true ↔ Below s k q := by
  simp [below]

theorem eq_of_key {s : InterfaceStore} (hd : (s.map key).Nodup) {r : InterfaceRecord} (hq : q ∈ s)
    (hr : r ∈ s) (hkey : key q = key r) : q = r :=
  List.inj_on_of_nodup_map hd hq hr hkey

/-- **What is left leads to nothing that went**, if no parent that is left did: the first step of
the way is one that is left, and ends at a record that is. -/
theorem Removes.stays {f : InterfaceRecord → InterfaceRecord} {s : InterfaceStore}
    {gone : InterfaceRecord → Bool} {t : Removed} {roots : InterfaceKey → Prop}
    (h : Removes f s gone t) (hd : (s.map key).Nodup) (hf : ∀ r, link (f r) = link r)
    (hleft : ∀ a b, ParentOf t.store a b → ¬ roots b ∧ b ∉ t.ifl.map Interface.key)
    {a b : InterfaceKey} (hway : TransGen (ParentOf s) a b) :
    ∀ r ∈ s, gone r = false → key r = a → ¬ roots b ∧ b ∉ t.ifl.map Interface.key := by
  have hstep : ∀ {c d : InterfaceKey} {r : InterfaceRecord}, ParentOf s c d → r ∈ s →
      gone r = false → key r = c → ParentOf t.store c d := by
    intro c d r hcd hr hstays hkey
    obtain ⟨q, hq, hqc, hparent⟩ := parentOf_iff.mp hcd
    obtain rfl := eq_of_key hd hq hr (hqc.trans hkey.symm)
    refine List.mem_map.mpr ⟨f q, h.mem_store.mpr ⟨q, hq, hstays, rfl⟩, ?_⟩
    rw [hf, link, hqc, hparent]
  induction hway using TransGen.head_induction_on with
  | single hab =>
      intro r hr hstays hkey
      exact hleft _ _ (hstep hab hr hstays hkey)
  | head hac hcb ih =>
      intro r hr hstays hkey
      obtain ⟨-, hnot⟩ := hleft _ _ (hstep hac hr hstays hkey)
      -- there is a way on, so what the step leads to is stored
      obtain ⟨d, hcd, -⟩ := TransGen.head'_iff.mp hcb
      obtain ⟨q, hq, hqc, -⟩ := parentOf_iff.mp hcd
      refine ih q hq (Bool.eq_false_iff.mpr (fun hgone => hnot ?_)) hqc
      exact h.mem_keys.mpr ⟨q, hq, hgone, hqc⟩

/-- **`remove_children` takes out all that is below, and nothing else.** -/
theorem removeChildren_removes {s : InterfaceStore} (hd : (s.map key).Nodup) (k : InterfaceKey) :
    Removes id s (below s k) (removeChildren s (some k)) := by
  obtain ⟨gone, hremoves, hgone⟩ := removeChildrenTo_cuts (s.length + 1) s k
  refine hremoves.congr (fun r hr => Bool.eq_iff_iff.mpr ?_)
  rw [below_iff]
  refine ⟨hgone r hr, fun hbelow => ?_⟩
  by_contra hstays
  have hpending := removeChildren_spec s k
  have hleft : ∀ a b, ParentOf (removeChildren s (some k)).store a b →
      ¬ b = k ∧ b ∉ (removeChildren s (some k)).ifl.map Interface.key := fun a b hab =>
    ⟨(hpending.parents a b hab).1, fun hmem =>
      List.not_mem_nil ((hpending.parents a b hab).2 hmem)⟩
  exact (hremoves.stays hd (fun _ => rfl) hleft hbelow r hr (Bool.eq_false_iff.mpr hstays) rfl).1 rfl

/-! ## Removing -/

open Classical in
/-- `GoesWith`, to be counted. -/
noncomputable def goesWith (s : InterfaceStore) (r q : InterfaceRecord) : Bool :=
  decide (GoesWith s r q)

theorem goesWith_iff {s : InterfaceStore} {r : InterfaceRecord} :
    goesWith s r q = true ↔ GoesWith s r q := by
  simp [goesWith]

/-- With every record once, taking out the first that matches is taking out that record. -/
theorem eraseP_eq_filter {r : InterfaceRecord} :
    ∀ {s : InterfaceStore}, s.Nodup → s.find? hit = some r →
      s.eraseP hit = s.filter (fun q => !decide (q = r))
  | [], _, h => nomatch h
  | x :: s, hd, h => by
      obtain ⟨hx, hd⟩ := List.nodup_cons.mp hd
      by_cases hhit : hit x = true
      · rw [List.find?_cons_of_pos hhit] at h
        obtain rfl := Option.some.inj h
        rw [List.eraseP_cons_of_pos hhit, List.filter_cons_of_neg (by simp)]
        refine (List.filter_eq_self.mpr (fun q hq => ?_)).symm
        rw [Bool.not_eq_true', decide_eq_false_iff_not]
        exact fun heq => hx (heq ▸ hq)
      · rw [List.find?_cons_of_neg hhit] at h
        have hne : x ≠ r := fun heq => hx (heq ▸ List.mem_of_find?_eq_some h)
        rw [List.eraseP_cons_of_neg hhit, List.filter_cons_of_pos (by simp [hne]),
          eraseP_eq_filter hd h]

/-- What is below a record is below it without the record, too. -/
theorem below_eraseP {s : InterfaceStore} {r : InterfaceRecord} (hr : s.find? hit = some r)
    (hne : key q ≠ key r) : Below (s.eraseP hit) (key r) q ↔ Below s (key r) q := by
  have hperm := (perm_eraseP hr).map link
  constructor
  · refine TransGen.mono (fun a b hab => ?_) _ _
    exact hperm.mem_iff.mpr (List.mem_cons_of_mem _ hab)
  · intro hway
    refine TransGen.mono (fun a b hab => ?_) _ _ (reaches_without hway hne)
    have hmem := hperm.mem_iff.mp hab.2
    rw [List.map_cons, List.mem_cons] at hmem
    exact hmem.resolve_left (fun heq => hab.1 (congrArg Prod.fst heq))

/-- **A record is looked up and goes**, and what is below it. -/
theorem found_removes {s : InterfaceStore} (hd : (s.map key).Nodup) {r : InterfaceRecord}
    (hr : s.find? hit = some r) :
    Removes id s (goesWith s r)
      ⟨(removeChildren (s.eraseP hit) (some (key r))).store,
        r.iface.resetStored :: (removeChildren (s.eraseP hit) (some (key r))).ifl,
        (removeChildren (s.eraseP hit) (some (key r))).removed + 1⟩ := by
  have hmem := List.mem_of_find?_eq_some hr
  have hnodup := List.Nodup.of_map key hd
  have hfirst : Removes id s (fun q => decide (q = r))
      ⟨s.eraseP hit, [r.iface.resetStored], 1⟩ := by
    refine ⟨?_, List.Perm.of_eq ?_, rfl⟩
    · rw [List.map_id, eraseP_eq_filter hnodup hr]
    · have honly : s.filter (fun q => decide (q = r)) = [r] := by
        rw [List.filter_eq, hnodup.count, if_pos hmem]
        rfl
      rw [honly]
      rfl
  have hdistinct : ((s.eraseP hit).map key).Nodup :=
    List.Nodup.sublist (List.eraseP_sublist.map key) hd
  have hrest := removeChildren_removes hdistinct (key r)
  have hsame : ∀ q ∈ s, (decide (q = r) || below (s.eraseP hit) (key r) q) = goesWith s r q := by
    intro q hq
    rw [Bool.eq_iff_iff, Bool.or_eq_true, decide_eq_true_iff, below_iff, goesWith_iff, GoesWith]
    by_cases hqr : q = r
    · exact iff_of_true (Or.inl hqr) (Or.inl hqr)
    · exact or_congr_right (below_eraseP hr (fun hkey => hqr (eq_of_key hd hq hmem hkey)))
  have hboth := (hfirst.trans hrest (fun _ => rfl)).congr hsame
  rw [Nat.add_comm 1] at hboth
  exact hboth

/-- The pointer is at the identifier of a key; what lies behind is not known. -/
def PointsAt (identifier : Nat → UInt8) (k : InterfaceKey) : Prop :=
  k.identifier = (List.range k.identifier.length).map identifier

instance (identifier : Nat → UInt8) (k : InterfaceKey) : Decidable (PointsAt identifier k) :=
  inferInstanceAs (Decidable (_ = _))

/-- **The overloads of `remove`, called for one record**, remove it and what is below it. -/
structure RemovedAlike (s : InterfaceStore) (r : InterfaceRecord) (identifier : Nat → UInt8) :
    Prop where
  byName : Removes id s (goesWith s r) (removeName s r.iface.name)
  byPtr : Removes id s (goesWith s r) (removePtr s (some r.iface))
  byRef : Removes id s (goesWith s r) (removeRef s (some r.iface))
  byId : Removes id s (goesWith s r) (removeId s r.iface.key.type (some identifier))

/-- Two records of which each goes with the other. -/
def Together (s : InterfaceStore) (r q : InterfaceRecord) : Prop :=
  GoesWith s r q ∧ GoesWith s q r

/-- The first record that matches is this one, or one that goes when this one goes and the other
way round. -/
def FoundFirst (s : InterfaceStore) (hit : InterfaceRecord → Bool) (r : InterfaceRecord) : Prop :=
  ∀ q, s.find? hit = some q → Together s r q

theorem goesWith_refl (s : InterfaceStore) (r : InterfaceRecord) : GoesWith s r r := Or.inl rfl

theorem GoesWith.trans {s : InterfaceStore} {p q r : InterfaceRecord} (hpq : GoesWith s p q)
    (hqr : GoesWith s q r) : GoesWith s p r := by
  rcases hpq with rfl | hpq
  · exact hqr
  · rcases hqr with rfl | hqr
    · exact Or.inr hpq
    · exact Or.inr (TransGen.trans hqr hpq)

/-- The list tells what went. -/
theorem Removes.unique {f' : InterfaceRecord → InterfaceRecord} {s : InterfaceStore}
    (hd : (s.map key).Nodup) (h : Removes f s gone t) (h' : Removes f' s gone' t) :
    ∀ r ∈ s, gone r = gone' r := by
  have hlisted : ∀ {f : InterfaceRecord → InterfaceRecord} {gone : InterfaceRecord → Bool},
      Removes f s gone t → ∀ r ∈ s, gone r = true ↔ key r ∈ t.ifl.map Interface.key := by
    intro f gone h r hr
    rw [h.mem_keys]
    constructor
    · exact fun hgone => ⟨r, hr, hgone, rfl⟩
    · rintro ⟨q, hq, hgone, hkey⟩
      exact eq_of_key hd hq hr hkey ▸ hgone
  intro r hr
  rw [Bool.eq_iff_iff, hlisted h r hr, hlisted h' r hr]

/-- A removal that looks up another record is right only if the two go together. -/
theorem found_iff {s : InterfaceStore} (hd : (s.map key).Nodup) {r : InterfaceRecord} (hr : r ∈ s)
    (hq : q ∈ s) (h : Removes id s (goesWith s q) t) :
    Removes id s (goesWith s r) t ↔ Together s r q := by
  constructor
  · intro h'
    have hsame := h'.unique hd h
    refine ⟨goesWith_iff.mp ?_, goesWith_iff.mp ?_⟩
    · rw [hsame q hq]
      exact goesWith_iff.mpr (goesWith_refl s q)
    · rw [← hsame r hr]
      exact goesWith_iff.mpr (goesWith_refl s r)
  · rintro ⟨hrq, hqr⟩
    refine h.congr (fun p _ => Bool.eq_iff_iff.mpr ?_)
    rw [goesWith_iff, goesWith_iff]
    exact ⟨fun hqp => hrq.trans hqp, fun hrp => hqr.trans hrp⟩

/-- The loop of `remove`, where the record is one of those that match. -/
theorem removeFirst_iff {s : InterfaceStore} (hd : (s.map key).Nodup) {r : InterfaceRecord}
    (hr : r ∈ s) {hit : InterfaceRecord → Bool} (hhit : hit r = true) :
    Removes id s (goesWith s r) (removeFirst hit s) ↔ FoundFirst s hit r := by
  unfold FoundFirst removeFirst
  cases hfind : s.find? hit with
  | none => exact absurd hhit (List.find?_eq_none.mp hfind r hr)
  | some q =>
      refine (found_iff hd hr (List.mem_of_find?_eq_some hfind) (found_removes hd hfind)).trans ?_
      exact ⟨fun h p hp => Option.some.inj hp ▸ h, fun h => h q rfl⟩

/-- The overload that lists the record behind what is below it. -/
theorem removeId_iff {s : InterfaceStore} (hd : (s.map key).Nodup) {r : InterfaceRecord}
    (hr : r ∈ s) {type : InterfaceType} {identifier : Nat → UInt8}
    (hhit : r.iface.equal type identifier = true) :
    Removes id s (goesWith s r) (removeId s type (some identifier)) ↔
      FoundFirst s (fun q => q.iface.equal type identifier) r := by
  rw [← removeFirst_iff hd hr hhit]
  have hperm : ∀ {t t' : Removed}, t.store = t'.store → t.ifl.Perm t'.ifl →
      t.removed = t'.removed → Removes id s (goesWith s r) t → Removes id s (goesWith s r) t' := by
    intro t t' hstore hifl hremoved h
    refine ⟨hstore ▸ h.kept, hifl.symm.trans h.listed, ?_⟩
    rw [← hremoved, h.counted, hifl.length_eq]
  unfold removeId removeFirst
  cases hfind : s.find? (fun q => q.iface.equal type identifier) with
  | none => simp only [hfind]
  | some q =>
      simp only [hfind]
      refine ⟨hperm rfl ?_ rfl, hperm rfl ?_ rfl⟩
      · exact List.perm_append_singleton _ _
      · exact (List.perm_append_singleton _ _).symm

theorem find_key {s : InterfaceStore} (hd : (s.map key).Nodup) {r : InterfaceRecord} (hr : r ∈ s) :
    FoundFirst s (fun q => key q = r.iface.key) r := by
  intro q hq
  have hkey : key q = r.iface.key := by simpa using List.find?_some hq
  obtain rfl := eq_of_key hd (List.mem_of_find?_eq_some hq) hr hkey
  exact ⟨goesWith_refl s q, goesWith_refl s q⟩

/-- **When the overloads of `remove` agree**: the record has its name to itself, and no record in
front of it has the beginning of its identifier for its own. -/
theorem removedAlike_iff {s : InterfaceStore} (hd : (s.map key).Nodup) {r : InterfaceRecord}
    (hr : r ∈ s) {identifier : Nat → UInt8} (hid : PointsAt identifier r.iface.key) :
    RemovedAlike s r identifier ↔ FoundFirst s (fun q => q.iface.name = r.iface.name) r ∧
      FoundFirst s (fun q => q.iface.equal r.iface.key.type identifier) r := by
  have hname := @removeFirst_iff s hd r hr (fun q => q.iface.name = r.iface.name)
    (decide_eq_true rfl)
  have hkey := (@removeFirst_iff s hd r hr (fun q => key q = r.iface.key)
    (decide_eq_true rfl)).mpr (find_key hd hr)
  have hequal := @removeId_iff s hd r hr r.iface.key.type identifier (decide_eq_true ⟨rfl, hid⟩)
  exact ⟨fun h => ⟨hname.mp h.byName, hequal.mp h.byId⟩,
    fun h => ⟨hname.mpr h.1, hkey, hkey, hequal.mpr h.2⟩⟩

/-! ## Ageing -/

/-- A child that is found dead. -/
def dies (due : InterfaceRecord → Bool) (clock : InterfaceKey → Timeval) (r : InterfaceRecord) :
    Bool :=
  due r && r.cip.any (Policy.isDead (clock (key r)))

/-- A child that survives. -/
def survives (due : InterfaceRecord → Bool) (clock : InterfaceKey → Timeval)
    (r : InterfaceRecord) : Bool :=
  due r && !dies due clock r

/-- A record that was aged if it was to be. -/
def aged (due : InterfaceRecord → Bool) (r : InterfaceRecord) : InterfaceRecord :=
  if due r then { r with cip := r.cip.map Policy.age } else r

/-- What the children that survive have left. -/
def lifetimes (due : InterfaceRecord → Bool) (clock : InterfaceKey → Timeval)
    (s : InterfaceStore) : List Timeval :=
  (s.filter (survives due clock)).filterMap
    (fun r => r.cip.map (fun cip => cip.age.lifetime))

/-- The shortest of the lifetimes that are valid; an invalid one if none is. -/
def Shortest (lifetimes : List Timeval) (lifetime : Timeval) : Prop :=
  (lifetime = Timeval.invalid ∧ ∀ l ∈ lifetimes, l.isValid = false) ∨
    (lifetime ∈ lifetimes ∧ lifetime.isValid = true ∧
      ∀ l ∈ lifetimes, l.isValid = true → lifetime.le l = true)

/-- What goes when children are found dead. -/
def GoesAway (due : InterfaceRecord → Bool) (clock : InterfaceKey → Timeval) (s : InterfaceStore)
    (q : InterfaceRecord) : Prop :=
  ∃ d ∈ s, dies due clock d = true ∧ GoesWith s d q

open Classical in
/-- `GoesAway`, to be counted. -/
noncomputable def goesAway (due : InterfaceRecord → Bool) (clock : InterfaceKey → Timeval)
    (s : InterfaceStore) (q : InterfaceRecord) : Bool :=
  decide (GoesAway due clock s q)

theorem goesAway_iff {clock : InterfaceKey → Timeval} {s : InterfaceStore} :
    goesAway due clock s q = true ↔ GoesAway due clock s q := by
  simp [goesAway]

/-- **What ageing leaves**: the dead children go, and what is below them; the others are aged; and
the shortest lifetime among them is reported. -/
structure Ages (due : InterfaceRecord → Bool) (clock : InterfaceKey → Timeval)
    (s : InterfaceStore) (u : Removed × Timeval) : Prop where
  removes : Removes (aged due) s (goesAway due clock s) u.1
  reports : Shortest (lifetimes due clock s) u.2

theorem aged_iface (due : InterfaceRecord → Bool) (r : InterfaceRecord) :
    (aged due r).iface = r.iface := by
  unfold aged
  split <;> rfl

theorem aged_parent (due : InterfaceRecord → Bool) (r : InterfaceRecord) :
    (aged due r).parent = r.parent := by
  unfold aged
  split <;> rfl

theorem link_aged (due : InterfaceRecord → Bool) (r : InterfaceRecord) :
    link (aged due r) = link r := by
  rw [link, link, key, key, aged_iface, aged_parent]

theorem lifetimes_skip {clock : InterfaceKey → Timeval} {r : InterfaceRecord}
    (h : survives due clock r = false) (s : InterfaceStore) :
    lifetimes due clock (r :: s) = lifetimes due clock s := by
  rw [lifetimes, List.filter_cons_of_neg (Bool.eq_false_iff.mp h), lifetimes]

theorem lifetimes_cons {clock : InterfaceKey → Timeval} {r : InterfaceRecord} {cip : Policy}
    (h : survives due clock r = true) (hcip : r.cip = some cip) (s : InterfaceStore) :
    lifetimes due clock (r :: s) = cip.age.lifetime :: lifetimes due clock s := by
  rw [lifetimes, List.filter_cons_of_pos h, List.filterMap_cons, hcip, lifetimes]
  rfl

/-- **The loop of `age`**, where every record it is for has a policy. -/
theorem ageLoop_eq {due : InterfaceRecord → Bool} {clock : InterfaceKey → Timeval} :
    ∀ (s : InterfaceStore) (l : Timeval), (∀ r ∈ s, due r = true → r.cip ≠ none) →
      ageLoop due clock l s = some ⟨(s.filter (fun r => !dies due clock r)).map (aged due),
        (s.filter (dies due clock)).map (fun r => r.iface.resetStored),
        (lifetimes due clock s).foldl shorter l⟩
  | [], _, _ => rfl
  | r :: s, l, hcip => by
      have hrest := fun l => @ageLoop_eq due clock s l
        (fun q hq => hcip q (List.mem_cons_of_mem _ hq))
      rw [ageLoop]
      by_cases hdue : due r = true
      · obtain ⟨cip, hsome⟩ := Option.ne_none_iff_exists'.mp (hcip r List.mem_cons_self hdue)
        rw [if_pos hdue, hsome]
        dsimp only
        by_cases hdead : cip.isDead (clock (key r)) = true
        · -- due and dead: it is handed out and its lifetime is not asked
          have hdies : dies due clock r = true := by
            rw [dies, hdue, hsome]
            exact hdead
          rw [if_pos hdead, hrest, Option.map_some, List.filter_cons_of_neg (by simp [hdies]),
            List.filter_cons_of_pos hdies, lifetimes_skip (by simp [survives, hdies])]
          rfl
        · -- due and alive: its lifetime counts
          have hdies : dies due clock r = false := by
            rw [dies, hdue, hsome]
            exact Bool.eq_false_iff.mpr hdead
          rw [if_neg hdead, hrest, Option.map_some, List.filter_cons_of_pos (by simp [hdies]),
            List.filter_cons_of_neg (by simp [hdies]),
            lifetimes_cons (by simp [survives, hdies, hdue]) hsome, List.map_cons, aged,
            if_pos hdue, hsome]
          rfl
      · -- not due: nothing is asked of it
        have hdies : dies due clock r = false := by
          rw [dies, Bool.eq_false_iff.mpr hdue]
          rfl
        rw [if_neg hdue, hrest, Option.map_some, List.filter_cons_of_pos (by simp [hdies]),
          List.filter_cons_of_neg (by simp [hdies]), lifetimes_skip (by simp [survives, hdue]),
          List.map_cons, aged, if_neg hdue]

/-- Without a policy there is nothing to ask. -/
theorem ageLoop_none {clock : InterfaceKey → Timeval} {r : InterfaceRecord} (hdue : due r = true)
    (hcip : r.cip = none) :
    ∀ (s : InterfaceStore) (l : Timeval), r ∈ s → ageLoop due clock l s = none
  | [], _, hr => absurd hr List.not_mem_nil
  | x :: s, l, hr => by
      rw [ageLoop]
      rcases List.mem_cons.mp hr with rfl | hmem
      · rw [if_pos hdue, hcip]
      · have hrest : ∀ l, ageLoop due clock l s = none := fun l => ageLoop_none hdue hcip s l hmem
        by_cases hx : due x = true
        · rw [if_pos hx]
          cases x.cip with
          | none => rfl
          | some cip =>
              dsimp only
              rw [hrest, hrest]
              split <;> rfl
        · rw [if_neg hx, hrest]
          rfl

/-! ## Lifetimes -/

theorem shorter_shortest {ls : List Timeval} {lifetime : Timeval} (h : Shortest ls lifetime)
    (l : Timeval) : Shortest (ls ++ [l]) (shorter lifetime l) := by
  unfold shorter
  rcases h with ⟨rfl, hnone⟩ | ⟨hmem, hvalid, hleast⟩
  · by_cases hl : l.isValid = true
    · rw [if_pos (by rw [hl]; rfl)]
      refine Or.inr ⟨List.mem_append_right _ List.mem_cons_self, hl, fun m hm hmvalid => ?_⟩
      rcases List.mem_append.mp hm with hm | hm
      · exact absurd hmvalid (Bool.eq_false_iff.mp (hnone m hm))
      · rw [List.mem_singleton.mp hm]
        exact l.le_refl
    · rw [if_neg (fun hcon => hl (Bool.and_eq_true_iff.mp hcon).1)]
      refine Or.inl ⟨rfl, fun m hm => ?_⟩
      rcases List.mem_append.mp hm with hm | hm
      · exact hnone m hm
      · rw [List.mem_singleton.mp hm]
        exact Bool.eq_false_iff.mpr hl
  · rw [hvalid]
    by_cases hl : l.isValid = true ∧ l.lt lifetime = true
    · rw [if_pos (by rw [hl.1, hl.2]; rfl)]
      refine Or.inr ⟨List.mem_append_right _ List.mem_cons_self, hl.1, fun m hm hmvalid => ?_⟩
      rcases List.mem_append.mp hm with hm | hm
      · exact Timeval.le_trans (Timeval.le_of_lt hl.2) (hleast m hm hmvalid)
      · rw [List.mem_singleton.mp hm]
        exact l.le_refl
    · rw [if_neg (fun hcon => hl (by simpa using hcon))]
      refine Or.inr ⟨List.mem_append_left _ hmem, hvalid, fun m hm hmvalid => ?_⟩
      rcases List.mem_append.mp hm with hm | hm
      · exact hleast m hm hmvalid
      · rw [List.mem_singleton] at hm
        subst hm
        exact Timeval.not_lt_iff.mp (Bool.eq_false_iff.mpr (fun hlt => hl ⟨hmvalid, hlt⟩))

/-- **What is reported is shortest.** -/
theorem foldl_shortest : ∀ (ls ls' : List Timeval) (lifetime : Timeval), Shortest ls' lifetime →
    Shortest (ls' ++ ls) (ls.foldl shorter lifetime)
  | [], ls', lifetime, h => by
      rw [List.append_nil]
      exact h
  | l :: ls, ls', lifetime, h => by
      rw [List.append_cons]
      exact foldl_shortest ls _ _ (shorter_shortest h l)

/-! ## One call of `age` -/

/-- What is on the list stays on it. -/
theorem popChildren_ifl (remove : InterfaceStore → Option InterfaceKey → Removed) :
    ∀ (todo : List Interface) (t : Removed), t.ifl ⊆ (popChildren remove t todo).ifl
  | [], _ => List.Subset.refl _
  | child :: todo, t => by
      refine List.Subset.trans ?_ (popChildren_ifl remove todo _)
      exact List.subset_append_left _ _

/-- **Ageing does what it is to do**, for the records it is for. -/
theorem ageWith_ages {due : InterfaceRecord → Bool} {clock : InterfaceKey → Timeval}
    {s : InterfaceStore} (hd : (s.map key).Nodup) (hcip : ∀ r ∈ s, due r = true → r.cip ≠ none) :
    ∃ u, ageWith due clock s = some u ∧ Ages due clock s u := by
  have hloop := @ageLoop_eq due clock s Timeval.invalid hcip
  have hage : ageWith due clock s = some (popChildren removeChildren
      ⟨(s.filter (fun r => !dies due clock r)).map (aged due),
        (s.filter (dies due clock)).map (fun r => r.iface.resetStored),
        ((s.filter (dies due clock)).map (fun r => r.iface.resetStored)).length⟩
      ((s.filter (dies due clock)).map (fun r => r.iface.resetStored)).reverse,
      (lifetimes due clock s).foldl shorter Timeval.invalid) := by
    rw [ageWith, hloop, Option.map_some]
  refine ⟨_, hage, ?_, ?_⟩
  · -- no more than what goes with the dead ones, and the dead ones are on the list
    obtain ⟨gone, hremoves, hgone⟩ := popChildren_cuts
      (fun r => ⟨aged_iface due r, aged_parent due r⟩)
      (fun u k => removeChildrenTo_cuts (u.length + 1) u k)
      (P := GoesAway due clock s) (fun p q ⟨d, hd, hdies, hp⟩ hq =>
        ⟨d, hd, hdies, hp.trans (Or.inr hq)⟩)
      ((s.filter (dies due clock)).map (fun r => r.iface.resetStored)).reverse
      ⟨(s.filter (fun r => !dies due clock r)).map (aged due),
        (s.filter (dies due clock)).map (fun r => r.iface.resetStored),
        ((s.filter (dies due clock)).map (fun r => r.iface.resetStored)).length⟩
      (fun c hc => by
        obtain ⟨d, hdead, rfl⟩ := List.mem_map.mp (List.mem_reverse.mp hc)
        obtain ⟨hmem, hdies⟩ := List.mem_filter.mp hdead
        exact ⟨d, ⟨d, hmem, hdies, goesWith_refl s d⟩, rfl⟩)
      ⟨dies due clock, ⟨rfl, List.Perm.refl _, rfl⟩, fun d hmem hdies =>
        ⟨d, hmem, hdies, goesWith_refl s d⟩⟩
    refine hremoves.congr (fun q hq => Bool.eq_iff_iff.mpr ?_)
    rw [goesAway_iff]
    refine ⟨hgone q hq, ?_⟩
    rintro ⟨d, hmem, hdies, hwith⟩
    have hlisted : gone d = true := by
      obtain ⟨d', hd', hgone', hkey⟩ := hremoves.mem_keys.mp (List.mem_map.mpr
        ⟨d.iface.resetStored, popChildren_ifl _ _ _
          (List.mem_map.mpr ⟨d, List.mem_filter.mpr ⟨hmem, hdies⟩, rfl⟩), rfl⟩)
      exact eq_of_key hd hd' hmem hkey ▸ hgone'
    rcases hwith with rfl | hbelow
    · exact hlisted
    · by_contra hstays
      have hpending := ageWith_pending hage
      have hway := @Removes.stays _ s gone _ (fun _ => False) hremoves hd (link_aged due)
      refine (hway ?_ hbelow q hq (Bool.eq_false_iff.mpr hstays) rfl).2
        (hremoves.mem_keys.mpr ⟨d, hmem, hlisted, rfl⟩)
      exact fun a b hab => ⟨not_false, fun hback =>
        List.not_mem_nil ((hpending.parents a b hab).2 hback)⟩
  · have hfold := foldl_shortest (lifetimes due clock s) [] Timeval.invalid
      (Or.inl ⟨rfl, fun l hl => absurd hl List.not_mem_nil⟩)
    rw [List.nil_append] at hfold
    exact hfold

/-- Without a policy there is no result. -/
theorem ageWith_none {clock : InterfaceKey → Timeval} {s : InterfaceStore} {r : InterfaceRecord}
    (hr : r ∈ s) (hdue : due r = true) (hcip : r.cip = none) : ageWith due clock s = none := by
  rw [ageWith, ageLoop_none hdue hcip s Timeval.invalid hr]
  rfl

/-! ## Ageing more records, or fewer -/

/-- The policy of a record says that it is dead. -/
def found (clock : InterfaceKey → Timeval) (r : InterfaceRecord) : Bool :=
  r.cip.any (Policy.isDead (clock (key r)))

/-- **A record that may as well be left out**: if it is dead, it goes with another one; if not, it
does not change by ageing, or goes all the same, and some child has no more time left than it. -/
structure Harmless (due : InterfaceRecord → Bool) (clock : InterfaceKey → Timeval)
    (s : InterfaceStore) (r : InterfaceRecord) : Prop where
  dead : found clock r = true → GoesAway due clock s r
  alive : found clock r = false → GoesAway due clock s r ∨ r.cip.map Policy.age = r.cip
  longer : found clock r = false → ∀ cip, r.cip = some cip → cip.age.lifetime.isValid = true →
    ∃ l ∈ lifetimes due clock s, l.isValid = true ∧ l.le cip.age.lifetime = true

/-- Whether one or the other records are aged, it comes to the same. -/
structure SameAges (few more : InterfaceRecord → Bool) (clock : InterfaceKey → Timeval)
    (s : InterfaceStore) : Prop where
  gone : ∀ q ∈ s, goesAway few clock s q = goesAway more clock s q
  kept : ∀ q ∈ s, goesAway few clock s q = false → aged few q = aged more q
  lifetime : ∀ l, Shortest (lifetimes few clock s) l ↔ Shortest (lifetimes more clock s) l

theorem Shortest.unique {ls : List Timeval} {l l' : Timeval} (h : Shortest ls l)
    (h' : Shortest ls l') : l = l' := by
  rcases h with ⟨rfl, hnone⟩ | ⟨hmem, hvalid, hleast⟩
  · rcases h' with ⟨rfl, -⟩ | ⟨hmem', hvalid', -⟩
    · rfl
    · exact absurd hvalid' (Bool.eq_false_iff.mp (hnone l' hmem'))
  · rcases h' with ⟨-, hnone⟩ | ⟨hmem', hvalid', hleast'⟩
    · exact absurd hvalid (Bool.eq_false_iff.mp (hnone l hmem))
    · have hle := (Timeval.le_iff_micros l l').mp (hleast l' hmem' hvalid')
      have hge := (Timeval.le_iff_micros l' l).mp (hleast' l hmem hvalid)
      exact Timeval.micros_inj (le_antisymm hle hge)

theorem exists_shortest (due : InterfaceRecord → Bool) (clock : InterfaceKey → Timeval)
    (s : InterfaceStore) : ∃ l, Shortest (lifetimes due clock s) l :=
  ⟨_, foldl_shortest (lifetimes due clock s) [] Timeval.invalid
    (Or.inl ⟨rfl, fun _ hl => absurd hl List.not_mem_nil⟩)⟩

theorem mem_lifetimes {clock : InterfaceKey → Timeval} {s : InterfaceStore} {l : Timeval} :
    l ∈ lifetimes due clock s ↔ ∃ r ∈ s, due r = true ∧ found clock r = false ∧
      ∃ cip, r.cip = some cip ∧ cip.age.lifetime = l := by
  rw [lifetimes, List.mem_filterMap]
  refine exists_congr (fun r => ?_)
  rw [List.mem_filter, Option.map_eq_some_iff, and_assoc, survives, dies, ← found]
  refine and_congr_right (fun _ => ?_)
  cases due r <;> cases found clock r <;> simp

section Difference

variable {few more : InterfaceRecord → Bool} {clock : InterfaceKey → Timeval} {s : InterfaceStore}

theorem sameAges_of_ages (hd : (s.map key).Nodup) {u : Removed × Timeval}
    (hfew : Ages few clock s u) (hmore : Ages more clock s u) : SameAges few more clock s := by
  have hgone := hfew.removes.unique hd hmore.removes
  refine ⟨hgone, fun q hq hstays => ?_, fun l => ?_⟩
  · have hkept := hfew.removes.kept.symm.trans hmore.removes.kept
    rw [← List.filter_congr (fun q hq => congrArg not (hgone q hq)), List.map_inj_left] at hkept
    exact hkept q (List.mem_filter.mpr ⟨hq, by rw [hstays]; rfl⟩)
  · exact ⟨fun h => h.unique hfew.reports ▸ hmore.reports,
      fun h => h.unique hmore.reports ▸ hfew.reports⟩

theorem SameAges.ages_iff (h : SameAges few more clock s) (u : Removed × Timeval) :
    Ages few clock s u ↔ Ages more clock s u := by
  have hkept : (s.filter (fun r => !goesAway few clock s r)).map (aged few) =
      (s.filter (fun r => !goesAway more clock s r)).map (aged more) := by
    rw [← List.filter_congr (fun q hq => congrArg not (h.gone q hq)), List.map_inj_left]
    intro q hq
    obtain ⟨hmem, hstays⟩ := List.mem_filter.mp hq
    exact h.kept q hmem (by simpa using hstays)
  have hlisted := List.filter_congr h.gone
  constructor
  · rintro ⟨⟨hk, hl, hc⟩, hr⟩
    exact ⟨⟨hk.trans hkept, hlisted ▸ hl, hc⟩, (h.lifetime u.2).mp hr⟩
  · rintro ⟨⟨hk, hl, hc⟩, hr⟩
    exact ⟨⟨hk.trans hkept.symm, hlisted ▸ hl, hc⟩, (h.lifetime u.2).mpr hr⟩

variable (hsub : ∀ r ∈ s, few r = true → more r = true)

include hsub in
theorem Harmless.goesAway_eq (hall : ∀ r ∈ s, more r = true → few r = false →
    Harmless few clock s r) (q : InterfaceRecord) :
    goesAway few clock s q = goesAway more clock s q := by
  rw [Bool.eq_iff_iff, goesAway_iff, goesAway_iff]
  constructor
  · rintro ⟨d, hd, hdies, hwith⟩
    rw [dies, Bool.and_eq_true] at hdies
    exact ⟨d, hd, by rw [dies, hsub d hd hdies.1]; exact hdies.2, hwith⟩
  · rintro ⟨d, hd, hdies, hwith⟩
    rw [dies, Bool.and_eq_true, ← found] at hdies
    by_cases hfew : few d = true
    · exact ⟨d, hd, by rw [dies, hfew]; exact hdies.2, hwith⟩
    · -- it goes with another one, and so does what is below it
      obtain ⟨d', hd', hdies', hwith'⟩ :=
        (hall d hd hdies.1 (Bool.eq_false_iff.mpr hfew)).dead hdies.2
      exact ⟨d', hd', hdies', hwith'.trans hwith⟩

include hsub in
/-- **Fewer records will do exactly if the rest are harmless.** -/
theorem sameAges_iff :
    SameAges few more clock s ↔
      ∀ r ∈ s, more r = true → few r = false → Harmless few clock s r := by
  constructor
  · -- a record whose age differs shows up in what goes, in what is kept or in the lifetime
    intro h r hr hmore hfew
    refine ⟨fun hdead => ?_, fun halive => ?_, fun halive cip hcip hvalid => ?_⟩
    · rw [← goesAway_iff, h.gone r hr, goesAway_iff]
      exact ⟨r, hr, by rw [dies, hmore, ← found, hdead]; rfl, goesWith_refl s r⟩
    · refine or_iff_not_imp_left.mpr (fun hstays => ?_)
      have hsame := h.kept r hr (Bool.eq_false_iff.mpr (fun hgone => hstays (goesAway_iff.mp hgone)))
      rw [aged, if_neg (Bool.eq_false_iff.mp hfew), aged, if_pos hmore] at hsame
      exact (congrArg InterfaceRecord.cip hsame).symm
    · obtain ⟨l, hl⟩ := exists_shortest few clock s
      have hmem : cip.age.lifetime ∈ lifetimes more clock s :=
        mem_lifetimes.mpr ⟨r, hr, hmore, halive, cip, hcip, rfl⟩
      rcases (h.lifetime l).mp hl with ⟨-, hnone⟩ | ⟨-, hlvalid, hleast⟩
      · exact absurd hvalid (Bool.eq_false_iff.mp (hnone _ hmem))
      · rcases hl with ⟨rfl, -⟩ | ⟨hlmem, -, -⟩
        · exact absurd hlvalid (by decide)
        · exact ⟨l, hlmem, hlvalid, hleast _ hmem hvalid⟩
  · intro hall
    -- what goes is settled first; the ages of the rest depend on it
    have hgone := Harmless.goesAway_eq hsub hall
    refine ⟨fun q _ => hgone q, fun q hq hstays => ?_, fun l => ?_⟩
    · by_cases hfew : few q = true
      · rw [aged, if_pos hfew, aged, if_pos (hsub q hq hfew)]
      · rw [aged, if_neg hfew, aged]
        split
        · rename_i hmore
          have hharmless := hall q hq hmore (Bool.eq_false_iff.mpr hfew)
          have hnot : ¬ GoesAway few clock s q := fun hgoes =>
            Bool.eq_false_iff.mp hstays (goesAway_iff.mpr hgoes)
          have halive : found clock q = false := Bool.eq_false_iff.mpr (fun hdead =>
            hnot (hharmless.dead hdead))
          rw [(hharmless.alive halive).resolve_left hnot]
        · rfl
    · have hsubset : lifetimes few clock s ⊆ lifetimes more clock s := by
        intro l hl
        obtain ⟨r, hr, hfew, hrest⟩ := mem_lifetimes.mp hl
        exact mem_lifetimes.mpr ⟨r, hr, hsub r hr hfew, hrest⟩
      -- a lifetime left out is no shorter than one of those seen
      have hlonger : ∀ l ∈ lifetimes more clock s, l.isValid = true →
          ∃ l' ∈ lifetimes few clock s, l'.isValid = true ∧ l'.le l = true := by
        intro l hl hvalid
        obtain ⟨r, hr, hmore, halive, cip, hcip, rfl⟩ := mem_lifetimes.mp hl
        by_cases hfew : few r = true
        · exact ⟨_, mem_lifetimes.mpr ⟨r, hr, hfew, halive, cip, hcip, rfl⟩, hvalid,
            Timeval.le_refl _⟩
        · exact (hall r hr hmore (Bool.eq_false_iff.mpr hfew)).longer halive cip hcip hvalid
      constructor
      · rintro (⟨rfl, hnone⟩ | ⟨hmem, hvalid, hleast⟩)
        · refine Or.inl ⟨rfl, fun l hl => Bool.eq_false_iff.mpr (fun hvalid => ?_)⟩
          obtain ⟨l', hl', hvalid', -⟩ := hlonger l hl hvalid
          exact Bool.eq_false_iff.mp (hnone l' hl') hvalid'
        · refine Or.inr ⟨hsubset hmem, hvalid, fun m hm hmvalid => ?_⟩
          obtain ⟨m', hm', hmvalid', hle⟩ := hlonger m hm hmvalid
          exact Timeval.le_trans (hleast m' hm' hmvalid') hle
      · rintro (⟨rfl, hnone⟩ | ⟨hmem, hvalid, hleast⟩)
        · exact Or.inl ⟨rfl, fun l hl => hnone l (hsubset hl)⟩
        · obtain ⟨l', hl', hvalid', hle⟩ := hlonger l hmem hvalid
          have hge := hleast l' (hsubset hl') hvalid'
          have heq : l = l' := Timeval.micros_inj (le_antisymm
            ((Timeval.le_iff_micros _ _).mp hge) ((Timeval.le_iff_micros _ _).mp hle))
          exact Or.inr ⟨heq ▸ hl', hvalid, fun m hm => hleast m (hsubset hm)⟩

include hsub in
/-- A loop that leaves records out. -/
theorem ages_fewer_iff (hd : (s.map key).Nodup) (hcip : ∀ r ∈ s, more r = true → r.cip ≠ none) :
    (∃ u, ageWith few clock s = some u ∧ Ages more clock s u) ↔
      ∀ r ∈ s, more r = true → few r = false → Harmless few clock s r := by
  rw [← sameAges_iff hsub]
  obtain ⟨u, hu, hages⟩ := @ageWith_ages few clock s hd (fun r hr hfew =>
    hcip r hr (hsub r hr hfew))
  constructor
  · rintro ⟨u', hu', hages'⟩
    rw [hu, Option.some.injEq] at hu'
    exact sameAges_of_ages hd hages (hu' ▸ hages')
  · exact fun hsame => ⟨u, hu, (hsame.ages_iff u).mp hages⟩

include hsub in
/-- A loop that takes in others. -/
theorem ages_more_iff (hd : (s.map key).Nodup) (hcip : ∀ r ∈ s, few r = true → r.cip ≠ none) :
    (∃ u, ageWith more clock s = some u ∧ Ages few clock s u) ↔
      ∀ r ∈ s, more r = true → few r = false → r.cip ≠ none ∧ Harmless few clock s r := by
  by_cases hall : ∀ r ∈ s, more r = true → r.cip ≠ none
  · obtain ⟨u, hu, hages⟩ := @ageWith_ages more clock s hd hall
    have hsame : (∃ u, ageWith more clock s = some u ∧ Ages few clock s u) ↔
        SameAges few more clock s := by
      constructor
      · rintro ⟨u', hu', hages'⟩
        rw [hu, Option.some.injEq] at hu'
        exact sameAges_of_ages hd (hu' ▸ hages') hages
      · exact fun hsame => ⟨u, hu, (hsame.ages_iff u).mpr hages⟩
    rw [hsame, sameAges_iff hsub]
    exact ⟨fun h r hr hmore hfew => ⟨hall r hr hmore, h r hr hmore hfew⟩,
      fun h r hr hmore hfew => (h r hr hmore hfew).2⟩
  · simp only [not_forall, not_not] at hall
    obtain ⟨r, hr, hmore, hnone⟩ := hall
    refine iff_of_false ?_ (fun h => ?_)
    · rintro ⟨u, hu, -⟩
      rw [ageWith_none hr hmore hnone] at hu
      cases hu
    · exact (h r hr hmore (Bool.eq_false_iff.mpr (fun hfew => hcip r hr hfew hnone))).1 hnone

end Difference

variable {parent : Option Interface} {identifier : Option (Nat → UInt8)}

/-! ## The overloads of `age` -/

/-- What `age` is for: the children of an interface, or the local interfaces if it is given none. -/
def isChild (parent : Option Interface) (r : InterfaceRecord) : Bool :=
  match parent with
  | none => r.iface.isLocal
  | some p => r.parent = some p.key

/-- The type and the bytes are those of the interface; for none there are no bytes. -/
def Addresses (parent : Option Interface) (type : InterfaceType)
    (identifier : Option (Nat → UInt8)) : Prop :=
  match parent with
  | none => identifier = none
  | some p => type = p.key.type ∧ ∃ bytes, identifier = some bytes ∧ PointsAt bytes p.key

/-- The children of an interface that the overload for references is for. -/
def announcedChild (parent : Option Interface) (r : InterfaceRecord) : Bool :=
  isChild parent r && !(parent.isSome && r.iface.isSnooped)

/-- The records that the overload for bare identifiers is for: those whose parent has the
beginning of the identifier for its own, as well. -/
def childById (type : InterfaceType) (identifier : Option (Nat → UInt8)) (r : InterfaceRecord) :
    Bool :=
  (r.iface.isLocal && identifier.isNone) || identifier.any (fun bytes => parentEqual type bytes r)

/-- **The overloads of `age`, called for one interface**, age its children. -/
structure AgedAlike (s : InterfaceStore) (parent : Option Interface) (type : InterfaceType)
    (identifier : Option (Nat → UInt8)) (clock : InterfaceKey → Timeval) : Prop where
  byPtr : ∃ u, agePtr s parent clock = some u ∧ Ages (isChild parent) clock s u
  byRef : ∃ u, ageRef s parent clock = some u ∧ Ages (isChild parent) clock s u
  byId : ∃ u, ageId s type identifier clock = some u ∧ Ages (isChild parent) clock s u

/-- **What the overloads of `age` rely on**: every child has a policy; a child that was only
overheard may as well be left out; and a record that is no child, but is taken for one by its
parent's identifier, may as well be aged. -/
structure AgesWell (s : InterfaceStore) (parent : Option Interface) (type : InterfaceType)
    (identifier : Option (Nat → UInt8)) (clock : InterfaceKey → Timeval) : Prop where
  policies : ∀ r ∈ s, isChild parent r = true → r.cip ≠ none
  overheard : ∀ r ∈ s, isChild parent r = true → announcedChild parent r = false →
    Harmless (announcedChild parent) clock s r
  mistaken : ∀ r ∈ s, childById type identifier r = true → isChild parent r = false →
    r.cip ≠ none ∧ Harmless (isChild parent) clock s r

theorem hasParent_eq (parent : Option Interface) (r : InterfaceRecord) :
    hasParent (parent.map Interface.key) r =
      parent.any (fun p => decide (r.parent = some p.key)) := by
  unfold hasParent
  cases parent <;> cases r.parent <;> simp

theorem agePtr_eq (s : InterfaceStore) (parent : Option Interface)
    (clock : InterfaceKey → Timeval) : agePtr s parent clock = ageWith (isChild parent) clock s := by
  refine congrArg (fun due => ageWith due clock s) (funext (fun r => ?_))
  rw [hasParent_eq]
  cases parent <;> simp [isChild]

theorem ageRef_eq (s : InterfaceStore) (parent : Option Interface)
    (clock : InterfaceKey → Timeval) :
    ageRef s parent clock = ageWith (announcedChild parent) clock s := by
  refine congrArg (fun due => ageWith due clock s) (funext (fun r => ?_))
  rw [hasParent_eq]
  cases parent <;> simp [announcedChild, isChild]

/-- A child is found by the bytes of its parent. -/
theorem childById_of_isChild {type : InterfaceType} (haddr : Addresses parent type identifier)
    {r : InterfaceRecord} (hchild : isChild parent r = true) :
    childById type identifier r = true := by
  cases parent with
  | none =>
      obtain rfl : identifier = none := haddr
      rw [childById, show r.iface.isLocal = true from hchild]
      rfl
  | some p =>
      obtain ⟨rfl, bytes, rfl, hbytes⟩ := haddr
      have hparent : r.parent = some p.key := of_decide_eq_true hchild
      rw [childById, Option.any_some, parentEqual, hparent, Option.any_some,
        decide_eq_true ⟨rfl, hbytes⟩, Bool.or_true]

/-- **When the overloads of `age` agree.** -/
theorem agedAlike_iff {s : InterfaceStore} (hd : (s.map key).Nodup) {type : InterfaceType}
    (haddr : Addresses parent type identifier) (clock : InterfaceKey → Timeval) :
    AgedAlike s parent type identifier clock ↔ AgesWell s parent type identifier clock := by
  have hfewer : ∀ r ∈ s, announcedChild parent r = true → isChild parent r = true :=
    fun r _ h => (Bool.and_eq_true_iff.mp h).1
  have hmore : ∀ r ∈ s, isChild parent r = true → childById type identifier r = true :=
    fun r _ h => childById_of_isChild haddr h
  have hpolicies : (∃ u, agePtr s parent clock = some u ∧ Ages (isChild parent) clock s u) ↔
      ∀ r ∈ s, isChild parent r = true → r.cip ≠ none := by
    rw [agePtr_eq]
    refine ⟨?_, ageWith_ages hd⟩
    rintro ⟨u, hu, -⟩ r hr hchild hnone
    rw [ageWith_none hr hchild hnone] at hu
    cases hu
  constructor
  · intro h
    have hcip := hpolicies.mp h.byPtr
    have href := h.byRef
    rw [ageRef_eq] at href
    exact ⟨hcip, (ages_fewer_iff hfewer hd hcip).mp href, (ages_more_iff hmore hd hcip).mp h.byId⟩
  · intro h
    refine ⟨hpolicies.mpr h.policies, ?_, (ages_more_iff hmore hd h.policies).mpr h.mistaken⟩
    rw [ageRef_eq]
    exact (ages_fewer_iff hfewer hd h.policies).mpr h.overheard

/-! ## In every run -/

theorem addLoop_distinct {s : InterfaceStore} (hd : (s.map key).Nodup) {i fresh : Interface}
    (hfresh : fresh.key = i.key) (parent : Option InterfaceKey) (policy : Option Policy)
    (asked : Bool) : ((addLoop s i fresh parent policy asked).store.map key).Nodup := by
  rw [addLoop_keys policy asked hfresh]
  split
  · rename_i hnew
    exact List.nodup_append'.mpr ⟨hd, List.nodup_singleton _,
      List.disjoint_singleton.mpr (retrieve_none_iff.mp hnew)⟩
  · exact hd

theorem addKnown_distinct {s : InterfaceStore} (hd : (s.map key).Nodup) {i fresh : Interface}
    (hfresh : fresh.key = i.key) (parent : Option Interface) (policy : Option Policy)
    (asked : Bool) : ((addKnown s i fresh parent policy asked).store.map key).Nodup := by
  unfold addKnown
  split
  · exact addLoop_distinct hd hfresh none policy asked
  · split
    · exact hd
    · exact addLoop_distinct hd hfresh _ policy asked

theorem erased_distinct {s : InterfaceStore} (hd : (s.map key).Nodup)
    (hit : InterfaceRecord → Bool) (k : InterfaceKey) :
    ((removeChildren (s.eraseP hit) (some k)).store.map key).Nodup :=
  distinct_of_links hd
    ((removeChildren_spec _ k).links.trans (List.eraseP_sublist.map link))

theorem removeFirst_distinct {s : InterfaceStore} (hd : (s.map key).Nodup)
    (hit : InterfaceRecord → Bool) : ((removeFirst hit s).store.map key).Nodup := by
  unfold removeFirst
  split
  · exact hd
  · exact erased_distinct hd hit _

theorem removeRef_distinct {s : InterfaceStore} (hd : (s.map key).Nodup)
    (iface : Option Interface) : ((removeRef s iface).store.map key).Nodup := by
  cases iface with
  | none =>
      rw [removeRef, removeChildren_none]
      exact hd
  | some i => exact removeFirst_distinct hd _

theorem removeId_distinct {s : InterfaceStore} (hd : (s.map key).Nodup) (type : InterfaceType)
    (identifier : Option (Nat → UInt8)) : ((removeId s type identifier).store.map key).Nodup := by
  cases identifier with
  | none =>
      rw [removeId, removeChildren_none]
      exact hd
  | some bytes =>
      rw [removeId]
      split
      · exact hd
      · exact erased_distinct hd _ _

/-- **No interface is stored twice**, after any call. -/
theorem step_distinct {s t : InterfaceStore} {op : StoreOp} (hd : (s.map key).Nodup)
    (hstep : step s op = some t) : (t.map key).Nodup := by
  have hage : ∀ {due : InterfaceRecord → Bool} {clock : InterfaceKey → Timeval},
      (ageWith due clock s).map (fun u => u.1.store) = some t → (t.map key).Nodup := by
    intro due clock h
    obtain ⟨u, hu, rfl⟩ := Option.map_eq_some_iff.mp h
    exact distinct_of_links hd (ageWith_pending hu).links
  cases op with
  | addupdateRef iface parent policy asked =>
      obtain rfl := Option.some.inj hstep
      cases iface with
      | none => exact hd
      | some i => exact addKnown_distinct hd (by cases asked <;> rfl) parent policy asked
  | addupdateFound iface parent policy asked =>
      obtain rfl := Option.some.inj hstep
      cases iface with
      | none => exact hd
      | some i =>
          have hfresh : i.copy.setStored.key = i.key := rfl
          exact addLoop_distinct hd hfresh _ policy asked
  | addupdatePtr iface parent policy asked =>
      obtain rfl := Option.some.inj hstep
      cases iface with
      | none => exact hd
      | some i => exact addKnown_distinct hd (by cases asked <;> rfl) parent policy asked
  | removeName name => exact Option.some.inj hstep ▸ removeFirst_distinct hd _
  | removePtr iface => exact Option.some.inj hstep ▸ removeRef_distinct hd iface
  | removeRef iface => exact Option.some.inj hstep ▸ removeRef_distinct hd iface
  | removeId type identifier => exact Option.some.inj hstep ▸ removeId_distinct hd type identifier
  | agePtr parent clock => exact hage hstep
  | ageRef parent clock => exact hage hstep
  | ageId type identifier clock => exact hage hstep

/--
**Removal and ageing in every reachable store.** The overloads of `remove` agree on a record
exactly if the first record of its name, and the first with the beginning of its identifier,
go together with it. The overloads of `age` agree on an interface exactly if the children that
were only overheard make no difference.
-/
theorem removal_and_ageing_exact_iff {ops : List StoreOp} {s : InterfaceStore}
    (hrun : run step [] ops = some s) :
    (∀ r ∈ s, ∀ identifier, PointsAt identifier r.iface.key →
      (RemovedAlike s r identifier ↔
        FoundFirst s (fun q => q.iface.name = r.iface.name) r ∧
          FoundFirst s (fun q => q.iface.equal r.iface.key.type identifier) r)) ∧
      (∀ parent type identifier clock, Addresses parent type identifier →
        (AgedAlike s parent type identifier clock ↔
          AgesWell s parent type identifier clock)) := by
  have hd : (s.map key).Nodup := run_keeps ops [] s
    (fun _ _ _ _ h hstep => step_distinct h hstep) List.nodup_nil hrun
  exact ⟨fun r hr identifier hid => removedAlike_iff hd hr hid,
    fun parent type identifier clock haddr => agedAlike_iff hd haddr clock⟩

/-- The bytes of the identifier of an interface, and nothing behind them. -/
def bytesOf (i : Interface) (n : Nat) : UInt8 := i.key.identifier.getD n 0

/-- A neighbour is found on an interface. -/
def neighbourDay : List StoreOp :=
  [.addupdateFound (some eth0) none (some .ageless) true,
    .addupdatePtr (some further) (some eth0) (some (.ttl 1 1)) true]

/-- What is then stored. -/
def neighbours : InterfaceStore :=
  [⟨eth0.setStored, none, some .ageless⟩, ⟨further.setStored, some eth0.key, some (.ttl 1 1)⟩]

theorem removal_and_ageing_exact_day :
    RemovedAlike neighbours ⟨eth0.setStored, none, some .ageless⟩ (bytesOf eth0) ∧
      AgedAlike neighbours (some eth0) .ethernet (some (bytesOf eth0))
        (fun _ => Timeval.invalid) := by
  have hrun : run step [] neighbourDay = some neighbours := by decide +kernel
  obtain ⟨hremoved, haged⟩ := removal_and_ageing_exact_iff hrun
  refine ⟨(hremoved _ List.mem_cons_self (bytesOf eth0) (by decide)).mpr ⟨?_, ?_⟩,
    (haged (some eth0) _ _ _ ⟨rfl, _, rfl, by decide⟩).mpr ⟨?_, ?_, ?_⟩⟩
  · intro q hq
    obtain rfl := Option.some.inj hq
    exact ⟨goesWith_refl _ _, goesWith_refl _ _⟩
  · intro q hq
    obtain rfl := Option.some.inj hq
    exact ⟨goesWith_refl _ _, goesWith_refl _ _⟩
  · decide +kernel
  · have hall : ∀ r ∈ neighbours, isChild (some eth0) r = true →
        announcedChild (some eth0) r = true := by decide +kernel
    intro r hr hchild hnot
    exact absurd (hall r hr hchild) (Bool.eq_false_iff.mp hnot)
  · have hall : ∀ r ∈ neighbours, childById .ethernet (some (bytesOf eth0)) r = true →
        isChild (some eth0) r = true := by decide +kernel
    intro r hr hchild hnot
    exact absurd (hall r hr hchild) (Bool.eq_false_iff.mp hnot)

/-- A neighbour is overheard, and not heard of again. -/
def silentDay : List StoreOp :=
  [.addupdateFound (some eth0) none (some .ageless) true,
    .addupdateRef (some overheard) (some eth0) (some (.ttl 1 1)) true,
    .agePtr (some eth0) (fun _ => Timeval.invalid)]

/-- What is then stored: the neighbour is dead. -/
def silent : InterfaceStore :=
  [⟨eth0.setStored, none, some .ageless⟩, ⟨overheard.setStored, some eth0.key, some (.ttl 0 1)⟩]

/--
**A neighbour that was only overheard stays**, dead as it is, when the interface is given as a
reference.
-/
theorem ageing_fails :
    run step [] silentDay = some silent ∧
      Addresses (some eth0) .ethernet (some (bytesOf eth0)) ∧
      (agePtr silent (some eth0) (fun _ => Timeval.invalid)).map (fun u => u.1.removed) = some 1 ∧
      (ageRef silent (some eth0) (fun _ => Timeval.invalid)).map (fun u => u.1.removed) = some 0 ∧
      ¬ AgedAlike silent (some eth0) .ethernet (some (bytesOf eth0))
        (fun _ => Timeval.invalid) := by
  have haddr : Addresses (some eth0) .ethernet (some (bytesOf eth0)) :=
    ⟨rfl, _, rfl, by decide⟩
  refine ⟨by decide +kernel, haddr, by decide +kernel, by decide +kernel, fun halike => ?_⟩
  have hd : (silent.map key).Nodup := by decide +kernel
  have hwell := (agedAlike_iff hd haddr _).mp halike
  obtain ⟨d, hmem, hdies, -⟩ := (hwell.overheard _ (List.mem_cons_of_mem _ List.mem_cons_self)
    (by decide +kernel) (by decide +kernel)).dead (by decide +kernel)
  have hnone : ∀ d ∈ silent, dies (announcedChild (some eth0)) (fun _ => Timeval.invalid) d =
      false := by decide +kernel
  exact Bool.eq_false_iff.mp (hnone d hmem) hdies

end InterfaceStore

end Encoders.Connectivity
