import Encoders.Container.ReferenceCounts

/-!
# Runs with References

One operation after the other: the counters count, and the objects that go are those whose last
Reference went, as long as no assignment lets go of an object with one of its two References in
it. An assignment is proved from the other side: as if the Reference had been written before the
old object was let go of, which leads to the same state if it is still there afterwards.
-/

namespace Encoders.Container

open Encoders.Lib

namespace Refs

variable {s : Refs} {p : Option Nat} {r : RefPlace} {g : Graph}
variable {after : RefPlace → Option (Option Nat)}

/-! ## References made and written -/

/-- What an operation has counted ahead becomes a Reference. -/
theorem Sound.addRef (h : s.Sound [] p) (hr : r ∉ s.places)
    (hhome : ∀ a, r.home = some a → s.live a = true) : (s.addRef r p).Sound [] none := by
  have hother : ∀ q ∈ s.places, (s.addRef r p).refCount q = s.refCount q := fun q hq =>
    Function.update_of_ne (show q ≠ r from fun hcon => hr (hcon ▸ hq)) _ _
  have hown : (s.addRef r p).refCount r = p := Function.update_self _ _ _
  have hcount : ∀ c, (s.addRef r p).count c = s.count c + (if p = some c then 1 else 0) := by
    intro c
    rw [count, show (s.addRef r p).places = r :: s.places from rfl, List.countP_cons, hown, count]
    refine congrArg₂ (· + ·) (List.countP_congr (fun q hq => ?_)) ?_
    · rw [hother q hq]
    · simp only [decide_eq_true_eq]
  refine ⟨List.nodup_cons.mpr ⟨hr, h.nodup⟩, List.nodup_nil, fun q hq => absurd hq List.not_mem_nil,
    ?_, ?_, h.entry, h.counter, ?_, h.fresh⟩
  · intro q hq a ha
    rcases List.mem_cons.mp hq with rfl | hq
    · exact iff_of_true (hhome a ha) List.not_mem_nil
    · exact h.home q hq a ha
  · rintro c (hcon | ⟨q, hq, hqc⟩)
    · cases hcon
    · rcases List.mem_cons.mp hq with rfl | hq
      · exact h.ptr c (Or.inl (hown.symm.trans hqc))
      · exact h.ptr c (Or.inr ⟨q, hq, (hother q hq).symm.trans hqc⟩)
  · intro c rc hrc
    obtain ⟨hrefcount, hpos⟩ := h.counts c rc hrc
    rw [if_neg (fun hcon => by cases hcon), hcount]
    exact ⟨hrefcount, hpos⟩

/-- A Reference is written with what was counted ahead; what it had is counted too much. -/
theorem Sound.setRef (h : s.Sound [] p) (hr : r ∈ s.places) :
    (s.setRef r p).Sound [] (s.refCount r) := by
  have hother : ∀ q, q ≠ r → (s.setRef r p).refCount q = s.refCount q := fun q hq =>
    Function.update_of_ne hq _ _
  have hown : (s.setRef r p).refCount r = p := Function.update_self _ _ _
  have hcount : ∀ c, (s.setRef r p).count c + (if s.refCount r = some c then 1 else 0) =
      s.count c + (if p = some c then 1 else 0) := by
    intro c
    have hrest := count_removeRef hr c
    have hrest' := @count_removeRef (s.setRef r p) r hr c
    have hsame : ((s.setRef r p).removeRef r).count c = (s.removeRef r).count c :=
      List.countP_congr (fun q hq => by
        rw [show ((s.setRef r p).removeRef r).refCount q = s.refCount q from
          hother q ((mem_removeRef h.nodup).mp hq).1]
        rfl)
    rw [hown, hsame] at hrest'
    omega
  refine ⟨h.nodup, List.nodup_nil, fun q hq => absurd hq List.not_mem_nil, h.home, ?_, h.entry,
    h.counter, ?_, h.fresh⟩
  · rintro c (hc | ⟨q, hq, hqc⟩)
    · exact h.ptr c (Or.inr ⟨r, hr, hc⟩)
    · by_cases hqr : q = r
      · rw [hqr, hown] at hqc
        exact h.ptr c (Or.inl hqc)
      · exact h.ptr c (Or.inr ⟨q, hq, (hother q hqr).symm.trans hqc⟩)
  · intro c rc hrc
    obtain ⟨hrefcount, hpos⟩ := h.counts c rc hrc
    rw [hcount]
    exact ⟨hrefcount, hpos⟩

theorem points_addRef (s : Refs) (r : RefPlace) (p : Option Nat) (q : RefPlace) :
    (s.addRef r p).points q = Function.update s.points r (some (s.pointee p)) q := by
  by_cases hqr : q = r
  · rw [hqr, Function.update_self, points_of_mem (show r ∈ (s.addRef r p).places from
      List.mem_cons_self), show (s.addRef r p).refCount r = p from Function.update_self _ _ _]
    rfl
  · rw [Function.update_of_ne hqr, points, points,
      show (s.addRef r p).refCount q = s.refCount q from Function.update_of_ne hqr _ _]
    refine if_congr ?_ rfl rfl
    exact ⟨fun hmem => (List.mem_cons.mp hmem).resolve_left hqr, List.mem_cons_of_mem r⟩

theorem points_setRef (p : Option Nat) (hr : r ∈ s.places) (q : RefPlace) :
    (s.setRef r p).points q = Function.update s.points r (some (s.pointee p)) q := by
  by_cases hqr : q = r
  · rw [hqr, Function.update_self, points_of_mem (show r ∈ (s.setRef r p).places from hr),
      show (s.setRef r p).refCount r = p from Function.update_self _ _ _]
    rfl
  · rw [Function.update_of_ne hqr, points, points,
      show (s.setRef r p).refCount q = s.refCount q from Function.update_of_ne hqr _ _]
    rfl

/-! ## The state of the program -/

/-- References, counters and objects are in order, and are those of the graph. -/
structure Holds (s : Refs) (g : Graph) : Prop where
  sound : s.Sound [] none
  points : s.points = g.points
  live : ∀ a, s.live a = true ↔ g.live a

theorem Holds.mem (h : s.Holds g) (r : RefPlace) : r ∈ s.places ↔ g.points r ≠ none := by
  rw [← h.points, Ne, points_eq_none, not_not]

/-- Before anything is destroyed. -/
theorem Holds.cascade {t : Refs} (h : s.Holds g) (hpoints : ∀ r ∈ t.places, t.points r = after r)
    (hsub : ∀ r ∈ t.places, r ∈ s.places) (hgone : ∀ r, r ∉ t.places → after r = none)
    (hlive : t.live = s.live) (hobjects : ∀ a, s.objects a ≠ none → t.objects a ≠ none) :
    t.Cascade g.points after g.live where
  points := hpoints
  gone r hr hafter := absurd (hgone r hr) hafter
  home r hr a ha := (h.live a).mp ((h.sound.home r (hsub r hr) a ha).mpr List.not_mem_nil)
  live a ha := (h.live a).mp (hlive ▸ ha)
  dead a ha hdead := by
    rw [hlive, (h.live a).mpr ha] at hdead
    cases hdead
  served := by
    rintro a - ⟨q, hq⟩
    rw [← h.points] at hq
    obtain ⟨c, rc, -, -, -, hc, -⟩ := h.sound.entry_of_points hq
    exact hobjects a (by rw [hc]; exact Option.some_ne_none _)

/-- What was let go of, and all that goes with it. -/
theorem Sound.let_go {t : Refs} (ht : t.Sound [] p) (hc : t.Cascade g.points after g.live)
    (hsub : ∀ q a, after q = some (some a) → ∃ q', g.points q' = some (some a))
    (hwas : ∀ c rc, p = some c → t.counters c = some rc → ∃ q, g.points q = some (some rc.obj)) :
    ∃ u parts s', t.release p = some (u, parts) ∧ u.places = t.places ∧
      u.destroyAll parts = some s' ∧ s'.refCount = t.refCount ∧ s'.Holds (g.change after) := by
  obtain ⟨u, parts, hrelease, hu, hcu, hplaces, href⟩ := ht.release hc hwas
  rw [List.append_nil] at hu
  obtain ⟨s', hs', hsound, hcascade, href'⟩ := hu.destroyAll hcu hsub
  obtain ⟨hpoints, hlive⟩ := hcascade.done hsound rfl rfl
  exact ⟨u, parts, s', hrelease, hplaces, hs', href'.trans href, hsound, funext hpoints, hlive⟩

/-! ## One operation -/

theorem Holds.create (h : s.Holds g) (a : Nat) :
    ∃ s', s.step (.create a) = some s' ∧ s'.Holds (g.step (.create a)) := by
  refine ⟨_, rfl, ⟨h.sound.nodup, h.sound.pending_nodup, h.sound.pending_home, ?_, h.sound.ptr, ?_,
    h.sound.counter, h.sound.counts, h.sound.fresh⟩, h.points, ?_⟩
  · intro r hr b hb
    refine iff_of_true ?_ List.not_mem_nil
    have hlive := (h.sound.home r hr b hb).mpr List.not_mem_nil
    dsimp only
    by_cases hba : b = a
    · rw [hba, Function.update_self]
    · rw [Function.update_of_ne hba, hlive]
  · intro c rc hrc
    obtain ⟨hentry, hlive⟩ := h.sound.entry c rc hrc
    refine ⟨hentry, ?_⟩
    dsimp only
    by_cases hba : rc.obj = a
    · rw [hba, Function.update_self]
    · rw [Function.update_of_ne hba, hlive]
  · intro b
    rw [Graph.step]
    dsimp only
    by_cases hba : b = a
    · rw [hba, Function.update_self, Function.update_self]
      exact iff_of_true rfl trivial
    · rw [Function.update_of_ne hba, Function.update_of_ne hba]
      exact h.live b

theorem Holds.vacant (h : s.Holds g) (r : RefPlace) : s.Vacant r ↔ g.Vacant r := by
  rw [Vacant, Graph.Vacant, ← h.points, points_eq_none]
  simp only [h.live]

/-- A new Reference to what was counted ahead. -/
theorem Holds.addRef {t : Refs} (h : s.Holds g) (hr : s.Vacant r) {target : Option Nat}
    (ht : t.Sound [] p) (halike : s.Alike t) (hp : t.pointee p = target) :
    (t.addRef r p).Holds { g with points := Function.update g.points r (some target) } where
  sound := ht.addRef (by rw [halike.places]; exact hr.1) (by rw [halike.live]; exact hr.2)
  points := by
    rw [← h.points, ← hp]
    funext q
    rw [points_addRef]
    refine congrFun (congrArg (fun f => Function.update f r _) ?_) q
    exact funext halike.points
  live a := by
    rw [← h.live a, ← halike.live]
    rfl

theorem Holds.construct (h : s.Holds g) (r : RefPlace) (obj : Option Nat) :
    ∃ s', s.step (.construct r obj) = some s' ∧ s'.Holds (g.step (.construct r obj)) := by
  rw [step, Graph.step]
  have hiff : (s.Vacant r ∧ obj.all s.live = true) ↔ g.Vacant r ∧ ∀ a, obj = some a → g.live a := by
    rw [h.vacant]
    refine and_congr_right (fun _ => ?_)
    simp only [Option.all_eq_true, ← h.live]
  by_cases hok : s.Vacant r ∧ obj.all s.live = true
  · obtain ⟨t, p, ht, hsound, halike, hp⟩ := h.sound.create (fun a ha =>
      (h.live a).mpr ((hiff.mp hok).2 a ha))
    rw [if_pos hok, if_pos (hiff.mp hok), ht]
    exact ⟨_, rfl, h.addRef hok.1 hsound halike hp⟩
  · rw [if_neg hok, if_neg (fun hcon => hok (hiff.mpr hcon))]
    exact ⟨s, rfl, h⟩

theorem Holds.points_eq (h : s.Holds g) {q : RefPlace} (hq : q ∈ s.places) :
    g.points q = some (s.pointee (s.refCount q)) := by
  rw [← h.points, points_of_mem hq]

theorem Holds.copy (h : s.Holds g) (r q : RefPlace) :
    ∃ s', s.step (.copy r q) = some s' ∧ s'.Holds (g.step (.copy r q)) := by
  rw [step, Graph.step]
  have hiff : (s.Vacant r ∧ q ∈ s.places) ↔ g.Vacant r ∧ g.points q ≠ none := by
    rw [h.vacant, h.mem]
  by_cases hok : s.Vacant r ∧ q ∈ s.places
  · obtain ⟨t, ht, hsound, halike, hp, -⟩ := h.sound.acquire hok.2
    rw [if_pos hok, if_pos (hiff.mp hok), ht, h.points_eq hok.2, Option.map_some, halike.refCount]
    refine ⟨_, rfl, ?_⟩
    exact h.addRef hok.1 hsound halike hp
  · rw [if_neg hok, if_neg (fun hcon => hok (hiff.mpr hcon))]
    exact ⟨s, rfl, h⟩

/-- What a counter is for is pointed to. -/
theorem Holds.was (h : s.Holds g) (hr : r ∈ s.places) {a : Nat}
    (ha : s.pointee (s.refCount r) = some a) : ∃ q, g.points q = some (some a) :=
  ⟨r, by rw [h.points_eq hr, ha]⟩

theorem Holds.destruct (h : s.Holds g) (r : RefPlace) :
    ∃ s', s.step (.destruct r) = some s' ∧ s'.Holds (g.step (.destruct r)) := by
  rw [step, Graph.step]
  by_cases hr : r ∈ s.places
  · rw [if_pos hr, if_pos ((h.mem r).mp hr)]
    have hremoved := h.sound.removeRef hr
    rw [List.erase_nil] at hremoved
    have hmem : ∀ q, q ∈ (s.removeRef r).places ↔ q ≠ r ∧ q ∈ s.places := fun q =>
      mem_removeRef h.sound.nodup
    -- its pointer is the only one that is gone
    have hcascade : (s.removeRef r).Cascade g.points (Function.update g.points r none) g.live := by
      refine h.cascade ?_ (fun q hq => ((hmem q).mp hq).2) ?_ rfl (fun _ => id)
      · intro q hq
        obtain ⟨hqr, hqs⟩ := (hmem q).mp hq
        rw [Function.update_of_ne hqr, h.points_eq hqs, points_of_mem hq]
        rfl
      · intro q hq
        by_cases hqr : q = r
        · rw [hqr, Function.update_self]
        · rw [Function.update_of_ne hqr, ← h.points, points_eq_none]
          exact fun hcon => hq ((hmem q).mpr ⟨hqr, hcon⟩)
    obtain ⟨u, parts, s', hrelease, hplaces, hs', -, hholds⟩ := hremoved.let_go hcascade
      (fun q a hq => by
        by_cases hqr : q = r
        · rw [hqr, Function.update_self] at hq
          cases hq
        · rw [Function.update_of_ne hqr] at hq
          exact ⟨q, hq⟩)
      (fun c rc hc hrc => h.was hr (by
        rw [hc, pointee, Option.bind_some, show s.counters c = some rc from hrc, Option.map_some]))
    refine ⟨s', ?_, hholds⟩
    obtain ⟨n, hn⟩ := Nat.exists_eq_succ_of_ne_zero (Nat.ne_of_gt (List.length_pos_of_mem hr))
    have hlen : u.places.length = n := by
      rw [hplaces, removeRef, List.length_erase_of_mem hr, hn, Nat.succ_sub_one]
    rw [destroyAll, hlen] at hs'
    rw [destroyAll, hn, Nat.succ_eq_add_one, nested, destroy, if_pos hr, hrelease, Option.bind_some,
      List.append_nil, hs']
  · rw [if_neg hr, if_neg (fun hcon => hr ((h.mem r).mpr hcon))]
    exact ⟨s, rfl, h⟩

/-! ## Assignment -/

theorem release_setRef (s : Refs) (r : RefPlace) (v p : Option Nat) :
    (s.setRef r v).release p = (s.release p).map (fun x => (x.1.setRef r v, x.2)) := by
  cases p with
  | none => rfl
  | some c =>
      rw [release, release, decCount, decCount, show (s.setRef r v).counters = s.counters from rfl]
      cases s.counters c with
      | none => rfl
      | some rc =>
          dsimp only
          split
          · rfl
          · split
            · rw [show (s.setRef r v).live = s.live from rfl]
              split
              · rfl
              · rfl
            · rfl

/-- What is destroyed is the same whatever a Reference has that is there afterwards. -/
theorem destroyAll_setRef {s' : Refs} (hnd : s.places.Nodup) {work : List RefPlace} (v : Option Nat)
    (hs' : s.destroyAll work = some s') (hr : r ∈ s'.places) :
    (s.setRef r v).destroyAll work = some (s'.setRef r v) := by
  -- neither letting go nor a counter's end adds or removes a place
  have hplaces : ∀ (t : Refs) (p : Option Nat) (t' : Refs) (more : List RefPlace),
      t.release p = some (t', more) → t'.places = t.places := by
    intro t p t' more ht
    cases p with
    | none =>
        cases ht
        rfl
    | some c =>
        rw [release, decCount] at ht
        split at ht
        · cases ht
        · split at ht
          · cases ht
            rfl
          · split at ht
            · split at ht
              · cases ht
                rfl
              · cases ht
            · cases ht
              rfl
  have hdestroy : ∀ (t : Refs) (x : RefPlace) (t' : Refs) (more : List RefPlace),
      t.destroy x = some (t', more) → x ∈ t.places ∧ t'.places = t.places.erase x := by
    intro t x t' more ht
    rw [destroy] at ht
    split at ht
    · rename_i hx
      exact ⟨hx, hplaces _ _ _ _ ht⟩
    · cases ht
  -- the write commutes with every step of the walk, hence with the walk
  refine (@nested_commutes Refs RefPlace destroy (fun t => t.places.Nodup) (fun t => r ∈ t.places)
    (fun t => t.setRef r v) ?_ ?_ ?_ s.places.length s s' work hnd hs' hr).2
  · intro t x t' more ht hx
    rw [(hdestroy t x t' more hx).2]
    exact ht.erase x
  · intro t x t' more _ hx hr'
    rw [(hdestroy t x t' more hx).2] at hr'
    exact List.mem_of_mem_erase hr'
  · intro t x t' more ht hx hr'
    obtain ⟨hmem, herase⟩ := hdestroy t x t' more hx
    rw [herase, ht.mem_erase_iff] at hr'
    rw [destroy, if_pos hmem] at hx
    rw [destroy, if_pos (show x ∈ (t.setRef r v).places from hmem),
      show (t.setRef r v).refCount x = t.refCount x from Function.update_of_ne (Ne.symm hr'.1) _ _,
      show (t.setRef r v).removeRef x = (t.removeRef x).setRef r v from rfl, release_setRef, hx,
      Option.map_some]

/-- Nothing dies where nothing changes. -/
theorem not_dies_self {points : RefPlace → Option (Option Nat)} {a : Nat} :
    ¬ Dies points points a := by
  intro h
  induction h with
  | intro hwas hpart _ ih =>
      obtain ⟨q, hq⟩ := hwas
      obtain ⟨b, hb⟩ := Option.ne_none_iff_exists'.mp (hpart q hq)
      exact ih q b hq hb

theorem change_self (g : Graph) : g.change g.points = g := by
  have hpoints : (g.change g.points).points = g.points := by
    funext q
    exact if_neg (fun ⟨_, _, hb⟩ => not_dies_self hb)
  have hlive : (g.change g.points).live = g.live := by
    funext a
    exact propext ⟨fun ha => ha.1, fun ha => ⟨ha, not_dies_self⟩⟩
  cases g
  rw [Graph.change, Graph.mk.injEq]
  exact ⟨hpoints, hlive⟩

/-- No object that an assignment lets go of has one of the two References in it. -/
def AssignSafe (s : Refs) (r q : RefPlace) : Prop :=
  ∀ b, Dies s.points (Function.update s.points r (s.points q)) b →
    r.home ≠ some b ∧ q.home ≠ some b

theorem setRef_setRef (s : Refs) (r : RefPlace) (p v : Option Nat) :
    (s.setRef r p).setRef r v = s.setRef r v := by
  rw [setRef, setRef, setRef, Function.update_idem]

theorem setRef_own (h : s.refCount r = p) : s.setRef r p = s := by
  rw [setRef, ← h, Function.update_eq_self]

/--
**An assignment, from the other side.** As if the Reference had been written first: what comes of
it is the change of the graph, and the operation comes to the same if both References are still
there, and to nothing otherwise.
-/
theorem Holds.assign_cases (h : s.Holds g) {q : RefPlace} (hne : r ≠ q) (hr : r ∈ s.places)
    (hq : q ∈ s.places) :
    ∃ v, v.Holds (g.change (Function.update g.points r (g.points q))) ∧
      (r ∈ v.places ∧ q ∈ v.places → s.assign r q = some v) ∧
      (∀ s', s.assign r q = some s' → r ∈ v.places ∧ q ∈ v.places) := by
  -- first the count of what is assigned goes up, as the source has it
  obtain ⟨t, ht, hsound, halike, hp, hobjects⟩ := h.sound.acquire hq
  have hrt : r ∈ t.places := by rw [halike.places]; exact hr
  have hown : (t.setRef r (s.refCount q)).refCount r = s.refCount q := Function.update_self _ _ _
  have hwritten := hsound.setRef hrt
  rw [halike.refCount] at hwritten
  have hpoints : ∀ x, (t.setRef r (s.refCount q)).points x =
      Function.update g.points r (g.points q) x := by
    intro x
    rw [points_setRef _ hrt, hp, ← h.points_eq hq]
    exact congrFun (congrArg (fun f => Function.update f r _)
      ((funext halike.points).trans h.points)) x
  have hcascade : (t.setRef r (s.refCount q)).Cascade g.points
      (Function.update g.points r (g.points q)) g.live := by
    refine h.cascade (fun x _ => hpoints x) (fun x hx => by rw [← halike.places]; exact hx) ?_
      halike.live (fun a ha => by rw [← hobjects] at ha; exact ha)
    intro x hx
    rw [← hpoints x, points_eq_none]
    exact hx
  -- letting go of the old pointer destroys what is reached by nothing else
  obtain ⟨u, parts, v, hrelease, hplaces, hv, href, hholds⟩ := hwritten.let_go hcascade
    (fun x a hx => by
      by_cases hxr : x = r
      · rw [hxr, Function.update_self] at hx
        exact ⟨q, hx⟩
      · rw [Function.update_of_ne hxr] at hx
        exact ⟨x, hx⟩)
    (fun c rc hc hrc => h.was hr (by
      have hpointee := congrArg some (show t.pointee (some c) = some rc.obj by
        rw [pointee, Option.bind_some, show t.counters c = some rc from hrc, Option.map_some])
      rw [← hc, ← halike.refCount, ← points_of_mem hrt, halike.points, points_of_mem hr] at hpointee
      exact Option.some.inj hpointee))
  rw [release_setRef] at hrelease
  obtain ⟨⟨u₀, parts'⟩, hrelease₀, hu⟩ := Option.map_eq_some_iff.mp hrelease
  obtain ⟨rfl, rfl⟩ := Prod.mk.inj hu
  have hnd : u₀.places.Nodup := by
    rw [show u₀.places = t.places from hplaces]
    exact hsound.nodup
  have hassign : s.assign r q = (u₀.destroyAll parts').bind (fun s =>
      if r ∈ s.places ∧ q ∈ s.places then some (s.setRef r (s.refCount q)) else none) := by
    rw [assign, if_neg hne, ht, Option.bind_eq_bind, Option.bind_some, halike.refCount, hrelease₀]
    rfl
  refine ⟨v, hholds, ?_, ?_⟩
  · -- the walk after the write is the walk before it, with the write put behind
    rintro ⟨hrv, hqv⟩
    have hback := destroyAll_setRef (s := u₀.setRef r (s.refCount q)) hnd (u₀.refCount r) hv hrv
    rw [setRef_setRef, setRef_own rfl] at hback
    rw [hassign, hback, Option.bind_some, if_pos ⟨hrv, hqv⟩, setRef_setRef]
    have hqv : (v.setRef r (u₀.refCount r)).refCount q = s.refCount q := by
      rw [show (v.setRef r (u₀.refCount r)).refCount q = v.refCount q from
        Function.update_of_ne (Ne.symm hne) _ _, href,
        show (t.setRef r (s.refCount q)).refCount q = t.refCount q from
        Function.update_of_ne (Ne.symm hne) _ _, halike.refCount]
    rw [hqv, setRef_own (by rw [href, hown])]
  · intro s' hs'
    rw [hassign] at hs'
    obtain ⟨s₃, hs₃, hs'⟩ := Option.bind_eq_some_iff.mp hs'
    split at hs'
    · rename_i hmem
      have hforth := destroyAll_setRef hnd (s.refCount q) hs₃ hmem.1
      rw [hv] at hforth
      rw [Option.some.inj hforth]
      exact hmem
    · cases hs'

/-- **An assignment succeeds exactly if it is safe.** -/
theorem Holds.assign (h : s.Holds g) (r q : RefPlace) :
    ((r ∈ s.places ∧ q ∈ s.places → s.AssignSafe r q) →
      ∃ s', s.step (.assign r q) = some s' ∧ s'.Holds (g.step (.assign r q))) ∧
    ((∃ s', s.step (.assign r q) = some s') → r ∈ s.places ∧ q ∈ s.places → s.AssignSafe r q) := by
  rw [step, Graph.step]
  by_cases hmem : r ∈ s.places ∧ q ∈ s.places
  · obtain ⟨hr, hq⟩ := hmem
    have hafter : (g.points r ≠ none ∧ g.points q ≠ none) := ⟨(h.mem r).mp hr, (h.mem q).mp hq⟩
    rw [if_pos ⟨hr, hq⟩, if_pos hafter, AssignSafe, h.points]
    by_cases hrq : r = q
    · subst hrq
      rw [Function.update_eq_self, change_self, Refs.assign, if_pos rfl]
      exact ⟨fun _ => ⟨s, rfl, h⟩, fun _ _ b hb => absurd hb not_dies_self⟩
    · obtain ⟨v, hv, hforth, hback⟩ := h.assign_cases hrq hr hq
      -- a Reference is still there exactly if the object it is a part of lives on
      have hthere : ∀ x, x ∈ s.places → (x ∈ v.places ↔ ∀ b,
          Dies g.points (Function.update g.points r (g.points q)) b → x.home ≠ some b) := by
        intro x hx
        rw [hv.mem, Graph.change]
        dsimp only
        split
        · rename_i hdies
          obtain ⟨b, hb, hdies⟩ := hdies
          exact iff_of_false (fun hcon => hcon rfl) (fun hcon => hcon b hdies hb)
        · rename_i hnot
          refine iff_of_true ?_ (fun b hb hcon => hnot ⟨b, hcon, hb⟩)
          by_cases hxr : x = r
          · rw [hxr, Function.update_self]
            exact (h.mem q).mp hq
          · rw [Function.update_of_ne hxr]
            exact (h.mem x).mp hx
      constructor
      · intro hsafe
        have hsafe := hsafe ⟨hr, hq⟩
        exact ⟨v, hforth ⟨(hthere r hr).mpr (fun b hb => (hsafe b hb).1),
          (hthere q hq).mpr (fun b hb => (hsafe b hb).2)⟩, hv⟩
      · rintro ⟨s', hs'⟩ - b hb
        obtain ⟨hrv, hqv⟩ := hback s' hs'
        exact ⟨(hthere r hr).mp hrv b hb, (hthere q hq).mp hqv b hb⟩
  · have hafter : ¬ (g.points r ≠ none ∧ g.points q ≠ none) := fun hcon =>
      hmem ⟨(h.mem r).mpr hcon.1, (h.mem q).mpr hcon.2⟩
    rw [if_neg hmem, if_neg hafter]
    exact ⟨fun _ => ⟨s, rfl, h⟩, fun _ hcon => absurd hcon hmem⟩

end Refs

/-! ## When objects are deleted -/

/-- The objects that are gone are those that were referred to and are not any more. -/
def Graph.Deletes (g g' : Graph) : Prop :=
  ∀ a, g.live a → (¬ g'.live a ↔
    (∃ q, g.points q = some (some a)) ∧ ∀ q, g'.points q ≠ some (some a))

/-- **What dies is what has lost its last Reference.** -/
theorem Graph.change_deletes (g : Graph) (after : RefPlace → Option (Option Nat)) :
    g.Deletes (g.change after) := by
  intro a ha
  constructor
  · intro hgone
    have hdies : Dies g.points after a := by
      by_contra hcon
      exact hgone ⟨ha, hcon⟩
    obtain ⟨hwas, hpart, hrest⟩ := hdies
    refine ⟨hwas, fun q hq => ?_⟩
    rw [Graph.change] at hq
    dsimp only at hq
    split at hq
    · cases hq
    · rename_i hnot
      obtain ⟨b, hb⟩ := Option.ne_none_iff_exists'.mp (hpart q hq)
      exact hnot ⟨b, hb, hrest q b hq hb⟩
  · rintro ⟨hwas, hnone⟩ hlive
    have hhome : ∀ q, after q = some (some a) →
        ∃ b, q.home = some b ∧ Dies g.points after b := by
      intro q hq
      by_contra hcon
      refine hnone q ?_
      rw [Graph.change]
      exact (if_neg hcon).trans hq
    exact hlive.2 (Dies.of_homes hwas hhome)

/-- An operation that only adds deletes nothing. -/
theorem Graph.deletes_of_grows {g g' : Graph} (hlive : ∀ a, g.live a → g'.live a)
    (hpoints : ∀ q, g.points q ≠ none → g'.points q = g.points q) : g.Deletes g' := by
  intro a ha
  refine iff_of_false (fun hcon => hcon (hlive a ha)) ?_
  rintro ⟨⟨q, hq⟩, hnone⟩
  exact hnone q ((hpoints q (by rw [hq]; exact Option.some_ne_none _)).trans hq)

theorem Graph.deletes_self (g : Graph) : g.Deletes g :=
  deletes_of_grows (fun _ => id) (fun _ _ => rfl)

theorem Graph.step_deletes (g : Graph) (op : RefOp) : g.Deletes (g.step op) := by
  -- a `Reference` built on free memory takes no object away
  have hnew : ∀ (r : RefPlace) (v : Option (Option Nat)), g.points r = none →
      g.Deletes { g with points := Function.update g.points r v } := fun r v hr =>
    deletes_of_grows (fun _ => id) (fun q hq =>
      Function.update_of_ne (fun hcon => hq (by rw [hcon, hr])) _ _)
  cases op with
  | create a =>
      refine deletes_of_grows (fun b hb => ?_) (fun _ _ => rfl)
      rw [Graph.step]
      dsimp only
      by_cases hba : b = a
      · rw [hba, Function.update_self]
        trivial
      · rw [Function.update_of_ne hba]
        exact hb
  | construct r obj =>
      rw [Graph.step]
      split
      · rename_i hok
        exact hnew r _ hok.1.1
      · exact g.deletes_self
  | copy r q =>
      rw [Graph.step]
      split
      · rename_i hok
        exact hnew r _ hok.1.1
      · exact g.deletes_self
  -- the old object of `r` may lose its last `Reference` here
  | assign r q =>
      rw [Graph.step]
      split
      · exact g.change_deletes _
      · exact g.deletes_self
  | destruct r =>
      rw [Graph.step]
      split
      · exact g.change_deletes _
      · exact g.deletes_self

/-! ## Runs -/

namespace Refs

/--
References count: they point where they are to, every object that is referred to has one counter,
the one in the table, which counts the References to it, and the last operation deleted the
objects that lost their last Reference and no others.
-/
structure Counts (s : Refs) (w : Graph × Graph) : Prop where
  nodup : s.places.Nodup
  points : ∀ r, s.points r = w.2.points r
  live : ∀ a, s.live a = true ↔ w.2.live a
  served : ∀ r a, s.points r = some (some a) → ∃ c, s.objects a = some c
  table : ∀ a c, s.objects a = some c →
    s.live a = true ∧ ∃ rc, s.counters c = some rc ∧ rc.obj = a
  counter : ∀ c rc, s.counters c = some rc → s.objects rc.obj = some c ∧
    rc.refcount = s.places.countP (fun r => s.points r = some (some rc.obj)) ∧ 0 < rc.refcount
  deletes : w.1.Deletes w.2

/-- The References that have a counter are those that point to its object. -/
theorem Sound.count_eq {s : Refs} (h : s.Sound [] none) {c : Nat} {rc : RefCounter}
    (hrc : s.counters c = some rc) :
    s.count c = s.places.countP (fun r => s.points r = some (some rc.obj)) := by
  refine List.countP_congr (fun r hr => ?_)
  rw [decide_eq_true_iff, decide_eq_true_iff, points_iff]
  constructor
  · exact fun hc => ⟨hr, c, rc, hc, hrc, rfl⟩
  · rintro ⟨-, c', rc', hc', hrc', hobj⟩
    have hentry := (h.entry c' rc' hrc').1
    rw [hobj, (h.entry c rc hrc).1] at hentry
    exact hc'.trans hentry.symm

theorem Holds.counts {s : Refs} {w : Graph × Graph} (h : s.Holds w.2) (hdel : w.1.Deletes w.2) :
    s.Counts w where
  nodup := h.sound.nodup
  points r := congrFun h.points r
  live := h.live
  served r a hr := by
    obtain ⟨c, rc, -, -, -, hc, -⟩ := h.sound.entry_of_points hr
    exact ⟨c, hc⟩
  table a c hc := by
    obtain ⟨rc, hrc, hobj⟩ := h.sound.counter a c hc
    exact ⟨hobj ▸ (h.sound.entry c rc hrc).2, rc, hrc, hobj⟩
  counter c rc hrc := by
    obtain ⟨hcount, hpos⟩ := h.sound.counts c rc hrc
    rw [if_neg (fun hcon => by cases hcon), Nat.add_zero, h.sound.count_eq hrc] at hcount
    exact ⟨(h.sound.entry c rc hrc).1, hcount, hpos⟩
  deletes := hdel

/-- Where an operation is as it should be. -/
def Safe (s : Refs) : RefOp → Prop
  | .assign r q => r ∈ s.places ∧ q ∈ s.places → s.AssignSafe r q
  | _ => True

/-- The graph before the last operation, and now. -/
noncomputable def advance (w : Graph × Graph) (op : RefOp) : Graph × Graph := (w.2, w.2.step op)

theorem Holds.step {s : Refs} {g : Graph} (h : s.Holds g) {op : RefOp} (hok : s.Safe op) :
    ∃ s', s.step op = some s' ∧ s'.Holds (g.step op) := by
  cases op with
  | create a => exact h.create a
  | construct r obj => exact h.construct r obj
  | copy r q => exact h.copy r q
  | assign r q => exact (h.assign r q).1 hok
  | destruct r => exact h.destruct r

theorem holds_init : init.Holds Graph.init where
  sound := by
    refine ⟨List.nodup_nil, List.nodup_nil, fun _ h => absurd h List.not_mem_nil,
      fun _ h => absurd h List.not_mem_nil, ?_, ?_, ?_, ?_, fun _ h => absurd rfl h⟩
    · rintro c (hcon | ⟨r, hr, -⟩)
      · cases hcon
      · exact absurd hr List.not_mem_nil
    · intro c rc h
      cases h
    · intro a c h
      cases h
    · intro c rc h
      cases h
  points := funext fun _ => if_neg List.not_mem_nil
  live _ := iff_of_false Bool.false_ne_true id

/--
**References count exactly as long as every assignment is safe**: no object that it lets go of,
or that goes with it, has the Reference assigned from or the one assigned to as a part of it.
-/
theorem references_count_iff (ops : List RefOp) :
    (∀ pre post, ops = pre ++ post → ∃ s, run Refs.step init pre = some s ∧
        s.Counts (pre.foldl advance (Graph.init, Graph.init))) ↔
      Guarded Refs.step Safe init ops := by
  refine @run_related_iff Refs (Graph × Graph) RefOp Refs.step advance Safe
    (fun s w => s.Holds w.2 ∧ w.1.Deletes w.2) Counts (fun _ _ => True)
    (fun s w h => h.1.counts h.2) ?_ ?_ ops init (Graph.init, Graph.init)
    ⟨holds_init, Graph.init.deletes_self⟩
    ((guarded_iff _ _ ops _).mpr (fun _ _ _ _ _ _ => trivial))
  · intro s w op h _ hok
    obtain ⟨s', hs', h'⟩ := h.1.step hok
    exact ⟨s', hs', h', w.2.step_deletes op⟩
  · intro s w op s' h _ hs' _
    cases op with
    | assign r q => exact (h.1.assign r q).2 ⟨s', hs'⟩
    | create | construct | copy | destruct => trivial

/-- A list of two, and its head goes on to the next: `head = head->next`. -/
theorem references_count_fails : ¬ ∀ pre post : List RefOp,
    [.create 1, .construct ⟨none, 0⟩ (some 1), .create 2, .construct ⟨some 1, 0⟩ (some 2),
      .assign ⟨none, 0⟩ ⟨some 1, 0⟩] = pre ++ post →
    ∃ s, run Refs.step init pre = some s ∧
      s.Counts (pre.foldl advance (Graph.init, Graph.init)) := by
  intro h
  obtain ⟨s, hs, -⟩ := h _ [] (List.append_nil _).symm
  have hstuck : (run Refs.step init
      [.create 1, .construct ⟨none, 0⟩ (some 1), .create 2, .construct ⟨some 1, 0⟩ (some 2),
        .assign ⟨none, 0⟩ ⟨some 1, 0⟩]).isSome = false := by decide
  rw [hs] at hstuck
  cases hstuck

end Refs

end Encoders.Container
