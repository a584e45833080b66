import Mathlib.Data.List.Nodup
import Encoders.Container.Reference

/-!
# References count

Between two operations every counter counts the References that have it, and table, counters and
objects belong together. Within an operation two things are open (`Sound`): a counter may still
count one Reference that is gone, and References may be there whose object is not. Destroying
them one after the other settles both.

Which objects go is a matter of the References alone (`Dies`), and so is the one way this fails:
`operator=` reads the Reference it assigns from, and writes the one it assigns to, after it has
let go of an object that may have had either as a part of it.
-/

namespace Encoders.Container

open Encoders.Lib

namespace Refs

variable {s : Refs} {r : RefPlace} {pending : List RefPlace}

/-- How many References have a counter. -/
def count (s : Refs) (c : Nat) : Nat := s.places.countP (fun r => s.refCount r = some c)

/-- The object that a `refCount` is for. -/
def pointee (s : Refs) (p : Option Nat) : Option Nat :=
  p.bind (fun c => (s.counters c).map (·.obj))

/-- What the References point to. -/
def points (s : Refs) (r : RefPlace) : Option (Option Nat) :=
  if r ∈ s.places then some (s.pointee (s.refCount r)) else none

/--
References, counters, table and objects belong together, but for the References in `pending`,
whose objects are gone, and for one Reference too many that `owed` counts.
-/
structure Sound (s : Refs) (pending : List RefPlace) (owed : Option Nat) : Prop where
  nodup : s.places.Nodup
  pending_nodup : pending.Nodup
  pending_home : ∀ r ∈ pending, r ∈ s.places ∧ r.home ≠ none
  home : ∀ r ∈ s.places, ∀ a, r.home = some a → (s.live a = true ↔ r ∉ pending)
  ptr : ∀ c, owed = some c ∨ (∃ r ∈ s.places, s.refCount r = some c) → s.counters c ≠ none
  entry : ∀ c rc, s.counters c = some rc → s.objects rc.obj = some c ∧ s.live rc.obj = true
  counter : ∀ a c, s.objects a = some c → ∃ rc, s.counters c = some rc ∧ rc.obj = a
  counts : ∀ c rc, s.counters c = some rc →
    rc.refcount = s.count c + (if owed = some c then 1 else 0) ∧ 0 < rc.refcount
  fresh : ∀ c, s.counters c ≠ none → c < s.totNum

@[simp] theorem setCounter_counters (s : Refs) (c : Nat) (rc : Option RefCounter) :
    (s.setCounter c rc).counters = Function.update s.counters c rc := rfl

@[simp] theorem delete_counters (s : Refs) (c a : Nat) :
    (s.delete c a).counters = Function.update s.counters c none := rfl

@[simp] theorem delete_objects (s : Refs) (c a : Nat) :
    (s.delete c a).objects = Function.update s.objects a none := rfl

@[simp] theorem delete_live (s : Refs) (c a : Nat) :
    (s.delete c a).live = Function.update s.live a false := rfl

@[simp] theorem newCounter_counters (s : Refs) (a : Nat) :
    (s.newCounter a).counters = Function.update s.counters s.totNum (some ⟨1, a⟩) := rfl

@[simp] theorem newCounter_objects (s : Refs) (a : Nat) :
    (s.newCounter a).objects = Function.update s.objects a (some s.totNum) := rfl

/-! ## Counting -/

theorem count_removeRef {s : Refs} {r : RefPlace} (hr : r ∈ s.places) (c : Nat) :
    (s.removeRef r).count c + (if s.refCount r = some c then 1 else 0) = s.count c := by
  have hperm := (List.perm_cons_erase hr).countP_eq (fun r => decide (s.refCount r = some c))
  rw [List.countP_cons] at hperm
  rw [count, count, removeRef, hperm]
  simp only [decide_eq_true_eq]

theorem count_pos {s : Refs} {c : Nat} : 0 < s.count c ↔ ∃ r ∈ s.places, s.refCount r = some c := by
  rw [count, List.countP_pos_iff]
  simp only [decide_eq_true_eq]

theorem mem_removeRef (h : s.places.Nodup) {q : RefPlace} :
    q ∈ (s.removeRef r).places ↔ q ≠ r ∧ q ∈ s.places := h.mem_erase_iff

theorem points_of_mem (h : r ∈ s.places) :
    s.points r = some (s.pointee (s.refCount r)) := if_pos h

theorem points_eq_none : s.points r = none ↔ r ∉ s.places := by
  rw [points]
  split
  · rename_i h
    exact iff_of_false (Option.some_ne_none _) (not_not_intro h)
  · rename_i h
    exact iff_of_true rfl h

/-- A Reference that points to an object has its counter. -/
theorem points_iff {a : Nat} :
    s.points r = some (some a) ↔
      r ∈ s.places ∧ ∃ c rc, s.refCount r = some c ∧ s.counters c = some rc ∧ rc.obj = a := by
  rw [points]
  split
  · rename_i hr
    rw [Option.some.injEq, pointee, Option.bind_eq_some_iff]
    simp only [Option.map_eq_some_iff, hr, true_and]
    exact ⟨fun ⟨c, hc, rc, hrc, hobj⟩ => ⟨c, rc, hc, hrc, hobj⟩,
      fun ⟨c, rc, hc, hrc, hobj⟩ => ⟨c, hc, rc, hrc, hobj⟩⟩
  · rename_i hr
    exact iff_of_false (fun hcon => by cases hcon) (fun hcon => hr hcon.1)

/-- An object that is pointed to has a counter in the table. -/
theorem Sound.entry_of_points {owed : Option Nat} (h : s.Sound pending owed) {a : Nat}
    (hr : s.points r = some (some a)) :
    ∃ c rc, s.refCount r = some c ∧ s.counters c = some rc ∧ rc.obj = a ∧
      s.objects a = some c ∧ s.live a = true := by
  obtain ⟨-, c, rc, hc, hrc, rfl⟩ := points_iff.mp hr
  exact ⟨c, rc, hc, hrc, rfl, h.entry c rc hrc⟩

/-! ## `dec_count` -/

/-- What `dec_count` does: it counts down, or it deletes. -/
theorem decCount_cases {c : Nat} (h : s.Sound pending (some c)) :
    ∃ rc, s.counters c = some rc ∧
      ((s.count c ≠ 0 ∧ s.decCount c =
          some (s.setCounter c (some { rc with refcount := s.count c }), [])) ∨
        (s.count c = 0 ∧ s.decCount c = some (s.delete c rc.obj, s.partsOf rc.obj))) := by
  obtain ⟨rc, hrc⟩ := Option.ne_none_iff_exists'.mp (h.ptr c (Or.inl rfl))
  obtain ⟨hcount, hpos⟩ := h.counts c rc hrc
  rw [if_pos rfl] at hcount
  refine ⟨rc, hrc, ?_⟩
  rw [decCount, hrc]
  dsimp only
  rw [if_neg (by omega)]
  by_cases hzero : s.count c = 0
  · rw [if_pos (by omega), if_pos (h.entry c rc hrc).2]
    exact Or.inr ⟨hzero, rfl⟩
  · rw [if_neg (by omega), show rc.refcount - 1 = s.count c by omega]
    exact Or.inl ⟨hzero, rfl⟩

/-- A counter that counts down to what there is. -/
theorem Sound.setCounter {c : Nat} (h : s.Sound pending (some c)) {rc : RefCounter}
    (hrc : s.counters c = some rc) (hpos : s.count c ≠ 0) :
    (s.setCounter c (some { rc with refcount := s.count c })).Sound pending none where
  nodup := h.nodup
  pending_nodup := h.pending_nodup
  pending_home := h.pending_home
  home := h.home
  ptr := by
    -- the pointer still owed is now among those counted
    intro c' hc'
    rw [setCounter_counters]
    by_cases hcc : c' = c
    · rw [hcc, Function.update_self]
      exact Option.some_ne_none _
    · rw [Function.update_of_ne hcc]
      exact h.ptr c' (Or.inr (hc'.resolve_left (fun hcon => by cases hcon)))
  entry := by
    intro c' rc' hc'
    rw [setCounter_counters] at hc'
    by_cases hcc : c' = c
    · rw [hcc, Function.update_self] at hc'
      rw [← Option.some.inj hc', hcc]
      exact h.entry c rc hrc
    · rw [Function.update_of_ne hcc] at hc'
      exact h.entry c' rc' hc'
  counter := by
    intro a c' hc'
    obtain ⟨rc', hrc', hobj⟩ := h.counter a c' hc'
    rw [setCounter_counters]
    by_cases hcc : c' = c
    · rw [hcc] at hrc' ⊢
      rw [Function.update_self]
      rw [hrc] at hrc'
      exact ⟨_, rfl, by rw [← hobj, Option.some.inj hrc']⟩
    · rw [Function.update_of_ne hcc]
      exact ⟨rc', hrc', hobj⟩
  counts := by
    intro c' rc' hc'
    rw [if_neg (fun hcon => by cases hcon)]
    rw [setCounter_counters] at hc'
    by_cases hcc : c' = c
    · rw [hcc, Function.update_self] at hc'
      rw [← Option.some.inj hc', hcc]
      exact ⟨rfl, Nat.pos_of_ne_zero hpos⟩
    · rw [Function.update_of_ne hcc] at hc'
      have hcounts := h.counts c' rc' hc'
      rwa [if_neg (fun hcon => hcc (Option.some.inj hcon).symm)] at hcounts
  fresh := by
    intro c' hc'
    rw [setCounter_counters] at hc'
    by_cases hcc : c' = c
    · exact h.fresh c' (by rw [hcc, hrc]; exact Option.some_ne_none _)
    · rw [Function.update_of_ne hcc] at hc'
      exact h.fresh c' hc'

theorem mem_partsOf {a : Nat} : r ∈ s.partsOf a ↔ r ∈ s.places ∧ r.home = some a := by
  rw [partsOf, List.mem_filter, decide_eq_true_eq]

/-- A counter without References goes with its object, whose parts are to be destroyed. -/
theorem Sound.delete {c : Nat} (h : s.Sound pending (some c)) {rc : RefCounter}
    (hrc : s.counters c = some rc) (hzero : s.count c = 0) :
    (s.delete c rc.obj).Sound (s.partsOf rc.obj ++ pending) none := by
  obtain ⟨hobj, hlive⟩ := h.entry c rc hrc
  have hnone : ∀ r ∈ s.places, s.refCount r ≠ some c := fun r hr hcon =>
    absurd (count_pos.mpr ⟨r, hr, hcon⟩) (by omega)
  -- counters other than this one are of other objects
  have hother : ∀ c' rc', s.counters c' = some rc' → c' ≠ c → rc'.obj ≠ rc.obj := by
    intro c' rc' hc' hcc heq
    have hentry := (h.entry c' rc' hc').1
    rw [heq, hobj] at hentry
    exact hcc (Option.some.inj hentry).symm
  have hkeep : ∀ c', (s.delete c rc.obj).counters c' ≠ none →
      c' ≠ c ∧ (s.delete c rc.obj).counters c' = s.counters c' := by
    intro c' hc'
    rw [delete_counters] at hc' ⊢
    by_cases hcc : c' = c
    · rw [hcc, Function.update_self] at hc'
      exact absurd rfl hc'
    · exact ⟨hcc, Function.update_of_ne hcc _ _⟩
  refine ⟨h.nodup, ?_, ?_, ?_, ?_, ?_, ?_, ?_, ?_⟩
  · refine (h.nodup.filter _).append h.pending_nodup ?_
    intro r hr hpend
    exact (h.home r (mem_partsOf.mp hr).1 _ (mem_partsOf.mp hr).2).mp hlive hpend
  · intro r hr
    rcases List.mem_append.mp hr with hpart | hpend
    · obtain ⟨hmem, hhome⟩ := mem_partsOf.mp hpart
      exact ⟨hmem, by rw [hhome]; exact Option.some_ne_none _⟩
    · exact h.pending_home r hpend
  · intro r hr a ha
    rw [delete_live]
    by_cases heq : a = rc.obj
    · rw [heq, Function.update_self]
      refine iff_of_false Bool.false_ne_true (not_not_intro (List.mem_append_left _ ?_))
      exact mem_partsOf.mpr ⟨hr, heq ▸ ha⟩
    · have hpart : r ∉ s.partsOf rc.obj := fun hcon =>
        heq (Option.some.inj (ha.symm.trans (mem_partsOf.mp hcon).2))
      rw [Function.update_of_ne heq, h.home r hr a ha, List.mem_append]
      exact ⟨fun hnot hcon => hcon.elim hpart hnot, fun hnot hcon => hnot (Or.inr hcon)⟩
  · rintro c' (hcon | ⟨r, hr, hc'⟩)
    · cases hcon
    · have hcc : c' ≠ c := fun hcon => hnone r hr (hcon ▸ hc')
      rw [delete_counters, Function.update_of_ne hcc]
      exact h.ptr c' (Or.inr ⟨r, hr, hc'⟩)
  · intro c' rc' hc'
    obtain ⟨hcc, hsame⟩ := hkeep c' (by rw [hc']; exact Option.some_ne_none _)
    rw [hsame] at hc'
    have hne := hother c' rc' hc' hcc
    rw [delete_objects, delete_live, Function.update_of_ne hne, Function.update_of_ne hne]
    exact h.entry c' rc' hc'
  · intro a c' hc'
    rw [delete_objects] at hc'
    rw [delete_counters]
    by_cases heq : a = rc.obj
    · rw [heq, Function.update_self] at hc'
      cases hc'
    · rw [Function.update_of_ne heq] at hc'
      obtain ⟨rc', hrc', hobj'⟩ := h.counter a c' hc'
      have hcc : c' ≠ c := fun hcon => by
        rw [hcon, hrc] at hrc'
        exact heq (hobj' ▸ congrArg RefCounter.obj (Option.some.inj hrc').symm)
      exact ⟨rc', by rw [Function.update_of_ne hcc]; exact hrc', hobj'⟩
  · intro c' rc' hc'
    obtain ⟨hcc, hsame⟩ := hkeep c' (by rw [hc']; exact Option.some_ne_none _)
    rw [hsame] at hc'
    have hcounts := h.counts c' rc' hc'
    rw [if_neg (fun hcon => hcc (Option.some.inj hcon).symm)] at hcounts
    rw [if_neg (fun hcon => by cases hcon)]
    exact hcounts
  · intro c' hc'
    obtain ⟨-, hsame⟩ := hkeep c' hc'
    exact h.fresh c' (hsame ▸ hc')

/-- A Reference taken away, which its counter still counts. -/
theorem Sound.removeRef (h : s.Sound pending none) (hr : r ∈ s.places) :
    (s.removeRef r).Sound (pending.erase r) (s.refCount r) where
  nodup := h.nodup.erase r
  pending_nodup := h.pending_nodup.erase r
  pending_home := by
    intro q hq
    obtain ⟨hne, hq⟩ := (h.pending_nodup.mem_erase_iff).mp hq
    obtain ⟨hmem, hhome⟩ := h.pending_home q hq
    exact ⟨(mem_removeRef h.nodup).mpr ⟨hne, hmem⟩, hhome⟩
  home := by
    intro q hq a ha
    obtain ⟨hne, hq⟩ := (mem_removeRef h.nodup).mp hq
    rw [h.pending_nodup.mem_erase_iff]
    refine (h.home q hq a ha).trans (not_congr ?_)
    exact ⟨fun hmem => ⟨hne, hmem⟩, fun hmem => hmem.2⟩
  ptr := by
    rintro c (hc | ⟨q, hq, hc⟩)
    · exact h.ptr c (Or.inr ⟨r, hr, hc⟩)
    · exact h.ptr c (Or.inr ⟨q, ((mem_removeRef h.nodup).mp hq).2, hc⟩)
  entry := h.entry
  counter := h.counter
  counts := by
    intro c rc hc
    have hcounts := h.counts c rc hc
    rw [if_neg (fun hcon => by cases hcon), Nat.add_zero] at hcounts
    rw [count_removeRef hr]
    exact hcounts
  fresh := h.fresh

/-! ## Destroying References one after the other -/

section Cascade

variable {before after : RefPlace → Option (Option Nat)} {live₀ : Nat → Prop}

/--
On the way from one set of References to another: what is there points where it is to point, what
is not there was part of an object that is gone, and the objects that are gone die.
-/
structure Cascade (before after : RefPlace → Option (Option Nat)) (live₀ : Nat → Prop) (s : Refs) :
    Prop where
  points : ∀ r ∈ s.places, s.points r = after r
  gone : ∀ r, r ∉ s.places → after r ≠ none → ∃ b, r.home = some b ∧ live₀ b ∧ s.live b = false
  home : ∀ r ∈ s.places, ∀ a, r.home = some a → live₀ a
  live : ∀ a, s.live a = true → live₀ a
  dead : ∀ a, live₀ a → s.live a = false → Dies before after a
  served : ∀ a, s.live a = true → (∃ q, before q = some (some a)) → s.objects a ≠ none

/-- An object whose last counter goes dies. -/
theorem Cascade.dies {s : Refs} {pending : List RefPlace} {c : Nat} (hs : s.Sound pending (some c))
    (h : s.Cascade before after live₀) {rc : RefCounter} (hrc : s.counters c = some rc)
    (hzero : s.count c = 0) (hwas : ∃ q, before q = some (some rc.obj)) :
    Dies before after rc.obj := by
  have hnot : ∀ q, after q = some (some rc.obj) → q ∉ s.places := by
    intro q hq hmem
    obtain ⟨-, c', rc', hc', hrc', hobj⟩ := points_iff.mp ((h.points q hmem).trans hq)
    have hsame := (hs.entry c' rc' hrc').1
    rw [hobj, (hs.entry c rc hrc).1] at hsame
    have hpos := count_pos.mpr ⟨q, hmem, hc'.trans hsame.symm⟩
    omega
  have hhome : ∀ q, after q = some (some rc.obj) → ∃ b, q.home = some b ∧ Dies before after b := by
    intro q hq
    obtain ⟨b, hb, hlive, hdead⟩ := h.gone q (hnot q hq) (by rw [hq]; exact Option.some_ne_none _)
    exact ⟨b, hb, h.dead b hlive hdead⟩
  exact Dies.of_homes hwas hhome

theorem pointee_setCounter {s : Refs} {c : Nat} {rc rc' : RefCounter}
    (hrc : s.counters c = some rc) (hobj : rc'.obj = rc.obj) (p : Option Nat) :
    (s.setCounter c (some rc')).pointee p = s.pointee p := by
  cases p with
  | none => rfl
  | some c' =>
      rw [pointee, pointee, Option.bind_some, Option.bind_some, setCounter_counters]
      by_cases hcc : c' = c
      · rw [hcc, Function.update_self, hrc, Option.map_some, Option.map_some, hobj]
      · rw [Function.update_of_ne hcc]

theorem points_setCounter {s : Refs} {c : Nat} {rc rc' : RefCounter} (hrc : s.counters c = some rc)
    (hobj : rc'.obj = rc.obj) (r : RefPlace) : (s.setCounter c (some rc')).points r = s.points r :=
  if_congr Iff.rfl (congrArg some (pointee_setCounter hrc hobj (s.refCount r))) rfl

theorem points_delete {s : Refs} {c a : Nat} {r : RefPlace} (hr : r ∈ s.places)
    (hc : s.refCount r ≠ some c) : (s.delete c a).points r = s.points r := by
  rw [points_of_mem hr, points_of_mem (show r ∈ (s.delete c a).places from hr)]
  refine congrArg some ?_
  cases hr' : s.refCount r with
  | none =>
      rw [show (s.delete c a).refCount r = none from hr']
      rfl
  | some c' =>
      rw [show (s.delete c a).refCount r = some c' from hr', pointee, pointee, Option.bind_some,
        Option.bind_some, delete_counters,
        Function.update_of_ne (fun hcon => hc (hr'.trans (congrArg some hcon)))]

/-- **What is let go of** counts down, or dies and leaves its parts to be destroyed. -/
theorem Sound.release {s : Refs} {pending : List RefPlace} {owed : Option Nat}
    (hs : s.Sound pending owed) (h : s.Cascade before after live₀)
    (hwas : ∀ c rc, owed = some c → s.counters c = some rc → ∃ q, before q = some (some rc.obj)) :
    ∃ s' parts, s.release owed = some (s', parts) ∧ s'.Sound (parts ++ pending) none ∧
      s'.Cascade before after live₀ ∧ s'.places = s.places ∧ s'.refCount = s.refCount := by
  cases owed with
  | none => exact ⟨s, [], rfl, hs, h, rfl, rfl⟩
  | some c =>
      -- the last pointer takes the object along, any other only counts down
      obtain ⟨rc, hrc, ⟨hpos, hdec⟩ | ⟨hzero, hdec⟩⟩ := decCount_cases hs
      · refine ⟨_, [], hdec, hs.setCounter hrc hpos, ?_, rfl, rfl⟩
        refine ⟨fun r hr => ?_, h.gone, h.home, h.live, h.dead, h.served⟩
        have hsame := @points_setCounter s c rc { rc with refcount := s.count c } hrc rfl r
        exact hsame.trans (h.points r hr)
      · have hnone : ∀ r ∈ s.places, s.refCount r ≠ some c := fun r hr hcon =>
          absurd (count_pos.mpr ⟨r, hr, hcon⟩) (by omega)
        have hlive : ∀ a, (s.delete c rc.obj).live a = true → a ≠ rc.obj ∧ s.live a = true := by
          intro a ha
          rw [delete_live] at ha
          by_cases heq : a = rc.obj
          · rw [heq, Function.update_self] at ha
            cases ha
          · rw [Function.update_of_ne heq] at ha
            exact ⟨heq, ha⟩
        have hdead : ∀ a, s.live a = false → (s.delete c rc.obj).live a = false := by
          intro a ha
          rw [delete_live]
          by_cases heq : a = rc.obj
          · rw [heq, Function.update_self]
          · rw [Function.update_of_ne heq, ha]
        refine ⟨_, _, hdec, hs.delete hrc hzero, ⟨?_, ?_, h.home, ?_, ?_, ?_⟩, rfl, rfl⟩
        · intro r hr
          have hsame := @points_delete s c rc.obj r hr (hnone r hr)
          exact hsame.trans (h.points r hr)
        · intro r hr hafter
          obtain ⟨b, hb, hb₀, hbdead⟩ := h.gone r hr hafter
          exact ⟨b, hb, hb₀, hdead b hbdead⟩
        · exact fun a ha => h.live a (hlive a ha).2
        · intro a ha₀ ha
          by_cases heq : a = rc.obj
          · rw [heq]
            exact h.dies hs hrc hzero (hwas c rc rfl hrc)
          · rw [delete_live, Function.update_of_ne heq] at ha
            exact h.dead a ha₀ ha
        · intro a ha hwas'
          obtain ⟨heq, ha⟩ := hlive a ha
          rw [delete_objects, Function.update_of_ne heq]
          exact h.served a ha hwas'

/-- A Reference that is destroyed with its object leaves the rest on the way. -/
theorem Cascade.removeRef {s : Refs} (h : s.Cascade before after live₀) (hnd : s.places.Nodup)
    {r : RefPlace} (hr : ∃ b, r.home = some b ∧ live₀ b ∧ s.live b = false) :
    (s.removeRef r).Cascade before after live₀ where
  points := by
    intro q hq
    have hmem := ((mem_removeRef hnd).mp hq).2
    rw [← h.points q hmem, points_of_mem hq, points_of_mem hmem]
    rfl
  gone := by
    intro q hq hafter
    by_cases hqr : q = r
    · rw [hqr]
      exact hr
    · exact h.gone q (fun hcon => hq ((mem_removeRef hnd).mpr ⟨hqr, hcon⟩)) hafter
  home := fun q hq => h.home q ((mem_removeRef hnd).mp hq).2
  live := h.live
  dead := h.dead
  served := h.served

/-- **All that is to be destroyed is.** -/
theorem Sound.destroyAll {s : Refs} {work : List RefPlace} (hs : s.Sound work none)
    (h : s.Cascade before after live₀)
    (hsub : ∀ q a, after q = some (some a) → ∃ q', before q' = some (some a)) :
    ∃ s', s.destroyAll work = some s' ∧ s'.Sound [] none ∧ s'.Cascade before after live₀ ∧
      s'.refCount = s.refCount := by
  have hstep : ∀ (t : Refs) (x : RefPlace) (rest : List RefPlace),
      (t.Sound (x :: rest) none ∧ t.Cascade before after live₀ ∧ t.refCount = s.refCount) →
      ∃ t' more, t.destroy x = some (t', more) ∧
        (t'.Sound (more ++ rest) none ∧ t'.Cascade before after live₀ ∧
          t'.refCount = s.refCount) ∧ t'.places.length < t.places.length := by
    rintro t x rest ⟨ht, hc, href⟩
    obtain ⟨hmem, hhome⟩ := ht.pending_home x List.mem_cons_self
    obtain ⟨a, ha⟩ := Option.ne_none_iff_exists'.mp hhome
    have hdead : t.live a = false := Bool.eq_false_iff.mpr fun hcon =>
      (ht.home x hmem a ha).mp hcon List.mem_cons_self
    have hremoved := ht.removeRef hmem
    rw [List.erase_cons_head] at hremoved
    obtain ⟨t', more, hrelease, ht', hc', hplaces, href'⟩ := hremoved.release
      (hc.removeRef ht.nodup ⟨a, ha, hc.home x hmem a ha, hdead⟩) (fun c rc hx hrc => by
        refine hsub x rc.obj ?_
        rw [← hc.points x hmem]
        exact points_iff.mpr ⟨hmem, c, rc, hx, hrc, rfl⟩)
    refine ⟨t', more, by rw [destroy, if_pos hmem, hrelease], ⟨ht', hc', href'.trans href⟩, ?_⟩
    rw [hplaces, Refs.removeRef, List.length_erase_of_mem hmem]
    have := List.length_pos_of_mem hmem
    omega
  obtain ⟨s', hs', hsound, hcascade, href⟩ := @nested_ends Refs RefPlace destroy
    (fun t work => t.Sound work none ∧ t.Cascade before after live₀ ∧ t.refCount = s.refCount)
    (fun t => t.places.length) hstep s.places.length s work ⟨hs, h, rfl⟩ (Nat.le_refl _)
  exact ⟨s', hs', hsound, hcascade, href⟩

/-- In the end no object is left that dies. -/
theorem Cascade.not_live {s : Refs} (hs : s.Sound [] none) (h : s.Cascade before after live₀)
    {a : Nat} (hdies : Dies before after a) : s.live a = false := by
  induction hdies with
  | @intro a hwas hpart _ ih =>
      refine Bool.eq_false_iff.mpr (fun hlive => ?_)
      obtain ⟨c, hc⟩ := Option.ne_none_iff_exists'.mp (h.served a hlive hwas)
      obtain ⟨rc, hrc, hobj⟩ := hs.counter a c hc
      obtain ⟨hcount, hpos⟩ := hs.counts c rc hrc
      rw [if_neg (fun hcon => by cases hcon), Nat.add_zero] at hcount
      obtain ⟨q, hq, hqc⟩ := count_pos.mp (hcount ▸ hpos)
      have hafter : after q = some (some a) := by
        rw [← h.points q hq]
        exact points_iff.mpr ⟨hq, c, rc, hqc, hrc, hobj⟩
      obtain ⟨b, hb⟩ := Option.ne_none_iff_exists'.mp (hpart q hafter)
      have hblive := (hs.home q hq b hb).mpr (List.not_mem_nil)
      rw [ih q b hafter hb] at hblive
      cases hblive

/-- **What is left is what does not die.** -/
theorem Cascade.done {s : Refs} (hs : s.Sound [] none) (h : s.Cascade before after live₀)
    {g : Graph} (hbefore : g.points = before) (hlive : g.live = live₀) :
    (∀ r, s.points r = (g.change after).points r) ∧
      ∀ a, s.live a = true ↔ (g.change after).live a := by
  subst hbefore hlive
  constructor
  · intro r
    rw [Graph.change]
    dsimp only
    split
    · rename_i hdies
      obtain ⟨b, hb, hdies⟩ := hdies
      refine points_eq_none.mpr (fun hmem => ?_)
      have hblive := (hs.home r hmem b hb).mpr List.not_mem_nil
      rw [h.not_live hs hdies] at hblive
      cases hblive
    · rename_i hnot
      by_cases hmem : r ∈ s.places
      · exact h.points r hmem
      · rw [points_eq_none.mpr hmem]
        by_contra hafter
        obtain ⟨b, hb, hb₀, hdead⟩ := h.gone r hmem (Ne.symm hafter)
        exact hnot ⟨b, hb, h.dead b hb₀ hdead⟩
  · intro a
    rw [Graph.change]
    refine ⟨fun ha => ⟨h.live a ha, fun hdies => ?_⟩, fun ha => ?_⟩
    · rw [h.not_live hs hdies] at ha
      cases ha
    · by_contra hcon
      exact ha.2 (h.dead a ha.1 (Bool.eq_false_iff.mpr hcon))

end Cascade

/-! ## New References -/

/-- `inc_count` of a counter that is there. -/
theorem Sound.incCount {s : Refs} (h : s.Sound [] none) {c : Nat} {rc : RefCounter}
    (hrc : s.counters c = some rc) :
    s.incCount c = some (s.setCounter c (some { rc with refcount := rc.refcount + 1 })) ∧
      (s.setCounter c (some { rc with refcount := rc.refcount + 1 })).Sound [] (some c) := by
  obtain ⟨hcount, hpos⟩ := h.counts c rc hrc
  rw [if_neg (fun hcon => by cases hcon), Nat.add_zero] at hcount
  -- no counter comes or goes, and only this one changes
  have hsome : ∀ c', s.counters c' ≠ none →
      (s.setCounter c (some { rc with refcount := rc.refcount + 1 })).counters c' ≠ none := by
    intro c' hc'
    rw [setCounter_counters]
    by_cases hcc : c' = c
    · rw [hcc, Function.update_self]
      exact Option.some_ne_none _
    · rwa [Function.update_of_ne hcc]
  have hcases : ∀ c' rc',
      (s.setCounter c (some { rc with refcount := rc.refcount + 1 })).counters c' = some rc' →
      (c' = c ∧ rc' = { rc with refcount := rc.refcount + 1 }) ∨
        (c' ≠ c ∧ s.counters c' = some rc') := by
    intro c' rc' hc'
    rw [setCounter_counters] at hc'
    by_cases hcc : c' = c
    · rw [hcc, Function.update_self] at hc'
      exact Or.inl ⟨hcc, (Option.some.inj hc').symm⟩
    · rw [Function.update_of_ne hcc] at hc'
      exact Or.inr ⟨hcc, hc'⟩
  refine ⟨?_, h.nodup, h.pending_nodup, h.pending_home, h.home, ?_, ?_, ?_, ?_, ?_⟩
  · rw [Refs.incCount, hrc]
    exact if_neg (by omega)
  · rintro c' (hc' | hc')
    · refine hsome c' ?_
      rw [← Option.some.inj hc', hrc]
      exact Option.some_ne_none _
    · exact hsome c' (h.ptr c' (Or.inr hc'))
  · intro c' rc' hc'
    rcases hcases c' rc' hc' with ⟨rfl, rfl⟩ | ⟨-, hc'⟩
    · exact h.entry c' rc hrc
    · exact h.entry c' rc' hc'
  · intro a c' hc'
    obtain ⟨rc', hrc', hobj⟩ := h.counter a c' hc'
    rw [setCounter_counters]
    by_cases hcc : c' = c
    · rw [hcc, hrc] at hrc'
      rw [hcc, Function.update_self]
      exact ⟨_, rfl, by rw [← hobj, ← Option.some.inj hrc']⟩
    · exact ⟨rc', by rw [Function.update_of_ne hcc]; exact hrc', hobj⟩
  · intro c' rc' hc'
    rcases hcases c' rc' hc' with ⟨rfl, rfl⟩ | ⟨hcc, hc'⟩
    · rw [if_pos rfl]
      exact ⟨congrArg (· + 1) hcount, Nat.succ_pos _⟩
    · rw [if_neg (fun hcon => hcc (Option.some.inj hcon).symm)]
      have hcounts := h.counts c' rc' hc'
      rwa [if_neg (fun hcon => by cases hcon)] at hcounts
  · intro c' hc'
    obtain ⟨rc', hrc'⟩ := Option.ne_none_iff_exists'.mp hc'
    rcases hcases c' rc' hrc' with ⟨rfl, -⟩ | ⟨-, hrc'⟩
    · exact h.fresh c' (by rw [hrc]; exact Option.some_ne_none _)
    · exact h.fresh c' (by rw [hrc']; exact Option.some_ne_none _)

/-- Two states with the same References and objects. -/
structure Alike (s s' : Refs) : Prop where
  places : s'.places = s.places
  refCount : s'.refCount = s.refCount
  live : s'.live = s.live
  points : ∀ r, s'.points r = s.points r

/-- `inc_count` of what a Reference has. -/
theorem Sound.acquire {s : Refs} (h : s.Sound [] none) {q : RefPlace} (hq : q ∈ s.places) :
    ∃ s', s.acquire (s.refCount q) = some s' ∧ s'.Sound [] (s.refCount q) ∧ s.Alike s' ∧
      s'.pointee (s.refCount q) = s.pointee (s.refCount q) ∧ s'.objects = s.objects := by
  cases hc : s.refCount q with
  | none => exact ⟨s, rfl, h, ⟨rfl, rfl, rfl, fun _ => rfl⟩, rfl, rfl⟩
  | some c =>
      obtain ⟨rc, hrc⟩ := Option.ne_none_iff_exists'.mp (h.ptr c (Or.inr ⟨q, hq, hc⟩))
      obtain ⟨hinc, hsound⟩ := h.incCount hrc
      exact ⟨_, hinc, hsound, ⟨rfl, rfl, rfl, @points_setCounter s c rc _ hrc rfl⟩,
        @pointee_setCounter s c rc { rc with refcount := rc.refcount + 1 } hrc rfl _, rfl⟩

/-- `RefCounter::create` finds the counter of an object or makes one. -/
theorem Sound.create {s : Refs} (h : s.Sound [] none) {obj : Option Nat}
    (hobj : ∀ a, obj = some a → s.live a = true) :
    ∃ s' p, s.create obj = some (s', p) ∧ s'.Sound [] p ∧ s.Alike s' ∧ s'.pointee p = obj := by
  cases obj with
  | none => exact ⟨s, none, rfl, h, ⟨rfl, rfl, rfl, fun _ => rfl⟩, rfl⟩
  | some a =>
      cases hc : s.objects a with
      | some c =>
          obtain ⟨rc, hrc, hrcobj⟩ := h.counter a c hc
          obtain ⟨hinc, hsound⟩ := h.incCount hrc
          refine ⟨_, some c, by rw [Refs.create, hc]; simp only [hinc, Option.map_some], hsound,
            ⟨rfl, rfl, rfl, @points_setCounter s c rc _ hrc rfl⟩, ?_⟩
          rw [@pointee_setCounter s c rc { rc with refcount := rc.refcount + 1 } hrc rfl, pointee,
            Option.bind_some, hrc, Option.map_some, hrcobj]
      | none =>
          -- the number is new, so that nothing counts or points there yet
          have hfresh : s.counters s.totNum = none := by
            by_contra hcon
            exact Nat.lt_irrefl _ (h.fresh _ hcon)
          have hne : ∀ c, s.counters c ≠ none → c ≠ s.totNum := fun c hcon heq =>
            hcon (heq ▸ hfresh)
          have hnone : s.count s.totNum = 0 := by
            by_contra hcon
            obtain ⟨r, hr, hrc⟩ := count_pos.mp (Nat.pos_of_ne_zero hcon)
            exact h.ptr _ (Or.inr ⟨r, hr, hrc⟩) hfresh
          refine ⟨s.newCounter a, some s.totNum, by rw [Refs.create, hc], ⟨h.nodup, h.pending_nodup,
            h.pending_home, h.home, ?_, ?_, ?_, ?_, ?_⟩, ⟨rfl, rfl, rfl, ?_⟩, ?_⟩
          · -- what was there before keeps its counter, and the new one is owed once
            rintro c (hcon | ⟨r, hr, hrc⟩)
            · rw [← Option.some.inj hcon, newCounter_counters, Function.update_self]
              exact Option.some_ne_none _
            · have hold := h.ptr c (Or.inr ⟨r, hr, hrc⟩)
              rwa [newCounter_counters, Function.update_of_ne (hne c hold)]
          · intro c rc hrc
            rw [newCounter_counters] at hrc
            rw [newCounter_objects]
            by_cases hcc : c = s.totNum
            · rw [hcc, Function.update_self] at hrc
              rw [← Option.some.inj hrc, hcc]
              exact ⟨Function.update_self _ _ _, hobj a rfl⟩
            · rw [Function.update_of_ne hcc] at hrc
              obtain ⟨hentry, hlive⟩ := h.entry c rc hrc
              have hother : rc.obj ≠ a := fun hcon => by
                rw [hcon, hc] at hentry
                cases hentry
              exact ⟨by rw [Function.update_of_ne hother]; exact hentry, hlive⟩
          · intro b c hb
            rw [newCounter_objects] at hb
            rw [newCounter_counters]
            by_cases hba : b = a
            · rw [hba, Function.update_self] at hb
              rw [← Option.some.inj hb, hba]
              exact ⟨_, Function.update_self _ _ _, rfl⟩
            · rw [Function.update_of_ne hba] at hb
              obtain ⟨rc, hrc, hrcobj⟩ := h.counter b c hb
              have hold := hne c (by rw [hrc]; exact Option.some_ne_none _)
              exact ⟨rc, by rw [Function.update_of_ne hold]; exact hrc, hrcobj⟩
          · intro c rc hrc
            rw [newCounter_counters] at hrc
            by_cases hcc : c = s.totNum
            · rw [hcc, Function.update_self] at hrc
              rw [← Option.some.inj hrc, hcc, if_pos rfl]
              exact ⟨congrArg (· + 1) hnone.symm, Nat.one_pos⟩
            · rw [Function.update_of_ne hcc] at hrc
              rw [if_neg (fun hcon => hcc (Option.some.inj hcon).symm)]
              have hcounts := h.counts c rc hrc
              rwa [if_neg (fun hcon => by cases hcon)] at hcounts
          · intro c hcon
            rw [newCounter_counters] at hcon
            by_cases hcc : c = s.totNum
            · exact hcc ▸ Nat.lt_succ_self _
            · rw [Function.update_of_ne hcc] at hcon
              exact Nat.lt_succ_of_lt (h.fresh c hcon)
          · intro r
            refine ite_congr rfl (fun hr => congrArg some ?_) (fun _ => rfl)
            cases hrc : s.refCount r with
            | none =>
                rw [show (s.newCounter a).refCount r = none from hrc]
                rfl
            | some c =>
                have hold := hne c (h.ptr c (Or.inr ⟨r, hr, hrc⟩))
                rw [show (s.newCounter a).refCount r = some c from hrc, pointee, pointee,
                  Option.bind_some, Option.bind_some, newCounter_counters,
                  Function.update_of_ne hold]
          · rw [pointee, Option.bind_some, newCounter_counters, Function.update_self]
            rfl

end Refs

end Encoders.Container
