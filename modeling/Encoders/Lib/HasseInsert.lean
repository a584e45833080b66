import Encoders.Lib.HasseSteps

/-!
# A new node keeps the diagram

A value that equals none of the nodes gets a node of its own, linked as `Inserted` says.
The step that carries the argument is `nothing_between`: where the new node becomes a
child of `u`, no node lies between `u` and the new value. If it went there in place of
some child, a node in between would be the prong of a fork over that child, and the new
value would stand between prong and foot. If `u` had nothing comparable, the node in
between could not be reached from `u`, and would be the foot of a fork, with the new value
below it.

A value that equals a node is linked nowhere, for the same reasons (`join_unlinked`).
-/

namespace Encoders.Lib

open Diagram

variable {α : Type} {cmp : α → α → Comparison} {E : List α} {D D' : Diagram α}

namespace Hasse

section Joining

variable (h : Hasse cmp E D) (T : Tame cmp E) (F : Flips cmp) {x : α} (hx : x ∈ E)

include h T hx F

/-- A child of the root that compares with `x` is on the way to every node above `x`. -/
theorem root_comparable {y : Nat} (hy : y ∈ D.nodes) (hyx : cmp (D.front y) x = .gt) :
    ∃ r ∈ D.children D.root, cmp x (D.front r) = .lt := by
  obtain ⟨r, hr, hrN, -, hry⟩ := h.below_root T hy
  refine ⟨r, hr, ?_⟩
  rcases hry with rfl | hry
  · exact F.gt_iff.mp hyx
  · exact F.gt_iff.mp (T.trans _ (h.front_mem r hrN) _ (h.front_mem y hy) _ hx hry hyx)

/-- **Where a value joins, no node lies between it and its new parent.** -/
theorem nothing_between {u y : Nat} (hu : u ∈ insert D.root D.nodes)
    (hjoins : D.Joins cmp x u) (hy : y ∈ D.nodes) (habove : D.Above cmp u (D.front y))
    (hyx : cmp (D.front y) x = .gt) : False := by
  have hyE := h.front_mem y hy
  rcases hjoins with ⟨c, hc, hxc⟩ | hnone
  · -- a fork over `c` would have `x` between prong and foot
    have hcE := h.front_mem c (h.closed u hu c hc)
    have hyc := T.trans _ hyE _ hx _ hcE hyx hxc
    have hfork := (h.order u hu c hc y hy habove hyc).2
    exact hfork.not_between T F hyE hcE hx hyc ⟨hyx, hxc⟩
  · have hlt : ∃ c ∈ D.children u, cmp x (D.front c) = .lt := by
      rcases Finset.mem_insert.mp hu with rfl | huN
      · exact h.root_comparable T F hx hy hyx
      · have huy : cmp (D.front u) (D.front y) = .gt := habove.resolve_left (h.ne_root huN)
        rcases h.cover u huN y hy huy with hp | hfork
        · obtain ⟨c, hc, hcN, hcy⟩ := h.below_child T F huN hp huy
          refine ⟨c, hc, ?_⟩
          rcases hcy with rfl | hcy
          · exact F.gt_iff.mp hyx
          · exact F.gt_iff.mp (T.trans _ (h.front_mem c hcN) _ hyE _ hx hcy hyx)
        · -- the foot of a fork has nothing below it
          exact absurd hyx (hfork.foot_lowest T F (h.front_mem u huN) hyE hx huy)
    obtain ⟨c, hc, hlt⟩ := hlt
    rw [hnone c hc] at hlt
    exact absurd hlt (by decide)

/-- **A value that equals a node is linked nowhere.** -/
theorem join_unlinked {n : Nat} (hn : n ∈ D.nodes) (heq : cmp x (D.front n) = .eq)
    (hne : x ≠ D.front n) {u : Nat} (hu : u ∈ insert D.root D.nodes)
    (habove : D.Above cmp u x) : ¬ D.Joins cmp x u := by
  have hnE := h.front_mem n hn
  have hright : ∀ m ∈ D.nodes, cmp (D.front m) x = cmp (D.front m) (D.front n) :=
    fun m hm => T.congr_right F hx hnE (h.front_mem m hm) heq
  have hun : D.Above cmp u (D.front n) := by
    rcases Finset.mem_insert.mp hu with hu | hu
    · exact Or.inl hu
    · exact habove.imp id (fun hgt => by rw [← hright u hu]; exact hgt)
  rintro (⟨c, hc, hxc⟩ | hnone)
  · -- the node would be a prong over `c`
    have hcE := h.front_mem c (h.closed u hu c hc)
    have hnc : cmp (D.front n) (D.front c) = .gt := by
      rw [← T.congr _ hx _ hnE _ hcE heq]
      exact hxc
    have hfork := (h.order u hu c hc n hn hun hnc).2
    exact hne (hfork.prong_alone T F hnE hcE hx hnc heq)
  · -- some child of `u` is the node or above it, and compares with `x`
    have hcomp : ∃ c ∈ D.children u, c ∈ D.nodes ∧
        (c = n ∨ cmp (D.front c) (D.front n) = .gt) := by
      rcases Finset.mem_insert.mp hu with rfl | huN
      · obtain ⟨r, hr, hrN, -, hrn⟩ := h.below_root T hn
        exact ⟨r, hr, hrN, hrn⟩
      · have hgt : cmp (D.front u) (D.front n) = .gt := hun.resolve_left (h.ne_root huN)
        rcases h.cover u huN n hn hgt with hp | hfork
        · exact h.below_child T F huN hp hgt
        · exact absurd (hfork.foot_alone T F (h.front_mem u huN) hnE hx hgt heq) hne
    obtain ⟨c, hc, hcN, rfl | hcn⟩ := hcomp
    · rw [hnone c hc] at heq
      exact absurd heq (by decide)
    · rw [← hright c hcN] at hcn
      have hlt := F.gt_iff.mp hcn
      rw [hnone c hc] at hlt
      exact absurd hlt (by decide)

end Joining

section Insert

variable (h : Hasse cmp E D) (T : Tame cmp E) (F : Flips cmp) {x : α} (hx : x ∈ E) {v : Nat}
variable {u : Nat}
  (hvN : v ∉ D.nodes) (hvr : v ≠ D.root) (I : Inserted cmp D D' v x)

include I in
/-- Lists of children have the new node at the end, or are as they were. -/
theorem insert_children_mem {c : Nat} (hu : u ∈ insert D.root D.nodes) (hc : c ∈ D'.children u) :
    c = v ∨ c ∈ D.children u := by
  by_cases habove : D.Above cmp u x
  · obtain ⟨l, hsub, hl | hl⟩ := I.trimmed u hu habove
    · rw [hl] at hc
      exact Or.inr (hsub.subset hc)
    · rw [hl] at hc
      rcases List.mem_append.mp hc with hc | hc
      · exact Or.inr (hsub.subset hc)
      · exact Or.inl (List.mem_singleton.mp hc)
  · have huN : u ∈ D.nodes := (Finset.mem_insert.mp hu).resolve_left (fun he => habove (Or.inl he))
    rw [I.kept u huN (fun hgt => habove (Or.inr hgt))] at hc
    exact Or.inr hc

include h hvN I in
/-- The new node is a child of nodes above its value only. -/
theorem insert_parent_above (hu : u ∈ insert D.root D.nodes) (hv : v ∈ D'.children u) :
    D.Above cmp u x := by
  by_contra habove
  have huN : u ∈ D.nodes := (Finset.mem_insert.mp hu).resolve_left (fun he => habove (Or.inl he))
  rw [I.kept u huN (fun hgt => habove (Or.inr hgt))] at hv
  exact hvN (h.closed u hu v hv)

include h hvN I in
/-- Two old children that stay keep their order. -/
theorem insert_pair {y d : Nat} (hu : u ∈ insert D.root D.nodes)
    (hpair : [y, d].Sublist (D.children u)) (hy : y ∈ D'.children u) (hd : d ∈ D'.children u)
    (hyN : y ∈ D.nodes) (hdN : d ∈ D.nodes) : [y, d].Sublist (D'.children u) := by
  have hyv : y ≠ v := fun he => hvN (he ▸ hyN)
  have hdv : d ≠ v := fun he => hvN (he ▸ hdN)
  by_cases habove : D.Above cmp u x
  · obtain ⟨l, hsub, hl | hl⟩ := I.trimmed u hu habove
    · rw [hl] at hy hd ⊢
      exact pair_sublist_of_mem hsub (h.nodup u hu) hpair hy hd
    · rw [hl] at hy hd ⊢
      have hy' := (List.mem_append.mp hy).resolve_right (fun hm => hyv (List.mem_singleton.mp hm))
      have hd' := (List.mem_append.mp hd).resolve_right (fun hm => hdv (List.mem_singleton.mp hm))
      exact (pair_sublist_of_mem hsub (h.nodup u hu) hpair hy' hd').trans
        (List.sublist_append_left _ _)
  · have huN : u ∈ D.nodes := (Finset.mem_insert.mp hu).resolve_left (fun he => habove (Or.inl he))
    rw [I.kept u huN (fun hgt => habove (Or.inr hgt))]
    exact hpair

include I in
/-- An old edge is still there, or leads through the new node. -/
theorem insert_edge {c : Nat} (hu : u ∈ insert D.root D.nodes) (hc : c ∈ D.children u) :
    D'.Path u c := by
  by_cases habove : D.Above cmp u x
  · by_cases hgt : cmp x (D.front c) = .gt
    · have huv : v ∈ D'.children u := (I.joined u hu habove).mpr (Or.inl ⟨c, hc, hgt⟩)
      have hvc : c ∈ D'.children v := (I.gained c).mpr ⟨hgt, u, hu, habove, hc⟩
      exact (Relation.ReflTransGen.single huv).tail hvc
    · exact Relation.ReflTransGen.single ((I.lost u hu habove c hc).mpr hgt)
  · have huN : u ∈ D.nodes := (Finset.mem_insert.mp hu).resolve_left (fun he => habove (Or.inl he))
    refine Relation.ReflTransGen.single ?_
    show c ∈ D'.children u
    rw [I.kept u huN (fun hgt => habove (Or.inr hgt))]
    exact hc

include h I in
/-- Old paths are still there. -/
theorem insert_path {n : Nat} (hu : u ∈ insert D.root D.nodes) (hp : D.Path u n) : D'.Path u n := by
  induction hp using Relation.ReflTransGen.head_induction_on with
  | refl => exact Relation.ReflTransGen.refl
  | @head b c hbc _ ih =>
      have hcN := h.closed b hu c hbc
      exact (insert_edge I hu hbc).trans (ih (Finset.mem_insert_of_mem hcN))

include h T F I in
/-- From everything above the new value there is a path to the new node. -/
theorem insert_reached (hne : ∀ n ∈ D.nodes, cmp x (D.front n) ≠ .eq) :
    ∀ u ∈ insert D.root D.nodes, D.Above cmp u x → D'.Path u v := by
  refine h.induction T F ?_
  intro u hu ih habove
  by_cases hjoins : D.Joins cmp x u
  · exact Relation.ReflTransGen.single ((I.joined u hu habove).mpr hjoins)
  · -- some child compares with the new value, and is above it
    obtain ⟨hnogt, hnotnc⟩ := not_or.mp hjoins
    push Not at hnotnc
    obtain ⟨c, hc, hnc⟩ := hnotnc
    have hgt : cmp x (D.front c) ≠ .gt := fun hgt => hnogt ⟨c, hc, hgt⟩
    have heq := hne c (h.closed u hu c hc)
    have hlt : cmp x (D.front c) = .lt := by
      cases hcmp : cmp x (D.front c) with
      | lt => rfl
      | gt => exact absurd hcmp hgt
      | eq => exact absurd hcmp heq
      | nc => exact absurd hcmp hnc
    have hstep : c ∈ D'.children u := (I.lost u hu habove c hc).mpr hgt
    exact (Relation.ReflTransGen.single hstep).trans (ih c hc (Or.inr (F.gt_iff.mpr hlt)))

include h T F I in
/-- Below the new value, everything can be reached from the new node or is the foot of a fork. -/
theorem insert_covers (hne : ∀ n ∈ D.nodes, cmp x (D.front n) ≠ .eq) {y : Nat}
    (hy : y ∈ D.nodes) (hxy : cmp x (D.front y) = .gt) :
    D'.Path v y ∨ Forked cmp E x (D.front y) := by
  have hyE := h.front_mem y hy
  -- the first node on the way from the root that is not above `x` decides
  have hdown : ∀ w ∈ insert D.root D.nodes, D.Above cmp w x → D.Path w y →
      D'.Path v y ∨ Forked cmp E x (D.front y) := by
    intro w hw habove hp
    induction hp using Relation.ReflTransGen.head_induction_on with
    | refl =>
        rcases habove with hr | hgt
        · exact absurd hr (h.ne_root hy)
        · exact absurd hxy (F.gt_asymm hgt)
    | @head b c hbc hcy ih =>
        have hcN := h.closed b hw c hbc
        have hcE := h.front_mem c hcN
        cases hxc : cmp x (D.front c) with
        | gt =>
            have hvc : c ∈ D'.children v := (I.gained c).mpr ⟨hxc, b, hw, habove, hbc⟩
            have hcy' := h.insert_path I (Finset.mem_insert_of_mem hcN) hcy
            exact Or.inl (Relation.ReflTransGen.head hvc hcy')
        | lt => exact ih (Finset.mem_insert_of_mem hcN) (Or.inr (F.gt_iff.mpr hxc))
        | eq => exact absurd hxc (hne c hcN)
        | nc =>
            rcases (h.path_down T hcN hcy).2 with rfl | hgt
            · rw [hxy] at hxc
              exact absurd hxc (by decide)
            · exact Or.inr ⟨D.front c, hcE, F.nc_symm hxc, hgt⟩
  exact hdown D.root (Finset.mem_insert_self _ _) (Or.inl rfl) (h.reach y hy)

include h T F hx hvN hvr I in
/-- **A value that equals no node can come in.** -/
theorem inserted (hne : ∀ n ∈ D.nodes, cmp x (D.front n) ≠ .eq) : Hasse cmp E D' := by
  have hroot := I.root_eq
  have hold : ∀ n ∈ D.nodes, D'.front n = D.front n := I.front_old
  have hN : ∀ {n}, n ∈ D'.nodes ↔ n = v ∨ n ∈ D.nodes := by
    intro n
    rw [I.nodes_eq]
    exact Finset.mem_insert
  -- the nodes with the root are the new one, and those that were there
  have hU : ∀ {u}, u ∈ insert D'.root D'.nodes → u = v ∨ u ∈ insert D.root D.nodes := by
    intro u hu
    rw [hroot] at hu
    rcases Finset.mem_insert.mp hu with rfl | hu
    · exact Or.inr (Finset.mem_insert_self _ _)
    · exact (hN.mp hu).imp id Finset.mem_insert_of_mem
  have hgainedN : ∀ {c}, c ∈ D'.children v → c ∈ D.nodes := by
    intro c hc
    obtain ⟨-, u, hu, -, hcu⟩ := (I.gained c).mp hc
    exact h.closed u hu c hcu
  have habove' : ∀ {u z}, u ∈ insert D.root D.nodes → D'.Above cmp u z → D.Above cmp u z := by
    intro u z hu habove
    rcases Finset.mem_insert.mp hu with hu | hu
    · exact Or.inl hu
    · rcases habove with he | hgt
      · exact Or.inl (he.trans hroot)
      · exact Or.inr (by rw [← hold u hu]; exact hgt)
  refine ⟨?_, ?_, ?_, ?_, ?_, ?_, ?_, ?_, ?_⟩
  · rw [hroot]
    intro hr
    rcases hN.mp hr with he | hr
    · exact hvr he.symm
    · exact h.root_notMem hr
  · intro n hn
    rcases hN.mp hn with rfl | hn
    · rw [I.front_new]; exact hx
    · rw [hold n hn]; exact h.front_mem n hn
  · intro u hu c hc
    rcases hU hu with rfl | hu
    · exact hN.mpr (Or.inr (hgainedN hc))
    · exact hN.mpr ((insert_children_mem I hu hc).imp id (h.closed u hu c))
  · intro u hu
    rcases hU hu with rfl | hu
    · exact I.nodup
    · by_cases habove : D.Above cmp u x
      · obtain ⟨l, hsub, hl | hl⟩ := I.trimmed u hu habove
        · rw [hl]
          exact (h.nodup u hu).sublist hsub
        · rw [hl]
          refine List.nodup_append.mpr ⟨(h.nodup u hu).sublist hsub, by simp, ?_⟩
          intro a ha b hb he
          rw [List.mem_singleton.mp hb] at he
          exact hvN (he ▸ h.closed u hu a (hsub.subset ha))
      · have huN := (Finset.mem_insert.mp hu).resolve_left (fun he => habove (Or.inl he))
        rw [I.kept u huN (fun hgt => habove (Or.inr hgt))]
        exact h.nodup u hu
  · intro u hu c hc
    rcases hN.mp hu with rfl | huN
    · rw [I.front_new, hold c (hgainedN hc)]
      exact ((I.gained c).mp hc).1
    · have hu' : u ∈ insert D.root D.nodes := Finset.mem_insert_of_mem huN
      rcases insert_children_mem I hu' hc with rfl | hc'
      · rw [I.front_new, hold u huN]
        exact (h.insert_parent_above hvN I hu' hc).resolve_left (h.ne_root huN)
      · rw [hold u huN, hold c (h.closed u hu' c hc')]
        exact h.edge u huN c hc'
  · intro n hn
    rw [hroot]
    rcases hN.mp hn with rfl | hn
    · exact h.insert_reached T F I hne D.root (Finset.mem_insert_self _ _) (Or.inl rfl)
    · exact h.insert_path I (Finset.mem_insert_self _ _) (h.reach n hn)
  · intro n hn m hm heq
    rcases hN.mp hn with rfl | hn <;> rcases hN.mp hm with rfl | hm
    · rfl
    · rw [I.front_new, hold m hm] at heq
      exact absurd heq (hne m hm)
    · rw [I.front_new, hold n hn] at heq
      exact absurd (F.eq_symm heq) (hne n hn)
    · rw [hold n hn, hold m hm] at heq
      exact h.apart n hn m hm heq
  · intro u hu d hd y hy habove hyd
    rcases hU hu with rfl | hu
    · -- below the new node
      have hdN := hgainedN hd
      have hxy : cmp x (D'.front y) = .gt := by
        rw [← I.front_new]
        exact habove.resolve_left (fun he => hvr (he.trans hroot))
      rcases hN.mp hy with rfl | hyN
      · rw [I.front_new] at hxy
        exact absurd hxy (F.gt_irrefl _)
      · rw [hold y hyN] at hxy hyd ⊢
        rw [hold d hdN] at hyd ⊢
        obtain ⟨-, w, hw, hwx, hdw⟩ := (I.gained d).mp hd
        have hwy : D.Above cmp w (D.front y) := by
          rcases hwx with he | hgt
          · exact Or.inl he
          · rcases Finset.mem_insert.mp hw with hw | hw
            · exact Or.inl hw
            · exact Or.inr (T.trans _ (h.front_mem w hw) _ hx _ (h.front_mem y hyN) hgt hxy)
        exact ⟨I.sorted d hd y hyN hxy hyd, (h.order w hw d hdw y hyN hwy hyd).2⟩
    · rcases insert_children_mem I hu hd with rfl | hdold
      · -- over the new node there is nothing
        have hux := h.insert_parent_above hvN I hu hd
        have hjoins := (I.joined u hu hux).mp hd
        rw [I.front_new] at hyd
        rcases hN.mp hy with rfl | hyN
        · rw [I.front_new] at hyd
          exact absurd hyd (F.gt_irrefl _)
        · rw [hold y hyN] at hyd habove
          exact (h.nothing_between T F hx hu hjoins hyN (habove' hu habove) hyd).elim
      · have hdN := h.closed u hu d hdold
        rw [hold d hdN] at hyd ⊢
        rcases hN.mp hy with rfl | hyN
        · -- a child below the new value is no longer there
          rw [I.front_new] at hyd habove
          exact absurd hyd ((I.lost u hu (habove' hu habove) d hdold).mp hd)
        · rw [hold y hyN] at hyd habove ⊢
          obtain ⟨hpair, hfork⟩ := h.order u hu d hdold y hyN (habove' hu habove) hyd
          refine ⟨?_, hfork⟩
          have hyold : y ∈ D.children u := hpair.subset (by simp)
          refine h.insert_pair hvN I hu hpair ?_ hd hyN hdN
          by_cases hux : D.Above cmp u x
          · refine (I.lost u hu hux y hyold).mpr ?_
            intro hxy
            have hxd := T.trans _ hx _ (h.front_mem y hyN) _ (h.front_mem d hdN) hxy hyd
            exact (I.lost u hu hux d hdold).mp hd hxd
          · have huN := (Finset.mem_insert.mp hu).resolve_left (fun he => hux (Or.inl he))
            rw [I.kept u huN (fun hgt => hux (Or.inr hgt))]
            exact hyold
  · intro u hu y hy hgt
    rcases hN.mp hu with rfl | huN <;> rcases hN.mp hy with rfl | hyN
    · exact absurd hgt (F.gt_irrefl _)
    · rw [I.front_new, hold y hyN] at hgt ⊢
      exact h.insert_covers T F I hne hyN hgt
    · rw [I.front_new, hold u huN] at hgt
      exact Or.inl (h.insert_reached T F I hne u (Finset.mem_insert_of_mem huN) (Or.inr hgt))
    · rw [hold u huN, hold y hyN] at hgt ⊢
      exact (h.cover u huN y hyN hgt).imp
        (h.insert_path I (Finset.mem_insert_of_mem huN)) id

end Insert

end Hasse

end Encoders.Lib
