import Encoders.Send.Strands

/-!
# `addElement`

Every strand is followed in one of five ways (`followStrand_spec`), each of which leaves
less to do than it takes up, so the loop ends. Then all the nodes above the new element
have been found, and its own node stands where `Inserted` wants it; or there was a node
that equals it, and that node has taken it in. Either way the sorter is sound and holds
one element more (`addElement_spec`).
-/

namespace Encoders.Send

open Encoders.Lib

namespace TopologicalSorter

variable {E : List SendPriorityElement} {N : Finset Nat} {s₀ s : TopologicalSorter} {v : Nat}
  {x : SendPriorityElement} {X : Nat → Prop} {work : List (Nat × Nat)}

/-! ## The loop -/

/-- What a strand may still cost. -/
def strandWeight (v : Nat) (w : Nat → Nat) (strand : Nat × Nat) : Nat :=
  if strand.1 = v then 1 else w strand.1

/-- A batch of strands to children costs less than the strand to their parent. -/
theorem batch_lighter (I : Incoming E N s₀ v x) (W : Walking N s₀ v x X s work) {w : Nat → Nat}
    (hw : ∀ u ∈ insert root N, 2 + ((s₀.children u).map w).sum ≤ w u) {c : Nat} (hc : c ∈ N)
    (q : Nat → Bool) :
    ((((s.children c).filter q).map (fun d => (d, c))).map (strandWeight v w)).sum < w c := by
  have hcU : c ∈ insert root N := Finset.mem_insert_of_mem hc
  have hmap : (((s.children c).filter q).map (fun d => (d, c))).map (strandWeight v w) =
      ((s.children c).filter q).map (fun d => if d = v then 1 else w d) := by
    rw [List.map_map]
    rfl
  have hold : ∀ l : List Nat, l.Sublist (s₀.children c) →
      (l.map (fun d => if d = v then 1 else w d)).sum ≤ ((s₀.children c).map w).sum := by
    intro l hl
    have hsame : l.map (fun d => if d = v then 1 else w d) = l.map w := by
      refine List.map_congr_left ?_
      intro d hd
      rw [if_neg (I.child_ne hcU (hl.subset hd))]
    rw [hsame]
    exact (hl.map w).sum_le_sum (fun _ _ => Nat.zero_le _)
  have hall : ((s.children c).map (fun d => if d = v then 1 else w d)).sum ≤
      ((s₀.children c).map w).sum + 1 := by
    obtain ⟨l, hsub, hl | hl⟩ := W.trimmed c hcU
    · rw [hl]
      exact Nat.le_succ_of_le (hold l hsub)
    · rw [hl, List.map_append, List.sum_append]
      simpa using hold l hsub
  rw [hmap]
  have hpart := ((List.filter_sublist (p := q) (l := s.children c)).map
    (fun d => if d = v then 1 else w d)).sum_le_sum (fun _ _ => Nat.zero_le _)
  have hbig := hw c hcU
  omega

/-- **One round of the loop.** -/
theorem followStrand_spec (I : Incoming E N s₀ v x) {strand : Nat × Nat}
    {rest : List (Nat × Nat)} (W : Walking N s₀ v x X s (strand :: rest)) {w : Nat → Nat}
    (hw : ∀ u ∈ insert root N, 2 + ((s₀.children u).map w).sum ≤ w u) :
    ∃ s' more, followStrand v s strand = some (s', more) ∧
      (∃ X', Walking N s₀ v x X' s' (rest ++ more)) ∧
      (more.map (strandWeight v w)).sum < strandWeight v w strand := by
  obtain ⟨c, p⟩ := strand
  by_cases hcv : c = v
  · -- the strand leads to the new node itself, and nothing happens
    subst hcv
    have hpos : 0 < strandWeight c w (c, p) := by simp [strandWeight]
    have hversus : s₀.versus x c = s₀.partialOrder.compareElements x x := by
      rw [versus, I.front_v]
    have hne : s₀.versus x c ≠ .gt := by
      rw [hversus]
      exact s₀.partialOrder.flips.gt_irrefl x
    have hpU := (W.above p (W.strands (c, p) List.mem_cons_self).1).1
    have W' := W.skip hne (fun hcp => absurd hcp (I.notMem_child hpU))
    have hcomp := (W.sameFronts I).compare_eq I (n := c) (Or.inr rfl)
    rw [hversus] at hcomp
    rcases s₀.partialOrder.flips.self_eq_or_nc x with hself | hself
    · refine ⟨s, [], ?_, ⟨X, by rw [List.append_nil]; exact W'⟩, hpos⟩
      have hadd : s.addEquivalents c (s.equivObjs c) = s := by
        rw [W.objs_v I]
        show s.addEquivalent c x = s
        rw [addEquivalent, W.objs_v I]
        simp
      simp only [followStrand, hcomp, hself, Option.bind_some, hadd]
    · refine ⟨s, [], ?_, ⟨X, by rw [List.append_nil]; exact W'⟩, hpos⟩
      simp only [followStrand, hcomp, hself, Option.bind_some]
  · obtain ⟨hp, hcp, hc⟩ := W.found_child I hcv
    have hpos : 0 < strandWeight v w (c, p) := by
      have hbig := hw c (Finset.mem_insert_of_mem hc)
      rw [strandWeight, if_neg hcv]
      show 0 < w c
      omega
    have hcomp := (W.sameFronts I).compare_eq I (n := c) (Or.inl hc)
    have hpU := (W.above p hp).1
    have hlive_v : s.live v = true := by rw [W.live]; exact I.live_v
    have hlive_c : s.live c = true := by rw [W.live]; exact I.sound.live c hc
    cases hk : s₀.versus x c with
    | nc =>
        have hne : s₀.versus x c ≠ .gt := by rw [hk]; decide
        refine ⟨s, [], ?_, ⟨X, ?_⟩, hpos⟩
        · simp only [followStrand, hcomp, hk, Option.bind_some]
        · rw [List.append_nil]
          exact W.skip hne (fun _ hnc => absurd hk hnc)
    | eq =>
        refine ⟨s.addEquivalents c (s.equivObjs v), [], ?_, ⟨X, ?_⟩, hpos⟩
        · simp only [followStrand, hcomp, hk, Option.bind_some]
        · rw [List.append_nil]
          exact W.join I hc hk
    | gt =>
        obtain ⟨s₁, h₁, hlink₁, hch₁⟩ := removeChild_spec p hlive_c
        obtain ⟨s₂, h₂, hlink₂, hch₂⟩ := addChild_spec (s := s₁) v (c := c)
          (by rw [hlink₁.live]; exact hlive_c)
        obtain ⟨s₃, h₃, hlink₃, hch₃⟩ := addChild_spec (s := s₂) p (c := v)
          (by rw [hlink₂.live, hlink₁.live]; exact hlive_v)
        have hpv : p ≠ v := by
          rintro rfl
          rcases Finset.mem_insert.mp hpU with he | he
          · exact I.v_ne_root he
          · exact I.v_notMem he
        refine ⟨s₃, [], ?_, ⟨X, ?_⟩, hpos⟩
        · simp only [followStrand, hcomp, hk, Option.bind_some, h₁, h₂, h₃]
        · rw [List.append_nil]
          refine W.insertAbove I hk hp hcp hc (hlink₁.trans (hlink₂.trans hlink₃)) ?_ ?_ ?_
          · rw [hch₃, Function.update_self, hch₂, Function.update_of_ne hpv, hch₁,
              Function.update_self]
          · rw [hch₃, Function.update_of_ne hpv.symm, hch₂, Function.update_self, hch₁,
              Function.update_of_ne hpv.symm]
          · intro u hup huv
            rw [hch₃, Function.update_of_ne hup, hch₂, Function.update_of_ne huv, hch₁,
              Function.update_of_ne hup]
    | lt =>
        obtain ⟨s₁, h₁, hlink₁, hch₁⟩ := addChild_spec c hlive_v
        have hin : ∀ d ∈ s.children c, d ∈ N ∨ d = v := fun d hd =>
          (W.children_mem (Finset.mem_insert_of_mem hc) hd).imp
            (I.sound.child_mem (Finset.mem_insert_of_mem hc)) id
        have hbatch := (W.sameFronts I).comparables_eq I hin
        by_cases hnone : (s.children c).filter (fun d => s₀.versus x d ≠ .nc) = []
        · have hall : ∀ d ∈ s.children c, s₀.versus x d = .nc := by
            intro d hd
            simpa using List.filter_eq_nil_iff.mp hnone d hd
          refine ⟨s₁, [], ?_, ⟨fun u => X u ∨ u = c, ?_⟩, hpos⟩
          · by_cases hlen : (s.children c).length = 0
            · simp only [followStrand, hcomp, hk, Option.bind_some, if_pos hlen, h₁]
            · simp only [followStrand, hcomp, hk, Option.bind_some, if_neg hlen, hbatch, hnone,
                if_true, h₁]
          · rw [List.append_nil]
            exact W.insertBelow I hc hk hall hlink₁ hch₁
        · obtain ⟨d, hd⟩ := List.exists_mem_of_ne_nil _ hnone
          obtain ⟨hdc, hdnc⟩ := List.mem_filter.mp hd
          have hlen : (s.children c).length ≠ 0 := by
            intro h0
            rw [List.length_eq_zero_iff.mp h0] at hdc
            exact absurd hdc List.not_mem_nil
          refine ⟨s, _, ?_, ⟨_, W.expand I hc hk ⟨d, hdc, by simpa using hdnc⟩⟩, ?_⟩
          · simp only [followStrand, hcomp, hk, Option.bind_some, if_neg hlen, hbatch,
              if_neg hnone]
          · rw [strandWeight, if_neg hcv]
            exact batch_lighter I W hw hc _

/-- **The loop ends**, in a state in which no strand is left. -/
theorem walk_ends (I : Incoming E N s₀ v x) (W : Walking N s₀ v x X s work) :
    ∃ s', (∃ X', Walking N s₀ v x X' s' []) ∧
      ∃ n, ∀ fuel, n ≤ fuel → worklist (followStrand v) fuel s work = some s' := by
  obtain ⟨w, hw⟩ := I.sound.hasse.exists_weight I.tame s₀.partialOrder.flips
  have hround : ∀ s strand rest, (∃ X, Walking N s₀ v x X s (strand :: rest)) →
      ∃ s' more, followStrand v s strand = some (s', more) ∧
        (∃ X', Walking N s₀ v x X' s' (rest ++ more)) ∧
        (more.map (strandWeight v w)).sum < strandWeight v w strand := by
    rintro s strand rest ⟨X, W⟩
    exact followStrand_spec I W hw
  obtain ⟨s', hdone, hall⟩ := @worklist_ends _ _ _ (fun s work => ∃ X, Walking N s₀ v x X s work)
    _ hround _ s work ⟨X, W⟩ (le_refl _)
  exact ⟨s', hdone, _, hall⟩

/-! ## When no strand is left -/

namespace Walking

variable (I : Incoming E N s₀ v x) (W : Walking N s₀ v x X s [])

include I W

/-- Every node above the new element has been found. -/
theorem found {u : Nat} (hu : u ∈ insert root N)
    (habove : (s₀.diagram N).Above s₀.partialOrder.compareElements u x) : X u := by
  rcases Finset.mem_insert.mp hu with rfl | huN
  · exact W.root_found
  · have F := s₀.partialOrder.flips
    have hp := I.sound.hasse.reach u huN
    -- by induction along the path from the root
    clear hu
    induction hp with
    | refl => exact W.root_found
    | @tail b c hpb hbc ih =>
        have hgt : s₀.partialOrder.compareElements (s₀.front c) x = .gt :=
          habove.resolve_left (I.sound.ne_root huN)
        have hlt : s₀.versus x c = .lt := F.gt_iff.mp hgt
        have hb : X b := by
          by_cases hbr : b = root
          · rw [hbr]
            exact W.root_found
          · have hbN : b ∈ N := by
              rcases hpb.cases_tail with he | ⟨a, hpa, hab⟩
              · exact absurd he hbr
              · exact (I.sound.linked_iff.mp (hpa.tail hab)).resolve_left hbr
            refine ih (Or.inr ?_) hbN
            exact I.tame.trans _ (I.sound.front_mem hbN) _ (I.sound.front_mem huN) _ I.mem
              (I.sound.hasse.edge b hbN c hbc) hgt
        have hne : s₀.versus x c ≠ .nc := by rw [hlt]; decide
        rcases W.settled b hb c hbc hne with hw | ⟨hk, -⟩ | ⟨-, hc⟩ | ⟨hk, -⟩
        · exact absurd hw List.not_mem_nil
        · rw [hlt] at hk
          exact absurd hk (by decide)
        · exact hc
        · rw [hlt] at hk
          exact absurd hk (by decide)

omit I in
/-- A child below the new element has moved below the new node. -/
theorem moved {u c : Nat} (hX : X u) (hc : c ∈ s₀.children u) (hgt : s₀.versus x c = .gt) :
    c ∉ s.children u ∧ c ∈ s.children v ∧ v ∈ s.children u := by
  have hne : s₀.versus x c ≠ .nc := by rw [hgt]; decide
  rcases W.settled u hX c hc hne with hw | ⟨-, hno⟩ | ⟨hk, -⟩ | ⟨hk, -⟩
  · exact absurd hw List.not_mem_nil
  · exact ⟨hno, (W.lost u (W.above u hX).1 c hc hno).2⟩
  · exact absurd (hgt.symm.trans hk) (by decide)
  · exact absurd (hgt.symm.trans hk) (by decide)

/-- The first elements are those from before. -/
theorem front_eq {n : Nat} (hn : n ∈ N ∨ n = v) : s.front n = s₀.front n := by
  have hhead := W.head I hn
  rw [front, List.headD_eq_head?_getD, hhead]
  rfl

/-- **The walk has linked the new node where it belongs.** -/
theorem inserted : Inserted s₀.partialOrder.compareElements (s₀.diagram N)
    (s.diagram (insert v N)) v x where
  root_eq := rfl
  nodes_eq := rfl
  front_new := (W.front_eq I (Or.inr rfl)).trans I.front_v
  front_old n hn := W.front_eq I (Or.inl hn)
  kept u hu hno := by
    refine W.kept u (Finset.mem_insert_of_mem hu) ?_
    intro hX
    exact hno ((W.above u hX).2.resolve_left (I.sound.ne_root hu))
  trimmed u hu _ := W.trimmed u hu
  lost u hu habove c hc := by
    have hX := W.found I hu habove
    -- an edge to something greater is the one the new node cuts
    constructor
    · intro hin hgt
      exact (W.moved hX hc hgt).1 hin
    · intro hne
      by_contra hno
      exact hne (W.lost u hu c hc hno).1
  joined u hu habove := by
    have hX := W.found I hu habove
    constructor
    · exact W.joined u hu
    · rintro (⟨c, hc, hgt⟩ | hall)
      · exact (W.moved hX hc hgt).2.2
      · exact W.idle u hX hall
  gained c := by
    constructor
    · intro hc
      obtain ⟨hgt, u, hX, hcu⟩ := W.gained c hc
      exact ⟨hgt, u, (W.above u hX).1, (W.above u hX).2, hcu⟩
    · rintro ⟨hgt, u, hu, habove, hcu⟩
      exact (W.moved (W.found I hu habove) hcu hgt).2.1
  nodup := W.nodup
  sorted d hd y hy hxy hyd := by
    have hr := W.ranked
    rw [show falling s₀ x [] = [] from rfl, List.append_nil] at hr
    obtain ⟨l₁, l₂, hsplit⟩ := List.append_of_mem hd
    have hmem := hr l₁ d l₂ hsplit y hy hxy hyd
    show [y, d].Sublist (s.children v)
    rw [show s.children v = l₁ ++ d :: l₂ from hsplit]
    -- the child and what lies above it keep their order among the new children
    have hyl : [y].Sublist l₁ := List.singleton_sublist.mpr hmem
    have hdl : [d].Sublist (d :: l₂) := List.singleton_sublist.mpr List.mem_cons_self
    exact hyl.append hdl

/-- The lists of children, when the new element equals a node. -/
theorem children_of_joined {n : Nat} (hn : n ∈ N) (heq : s₀.versus x n = .eq)
    (hne : x ≠ s₀.front n) {u : Nat} (hu : u ∈ insert root N) : s.children u = s₀.children u := by
  by_cases hX : X u
  · have hnot := I.sound.hasse.join_unlinked I.tame s₀.partialOrder.flips I.mem hn heq hne hu
      (W.above u hX).2
    obtain ⟨l, hsub, hl⟩ := W.trimmed u hu
    have hv : v ∉ s.children u := fun h => hnot (W.joined u hu h)
    have hl : s.children u = l := by
      rcases hl with hl | hl
      · exact hl
      · rw [hl] at hv
        exact absurd (by simp) hv
    rw [hl]
    refine hsub.eq_of_length_le ?_
    refine (I.sound.hasse.nodup u hu : (s₀.children u).Nodup).subperm ?_ |>.length_le
    intro c hc
    by_contra hno
    rw [← hl] at hno
    exact hnot (Or.inl ⟨c, hc, (W.lost u hu c hc hno).1⟩)
  · exact W.kept u hu hX

/-- The node that equals the new element has it. -/
theorem objs_of_joined {n : Nat} (hn : n ∈ N) (heq : s₀.versus x n = .eq) :
    s.equivObjs n = s₀.equivObjs n ++ [x] := by
  have F := s₀.partialOrder.flips
  -- the last step of a path to it was a strand
  rcases (I.sound.hasse.reach n hn).cases_tail with he | ⟨b, hpb, hbn⟩
  · exact absurd he (I.sound.ne_root hn)
  · have hbU : b ∈ insert root N := Finset.mem_insert.mpr (I.sound.linked_iff.mp hpb)
    have hX : X b := by
      refine W.found I hbU ?_
      rcases Finset.mem_insert.mp hbU with hb | hb
      · exact Or.inl hb
      · right
        show s₀.partialOrder.compareElements (s₀.front b) x = .gt
        rw [I.tame.congr_right F I.mem (I.sound.front_mem hn) (I.sound.front_mem hb) heq]
        exact I.sound.hasse.edge b hb n hbn
    have hne : s₀.versus x n ≠ .nc := by rw [heq]; decide
    rcases W.settled b hX n hbn hne with hw | ⟨hk, -⟩ | ⟨hk, -⟩ | ⟨-, ho⟩
    · exact absurd hw List.not_mem_nil
    · rw [heq] at hk
      exact absurd hk (by decide)
    · rw [heq] at hk
      exact absurd hk (by decide)
    · exact ho

end Walking

/-! ## `addElement` -/

/-- A sorter that agrees on the nodes in use is sound too. -/
theorem Sound.of_same (h : Sound E N s₀) (hpo : s.partialOrder = s₀.partialOrder)
    (hnext : s₀.next ≤ s.next)
    (hsame : ∀ n ∈ insert root N, s.live n = s₀.live n ∧ s.equivObjs n = s₀.equivObjs n ∧
      s.children n = s₀.children n) : Sound E N s := by
  have hroot : root ∈ insert root N := Finset.mem_insert_self _ _
  have hN : ∀ n ∈ N, n ∈ insert root N := fun n hn => Finset.mem_insert_of_mem hn
  have hfront : ∀ n ∈ N, s.front n = s₀.front n := by
    intro n hn
    rw [front, front, (hsame n (hN n hn)).2.1]
  refine ⟨?_, ?_, Nat.lt_of_lt_of_le h.root_lt hnext, ?_, ?_, ?_, ?_, ?_, ?_⟩
  · rw [hpo]
    exact h.hasse.of_same rfl rfl hfront (fun u hu => (hsame u hu).2.2)
  · rw [(hsame root hroot).1]
    exact h.live_root
  · rw [(hsame root hroot).2.1]
    exact h.root_empty
  · intro n hn
    rw [(hsame n (hN n hn)).1]
    exact h.live n hn
  · intro n hn
    exact Nat.lt_of_lt_of_le (h.below_next n hn) hnext
  · intro n hn
    rw [(hsame n (hN n hn)).2.1]
    exact h.holds n hn
  · intro n hn
    rw [(hsame n (hN n hn)).2.1]
    exact h.members n hn
  · intro n hn
    rw [(hsame n (hN n hn)).2.1, hfront n hn, hpo]
    exact h.alike n hn

/-- After `new PartialOrderElement(se)`. -/
theorem incoming_alloc (h : Sound E N s) (T : Tame s.partialOrder.compareElements E)
    (hx : x ∈ E) (hfresh : ∀ e ∈ s.held, e.addr ≠ x.addr) :
    Incoming E N (s.alloc x) s.next x := by
  have hne : ∀ n ∈ insert root N, n ≠ s.next := by
    intro n hn
    rcases Finset.mem_insert.mp hn with rfl | hn
    · exact Nat.ne_of_lt h.root_lt
    · exact Nat.ne_of_lt (h.below_next n hn)
  refine ⟨?_, T, hx, ?_, ?_, Nat.lt_succ_self _, ?_, ?_, ?_, ?_⟩
  · refine h.of_same rfl (Nat.le_succ _) ?_
    intro n hn
    exact ⟨Function.update_of_ne (hne n hn) _ _, Function.update_of_ne (hne n hn) _ _,
      Function.update_of_ne (hne n hn) _ _⟩
  · exact fun hv => hne s.next (Finset.mem_insert_of_mem hv) rfl
  · exact (hne root (Finset.mem_insert_self _ _)).symm
  · exact Function.update_self _ _ _
  · exact Function.update_self _ _ _
  · exact Function.update_self _ _ _
  · intro n hn e he
    have he' : e ∈ s.equivObjs n := by
      have hold : (s.alloc x).equivObjs n = s.equivObjs n :=
        Function.update_of_ne (hne n (Finset.mem_insert_of_mem hn)) _ _
      rwa [hold] at he
    exact hfresh e (h.mem_held.mpr ⟨n, hn, he'⟩)

/-- A walk that has come to an end leaves a sound sorter with one element more, which stands
behind those it equals. -/
theorem Walking.sound (I : Incoming E N s₀ v x) (W : Walking N s₀ v x X s []) :
    ∃ N', Sound E N' s ∧ s.held = x ::ₘ s₀.held ∧
      ∀ c ∈ E, s.line c =
        if s₀.partialOrder.compareElements c x = .eq then s₀.line c ++ [x] else s₀.line c := by
  have F := s₀.partialOrder.flips
  by_cases hex : ∃ n ∈ N, s₀.versus x n = .eq
  · -- some node has taken the element in
    obtain ⟨n, hn, heq⟩ := hex
    have hne : x ≠ s₀.front n := by
      intro he
      refine I.fresh n hn (s₀.front n) (List.mem_of_mem_head? (I.sound.head hn)) ?_
      rw [← he]
    have hobjs := W.objs_of_joined I hn heq
    have hothers : ∀ m ∈ N, m ≠ n → s.equivObjs m = s₀.equivObjs m := by
      intro m hm hmn
      rcases W.objs m with ho | ⟨-, hmeq, -⟩
      · exact ho
      · -- another node that equals it would equal the first
        have hmn' : s₀.partialOrder.compareElements (s₀.front m) (s₀.front n) = .eq := by
          rw [← I.tame.congr _ I.mem _ (I.sound.front_mem hm) _ (I.sound.front_mem hn) hmeq]
          exact heq
        exact absurd (I.sound.hasse.apart m hm n hn hmn') hmn
    have hfront : ∀ m ∈ N, s.front m = s₀.front m := fun m hm => W.front_eq I (Or.inl hm)
    have hmem : ∀ m ∈ N, ∀ e ∈ s.equivObjs m, e ∈ s₀.equivObjs m ∨ (m = n ∧ e = x) := by
      intro m hm e he
      by_cases hmn : m = n
      · rw [hmn, hobjs] at he
        rw [hmn]
        exact (List.mem_append.mp he).imp id (fun h => ⟨rfl, List.mem_singleton.mp h⟩)
      · rw [hothers m hm hmn] at he
        exact Or.inl he
    have hsound : Sound E N s := by
      refine ⟨?_, ?_, ?_, ?_, ?_, ?_, ?_, ?_, ?_⟩
      · rw [W.partialOrder]
        exact I.sound.hasse.of_same rfl rfl hfront
          (fun u hu => W.children_of_joined I hn heq hne hu)
      · rw [W.live]
        exact I.sound.live_root
      · rw [W.next]
        exact I.sound.root_lt
      · rcases W.objs root with ho | ⟨hr, -⟩
        · rw [ho]
          exact I.sound.root_empty
        · exact absurd hr I.sound.root_notMem
      · intro m hm
        rw [W.live]
        exact I.sound.live m hm
      · intro m hm
        rw [W.next]
        exact I.sound.below_next m hm
      · intro m hm hnil
        have hhead := W.head I (Or.inl hm)
        rw [hnil] at hhead
        exact absurd hhead (by simp)
      · intro m hm e he
        rcases hmem m hm e he with he | ⟨-, rfl⟩
        · exact I.sound.members m hm e he
        · exact I.mem
      · intro m hm e he
        rw [hfront m hm, W.partialOrder]
        rcases hmem m hm e he with he | ⟨rfl, rfl⟩
        · exact I.sound.alike m hm e he
        · exact Or.inr (F.eq_symm heq)
    refine ⟨N, hsound, ?_, fun c hc => I.sound.line_of_join I.tame hsound W.partialOrder I.mem hn
      heq hobjs hothers hc⟩
    rw [hsound.held_eq, I.sound.held_eq, ← Finset.add_sum_erase N _ hn,
      ← Finset.add_sum_erase N (fun m => (s₀.equivObjs m : Multiset SendPriorityElement)) hn,
      hobjs]
    have hrest : ∑ m ∈ N.erase n, (s.equivObjs m : Multiset SendPriorityElement) =
        ∑ m ∈ N.erase n, (s₀.equivObjs m : Multiset SendPriorityElement) := by
      refine Finset.sum_congr rfl ?_
      intro m hm
      rw [hothers m (Finset.mem_erase.mp hm).2 (Finset.mem_erase.mp hm).1]
    rw [hrest, ← Multiset.coe_add, Multiset.coe_singleton, add_right_comm, add_comm,
      Multiset.singleton_add]
  · -- the element has a node of its own
    push Not at hex
    have hobjs : ∀ m, s.equivObjs m = s₀.equivObjs m := by
      intro m
      rcases W.objs m with ho | ⟨hm, heq, -⟩
      · exact ho
      · exact absurd heq (hex m hm)
    have hmem : ∀ {m}, m ∈ insert v N → m = v ∨ m ∈ N := Finset.mem_insert.mp
    have hsound : Sound E (insert v N) s := by
      refine ⟨?_, ?_, ?_, ?_, ?_, ?_, ?_, ?_, ?_⟩
      · rw [W.partialOrder]
        exact I.sound.hasse.inserted I.tame F I.mem I.v_notMem I.v_ne_root (W.inserted I) hex
      · rw [W.live]
        exact I.sound.live_root
      · rw [W.next]
        exact I.sound.root_lt
      · rw [hobjs]
        exact I.sound.root_empty
      · intro m hm
        rw [W.live]
        rcases hmem hm with rfl | hm
        · exact I.live_v
        · exact I.sound.live m hm
      · intro m hm
        rw [W.next]
        rcases hmem hm with rfl | hm
        · exact I.v_lt
        · exact I.sound.below_next m hm
      · intro m hm
        rw [hobjs]
        rcases hmem hm with rfl | hm
        · rw [I.objs_v]
          exact List.cons_ne_nil _ _
        · exact I.sound.holds m hm
      · intro m hm e he
        rw [hobjs] at he
        rcases hmem hm with rfl | hm
        · rw [I.objs_v] at he
          rw [List.mem_singleton.mp he]
          exact I.mem
        · exact I.sound.members m hm e he
      · intro m hm e he
        rw [hobjs] at he
        rcases hmem hm with rfl | hm
        · rw [I.objs_v] at he
          rw [W.front_eq I (Or.inr rfl), I.front_v]
          exact Or.inl (List.mem_singleton.mp he)
        · rw [W.front_eq I (Or.inl hm), W.partialOrder]
          exact I.sound.alike m hm e he
    refine ⟨insert v N, hsound, ?_, fun c hc => I.sound.line_of_own I.tame hsound W.partialOrder
      I.mem ((hobjs v).trans I.objs_v) (fun m _ => hobjs m) hex hc⟩
    rw [hsound.held_eq, I.sound.held_eq, Finset.sum_insert I.v_notMem, hobjs v, I.objs_v,
      Multiset.coe_singleton, Multiset.singleton_add]
    refine congrArg _ (Finset.sum_congr rfl ?_)
    intro m _
    rw [hobjs m]

/-- Before the first round: the children of the root that compare are on strands. -/
theorem walking_start (I : Incoming E N s₀ v x)
    (hsome : ∃ d ∈ s₀.children root, s₀.versus x d ≠ .nc) :
    Walking N s₀ v x (fun u => u = root) s₀
      (((s₀.children root).filter (fun d => s₀.versus x d ≠ .nc)).map (fun d => (d, root))) := by
  have hrU : root ∈ insert root N := Finset.mem_insert_self _ _
  refine
    { partialOrder := rfl, next := rfl, live := rfl, numElements := rfl, maxElements := rfl
      objs := fun n => Or.inl rfl
      root_found := rfl
      above := ?_
      kept := fun _ _ _ => rfl
      trimmed := fun u _ => ⟨s₀.children u, List.Sublist.refl _, Or.inl rfl⟩
      lost := fun u _ c hc hno => absurd hc hno
      joined := fun u hu hv => absurd hv (I.notMem_child hu)
      gained := ?_
      nodup := by rw [I.children_v]; exact List.nodup_nil
      strands := ?_, settled := ?_, idle := ?_, ranked := ?_ }
  · rintro u rfl
    exact ⟨hrU, Or.inl rfl⟩
  · intro c hc
    rw [I.children_v] at hc
    exact absurd hc List.not_mem_nil
  · intro strand hs
    obtain ⟨d, hd, rfl⟩ := List.mem_map.mp hs
    obtain ⟨hdc, hnc⟩ := List.mem_filter.mp hd
    exact ⟨rfl, Or.inl ⟨hdc, by simpa using hnc⟩⟩
  · rintro u rfl d hd hnc
    left
    exact List.mem_map.mpr ⟨d, List.mem_filter.mpr ⟨hd, by simpa using hnc⟩, rfl⟩
  · rintro u rfl hall
    obtain ⟨d, hd, hnc⟩ := hsome
    exact absurd (hall d hd) hnc
  -- strands come in the order of the children, where a greater one stands before a lesser
  · rw [I.children_v, List.nil_append, falling_batch]
    intro l₁ d l₂ hsplit y hy hxy hyd
    have hdin : d ∈ (s₀.children root).filter (fun d => s₀.versus x d = .gt) := by
      rw [hsplit]
      simp
    have hd : d ∈ s₀.children root := (List.mem_filter.mp hdin).1
    have hpair : [y, d].Sublist (s₀.children root) :=
      (I.sound.hasse.order root hrU d hd y hy (Or.inl rfl) hyd).1
    have hfil := pair_filter (q := fun d => s₀.versus x d = .gt) hpair (by simpa using hxy)
      (List.mem_filter.mp hdin).2
    have hnodup : (s₀.children root).Nodup := I.sound.hasse.nodup root hrU
    have hnd := hnodup.filter (fun d => s₀.versus x d = .gt)
    rw [hsplit] at hfil hnd
    exact mem_left_of_pair hnd hfil

/-- Where no child of the root compares, the new node becomes the last child of the root. -/
theorem walking_root (I : Incoming E N s₀ v x)
    (hnone : ∀ d ∈ s₀.children root, s₀.versus x d = .nc) (hlink : Relinked s₀ s)
    (hch : s.children = Function.update s₀.children root (pushNew (s₀.children root) v)) :
    Walking N s₀ v x (fun u => u = root) s [] := by
  have hrU : root ∈ insert root N := Finset.mem_insert_self _ _
  have hroot : s.children root = s₀.children root ++ [v] := by
    rw [hch, Function.update_self, pushNew, if_neg (I.notMem_child hrU)]
  have hother : ∀ u, u ≠ root → s.children u = s₀.children u := by
    intro u hu
    rw [hch, Function.update_of_ne hu]
  have hv : s.children v = [] := by rw [hother v I.v_ne_root, I.children_v]
  have hkeep : ∀ u d, d ∈ s₀.children u → d ∈ s.children u := by
    intro u d hd
    by_cases hu : u = root
    · rw [hu] at hd ⊢
      rw [hroot]
      exact List.mem_append_left _ hd
    · rwa [hother u hu]
  refine
    { partialOrder := hlink.partialOrder, next := hlink.next, live := hlink.live
      numElements := hlink.numElements, maxElements := hlink.maxElements
      objs := fun n => Or.inl (by rw [hlink.equivObjs])
      root_found := rfl
      above := ?_
      kept := fun u _ hu => hother u hu
      trimmed := ?_
      lost := fun u _ c hc hno => absurd (hkeep u c hc) hno
      joined := ?_
      gained := by
        intro c hc
        rw [hv] at hc
        exact absurd hc List.not_mem_nil
      nodup := by rw [hv]; exact List.nodup_nil
      strands := fun _ hs => absurd hs List.not_mem_nil
      settled := ?_, idle := ?_, ranked := ?_ }
  · rintro u rfl
    exact ⟨hrU, Or.inl rfl⟩
  · intro u hu
    by_cases hur : u = root
    · rw [hur]
      exact ⟨_, List.Sublist.refl _, Or.inr hroot⟩
    · exact ⟨_, List.Sublist.refl _, Or.inl (hother u hur)⟩
  · intro u hu huv
    by_cases hur : u = root
    · rw [hur]
      exact Or.inr hnone
    · rw [hother u hur] at huv
      exact absurd huv (I.notMem_child hu)
  · rintro u rfl d hd hnc
    exact absurd (hnone d hd) hnc
  -- a node without a strand below it has the new one for a child
  · rintro u rfl -
    rw [hroot]
    exact List.mem_append_right _ (List.mem_singleton.mpr rfl)
  · intro l₁ d l₂ hsplit
    rw [hv] at hsplit
    exact absurd hsplit (by simp [falling])

/-- **What `addElement` does**: with enough fuel it leaves a sound sorter that holds one element
more, behind those it equals. -/
theorem addElement_spec (h : Sound E N s) (T : Tame s.partialOrder.compareElements E)
    (hx : x ∈ E) (hfresh : ∀ e ∈ s.held, e.addr ≠ x.addr) :
    ∃ s' N', Sound E N' s' ∧ s'.held = x ::ₘ s.held ∧ s'.partialOrder = s.partialOrder ∧
      s'.numElements = s.numElements + 1 ∧
      (∀ c ∈ E, s'.line c =
        if s.partialOrder.compareElements c x = .eq then s.line c ++ [x] else s.line c) ∧
      ∃ n, ∀ fuel, n ≤ fuel → s.addElement fuel x = some s' := by
  have I := incoming_alloc h T hx hfresh
  have hrU : root ∈ insert root N := Finset.mem_insert_self _ _
  have hcomp := (SameFronts.refl I).comparables_eq I
    (fun n (hn : n ∈ (s.alloc x).children root) => Or.inl (I.sound.child_mem hrU hn))
  -- the sorter holds what it held before the node was allocated
  have hheld : (s.alloc x).held = s.held := by
    rw [I.sound.held_eq, h.held_eq]
    refine Finset.sum_congr rfl ?_
    intro n hn
    have hne : n ≠ s.next := Nat.ne_of_lt (h.below_next n hn)
    have hsame : (s.alloc x).equivObjs n = s.equivObjs n := Function.update_of_ne hne _ _
    rw [hsame]
  have hline : ∀ c ∈ E, (s.alloc x).line c = s.line c := by
    intro c hc
    have hsame : ∀ n ∈ N, (s.alloc x).equivObjs n = s.equivObjs n :=
      fun n hn => Function.update_of_ne (Nat.ne_of_lt (h.below_next n hn)) _ _
    refine h.line_congr T I.sound rfl hc (fun n hn e he _ => ⟨hn, hsame n hn⟩) ?_
    intro n hn e he _
    rw [hsame n hn] at he
    exact ⟨hn, he⟩
  -- counting changes none of this
  have hfinish : ∀ {X : Nat → Prop} {s' : TopologicalSorter},
      Walking N (s.alloc x) s.next x X s' [] → ∃ N', Sound E N' s'.counted ∧
        s'.counted.held = x ::ₘ s.held ∧ s'.counted.partialOrder = s.partialOrder ∧
        s'.counted.numElements = s.numElements + 1 ∧ ∀ c ∈ E, s'.counted.line c =
          if s.partialOrder.compareElements c x = .eq then s.line c ++ [x] else s.line c := by
    intro X s' W
    obtain ⟨N', hsound, hmore, hlines⟩ := W.sound I
    refine ⟨N', hsound.of_same rfl (le_refl _) (fun _ _ => ⟨rfl, rfl, rfl⟩), ?_,
      W.partialOrder, ?_, ?_⟩
    · rw [← hheld]
      exact hmore
    · show s'.numElements + 1 = _
      rw [W.numElements]
      rfl
    · intro c hc
      rw [← hline c hc]
      exact hlines c hc
  by_cases hsome : ∃ d ∈ (s.alloc x).children root, (s.alloc x).versus x d ≠ .nc
  · obtain ⟨s', ⟨X, W⟩, n, hn⟩ := walk_ends I (walking_start I hsome)
    obtain ⟨N', hsound, hmore, hpo, hnum, hlines⟩ := hfinish W
    refine ⟨s'.counted, N', hsound, hmore, hpo, hnum, hlines, n, ?_⟩
    intro fuel hfuel
    obtain ⟨d, hd, hnc⟩ := hsome
    have hne : ((s.alloc x).children root).filter (fun d => (s.alloc x).versus x d ≠ .nc) ≠ [] :=
      List.ne_nil_of_mem (List.mem_filter.mpr ⟨hd, by simpa using hnc⟩)
    simp only [addElement, hcomp, Option.bind_some, if_neg hne, hn fuel hfuel, Option.map_some]
  · push Not at hsome
    obtain ⟨s', h', hlink, hch⟩ := addChild_spec root I.live_v
    have W := walking_root I hsome hlink hch
    obtain ⟨N', hsound, hmore, hpo, hnum, hlines⟩ := hfinish W
    refine ⟨s'.counted, N', hsound, hmore, hpo, hnum, hlines, 0, ?_⟩
    intro fuel _
    have hnil : ((s.alloc x).children root).filter
        (fun d => (s.alloc x).versus x d ≠ .nc) = [] := by
      refine List.filter_eq_nil_iff.mpr ?_
      intro d hd
      simpa using hsome d hd
    simp only [addElement, hcomp, Option.bind_some, hnil, if_true, h', Option.map_some]

end TopologicalSorter

end Encoders.Send
