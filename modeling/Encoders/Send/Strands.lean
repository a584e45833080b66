import Encoders.Send.Sound

/-!
# Following the strands

The loop of `addElement`. The nodes above the new element are the ones it is compared
with the children of; the loop does not find them in any order that matters, but it finds
each, and every strand is followed in the order the strands were found.

`Walking` is what holds between two rounds. Of the graph before the walk, `X` are the
nodes whose children have been put on strands; all are above the new element. Their lists
of children have lost some and may have the new node at the end, and what they lost is
below the new node now. What is still to be followed, and what was, together account for
every child that compares. And in the list of the children of the new node, followed by
those that strands will still put there, nothing stands before what is above it.

When no strand is left, the walk has done what `Inserted` asks for.
-/

namespace Encoders.Send

open Encoders.Lib

namespace TopologicalSorter

/-- A node was allocated for an element that may come in. -/
structure Incoming (E : List SendPriorityElement) (N : Finset Nat) (s : TopologicalSorter)
    (v : Nat) (x : SendPriorityElement) : Prop where
  sound : Sound E N s
  tame : Tame s.partialOrder.compareElements E
  mem : x ∈ E
  v_notMem : v ∉ N
  v_ne_root : v ≠ root
  v_lt : v < s.next
  live_v : s.live v = true
  objs_v : s.equivObjs v = [x]
  children_v : s.children v = []
  /-- The element is in no node yet. -/
  fresh : ∀ n ∈ N, ∀ e ∈ s.equivObjs n, e.addr ≠ x.addr

/-- What a new element compares as with a node. -/
abbrev versus (s : TopologicalSorter) (x : SendPriorityElement) (n : Nat) : Comparison :=
  s.partialOrder.compareElements x (s.front n)

/-- A node stands after everything in the list that is above it and below `x`. -/
def Ranked (s : TopologicalSorter) (N : Finset Nat) (x : SendPriorityElement) (l : List Nat) :
    Prop :=
  ∀ l₁ d l₂, l = l₁ ++ d :: l₂ → ∀ y ∈ N, s.versus x y = .gt →
    s.partialOrder.compareElements (s.front y) (s.front d) = .gt → y ∈ l₁

/-- The nodes that the strands will put below the new one. -/
def falling (s : TopologicalSorter) (x : SendPriorityElement) (work : List (Nat × Nat)) :
    List Nat :=
  (work.map Prod.fst).filter (fun c => s.versus x c = .gt)

/-- Between two rounds: `s₀` is the sorter before the walk, `s` the one now. -/
structure Walking (N : Finset Nat) (s₀ : TopologicalSorter) (v : Nat) (x : SendPriorityElement)
    (X : Nat → Prop) (s : TopologicalSorter) (work : List (Nat × Nat)) : Prop where
  partialOrder : s.partialOrder = s₀.partialOrder
  next : s.next = s₀.next
  live : s.live = s₀.live
  numElements : s.numElements = s₀.numElements
  maxElements : s.maxElements = s₀.maxElements
  /-- A node that equals the new element may have taken it in. -/
  objs : ∀ n, s.equivObjs n = s₀.equivObjs n ∨
    (n ∈ N ∧ s₀.versus x n = .eq ∧
      s.equivObjs n = s₀.equivObjs n ++ [x])
  root_found : X root
  above : ∀ u, X u → u ∈ insert root N ∧ (s₀.diagram N).Above s₀.partialOrder.compareElements u x
  kept : ∀ u ∈ insert root N, ¬ X u → s.children u = s₀.children u
  trimmed : ∀ u ∈ insert root N,
    ∃ l, l.Sublist (s₀.children u) ∧ (s.children u = l ∨ s.children u = l ++ [v])
  lost : ∀ u ∈ insert root N, ∀ c ∈ s₀.children u, c ∉ s.children u →
    s₀.versus x c = .gt ∧ c ∈ s.children v ∧ v ∈ s.children u
  joined : ∀ u ∈ insert root N, v ∈ s.children u →
    (s₀.diagram N).Joins s₀.partialOrder.compareElements x u
  gained : ∀ c ∈ s.children v, s₀.versus x c = .gt ∧
    ∃ u, X u ∧ c ∈ s₀.children u
  nodup : (s.children v).Nodup
  strands : ∀ strand ∈ work, X strand.2 ∧
    (strand.1 ∈ s₀.children strand.2 ∧
      s₀.versus x strand.1 ≠ .nc ∨ strand.1 = v)
  /-- Every child that compares is still to be followed, or was dealt with. -/
  settled : ∀ u, X u → ∀ c ∈ s₀.children u,
    s₀.versus x c ≠ .nc → (c, u) ∈ work ∨
      (s₀.versus x c = .gt ∧ c ∉ s.children u) ∨
      (s₀.versus x c = .lt ∧ X c) ∨
      (s₀.versus x c = .eq ∧
        s.equivObjs c = s₀.equivObjs c ++ [x])
  idle : ∀ u, X u → (∀ c ∈ s₀.children u,
    s₀.versus x c = .nc) → v ∈ s.children u
  ranked : Ranked s₀ N x (s.children v ++ falling s₀ x work)

/-! ## What the walk compares -/

namespace Incoming

variable {E : List SendPriorityElement} {N : Finset Nat} {s₀ : TopologicalSorter} {v : Nat}
  {x : SendPriorityElement} (I : Incoming E N s₀ v x)

include I

theorem front_v : s₀.front v = x := by
  rw [front, I.objs_v]
  rfl

theorem child_ne {u c : Nat} (hu : u ∈ insert root N) (hc : c ∈ s₀.children u) : c ≠ v :=
  fun he => I.v_notMem (he ▸ I.sound.child_mem hu hc)

theorem notMem_child {u : Nat} (hu : u ∈ insert root N) : v ∉ s₀.children u :=
  fun hv => I.child_ne hu hv rfl

/-- The new node is compared through its element, and so is every node in use. -/
theorem head {n : Nat} (hn : n ∈ N ∨ n = v) : (s₀.equivObjs n).head? = some (s₀.front n) := by
  rcases hn with hn | rfl
  · exact I.sound.head hn
  · rw [I.objs_v, I.front_v]
    rfl

end Incoming

/-- What comparisons read has not changed. -/
structure SameFronts (N : Finset Nat) (s₀ : TopologicalSorter) (v : Nat) (s : TopologicalSorter) :
    Prop where
  partialOrder : s.partialOrder = s₀.partialOrder
  live : s.live = s₀.live
  head : ∀ n, n ∈ N ∨ n = v → (s.equivObjs n).head? = some (s₀.front n)

namespace SameFronts

variable {E : List SendPriorityElement} {N : Finset Nat} {s₀ s : TopologicalSorter} {v : Nat}
  {x : SendPriorityElement} (I : Incoming E N s₀ v x)

include I

theorem refl : SameFronts N s₀ v s₀ := ⟨rfl, rfl, fun _ hn => I.head hn⟩

variable (R : SameFronts N s₀ v s)

include R

/-- Comparing the new node with another compares their elements. -/
theorem compare_eq {n : Nat} (hn : n ∈ N ∨ n = v) : s.compare v n = some (s₀.versus x n) := by
  have hlive : s.live n = true := by
    rw [R.live]
    rcases hn with hn | rfl
    · exact I.sound.live n hn
    · exact I.live_v
  have hroot : n ≠ root := by
    rcases hn with hn | rfl
    · exact I.sound.ne_root hn
    · exact I.v_ne_root
  have hv : s.live v = true := by rw [R.live]; exact I.live_v
  unfold TopologicalSorter.compare
  rw [hlive, hv, Bool.and_self, if_pos rfl]
  simp only [PartialOrder.compare, element, I.v_ne_root, hroot, decide_false, R.head n hn,
    R.head v (Or.inr rfl), I.front_v, R.partialOrder]
  rfl

/-- Comparing the new node with the nodes of a list. -/
theorem comparables_eq : ∀ {l : List Nat}, (∀ n ∈ l, n ∈ N ∨ n = v) →
    s.comparables v l = some (l.filter (fun n => s₀.versus x n ≠ .nc))
  | [], _ => rfl
  | n :: rest, hl => by
      have hrest := comparables_eq (fun m hm => hl m (List.mem_cons_of_mem _ hm))
      rw [comparables, R.compare_eq I (hl n List.mem_cons_self), hrest]
      by_cases hnc : s₀.versus x n = .nc
      · simp [hnc]
      · simp [hnc]

end SameFronts

namespace Walking

variable {E : List SendPriorityElement} {N : Finset Nat} {s₀ s : TopologicalSorter} {v : Nat}
  {x : SendPriorityElement} {X : Nat → Prop} {work : List (Nat × Nat)}
  (I : Incoming E N s₀ v x) (W : Walking N s₀ v x X s work)

include I W

theorem objs_v : s.equivObjs v = [x] := by
  rcases W.objs v with hv | ⟨hv, -⟩
  · rw [hv, I.objs_v]
  · exact absurd hv I.v_notMem

/-- The first element of a node stays the first. -/
theorem head {n : Nat} (hn : n ∈ N ∨ n = v) : (s.equivObjs n).head? = some (s₀.front n) := by
  have hhead := I.head hn
  rcases W.objs n with ho | ⟨-, -, ho⟩
  · rw [ho, hhead]
  · rw [ho, List.head?_append, hhead]
    rfl

/-- The walk changes nothing that comparisons read. -/
theorem sameFronts : SameFronts N s₀ v s :=
  ⟨W.partialOrder, W.live, fun _ hn => W.head I hn⟩

omit I in
/-- The children of a node that was there, while the walk goes on. -/
theorem children_mem {u c : Nat} (hu : u ∈ insert root N) (hc : c ∈ s.children u) :
    c ∈ s₀.children u ∨ c = v := by
  obtain ⟨l, hsub, hl | hl⟩ := W.trimmed u hu
  · rw [hl] at hc
    exact Or.inl (hsub.subset hc)
  · rw [hl] at hc
    rcases List.mem_append.mp hc with hc | hc
    · exact Or.inl (hsub.subset hc)
    · exact Or.inr (List.mem_singleton.mp hc)

end Walking

/-! ## Lists in order -/

section Ranks

variable {N : Finset Nat} {s : TopologicalSorter} {x : SendPriorityElement}
variable {b : List Nat} {work : List (Nat × Nat)}

theorem Ranked.append {l : List Nat} (h : Ranked s N x l)
    (hb : ∀ b₁ d b₂, b = b₁ ++ d :: b₂ → ∀ y ∈ N, s.versus x y = .gt →
      s.partialOrder.compareElements (s.front y) (s.front d) = .gt → y ∈ l ++ b₁) :
    Ranked s N x (l ++ b) := by
  intro l₁ d l₂ heq y hy hxy hyd
  rcases List.append_eq_append_iff.mp heq with ⟨a, rfl, hba⟩ | ⟨a, hla, hda⟩
  · exact hb a d l₂ hba y hy hxy hyd
  · cases a with
    | nil =>
        rw [List.append_nil] at hla
        have hmem := hb [] d l₂ hda.symm y hy hxy hyd
        rwa [List.append_nil, hla] at hmem
    | cons e a =>
        rw [List.cons_append, List.cons.injEq] at hda
        rw [← hda.1] at hla
        exact h l₁ d a hla y hy hxy hyd

/-- A node that is in the first part need not be in the second. -/
theorem Ranked.drop_again {a : List Nat} {d : Nat} (h : Ranked s N x (a ++ d :: b)) (hd : d ∈ a) :
    Ranked s N x (a ++ b) := by
  refine Ranked.append ?_ ?_
  · intro l₁ e l₂ heq
    exact h l₁ e (l₂ ++ d :: b) (by rw [heq, List.append_assoc, List.cons_append])
  · intro b₁ e b₂ heq y hy hxy hye
    have hmem := h (a ++ d :: b₁) e b₂ (by rw [heq]; simp) y hy hxy hye
    rcases List.mem_append.mp hmem with hy' | hy'
    · exact List.mem_append_left _ hy'
    · rcases List.mem_cons.mp hy' with rfl | hy'
      · exact List.mem_append_left _ hd
      · exact List.mem_append_right _ hy'

/-- A node goes from the second part to the end of the first. -/
theorem Ranked.push {a : List Nat} {d : Nat} (h : Ranked s N x (a ++ d :: b)) :
    Ranked s N x (pushNew a d ++ b) := by
  unfold pushNew
  split_ifs with hd
  · exact h.drop_again hd
  · rw [List.append_assoc]
    exact h

theorem falling_cons_of_gt {c p : Nat} (h : s.versus x c = .gt) :
    falling s x ((c, p) :: work) = c :: falling s x work := by
  simp [falling, h]

theorem falling_cons_of_ne {c p : Nat} (h : s.versus x c ≠ .gt) :
    falling s x ((c, p) :: work) = falling s x work := by
  simp [falling, h]

theorem falling_append (work more : List (Nat × Nat)) :
    falling s x (work ++ more) = falling s x work ++ falling s x more := by
  simp [falling]

/-- Of a batch of strands, those to nodes below the new element. -/
theorem falling_batch (l : List Nat) (p : Nat) :
    falling s x ((l.filter (fun d => s.versus x d ≠ .nc)).map (fun d => (d, p))) =
      l.filter (fun d => s.versus x d = .gt) := by
  unfold falling
  rw [List.map_map]
  show (List.map id _).filter _ = _
  rw [List.map_id, List.filter_filter]
  refine List.filter_congr ?_
  intro d _
  cases s.versus x d <;> rfl

end Ranks

/-! ## One strand -/

namespace Walking

variable {E : List SendPriorityElement} {N : Finset Nat} {s₀ s s' : TopologicalSorter} {v : Nat}
  {x : SendPriorityElement} {X : Nat → Prop} {c p : Nat} {rest : List (Nat × Nat)}

/-- A strand with nothing left to do. -/
theorem skip (W : Walking N s₀ v x X s ((c, p) :: rest)) (hgt : s₀.versus x c ≠ .gt)
    (hdone : c ∈ s₀.children p → s₀.versus x c ≠ .nc →
      (s₀.versus x c = .lt ∧ X c) ∨
        (s₀.versus x c = .eq ∧ s.equivObjs c = s₀.equivObjs c ++ [x])) :
    Walking N s₀ v x X s rest :=
  { W with
    strands := fun strand hs => W.strands strand (List.mem_cons_of_mem _ hs)
    settled := by
      intro u hu d hd hnc
      rcases W.settled u hu d hd hnc with hw | hw
      · rcases List.mem_cons.mp hw with he | hw
        · obtain ⟨rfl, rfl⟩ := Prod.mk.inj he
          exact Or.inr (Or.inr (hdone hd hnc))
        · exact Or.inl hw
      · exact Or.inr hw
    ranked := by
      have hr := W.ranked
      rwa [falling_cons_of_ne hgt] at hr }

/-- A node that equals the new element takes it in, once. -/
theorem join (I : Incoming E N s₀ v x) (W : Walking N s₀ v x X s ((c, p) :: rest)) (hc : c ∈ N)
    (heq : s₀.versus x c = .eq) :
    Walking N s₀ v x X (s.addEquivalents c (s.equivObjs v)) rest := by
  have hgt : s₀.versus x c ≠ .gt := by rw [heq]; decide
  have hadd : s.addEquivalents c (s.equivObjs v) = s.addEquivalent c x := by
    rw [W.objs_v I]
    rfl
  rw [hadd, addEquivalent]
  -- the node has not taken the element in yet, or it came to it on another strand
  rcases W.objs c with ho | ⟨-, -, ho⟩
  · have hnew : (s.equivObjs c).any (fun e => e.addr = x.addr) = false := by
      rw [ho, List.any_eq_false]
      intro e he
      simpa using I.fresh c hc e he
    rw [hnew, if_neg (by decide)]
    exact
      { W with
        objs := by
          intro n
          by_cases hn : n = c
          · subst hn
            refine Or.inr ⟨hc, heq, ?_⟩
            show Function.update s.equivObjs n (s.equivObjs n ++ [x]) n = _
            rw [Function.update_self, ho]
          · show Function.update s.equivObjs c (s.equivObjs c ++ [x]) n = _ ∨ (_ ∧ _ ∧
              Function.update s.equivObjs c (s.equivObjs c ++ [x]) n = _)
            rw [Function.update_of_ne hn]
            exact W.objs n
        strands := fun strand hs => W.strands strand (List.mem_cons_of_mem _ hs)
        settled := by
          intro u hu d hd hnc
          show _ ∨ _ ∨ _ ∨ (_ ∧ Function.update s.equivObjs c (s.equivObjs c ++ [x]) d = _)
          by_cases hdc : d = c
          · subst hdc
            refine Or.inr (Or.inr (Or.inr ⟨heq, ?_⟩))
            rw [Function.update_self, ho]
          · rw [Function.update_of_ne hdc]
            refine (W.settled u hu d hd hnc).imp (fun hw => ?_) id
            refine (List.mem_cons.mp hw).resolve_left (fun he => hdc (Prod.mk.inj he).1)
        ranked := by
          have hr := W.ranked
          rwa [falling_cons_of_ne hgt] at hr }
  · have hold : (s.equivObjs c).any (fun e => e.addr = x.addr) = true := by
      rw [ho]
      simp
    rw [hold, if_pos rfl]
    exact W.skip hgt (fun _ _ => Or.inr ⟨heq, ho⟩)

/-- The children of a node that has been found are above, below or beside the new element. -/
theorem found_child (I : Incoming E N s₀ v x) (W : Walking N s₀ v x X s ((c, p) :: rest))
    (hcv : c ≠ v) : X p ∧ c ∈ s₀.children p ∧ c ∈ N := by
  obtain ⟨hp, hc⟩ := W.strands (c, p) List.mem_cons_self
  have hc' : c ∈ s₀.children p := (hc.resolve_right hcv).1
  exact ⟨hp, hc', I.sound.child_mem (W.above p hp).1 hc'⟩

/-- A node below which nothing compares gets the new node for a child. -/
theorem insertBelow (I : Incoming E N s₀ v x) (W : Walking N s₀ v x X s ((c, p) :: rest))
    (hc : c ∈ N) (hlt : s₀.versus x c = .lt)
    (hnone : ∀ d ∈ s.children c, s₀.versus x d = .nc) (hlink : Relinked s s')
    (hch : s'.children = Function.update s.children c (pushNew (s.children c) v)) :
    Walking N s₀ v x (fun u => X u ∨ u = c) s' rest := by
  have hcU : c ∈ insert root N := Finset.mem_insert_of_mem hc
  have hcv : c ≠ v := fun he => I.v_notMem (he ▸ hc)
  have hgt : s₀.versus x c ≠ .gt := by rw [hlt]; decide
  have hself : s'.children c = pushNew (s.children c) v := by rw [hch, Function.update_self]
  have hother : ∀ u, u ≠ c → s'.children u = s.children u := by
    intro u hu
    rw [hch, Function.update_of_ne hu]
  have hv : s'.children v = s.children v := hother v hcv.symm
  have hmono : ∀ u d, d ∈ s.children u → d ∈ s'.children u := by
    intro u d hd
    by_cases hu : u = c
    · rw [hu] at hd ⊢
      rw [hself, mem_pushNew]
      exact Or.inl hd
    · rwa [hother u hu]
  have hback : ∀ u d, d ≠ v → d ∈ s'.children u → d ∈ s.children u := by
    intro u d hdv hd
    by_cases hu : u = c
    · rw [hu] at hd ⊢
      rw [hself, mem_pushNew] at hd
      exact hd.resolve_right hdv
    · rwa [hother u hu] at hd
  have hvc : v ∈ s'.children c := by rw [hself, mem_pushNew]; exact Or.inr rfl
  refine
    { partialOrder := hlink.partialOrder.trans W.partialOrder
      next := hlink.next.trans W.next
      live := hlink.live.trans W.live
      numElements := hlink.numElements.trans W.numElements
      maxElements := hlink.maxElements.trans W.maxElements
      objs := by rw [hlink.equivObjs]; exact W.objs
      root_found := Or.inl W.root_found
      above := ?_, kept := ?_, trimmed := ?_, lost := ?_, joined := ?_
      gained := ?_
      nodup := by rw [hv]; exact W.nodup
      strands := ?_, settled := ?_, idle := ?_, ranked := ?_ }
  · rintro u (hu | rfl)
    · exact W.above u hu
    · exact ⟨hcU, Or.inr (s₀.partialOrder.flips.gt_iff.mpr hlt)⟩
  · intro u hu hX
    rw [hother u (fun he => hX (Or.inr he))]
    exact W.kept u hu (fun h => hX (Or.inl h))
  · intro u hu
    obtain ⟨l, hsub, hl⟩ := W.trimmed u hu
    by_cases huc : u = c
    · subst huc
      refine ⟨l, hsub, Or.inr ?_⟩
      have hvl : v ∉ l := fun h => I.notMem_child hu (hsub.subset h)
      rw [hself, pushNew]
      rcases hl with hl | hl
      · rw [hl, if_neg hvl]
      · rw [hl, if_pos (by simp)]
    · rw [hother u huc]
      exact ⟨l, hsub, hl⟩
  · intro u hu d hd hno
    obtain ⟨hdgt, hdv, huv⟩ := W.lost u hu d hd (fun h => hno (hmono u d h))
    exact ⟨hdgt, hv ▸ hdv, hmono u v huv⟩
  · intro u hu huv
    by_cases huc : u = c
    · subst huc
      -- what is left does not compare, and what is gone was below the new element
      by_cases hall : ∀ d ∈ s₀.children u, d ∈ s.children u
      · exact Or.inr (fun d hd => hnone d (hall d hd))
      · push Not at hall
        obtain ⟨d, hd, hno⟩ := hall
        exact Or.inl ⟨d, hd, (W.lost u hu d hd hno).1⟩
    · rw [hother u huc] at huv
      exact W.joined u hu huv
  · intro d hd
    rw [hv] at hd
    obtain ⟨hdgt, u, hu, hdu⟩ := W.gained d hd
    exact ⟨hdgt, u, Or.inl hu, hdu⟩
  · intro strand hs
    exact (W.strands strand (List.mem_cons_of_mem _ hs)).imp Or.inl id
  · intro u hu d hd hnc
    have hlostNow : u ∈ insert root N → d ∉ s.children u →
        s₀.versus x d = .gt ∧ d ∉ s'.children u := by
      intro hu' hno
      exact ⟨(W.lost u hu' d hd hno).1, fun h => hno (hback u d (I.child_ne hu' hd) h)⟩
    rcases hu with hu | rfl
    · rcases W.settled u hu d hd hnc with hw | ⟨-, hno⟩ | ⟨hdlt, hX⟩ | hjoin
      · rcases List.mem_cons.mp hw with he | hw
        · obtain ⟨rfl, rfl⟩ := Prod.mk.inj he
          exact Or.inr (Or.inr (Or.inl ⟨hlt, Or.inr rfl⟩))
        · exact Or.inl hw
      · exact Or.inr (Or.inl (hlostNow (W.above u hu).1 hno))
      · exact Or.inr (Or.inr (Or.inl ⟨hdlt, Or.inl hX⟩))
      · exact Or.inr (Or.inr (Or.inr (by rw [hlink.equivObjs]; exact hjoin)))
    · exact Or.inr (Or.inl (hlostNow hcU (fun h => hnc (hnone d h))))
  · rintro u (hu | rfl) hall
    · exact hmono u v (W.idle u hu hall)
    · exact hvc
  · have hr := W.ranked
    rw [falling_cons_of_ne hgt] at hr
    rwa [hv]

/-- The children of a node above the new element go on strands. -/
theorem expand (I : Incoming E N s₀ v x) (W : Walking N s₀ v x X s ((c, p) :: rest))
    (hc : c ∈ N) (hlt : s₀.versus x c = .lt)
    (hsome : ∃ d ∈ s.children c, s₀.versus x d ≠ .nc) :
    Walking N s₀ v x (fun u => X u ∨ u = c) s
      (rest ++ ((s.children c).filter (fun d => s₀.versus x d ≠ .nc)).map (fun d => (d, c))) := by
  have F := s₀.partialOrder.flips
  have hcU : c ∈ insert root N := Finset.mem_insert_of_mem hc
  have hgt : s₀.versus x c ≠ .gt := by rw [hlt]; decide
  have hcx : s₀.partialOrder.compareElements (s₀.front c) x = .gt := F.gt_iff.mpr hlt
  refine
    { W with
      root_found := Or.inl W.root_found
      above := ?_, kept := ?_, gained := ?_, strands := ?_, settled := ?_, idle := ?_
      ranked := ?_ }
  · rintro u (hu | rfl)
    · exact W.above u hu
    · exact ⟨hcU, Or.inr hcx⟩
  · intro u hu hX
    exact W.kept u hu (fun h => hX (Or.inl h))
  · intro d hd
    obtain ⟨hdgt, u, hu, hdu⟩ := W.gained d hd
    exact ⟨hdgt, u, Or.inl hu, hdu⟩
  · intro strand hs
    rcases List.mem_append.mp hs with hs | hs
    · exact (W.strands strand (List.mem_cons_of_mem _ hs)).imp Or.inl id
    · obtain ⟨d, hd, rfl⟩ := List.mem_map.mp hs
      obtain ⟨hdc, hnc⟩ := List.mem_filter.mp hd
      refine ⟨Or.inr rfl, (W.children_mem hcU hdc).imp (fun h => ⟨h, ?_⟩) id⟩
      simpa using hnc
  · intro u hu d hd hnc
    rcases hu with hu | rfl
    · rcases W.settled u hu d hd hnc with hw | hgone | ⟨hdlt, hX⟩ | hjoin
      · rcases List.mem_cons.mp hw with he | hw
        · obtain ⟨rfl, rfl⟩ := Prod.mk.inj he
          exact Or.inr (Or.inr (Or.inl ⟨hlt, Or.inr rfl⟩))
        · exact Or.inl (List.mem_append_left _ hw)
      · exact Or.inr (Or.inl hgone)
      · exact Or.inr (Or.inr (Or.inl ⟨hdlt, Or.inl hX⟩))
      · exact Or.inr (Or.inr (Or.inr hjoin))
    · by_cases hin : d ∈ s.children u
      · left
        refine List.mem_append_right _ (List.mem_map.mpr ⟨d, List.mem_filter.mpr ⟨hin, ?_⟩, rfl⟩)
        simpa using hnc
      · exact Or.inr (Or.inl ⟨(W.lost u hcU d hd hin).1, hin⟩)
  · rintro u (hu | rfl) hall
    · exact W.idle u hu hall
    · -- something compares, and it was not there before
      obtain ⟨d, hd, hnc⟩ := hsome
      rcases W.children_mem hcU hd with hd' | rfl
      · exact absurd (hall d hd') hnc
      · exact hd
  · have hr := W.ranked
    rw [falling_cons_of_ne hgt] at hr
    rw [falling_append, ← List.append_assoc]
    refine hr.append ?_
    rw [falling_batch]
    intro b₁ d b₂ hsplit y hy hxy hyd
    have hdin : d ∈ (s.children c).filter (fun d => s₀.versus x d = .gt) := by
      rw [hsplit]
      simp
    obtain ⟨hdc, hdgt⟩ := List.mem_filter.mp hdin
    have hdgt' : s₀.versus x d = .gt := by simpa using hdgt
    have hd₀ : d ∈ s₀.children c := by
      rcases W.children_mem hcU hdc with hd | rfl
      · exact hd
      · have hself : s₀.versus x d = s₀.partialOrder.compareElements x x := by
          rw [versus, I.front_v]
        rw [hself] at hdgt'
        exact absurd hdgt' (F.gt_irrefl x)
    have hcy := I.tame.trans _ (I.sound.front_mem hc) _ I.mem _ (I.sound.front_mem hy) hcx hxy
    have hpair := (I.sound.hasse.order c hcU d hd₀ y hy (Or.inr hcy) hyd).1
    by_cases hyc : y ∈ s.children c
    · refine List.mem_append_right _ ?_
      -- both are still children of `c`, in this order
      have hyv : y ≠ v := fun he => I.v_notMem (he ▸ hy)
      have hdv : d ≠ v := I.child_ne hcU hd₀
      obtain ⟨l, hsub, hl⟩ := W.trimmed c hcU
      have hnd : (s₀.children c).Nodup := I.sound.hasse.nodup c hcU
      have hvl : v ∉ l := fun h => I.notMem_child hcU (hsub.subset h)
      have hmem : ∀ z, z ≠ v → z ∈ s.children c → z ∈ l := by
        intro z hzv hz
        rcases hl with hl | hl
        · rwa [hl] at hz
        · rw [hl] at hz
          exact (List.mem_append.mp hz).resolve_right (fun h => hzv (List.mem_singleton.mp h))
      have hpairl : [y, d].Sublist l :=
        pair_sublist_of_mem hsub hnd hpair (hmem y hyv hyc) (hmem d hdv hdc)
      have hlsub : l.Sublist (s.children c) := by
        rcases hl with hl | hl
        · rw [hl]
        · rw [hl]
          exact List.sublist_append_left _ _
      have hndc : (s.children c).Nodup := by
        rcases hl with hl | hl
        · rw [hl]
          exact hnd.sublist hsub
        · rw [hl]
          refine List.nodup_append.mpr ⟨hnd.sublist hsub, by simp, ?_⟩
          intro a ha b hb he
          rw [List.mem_singleton.mp hb] at he
          exact hvl (he ▸ ha)
      have hfil := pair_filter (q := fun d => s₀.versus x d = .gt) (hpairl.trans hlsub)
        (by simpa using hxy) hdgt
      have hndf := hndc.filter (fun d => s₀.versus x d = .gt)
      rw [hsplit] at hfil hndf
      exact mem_left_of_pair hndf hfil
    · have hyv := (W.lost c hcU y (hpair.subset (by simp)) hyc).2.1
      exact List.mem_append_left _ (List.mem_append_left _ hyv)

/-- A child below the new element is moved below the new node. -/
theorem insertAbove (I : Incoming E N s₀ v x) (W : Walking N s₀ v x X s ((c, p) :: rest))
    (hgt : s₀.versus x c = .gt) (hp : X p) (hcp : c ∈ s₀.children p) (hc : c ∈ N)
    (hlink : Relinked s s') (hsp : s'.children p = pushNew ((s.children p).erase c) v)
    (hsv : s'.children v = pushNew (s.children v) c)
    (hother : ∀ u, u ≠ p → u ≠ v → s'.children u = s.children u) :
    Walking N s₀ v x X s' rest := by
  have hpU : p ∈ insert root N := (W.above p hp).1
  have hUv : ∀ u ∈ insert root N, u ≠ v := by
    rintro u hu rfl
    rcases Finset.mem_insert.mp hu with hu | hu
    · exact I.v_ne_root hu
    · exact I.v_notMem hu
  have hcv : c ≠ v := I.child_ne hpU hcp
  have hvp : v ∈ s'.children p := by rw [hsp, mem_pushNew]; exact Or.inr rfl
  have hcnew : c ∈ s'.children v := by rw [hsv, mem_pushNew]; exact Or.inr rfl
  -- the list of children of the parent, before and after
  obtain ⟨l, hsub, hl⟩ := W.trimmed p hpU
  have hvl : v ∉ l := fun h => I.notMem_child hpU (hsub.subset h)
  have hvle : v ∉ l.erase c := fun h => hvl (List.mem_of_mem_erase h)
  have hndl : l.Nodup := (I.sound.hasse.nodup p hpU : (s₀.children p).Nodup).sublist hsub
  have hshape : s'.children p = l.erase c ++ [v] := by
    rw [hsp, pushNew]
    rcases hl with hl | hl
    · rw [hl, if_neg hvle]
    · have herase : (l ++ [v]).erase c = l.erase c ++ [v] := by
        by_cases hcl : c ∈ l
        · rw [List.erase_append_left _ hcl]
        · rw [List.erase_append_right _ hcl, List.erase_of_not_mem hcl,
            List.erase_of_not_mem (by simpa using hcv)]
      rw [hl, herase, if_pos (by simp)]
  have hmemp : ∀ d, d ≠ v → (d ∈ s'.children p ↔ d ≠ c ∧ d ∈ s.children p) := by
    intro d hdv
    have hin : d ∈ s.children p ↔ d ∈ l := by
      rcases hl with hl | hl
      · rw [hl]
      · rw [hl]
        simp [hdv]
    rw [hshape, hin, List.mem_append, List.mem_singleton, hndl.mem_erase_iff]
    simp [hdv]
  have hback : ∀ u ∈ insert root N, ∀ d, d ≠ v → d ∈ s'.children u → d ∈ s.children u := by
    intro u hu d hdv hd
    by_cases hup : u = p
    · rw [hup] at hd ⊢
      exact ((hmemp d hdv).mp hd).2
    · rwa [hother u hup (hUv u hu)] at hd
  have hmonov : ∀ u ∈ insert root N, v ∈ s.children u → v ∈ s'.children u := by
    intro u hu huv
    by_cases hup : u = p
    · rw [hup]
      exact hvp
    · rwa [hother u hup (hUv u hu)]
  have hgrow : ∀ d, d ∈ s.children v → d ∈ s'.children v := by
    intro d hd
    rw [hsv, mem_pushNew]
    exact Or.inl hd
  refine
    { partialOrder := hlink.partialOrder.trans W.partialOrder
      next := hlink.next.trans W.next
      live := hlink.live.trans W.live
      numElements := hlink.numElements.trans W.numElements
      maxElements := hlink.maxElements.trans W.maxElements
      objs := by rw [hlink.equivObjs]; exact W.objs
      root_found := W.root_found
      above := W.above
      kept := ?_, trimmed := ?_, lost := ?_, joined := ?_, gained := ?_, nodup := ?_
      strands := fun strand hs => W.strands strand (List.mem_cons_of_mem _ hs)
      settled := ?_, idle := ?_, ranked := ?_ }
  · intro u hu hX
    have hup : u ≠ p := fun he => hX (he ▸ hp)
    rw [hother u hup (hUv u hu)]
    exact W.kept u hu hX
  · intro u hu
    by_cases hup : u = p
    · rw [hup]
      exact ⟨l.erase c, (List.erase_sublist).trans hsub, Or.inr hshape⟩
    · rw [hother u hup (hUv u hu)]
      exact W.trimmed u hu
  · intro u hu d hd hno
    by_cases hdu : d ∈ s.children u
    · -- it was there until now, so it is the child that moves
      have hup : u = p := by
        by_contra hup
        rw [hother u hup (hUv u hu)] at hno
        exact hno hdu
      subst hup
      have hdc : d = c := by
        by_contra hdc
        exact hno ((hmemp d (I.child_ne hu hd)).mpr ⟨hdc, hdu⟩)
      subst hdc
      exact ⟨hgt, hcnew, hvp⟩
    · obtain ⟨hdgt, hdv, huv⟩ := W.lost u hu d hd hdu
      exact ⟨hdgt, hgrow d hdv, hmonov u hu huv⟩
  · intro u hu huv
    by_cases hup : u = p
    · rw [hup]
      exact Or.inl ⟨c, hcp, hgt⟩
    · rw [hother u hup (hUv u hu)] at huv
      exact W.joined u hu huv
  · intro d hd
    rw [hsv, mem_pushNew] at hd
    rcases hd with hd | rfl
    · exact W.gained d hd
    · exact ⟨hgt, p, hp, hcp⟩
  · rw [hsv, pushNew]
    split_ifs with hin
    · exact W.nodup
    · refine List.nodup_append.mpr ⟨W.nodup, by simp, ?_⟩
      intro a ha b hb he
      rw [List.mem_singleton.mp hb] at he
      exact hin (he ▸ ha)
  · intro u hu d hd hnc
    have huU := (W.above u hu).1
    have hdv := I.child_ne huU hd
    rcases W.settled u hu d hd hnc with hw | ⟨hdgt, hno⟩ | hfound | hjoin
    · rcases List.mem_cons.mp hw with he | hw
      · obtain ⟨rfl, rfl⟩ := Prod.mk.inj he
        exact Or.inr (Or.inl ⟨hgt, fun h => ((hmemp d hdv).mp h).1 rfl⟩)
      · exact Or.inl hw
    · exact Or.inr (Or.inl ⟨hdgt, fun h => hno (hback u huU d hdv h)⟩)
    · exact Or.inr (Or.inr (Or.inl hfound))
    · exact Or.inr (Or.inr (Or.inr (by rw [hlink.equivObjs]; exact hjoin)))
  · intro u hu hall
    exact hmonov u (W.above u hu).1 (W.idle u hu hall)
  · have hr := W.ranked
    rw [falling_cons_of_gt hgt] at hr
    rw [hsv]
    exact hr.push

end Walking

end TopologicalSorter

end Encoders.Send
