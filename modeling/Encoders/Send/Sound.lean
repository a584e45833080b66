import Encoders.Lib.HasseInsert
import Encoders.Send.Sorter

/-!
# The sorter keeps a diagram

`Sound E N s` says that the nodes in use are `N`, that with their children they are a
diagram of the order on `E`, and that every node holds at least one element of `E`, all
equal to its first. What hangs together with the root is then exactly `N`, so what the
sorter holds is what these nodes hold (`held_eq`).

`popTop` reads no deleted node, takes an element that nothing in the sorter is above, and
keeps all this.
-/

namespace Encoders.Send

open Encoders.Lib

variable {E : List SendPriorityElement} {N : Finset Nat}

namespace TopologicalSorter

/-- The element that speaks for a node. -/
def front (s : TopologicalSorter) (n : Nat) : SendPriorityElement := (s.equivObjs n).headD default

/-- The graph on some nodes. -/
def diagram (s : TopologicalSorter) (N : Finset Nat) : Diagram SendPriorityElement :=
  ⟨root, N, s.front, s.children⟩

/-- What a sorter keeps while the elements `E` come and go. -/
structure Sound (E : List SendPriorityElement) (N : Finset Nat) (s : TopologicalSorter) : Prop where
  hasse : Hasse s.partialOrder.compareElements E (s.diagram N)
  live_root : s.live root = true
  root_lt : root < s.next
  root_empty : s.equivObjs root = []
  live : ∀ n ∈ N, s.live n = true
  below_next : ∀ n ∈ N, n < s.next
  /-- A node without an element is deleted at once. -/
  holds : ∀ n ∈ N, s.equivObjs n ≠ []
  members : ∀ n ∈ N, ∀ e ∈ s.equivObjs n, e ∈ E
  alike : ∀ n ∈ N, ∀ e ∈ s.equivObjs n,
    e = s.front n ∨ s.partialOrder.compareElements (s.front n) e = .eq

/-- A new sorter has no nodes. -/
theorem sound_new (po : PartialOrder) (E : List SendPriorityElement) : Sound E ∅ (new po) where
  hasse := Hasse.empty rfl rfl
  live_root := rfl
  root_lt := Nat.lt_succ_self root
  root_empty := rfl
  live n hn := absurd hn (Finset.notMem_empty n)
  below_next n hn := absurd hn (Finset.notMem_empty n)
  holds n hn := absurd hn (Finset.notMem_empty n)
  members n hn := absurd hn (Finset.notMem_empty n)
  alike n hn := absurd hn (Finset.notMem_empty n)

namespace Sound

variable {s : TopologicalSorter}

theorem root_notMem (h : Sound E N s) : root ∉ N := h.hasse.root_notMem

theorem ne_root (h : Sound E N s) {n : Nat} (hn : n ∈ N) : n ≠ root :=
  fun he => h.root_notMem (he ▸ hn)

theorem child_mem (h : Sound E N s) {u c : Nat} (hu : u ∈ insert root N) (hc : c ∈ s.children u) :
    c ∈ N := h.hasse.closed u hu c hc

/-- The first element of a node in use. -/
theorem head (h : Sound E N s) {n : Nat} (hn : n ∈ N) :
    (s.equivObjs n).head? = some (s.front n) := by
  unfold front
  cases heq : s.equivObjs n with
  | nil => exact absurd heq (h.holds n hn)
  | cons e rest => rfl

theorem front_mem (h : Sound E N s) {n : Nat} (hn : n ∈ N) : s.front n ∈ E :=
  h.hasse.front_mem n hn

/-- What hangs together with the root is in use, and nothing else. -/
theorem linked_iff (h : Sound E N s) {n : Nat} : s.Linked n ↔ n = root ∨ n ∈ N := by
  constructor
  · intro hl
    induction hl with
    | refl => exact Or.inl rfl
    | tail _ hbc ih => exact Or.inr (h.child_mem (Finset.mem_insert.mpr ih) hbc)
  · rintro (rfl | hn)
    · exact Relation.ReflTransGen.refl
    · exact h.hasse.reach n hn

/-- **A sorter holds what its nodes hold.** -/
theorem held_eq (h : Sound E N s) :
    s.held = ∑ n ∈ N, (s.equivObjs n : Multiset SendPriorityElement) := by
  classical
  have hset : (Finset.range s.next).filter (fun n => s.Linked n) = insert root N := by
    ext n
    rw [Finset.mem_filter, Finset.mem_range, Finset.mem_insert, h.linked_iff]
    constructor
    · exact fun hn => hn.2
    · rintro (rfl | hn)
      · exact ⟨h.root_lt, Or.inl rfl⟩
      · exact ⟨h.below_next n hn, Or.inr hn⟩
  unfold held
  have hsum := Finset.sum_insert h.root_notMem
    (f := fun n => (s.equivObjs n : Multiset SendPriorityElement))
  rw [h.root_empty] at hsum
  rw [Multiset.coe_nil, zero_add] at hsum
  rw [← hsum]
  convert rfl using 2
  exact hset.symm

theorem mem_held (h : Sound E N s) {e : SendPriorityElement} :
    e ∈ s.held ↔ ∃ n ∈ N, e ∈ s.equivObjs n := by
  rw [h.held_eq, Multiset.mem_sum]
  simp only [Multiset.mem_coe]

end Sound

/-! ## Lines -/

/-- Where all but one of the parts are empty, the whole is that part. -/
theorem flatMap_eq_of_others_nil {β γ : Type} {f : β → List γ} {b : β} : ∀ {l : List β},
    l.Nodup → b ∈ l → (∀ a ∈ l, a ≠ b → f a = []) → l.flatMap f = f b
  | [], _, hb, _ => absurd hb List.not_mem_nil
  | a :: l, hnd, hb, hothers => by
      obtain ⟨ha, hnd⟩ := List.nodup_cons.mp hnd
      rw [List.flatMap_cons]
      rcases List.mem_cons.mp hb with rfl | hbl
      · have hrest : l.flatMap f = [] := by
          refine List.flatMap_eq_nil_iff.mpr fun a' ha' => ?_
          exact hothers a' (List.mem_cons_of_mem _ ha') fun he => ha (he ▸ ha')
        rw [hrest, List.append_nil]
      · rw [hothers a List.mem_cons_self fun he => ha (he ▸ hbl), List.nil_append]
        exact flatMap_eq_of_others_nil hnd hbl fun a' ha' => hothers a' (List.mem_cons_of_mem _ ha')

namespace Sound

variable {s : TopologicalSorter}

theorem mem_line (h : Sound E N s) {c e : SendPriorityElement} :
    e ∈ s.line c ↔ e ∈ s.held ∧ s.partialOrder.compareElements c e = .eq := by
  classical
  unfold line
  simp only [List.mem_flatMap, List.mem_filter, List.mem_range, decide_eq_true_eq, h.mem_held]
  constructor
  · rintro ⟨n, ⟨-, hl⟩, he, heq⟩
    rcases h.linked_iff.mp hl with rfl | hn
    · rw [h.root_empty] at he
      exact absurd he List.not_mem_nil
    · exact ⟨⟨n, hn, he⟩, heq⟩
  · rintro ⟨⟨n, hn, he⟩, heq⟩
    exact ⟨n, ⟨h.below_next n hn, h.linked_iff.mpr (Or.inr hn)⟩, he, heq⟩

/-- A line without elements. -/
theorem line_eq_nil (h : Sound E N s) {c : SendPriorityElement}
    (hnone : ∀ n ∈ N, ∀ e ∈ s.equivObjs n, s.partialOrder.compareElements c e ≠ .eq) :
    s.line c = [] := by
  refine List.eq_nil_iff_forall_not_mem.mpr fun e he => ?_
  obtain ⟨hheld, heq⟩ := h.mem_line.mp he
  obtain ⟨n, hn, hen⟩ := h.mem_held.mp hheld
  exact hnone n hn e hen heq

end Sound

/-! ## Links -/

/-- What `addChild` does to a list of children. -/
def pushNew (l : List Nat) (c : Nat) : List Nat := if c ∈ l then l else l ++ [c]

theorem mem_pushNew {l : List Nat} {c d : Nat} : d ∈ pushNew l c ↔ d ∈ l ∨ d = c := by
  unfold pushNew
  split_ifs with hc
  · constructor
    · exact Or.inl
    · rintro (hd | rfl)
      · exact hd
      · exact hc
  · simp

theorem foldl_pushNew : ∀ (cs l : List Nat), cs.Nodup →
    cs.foldl pushNew l = l ++ cs.filter (fun c => c ∉ l)
  | [], l, _ => by simp
  | c :: cs, l, hnd => by
      obtain ⟨hc, hnd⟩ := List.nodup_cons.mp hnd
      rw [List.foldl_cons, foldl_pushNew cs _ hnd]
      by_cases hin : c ∈ l
      · rw [pushNew, if_pos hin, List.filter_cons_of_neg (by simp [hin])]
      · have hsame : cs.filter (fun d => d ∉ l ++ [c]) = cs.filter (fun d => d ∉ l) := by
          refine List.filter_congr ?_
          intro d hd
          have hdc : d ≠ c := fun he => hc (he ▸ hd)
          simp [hdc]
        rw [pushNew, if_neg hin, hsame, List.filter_cons_of_pos (by simp [hin])]
        simp

/-- Only links and counts of parents differ. -/
structure Relinked (s s' : TopologicalSorter) : Prop where
  partialOrder : s'.partialOrder = s.partialOrder
  next : s'.next = s.next
  live : s'.live = s.live
  equivObjs : s'.equivObjs = s.equivObjs
  numElements : s'.numElements = s.numElements
  maxElements : s'.maxElements = s.maxElements

theorem Relinked.refl (s : TopologicalSorter) : Relinked s s := ⟨rfl, rfl, rfl, rfl, rfl, rfl⟩

theorem Relinked.trans {s s' s'' : TopologicalSorter} (h : Relinked s s') (h' : Relinked s' s'') :
    Relinked s s'' :=
  ⟨h'.1.trans h.1, h'.2.trans h.2, h'.3.trans h.3, h'.4.trans h.4, h'.5.trans h.5, h'.6.trans h.6⟩

variable {s : TopologicalSorter}

/-- `addChild` of a node that is not deleted. -/
theorem addChild_spec {c : Nat} (p : Nat) (hc : s.live c = true) :
    ∃ s', s.addChild p c = some s' ∧ Relinked s s' ∧
      s'.children = Function.update s.children p (pushNew (s.children p) c) := by
  unfold addChild
  by_cases hin : c ∈ s.children p
  · refine ⟨s, if_pos hin, Relinked.refl s, ?_⟩
    rw [pushNew, if_pos hin, Function.update_eq_self]
  · rw [if_neg hin, if_pos hc]
    refine ⟨_, rfl, ⟨rfl, rfl, rfl, rfl, rfl, rfl⟩, ?_⟩
    rw [pushNew, if_neg hin]

/-- `removeChild` of a node that is not deleted. -/
theorem removeChild_spec {c : Nat} (p : Nat) (hc : s.live c = true) :
    ∃ s', s.removeChild p c = some s' ∧ Relinked s s' ∧
      s'.children = Function.update s.children p ((s.children p).erase c) := by
  unfold removeChild
  by_cases hin : c ∈ s.children p
  · rw [if_pos hin, if_pos hc]
    exact ⟨_, rfl, ⟨rfl, rfl, rfl, rfl, rfl, rfl⟩, rfl⟩
  · refine ⟨s, if_neg hin, Relinked.refl s, ?_⟩
    rw [List.erase_of_not_mem hin, Function.update_eq_self]

/-- `addChildren` of nodes that are not deleted. -/
theorem addChildren_spec (p : Nat) : ∀ (cs : List Nat) {s : TopologicalSorter},
    (∀ c ∈ cs, s.live c = true) → ∃ s', s.addChildren p cs = some s' ∧ Relinked s s' ∧
      s'.children = Function.update s.children p (cs.foldl pushNew (s.children p))
  | [], s, _ => ⟨s, rfl, Relinked.refl s, by rw [List.foldl_nil, Function.update_eq_self]⟩
  | c :: cs, s, hlive => by
      obtain ⟨s₁, h₁, hlink₁, hch₁⟩ := addChild_spec p (hlive c List.mem_cons_self)
      have hlive₁ : ∀ d ∈ cs, s₁.live d = true := by
        intro d hd
        rw [hlink₁.live]
        exact hlive d (List.mem_cons_of_mem _ hd)
      obtain ⟨s₂, h₂, hlink₂, hch₂⟩ := addChildren_spec p cs hlive₁
      refine ⟨s₂, ?_, hlink₁.trans hlink₂, ?_⟩
      · rw [addChildren, h₁]
        exact h₂
      · rw [hch₂, hch₁, Function.update_self, Function.update_idem, List.foldl_cons]

/-! ## `popTop` -/

namespace Sound

variable (h : Sound E N s)
variable {c e : SendPriorityElement} {s' : TopologicalSorter}
variable {n t : Nat} {e' x : SendPriorityElement}

include h

/-- An empty root has an empty sorter below it. -/
theorem empty_of_root (T : Tame s.partialOrder.compareElements E) (hroot : s.children root = []) :
    N = ∅ := by
  refine Finset.eq_empty_of_forall_notMem ?_
  intro n hn
  obtain ⟨r, hr, -⟩ := h.hasse.below_root T hn
  have hr' : r ∈ s.children root := hr
  rw [hroot] at hr'
  exact absurd hr' List.not_mem_nil

/-- The elements of a node, with one of them for the first. -/
theorem alike_of (T : Tame s.partialOrder.compareElements E) (hn : n ∈ N) (he : e ∈ s.equivObjs n)
    (he' : e' ∈ s.equivObjs n) : e' = e ∨ s.partialOrder.compareElements e e' = .eq := by
  have hfE := h.front_mem hn
  have heE := h.members n hn e he
  have heE' := h.members n hn e' he'
  have F := s.partialOrder.flips
  rcases h.alike n hn e he with rfl | heq
  · exact h.alike n hn e' he'
  · rcases h.alike n hn e' he' with rfl | heq'
    · exact Or.inr (F.eq_symm heq)
    · right
      rw [← T.congr _ hfE _ heE _ heE' heq]
      exact heq'

/-- All elements of a node are equal to one if one of them is. -/
theorem equal_of_equal (T : Tame s.partialOrder.compareElements E) (hc : c ∈ E) (hn : n ∈ N)
    (he : e ∈ s.equivObjs n) (heq : s.partialOrder.compareElements c e = .eq)
    (he' : e' ∈ s.equivObjs n) : s.partialOrder.compareElements c e' = .eq := by
  rcases h.alike_of T hn he he' with rfl | hee'
  · exact heq
  · rw [T.congr c hc e (h.members n hn e he) e' (h.members n hn e' he') heq]
    exact hee'

/-- Two nodes with elements equal to one are one node. -/
theorem node_unique (T : Tame s.partialOrder.compareElements E) (hc : c ∈ E) {m : Nat} (hn : n ∈ N)
    (hm : m ∈ N) (he : e ∈ s.equivObjs n) (heq : s.partialOrder.compareElements c e = .eq)
    (he' : e' ∈ s.equivObjs m) (heq' : s.partialOrder.compareElements c e' = .eq) : m = n := by
  -- the first elements of both are equal to the one, so to each other
  have hcm := h.equal_of_equal T hc hm he' heq' (List.mem_of_mem_head? (h.head hm))
  have hcn := h.equal_of_equal T hc hn he heq (List.mem_of_mem_head? (h.head hn))
  refine h.hasse.apart m hm n hn ?_
  show s.partialOrder.compareElements (s.front m) (s.front n) = .eq
  rw [← T.congr c hc _ (h.front_mem hm) _ (h.front_mem hn) hcm]
  exact hcn

/-- A line is one node. -/
theorem line_eq (T : Tame s.partialOrder.compareElements E) (hc : c ∈ E) (hn : n ∈ N)
    (he : e ∈ s.equivObjs n) (heq : s.partialOrder.compareElements c e = .eq) :
    s.line c = s.equivObjs n := by
  classical
  have hmem : n ∈ (List.range s.next).filter (fun n => s.Linked n) := by
    rw [List.mem_filter, List.mem_range, decide_eq_true_eq]
    exact ⟨h.below_next n hn, h.linked_iff.mpr (Or.inr hn)⟩
  have hothers : ∀ m ∈ (List.range s.next).filter (fun n => s.Linked n), m ≠ n →
      (s.equivObjs m).filter (fun e => s.partialOrder.compareElements c e = .eq) = [] := by
    intro m hm hmn
    refine List.filter_eq_nil_iff.mpr fun e' he' heq' => hmn ?_
    rw [decide_eq_true_eq] at heq'
    rw [List.mem_filter, decide_eq_true_eq] at hm
    rcases h.linked_iff.mp hm.2 with rfl | hmN
    · rw [h.root_empty] at he'
      exact absurd he' List.not_mem_nil
    · exact h.node_unique T hc hn hmN he heq he' heq'
  unfold line
  rw [flatMap_eq_of_others_nil (List.nodup_range.filter _) hmem hothers]
  refine List.filter_eq_self.mpr fun e' he' => ?_
  rw [decide_eq_true_eq]
  exact h.equal_of_equal T hc hn he heq he'

/-- Lines that no node has changed. -/
theorem line_congr (T : Tame s.partialOrder.compareElements E) {N' : Finset Nat}
    (h' : Sound E N' s') (hpo : s'.partialOrder = s.partialOrder) (hc : c ∈ E)
    (hkept : ∀ n ∈ N, ∀ e ∈ s.equivObjs n, s.partialOrder.compareElements c e = .eq →
      n ∈ N' ∧ s'.equivObjs n = s.equivObjs n)
    (hback : ∀ n ∈ N', ∀ e ∈ s'.equivObjs n, s.partialOrder.compareElements c e = .eq →
      n ∈ N ∧ e ∈ s.equivObjs n) : s'.line c = s.line c := by
  have T' : Tame s'.partialOrder.compareElements E := by
    rw [hpo]
    exact T
  by_cases hsome : ∃ n ∈ N, ∃ e ∈ s.equivObjs n, s.partialOrder.compareElements c e = .eq
  · obtain ⟨n, hn, e, he, heq⟩ := hsome
    obtain ⟨hn', hobjs⟩ := hkept n hn e he heq
    rw [h.line_eq T hc hn he heq, ← hobjs]
    exact h'.line_eq T' hc hn' (hobjs ▸ he) (hpo ▸ heq)
  · push Not at hsome
    rw [h.line_eq_nil hsome]
    refine h'.line_eq_nil fun n hn e he heq => ?_
    rw [hpo] at heq
    obtain ⟨hnN, heN⟩ := hback n hn e he heq
    exact hsome n hnN e heN heq

/-- Taking the first element of a node takes the first of its line. -/
theorem line_of_take (T : Tame s.partialOrder.compareElements E) {N' : Finset Nat}
    (h' : Sound E N' s') (hpo : s'.partialOrder = s.partialOrder) (ht : t ∈ N)
    {es : List SendPriorityElement} (hobjs : s.equivObjs t = e :: es)
    (hobjs' : s'.equivObjs = Function.update s.equivObjs t es) (hN' : ∀ n, n ≠ t → (n ∈ N' ↔ n ∈ N))
    (ht' : t ∈ N' ↔ es ≠ []) (hc : c ∈ E) :
    s.line c = if s.partialOrder.compareElements c e = .eq then e :: s'.line c
      else s'.line c := by
  have he : e ∈ s.equivObjs t := hobjs ▸ List.mem_cons_self
  have hother : ∀ n, n ≠ t → s'.equivObjs n = s.equivObjs n := by
    intro n hn
    rw [hobjs', Function.update_of_ne hn]
  have hhere : s'.equivObjs t = es := by rw [hobjs', Function.update_self]
  by_cases heq : s.partialOrder.compareElements c e = .eq
  · rw [if_pos heq, h.line_eq T hc ht he heq, hobjs]
    congr 1
    cases hes : es with
    | nil =>
        symm
        refine h'.line_eq_nil fun n hn e' he' heq' => ?_
        rw [hpo] at heq'
        have hnt : n ≠ t := fun hnt => ht'.mp (hnt ▸ hn) hes
        rw [hother n hnt] at he'
        exact hnt (h.node_unique T hc ht ((hN' n hnt).mp hn) he heq he' heq')
    | cons e₂ rest =>
        have ht'' : t ∈ N' := ht'.mpr (hes ▸ List.cons_ne_nil e₂ rest)
        have he₂ : e₂ ∈ s.equivObjs t := by
          rw [hobjs, hes]
          exact List.mem_cons_of_mem e List.mem_cons_self
        have heq₂ := h.equal_of_equal T hc ht he heq he₂
        rw [← hes, ← hhere]
        refine (h'.line_eq (hpo.symm ▸ T) hc ht'' ?_ (hpo.symm ▸ heq₂)).symm
        rw [hhere, hes]
        exact List.mem_cons_self
  · rw [if_neg heq]
    -- the node has no element of this line
    have hnt : ∀ n ∈ N, ∀ e' ∈ s.equivObjs n, s.partialOrder.compareElements c e' = .eq →
        n ≠ t := by
      rintro n hn e' he' heq' rfl
      exact heq (h.equal_of_equal T hc hn he' heq' he)
    symm
    refine h.line_congr T h' hpo hc (fun n hn e' he' heq' => ?_) fun n hn e' he' heq' => ?_
    · have hne := hnt n hn e' he' heq'
      exact ⟨(hN' n hne).mpr hn, hother n hne⟩
    · by_cases hne : n = t
      · subst hne
        rw [hhere] at he'
        have he'' : e' ∈ s.equivObjs n := by
          rw [hobjs]
          exact List.mem_cons_of_mem e he'
        exact ⟨ht, he''⟩
      · rw [hother n hne] at he'
        exact ⟨(hN' n hne).mp hn, he'⟩

/-- An element that joins a node stands behind its line. -/
theorem line_of_join (T : Tame s.partialOrder.compareElements E) (h' : Sound E N s')
    (hpo : s'.partialOrder = s.partialOrder) (hx : x ∈ E) (hn : n ∈ N)
    (hjoins : s.partialOrder.compareElements x (s.front n) = .eq)
    (hobjs : s'.equivObjs n = s.equivObjs n ++ [x])
    (hothers : ∀ m ∈ N, m ≠ n → s'.equivObjs m = s.equivObjs m) (hc : c ∈ E) : s'.line c =
      if s.partialOrder.compareElements c x = .eq then s.line c ++ [x] else s.line c := by
  have hfront := List.mem_of_mem_head? (h.head hn)
  have hxn : x ∈ s'.equivObjs n := by
    rw [hobjs]
    exact List.mem_append_right _ (List.mem_singleton.mpr rfl)
  by_cases heq : s.partialOrder.compareElements c x = .eq
  · have hcn : s.partialOrder.compareElements c (s.front n) = .eq := by
      rw [T.congr c hc x hx _ (h.front_mem hn) heq]
      exact hjoins
    rw [if_pos heq, h.line_eq T hc hn hfront hcn, ← hobjs]
    exact h'.line_eq (hpo.symm ▸ T) hc hn hxn (hpo.symm ▸ heq)
  · rw [if_neg heq]
    -- the node has no element of this line
    have hne : ∀ m ∈ N, ∀ e ∈ s.equivObjs m, s.partialOrder.compareElements c e = .eq →
        m ≠ n := by
      rintro m hm e he hce rfl
      refine heq ?_
      rw [T.congr c hc _ (h.front_mem hm) x hx (h.equal_of_equal T hc hm he hce hfront)]
      exact s.partialOrder.flips.eq_symm hjoins
    refine h.line_congr T h' hpo hc (fun m hm e he hce => ?_) fun m hm e he hce => ⟨hm, ?_⟩
    · exact ⟨hm, hothers m hm (hne m hm e he hce)⟩
    · by_cases hmn : m = n
      · rw [hmn, hobjs] at he
        rcases List.mem_append.mp he with he | he
        · exact hmn ▸ he
        · rw [List.mem_singleton.mp he] at hce
          exact absurd hce heq
      · rwa [hothers m hm hmn] at he

/-- An element with a node of its own is alone in its line. -/
theorem line_of_own (T : Tame s.partialOrder.compareElements E) {v : Nat}
    (h' : Sound E (insert v N) s') (hpo : s'.partialOrder = s.partialOrder) (hx : x ∈ E)
    (hv : s'.equivObjs v = [x]) (hothers : ∀ m ∈ N, s'.equivObjs m = s.equivObjs m)
    (hnone : ∀ m ∈ N, s.partialOrder.compareElements x (s.front m) ≠ .eq) (hc : c ∈ E) : s'.line c =
      if s.partialOrder.compareElements c x = .eq then s.line c ++ [x] else s.line c := by
  by_cases heq : s.partialOrder.compareElements c x = .eq
  · have hnil : s.line c = [] := by
      refine h.line_eq_nil fun m hm e he hce => hnone m hm ?_
      rw [← T.congr c hc x hx _ (h.front_mem hm) heq]
      exact h.equal_of_equal T hc hm he hce (List.mem_of_mem_head? (h.head hm))
    rw [if_pos heq, hnil, List.nil_append, ← hv]
    refine h'.line_eq (hpo.symm ▸ T) hc (Finset.mem_insert_self v N) ?_ (hpo.symm ▸ heq)
    rw [hv]
    exact List.mem_singleton.mpr rfl
  · rw [if_neg heq]
    refine h.line_congr T h' hpo hc (fun m hm e he hce => ?_) fun m hm e he hce => ?_
    · exact ⟨Finset.mem_insert_of_mem hm, hothers m hm⟩
    · rcases Finset.mem_insert.mp hm with rfl | hm
      · rw [hv] at he
        rw [List.mem_singleton.mp he] at hce
        exact absurd hce heq
      · rw [hothers m hm] at he
        exact ⟨hm, he⟩

/-- **One of several elements can be taken from a node.** -/
theorem takeOne (T : Tame s.partialOrder.compareElements E) {rest : List SendPriorityElement}
    (ht : t ∈ N) (hobjs : s.equivObjs t = e :: rest) (hne : rest ≠ []) :
    Sound E N { s with
      equivObjs := Function.update s.equivObjs t rest
      numElements := s.numElements - 1 } := by
  have F := s.partialOrder.flips
  have hsub : ∀ n, ∀ x ∈ Function.update s.equivObjs t rest n, x ∈ s.equivObjs n := by
    intro n x hx
    by_cases hn : n = t
    · subst hn
      rw [Function.update_self] at hx
      rw [hobjs]
      exact List.mem_cons_of_mem _ hx
    · rwa [Function.update_of_ne hn] at hx
  have hholds : ∀ n ∈ N, Function.update s.equivObjs t rest n ≠ [] := by
    intro n hn
    by_cases hnt : n = t
    · subst hnt
      rwa [Function.update_self]
    · rw [Function.update_of_ne hnt]
      exact h.holds n hn
  -- the new first element was in the node, so it is as the old first one was
  have hfirst : ∀ n ∈ N, (Function.update s.equivObjs t rest n).headD default ∈
      s.equivObjs n := by
    intro n hn
    refine hsub n _ ?_
    cases heq : Function.update s.equivObjs t rest n with
    | nil => exact absurd heq (hholds n hn)
    | cons x xs => exact List.mem_cons_self
  have hold : ∀ n ∈ N, s.front n ∈ s.equivObjs n :=
    fun n hn => List.mem_of_mem_head? (h.head hn)
  refine ⟨?_, h.live_root, h.root_lt, ?_, h.live, h.below_next, hholds, ?_, ?_⟩
  · refine h.hasse.refront T F ?_
    intro n hn
    exact ⟨h.members n hn _ (hfirst n hn), h.alike_of T hn (hold n hn) (hfirst n hn)⟩
  · show Function.update s.equivObjs t rest root = []
    rw [Function.update_of_ne (h.ne_root ht).symm]
    exact h.root_empty
  · intro n hn x hx
    exact h.members n hn x (hsub n x hx)
  · intro n hn x hx
    exact h.alike_of T hn (hfirst n hn) (hsub n x hx)

/-- **The first child of the root can be deleted when it is empty.** -/
theorem dropTop (T : Tame s.partialOrder.compareElements E) {rest : List Nat}
    (hroot : s.children root = t :: rest) (hpo : s'.partialOrder = s.partialOrder)
    (hnext : s'.next = s.next) (hlive : s'.live = Function.update s.live t false)
    (hobjs : s'.equivObjs = Function.update s.equivObjs t [])
    (hch : s'.children = Function.update s.children root
      (rest ++ (s.children t).filter (fun c => c ∉ t :: rest))) : Sound E (N.erase t) s' := by
  have F := s.partialOrder.flips
  have htop := h.hasse.top_mem hroot
  have hobj : ∀ n, n ≠ t → s'.equivObjs n = s.equivObjs n := by
    intro n hn
    rw [hobjs, Function.update_of_ne hn]
  have hfront : ∀ n, n ≠ t → s'.front n = s.front n := by
    intro n hn
    rw [front, front, hobj n hn]
  have hlive' : ∀ n, n ≠ t → s'.live n = s.live n := by
    intro n hn
    rw [hlive, Function.update_of_ne hn]
  have hrt : root ≠ t := (h.ne_root htop).symm
  have hmem : ∀ {n}, n ∈ N.erase t → n ≠ t ∧ n ∈ N := Finset.mem_erase.mp
  -- the order is that of `removeTop`; everything else only looks at nodes that stay
  refine ⟨?_, ?_, ?_, ?_, ?_, ?_, ?_, ?_, ?_⟩
  · rw [hpo]
    show Hasse _ E ⟨root, N.erase t, s'.front, s'.children⟩
    rw [hch]
    refine (h.hasse.removeTop T F hroot).refront T F ?_
    intro n hn
    obtain ⟨hnt, hnN⟩ := hmem hn
    rw [hfront n hnt]
    exact ⟨h.front_mem hnN, Or.inl rfl⟩
  · rw [hlive' root hrt]
    exact h.live_root
  · rw [hnext]
    exact h.root_lt
  · rw [hobj root hrt]
    exact h.root_empty
  · intro n hn
    rw [hlive' n (hmem hn).1]
    exact h.live n (hmem hn).2
  · intro n hn
    rw [hnext]
    exact h.below_next n (hmem hn).2
  · intro n hn
    rw [hobj n (hmem hn).1]
    exact h.holds n (hmem hn).2
  · intro n hn
    rw [hobj n (hmem hn).1]
    exact h.members n (hmem hn).2
  · intro n hn
    rw [hobj n (hmem hn).1, hfront n (hmem hn).1, hpo]
    exact h.alike n (hmem hn).2

/-- Nothing a sorter holds is above an element of the first child of the root. -/
theorem top_unbeaten (T : Tame s.partialOrder.compareElements E) {rest : List Nat}
    (hroot : s.children root = t :: rest) {y : SendPriorityElement} (he : e ∈ s.equivObjs t)
    (hy : y ∈ s.held) : s.partialOrder.compareElements y e ≠ .gt := by
  have F := s.partialOrder.flips
  have ht := h.hasse.top_mem hroot
  obtain ⟨n, hn, hyn⟩ := h.mem_held.mp hy
  have heE := h.members t ht e he
  have hyE := h.members n hn y hyn
  have htE := h.front_mem ht
  have hnE := h.front_mem hn
  have hleft :
      s.partialOrder.compareElements y e = s.partialOrder.compareElements (s.front n) e := by
    rcases h.alike n hn y hyn with rfl | heq
    · rfl
    · exact (T.congr _ hnE _ hyE _ heE heq).symm
  have hright : s.partialOrder.compareElements (s.front n) e =
      s.partialOrder.compareElements (s.front n) (s.front t) := by
    rcases h.alike t ht e he with rfl | heq
    · rfl
    · exact (T.congr_right F htE heE hnE heq).symm
  rw [hleft, hright]
  exact h.hasse.top_maximal hroot hn

/-- **What `popTop` does**: it takes an element that nothing in the sorter is above, if there
is one, and leaves a sound sorter. The element was the first of its line. -/
theorem popTop_spec (T : Tame s.partialOrder.compareElements E) :
    (s.popTop = some (none, s) ∧ s.held = 0) ∨
      ∃ e s' N', s.popTop = some (some e, s') ∧ Sound E N' s' ∧ s.held = e ::ₘ s'.held ∧
        s'.partialOrder = s.partialOrder ∧ s'.numElements = s.numElements - 1 ∧
        (∀ y ∈ s.held, s.partialOrder.compareElements y e ≠ .gt) ∧
        ∀ c ∈ E, s.line c = if s.partialOrder.compareElements c e = .eq then e :: s'.line c
          else s'.line c := by
  cases hroot : s.children root with
  | nil =>
      left
      refine ⟨by simp only [popTop, hroot], ?_⟩
      rw [h.held_eq, h.empty_of_root T hroot, Finset.sum_empty]
  | cons t rest =>
      right
      have ht := h.hasse.top_mem hroot
      cases hobjs : s.equivObjs t with
      | nil => exact absurd hobjs (h.holds t ht)
      | cons e es =>
          have hbest : ∀ y ∈ s.held, s.partialOrder.compareElements y e ≠ .gt :=
            fun y hy => h.top_unbeaten T hroot (by rw [hobjs]; exact List.mem_cons_self) hy
          -- the other nodes hold what they held
          have hothers : ∀ f : Nat → List SendPriorityElement,
              (∀ n, n ≠ t → f n = s.equivObjs n) →
              (∑ n ∈ N.erase t, (f n : Multiset SendPriorityElement)) =
                ∑ n ∈ N.erase t, (s.equivObjs n : Multiset SendPriorityElement) := by
            intro f hf
            refine Finset.sum_congr rfl ?_
            intro n hn
            rw [hf n (Finset.mem_erase.mp hn).1]
          have hheld : s.held = ((e :: es : List SendPriorityElement) : Multiset _) +
              ∑ n ∈ N.erase t, (s.equivObjs n : Multiset SendPriorityElement) := by
            rw [h.held_eq, ← Finset.add_sum_erase N _ ht, hobjs]
          by_cases hes : es = []
          · subst hes
            -- the node is empty: its children come up
            have hlive₁ : ∀ c ∈ s.children t, s.live c = true :=
              fun c hc => h.live c (h.child_mem (Finset.mem_insert_of_mem ht) hc)
            obtain ⟨s₁, h₁, hlink₁, hch₁⟩ := addChildren_spec root (s.children t)
              (s := { s with
                equivObjs := Function.update s.equivObjs t []
                numElements := s.numElements - 1 }) hlive₁
            obtain ⟨s₂, h₂, hlink₂, hch₂⟩ := removeChild_spec (s := s₁) root (c := t)
              (by rw [hlink₁.live]; exact h.live t ht)
            have hlink := hlink₁.trans hlink₂
            have hnd : (s.children t).Nodup := h.hasse.nodup t (Finset.mem_insert_of_mem ht)
            have hch : s₂.children = Function.update s.children root
                (rest ++ (s.children t).filter (fun c => c ∉ t :: rest)) := by
              rw [hch₂, hch₁]
              rw [Function.update_self, Function.update_idem, foldl_pushNew _ _ hnd, hroot]
              rw [List.cons_append, List.erase_cons_head]
            have hdead : (s₂.delete t).live = Function.update s.live t false := by
              show Function.update s₂.live t false = _
              rw [hlink.live]
            have hsound : Sound E (N.erase t) (s₂.delete t) :=
              h.dropTop T hroot hlink.partialOrder hlink.next hdead hlink.equivObjs hch
            refine ⟨e, s₂.delete t, N.erase t, ?_, hsound, ?_, hlink.partialOrder,
              hlink.numElements, hbest, ?_⟩
            · simp only [popTop, hroot, h.live t ht, hobjs, if_true, List.length_nil]
              rw [h₁]
              simp only [Option.bind_some, h₂]
            · have hsame : ∀ n, n ≠ t → (s₂.delete t).equivObjs n = s.equivObjs n := by
                intro n hn
                show s₂.equivObjs n = s.equivObjs n
                rw [hlink.equivObjs]
                exact Function.update_of_ne hn _ _
              rw [hsound.held_eq, hheld, hothers _ hsame, Multiset.coe_singleton,
                Multiset.singleton_add]
            · intro c hc
              refine h.line_of_take T hsound hlink.partialOrder ht hobjs hlink.equivObjs ?_ ?_ hc
              · intro n hn
                rw [Finset.mem_erase, and_iff_right hn]
              · simp
          · have hsound := h.takeOne T ht hobjs hes
            refine ⟨e, _, N, ?_, hsound, ?_, rfl, rfl, hbest, ?_⟩
            · have hlen : es.length ≠ 0 := fun he => hes (List.length_eq_zero_iff.mp he)
              simp only [popTop, hroot, h.live t ht, hobjs, if_true, if_neg hlen]
            · have hsame : ∀ n, n ≠ t → Function.update s.equivObjs t es n = s.equivObjs n :=
                fun n hn => Function.update_of_ne hn _ _
              rw [hsound.held_eq, hheld, ← Finset.add_sum_erase N _ ht]
              dsimp only
              rw [hothers _ hsame, Function.update_self, ← Multiset.cons_coe, Multiset.cons_add]
            · intro c hc
              exact h.line_of_take T hsound rfl ht hobjs rfl (fun n _ => Iff.rfl)
                (iff_of_true ht hes) hc

end Sound

end TopologicalSorter

end Encoders.Send
