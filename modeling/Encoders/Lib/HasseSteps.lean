import Encoders.Lib.Hasse

/-!
# Changes to a diagram

Three things happen to a diagram: the first child of the root goes and its children come
up, a node gets another value as good as its own, and a new node comes in. Each keeps
`Hasse`. For the last one `Inserted` says what the walk from the root must have done, in
whatever order it went; and a value as good as one that is there already is linked
nowhere.
-/

namespace Encoders.Lib

open Diagram

variable {α : Type} {cmp : α → α → Comparison} {E : List α} {D : Diagram α}

/-! ## The first child of the root goes -/

/-- The first child of the root is gone, and its children stand behind the others. -/
def Diagram.removeTop (D : Diagram α) (t : Nat) (rest : List Nat) : Diagram α :=
  { D with
    nodes := D.nodes.erase t
    children := Function.update D.children D.root
      (rest ++ (D.children t).filter (fun c => c ∉ t :: rest)) }

namespace Hasse

section RemoveTop

variable (h : Hasse cmp E D) (T : Tame cmp E) (F : Flips cmp) {t : Nat} {rest : List Nat}
  (hroot : D.children D.root = t :: rest)

theorem removeTop_children {u : Nat} (hu : u ≠ D.root) :
    (D.removeTop t rest).children u = D.children u := by
  simp only [removeTop, Function.update_of_ne hu]

theorem removeTop_children_root : (D.removeTop t rest).children D.root =
    rest ++ (D.children t).filter (fun c => c ∉ t :: rest) := by
  simp only [removeTop, Function.update_self]

include h hroot

theorem top_mem : t ∈ D.nodes :=
  h.closed D.root (Finset.mem_insert_self _ _) t (by rw [hroot]; exact List.mem_cons_self)

theorem rest_mem {c : Nat} (hc : c ∈ rest) : c ∈ D.nodes ∧ c ≠ t := by
  refine ⟨h.closed D.root (Finset.mem_insert_self _ _) c (by rw [hroot]; simp [hc]), ?_⟩
  have hnd := h.nodup D.root (Finset.mem_insert_self _ _)
  rw [hroot] at hnd
  rintro rfl
  exact (List.nodup_cons.mp hnd).1 hc

/-- Nothing has the first child of the root for a child, but the root. -/
theorem top_not_child {u : Nat} (hu : u ∈ D.nodes) : t ∉ D.children u :=
  fun hc => h.top_maximal hroot hu (h.edge u hu t hc)

include F in
theorem mem_removeTop_root {c : Nat} (hc : c ∈ (D.removeTop t rest).children D.root) :
    c ∈ D.nodes ∧ c ≠ t := by
  rw [removeTop_children_root] at hc
  rcases List.mem_append.mp hc with hc | hc
  · exact h.rest_mem hroot hc
  · have hct := (List.mem_filter.mp hc).1
    have ht := h.top_mem hroot
    refine ⟨h.closed t (Finset.mem_insert_of_mem ht) c hct, ?_⟩
    rintro rfl
    exact F.gt_irrefl _ (h.edge c ht c hct)

omit h in
/-- What could be reached still can. -/
theorem removeTop_reach {n : Nat} (hp : D.Path D.root n) (hne : n ≠ t) :
    (D.removeTop t rest).Path D.root n := by
  induction hp with
  | refl => exact Relation.ReflTransGen.refl
  | @tail b c _ hbc ih =>
      by_cases hb : b = t
      · -- the children of the node that goes come up to the root
        subst hb
        refine Relation.ReflTransGen.single ?_
        show c ∈ (D.removeTop b rest).children D.root
        rw [removeTop_children_root]
        by_cases hin : c ∈ rest
        · exact List.mem_append_left _ hin
        · refine List.mem_append_right _ (List.mem_filter.mpr ⟨hbc, ?_⟩)
          simp [hne, hin]
      · refine (ih hb).tail ?_
        show c ∈ (D.removeTop t rest).children b
        by_cases hbr : b = D.root
        · subst hbr
          have hc : c ∈ t :: rest := hroot ▸ hbc
          rw [removeTop_children_root]
          exact List.mem_append_left _ ((List.mem_cons.mp hc).resolve_left hne)
        · rw [removeTop_children hbr]
          exact hbc

include T F

/-- What is beside the node that goes, and above one of its children, is a child of the root. -/
theorem beside_top {y d : Nat} (hy : y ∈ D.nodes) (hd : d ∈ D.children t)
    (hnc : cmp (D.front t) (D.front y) = .nc) (hyd : cmp (D.front y) (D.front d) = .gt) :
    y ∈ t :: rest := by
  obtain ⟨r, hr, hrN, -, hry⟩ := h.below_root T hy
  rw [hroot] at hr
  rcases hry with rfl | hry
  · exact hr
  -- otherwise a child of the root is above `y`, and makes a fork with a node in between
  have ht := h.top_mem hroot
  have hdN := h.closed t (Finset.mem_insert_of_mem ht) d hd
  have htE := h.front_mem t ht
  have hrE := h.front_mem r hrN
  have hyE := h.front_mem y hy
  have hdE := h.front_mem d hdN
  have htop : cmp (D.front r) (D.front t) ≠ .gt := h.top_maximal hroot hrN
  cases hrt : cmp (D.front r) (D.front t) with
  | gt => exact absurd hrt htop
  | eq =>
      have hsame := T.congr _ hrE _ htE _ hyE hrt
      rw [hry, hnc] at hsame
      exact absurd hsame (by decide)
  | lt =>
      have hty := T.trans _ htE _ hrE _ hyE (F.gt_iff.mpr hrt) hry
      rw [hnc] at hty
      exact absurd hty (by decide)
  | nc =>
      have hrd := T.trans _ hrE _ hyE _ hdE hry hyd
      exact absurd ⟨hry, hyd⟩
        (T.fork _ hrE _ htE _ hdE _ hyE hrt hrd (h.edge t ht d hd))

/-- **The children that come up stand behind everything above them.** -/
theorem removeTop_order {y d : Nat} (hd : d ∈ (D.removeTop t rest).children D.root)
    (hy : y ∈ D.nodes) (hyt : y ≠ t) (hyd : cmp (D.front y) (D.front d) = .gt) :
    [y, d].Sublist ((D.removeTop t rest).children D.root) ∧
      Forked cmp E (D.front y) (D.front d) := by
  have hmem := Finset.mem_insert_self D.root D.nodes
  rw [removeTop_children_root] at hd ⊢
  rcases List.mem_append.mp hd with hd | hd
  · obtain ⟨hsub, hfork⟩ := h.order D.root hmem d (by rw [hroot]; simp [hd]) y hy (Or.inl rfl) hyd
    rw [hroot] at hsub
    refine ⟨?_, hfork⟩
    cases hsub with
    | cons _ hsub => exact hsub.trans (List.sublist_append_left _ _)
    | cons_cons _ _ => exact absurd rfl hyt
  · obtain ⟨hdt, hdnew⟩ := List.mem_filter.mp hd
    have ht := h.top_mem hroot
    have htE := h.front_mem t ht
    have hyE := h.front_mem y hy
    -- a sibling in the root list is before every child that comes up
    have hbehind : y ∈ rest →
        [y, d].Sublist (rest ++ (D.children t).filter (fun c => c ∉ t :: rest)) :=
      fun hyr => List.Sublist.append (List.singleton_sublist.mpr hyr) (List.singleton_sublist.mpr hd)
    cases hty : cmp (D.front t) (D.front y) with
    | lt => exact absurd (F.gt_iff.mpr hty) (h.top_maximal hroot hy)
    | eq => exact absurd (h.apart t ht y hy hty).symm hyt
    | gt =>
        obtain ⟨hsub, hfork⟩ := h.order t (Finset.mem_insert_of_mem ht) d hdt y hy (Or.inr hty) hyd
        refine ⟨?_, hfork⟩
        by_cases hyr : y ∈ rest
        · exact hbehind hyr
        · have hkeep : [y, d].filter (fun c => c ∉ t :: rest) = [y, d] := by
            refine List.filter_eq_self.mpr ?_
            intro c hc
            rcases List.mem_cons.mp hc with rfl | hc
            · simp [hyt, hyr]
            · rw [List.mem_singleton.mp hc]
              exact hdnew
          rw [← hkeep]
          exact (hsub.filter _).trans (List.sublist_append_right _ _)
    | nc =>
        have hyr := (List.mem_cons.mp (h.beside_top T F hroot hy hdt hty hyd)).resolve_left hyt
        exact ⟨hbehind hyr, D.front t, htE, hty, h.edge t ht d hdt⟩

/-- **The first child of the root can go.** -/
theorem removeTop : Hasse cmp E (D.removeTop t rest) := by
  have hN : ∀ {n}, n ∈ (D.removeTop t rest).nodes ↔ n ≠ t ∧ n ∈ D.nodes := Finset.mem_erase
  have hchild : ∀ {u}, u ∈ D.nodes → (D.removeTop t rest).children u = D.children u :=
    fun hu => removeTop_children (h.ne_root hu)
  refine ⟨?_, ?_, ?_, ?_, ?_, ?_, ?_, ?_, ?_⟩
  · intro hr
    exact h.root_notMem (hN.mp hr).2
  · intro n hn
    exact h.front_mem n (hN.mp hn).2
  · intro u hu c hc
    rcases Finset.mem_insert.mp hu with rfl | hu
    · obtain ⟨hcN, hct⟩ := h.mem_removeTop_root F hroot hc
      exact hN.mpr ⟨hct, hcN⟩
    · obtain ⟨-, huN⟩ := hN.mp hu
      rw [hchild huN] at hc
      refine hN.mpr ⟨?_, h.closed u (Finset.mem_insert_of_mem huN) c hc⟩
      rintro rfl
      exact h.top_not_child hroot huN hc
  · intro u hu
    rcases Finset.mem_insert.mp hu with rfl | hu
    · show ((D.removeTop t rest).children D.root).Nodup
      rw [removeTop_children_root]
      have hnd := h.nodup D.root (Finset.mem_insert_self _ _)
      rw [hroot] at hnd
      have ht := h.nodup t (Finset.mem_insert_of_mem (h.top_mem hroot))
      refine (List.nodup_append).mpr ⟨(List.nodup_cons.mp hnd).2, ht.filter _, ?_⟩
      rintro a ha b hb rfl
      have hnew := (List.mem_filter.mp hb).2
      simp [ha] at hnew
    · rw [hchild (hN.mp hu).2]
      exact h.nodup u (Finset.mem_insert_of_mem (hN.mp hu).2)
  · intro u hu c hc
    rw [hchild (hN.mp hu).2] at hc
    exact h.edge u (hN.mp hu).2 c hc
  · intro n hn
    exact removeTop_reach hroot (h.reach n (hN.mp hn).2) (hN.mp hn).1
  · intro n hn m hm
    exact h.apart n (hN.mp hn).2 m (hN.mp hm).2
  · intro u hu d hd y hy habove hyd
    obtain ⟨hyt, hyN⟩ := hN.mp hy
    rcases Finset.mem_insert.mp hu with rfl | hu
    · exact h.removeTop_order T F hroot hd hyN hyt hyd
    · obtain ⟨-, huN⟩ := hN.mp hu
      rw [hchild huN] at hd ⊢
      exact h.order u (Finset.mem_insert_of_mem huN) d hd y hyN habove hyd
  · intro u hu y hy hgt
    obtain ⟨-, huN⟩ := hN.mp hu
    rcases h.cover u huN y (hN.mp hy).2 hgt with hp | hfork
    · left
      -- no path from a node goes through the root
      clear hu hgt hy
      induction hp using Relation.ReflTransGen.head_induction_on with
      | refl => exact Relation.ReflTransGen.refl
      | @head b c hbc _ ih =>
          have hcN := h.closed b (Finset.mem_insert_of_mem huN) c hbc
          refine Relation.ReflTransGen.head ?_ (ih hcN)
          show c ∈ (D.removeTop t rest).children b
          rw [hchild huN]
          exact hbc
    · exact Or.inr hfork

end RemoveTop

/-! ## A node gets another value as good as its own -/

/-- **The value of a node can be exchanged for an equal one.** -/
theorem refront (h : Hasse cmp E D) (T : Tame cmp E) (F : Flips cmp) {front : Nat → α}
    (hfront : ∀ n ∈ D.nodes, front n ∈ E ∧
      (front n = D.front n ∨ cmp (D.front n) (front n) = .eq)) :
    Hasse cmp E { D with front := front } := by
  -- every comparison of two nodes, and of a node with a value, comes out as before
  have hleft : ∀ n ∈ D.nodes, ∀ z ∈ E, cmp (front n) z = cmp (D.front n) z := by
    intro n hn z hz
    obtain ⟨hE, heq | heq⟩ := hfront n hn
    · rw [heq]
    · exact (T.congr _ (h.front_mem n hn) _ hE z hz heq).symm
  have hright : ∀ n ∈ D.nodes, ∀ z ∈ E, cmp z (front n) = cmp z (D.front n) := by
    intro n hn z hz
    rw [F (front n) z, F (D.front n) z, hleft n hn z hz]
  have hboth : ∀ n ∈ D.nodes, ∀ m ∈ D.nodes,
      cmp (front n) (front m) = cmp (D.front n) (D.front m) := by
    intro n hn m hm
    rw [hleft n hn _ (hfront m hm).1, hright m hm _ (h.front_mem n hn)]
  have hfork : ∀ n ∈ D.nodes, ∀ m ∈ D.nodes, Forked cmp E (D.front n) (D.front m) →
      Forked cmp E (front n) (front m) := by
    rintro n hn m hm ⟨a, ha, hnc, hgt⟩
    exact ⟨a, ha, by rw [hright n hn a ha, hnc], by rw [hright m hm a ha, hgt]⟩
  refine ⟨h.root_notMem, fun n hn => (hfront n hn).1, h.closed, h.nodup, ?_, h.reach, ?_, ?_, ?_⟩
  · intro u hu c hc
    show cmp (front u) (front c) = .gt
    rw [hboth u hu c (h.closed u (Finset.mem_insert_of_mem hu) c hc)]
    exact h.edge u hu c hc
  · intro n hn m hm heq
    exact h.apart n hn m hm (by rw [← hboth n hn m hm]; exact heq)
  · intro u hu d hd y hy habove hyd
    have hdN := h.closed u hu d hd
    have hyd' : cmp (D.front y) (D.front d) = .gt := by rw [← hboth y hy d hdN]; exact hyd
    have habove' : D.Above cmp u (D.front y) := by
      rcases Finset.mem_insert.mp hu with hu | hu
      · exact Or.inl hu
      · refine habove.imp id (fun hgt => ?_)
        rw [← hboth u hu y hy]
        exact hgt
    obtain ⟨hsub, hf⟩ := h.order u hu d hd y hy habove' hyd'
    exact ⟨hsub, hfork y hy d hdN hf⟩
  · intro u hu y hy hgt
    refine (h.cover u hu y hy (by rw [← hboth u hu y hy]; exact hgt)).imp id ?_
    exact hfork u hu y hy

/-- Only what the nodes in use and the root have counts. -/
theorem of_same (h : Hasse cmp E D) {D' : Diagram α} (hroot : D'.root = D.root)
    (hnodes : D'.nodes = D.nodes) (hfront : ∀ n ∈ D.nodes, D'.front n = D.front n)
    (hch : ∀ u ∈ insert D.root D.nodes, D'.children u = D.children u) : Hasse cmp E D' := by
  -- a path never leaves the nodes, so every edge of it is one of the other diagram
  have hpath : ∀ {u n}, u ∈ insert D.root D.nodes → D.Path u n → D'.Path u n := by
    intro u n hu hp
    induction hp using Relation.ReflTransGen.head_induction_on with
    | refl => exact Relation.ReflTransGen.refl
    | @head b c hbc _ ih =>
        have hstep : c ∈ D'.children b := by
          rw [hch b hu]
          exact hbc
        exact Relation.ReflTransGen.head hstep
          (ih (Finset.mem_insert_of_mem (h.closed b hu c hbc)))
  obtain ⟨root', nodes', front', children'⟩ := D'
  dsimp only at hroot hnodes hfront hch
  subst hroot hnodes
  have hcN : ∀ u ∈ insert D.root D.nodes, ∀ c ∈ children' u, c ∈ D.nodes := by
    intro u hu c hc
    rw [hch u hu] at hc
    exact h.closed u hu c hc
  refine ⟨h.root_notMem, ?_, hcN, ?_, ?_, ?_, ?_, ?_, ?_⟩
  · intro n hn
    show front' n ∈ E
    rw [hfront n hn]
    exact h.front_mem n hn
  · intro u hu
    show (children' u).Nodup
    rw [hch u hu]
    exact h.nodup u hu
  · intro u hu c hc
    have hu' : u ∈ insert D.root D.nodes := Finset.mem_insert_of_mem hu
    show cmp (front' u) (front' c) = .gt
    rw [hfront u hu, hfront c (hcN u hu' c hc)]
    exact h.edge u hu c (by rw [← hch u hu']; exact hc)
  · intro n hn
    exact hpath (Finset.mem_insert_self _ _) (h.reach n hn)
  · intro n hn m hm heq
    have heq' : cmp (front' n) (front' m) = .eq := heq
    rw [hfront n hn, hfront m hm] at heq'
    exact h.apart n hn m hm heq'
  · intro u hu d hd y hy habove hyd
    have hd' : d ∈ D.children u := by
      rw [← hch u hu]
      exact hd
    have hdN := h.closed u hu d hd'
    have hyd' : cmp (front' y) (front' d) = .gt := hyd
    rw [hfront y hy, hfront d hdN] at hyd'
    have habove' : D.Above cmp u (D.front y) := by
      rcases Finset.mem_insert.mp hu with hur | huN
      · exact Or.inl hur
      · refine habove.imp id (fun hgt => ?_)
        have hgt' : cmp (front' u) (front' y) = .gt := hgt
        rwa [hfront u huN, hfront y hy] at hgt'
    obtain ⟨hsub, hfork⟩ := h.order u hu d hd' y hy habove' hyd'
    show [y, d].Sublist (children' u) ∧ Forked cmp E (front' y) (front' d)
    rw [hch u hu, hfront y hy, hfront d hdN]
    exact ⟨hsub, hfork⟩
  · intro u hu y hy hgt
    have hgt' : cmp (front' u) (front' y) = .gt := hgt
    rw [hfront u hu, hfront y hy] at hgt'
    show Diagram.Path _ u y ∨ Forked cmp E (front' u) (front' y)
    rw [hfront u hu, hfront y hy]
    exact (h.cover u hu y hy hgt').imp (hpath (Finset.mem_insert_of_mem hu)) id

end Hasse

/-! ## A new node comes in -/

/-- What the walk from the root does to a diagram for a new node `v` with the value `x`. -/
structure Inserted (cmp : α → α → Comparison) (D D' : Diagram α) (v : Nat) (x : α) : Prop where
  root_eq : D'.root = D.root
  nodes_eq : D'.nodes = insert v D.nodes
  front_new : D'.front v = x
  front_old : ∀ n ∈ D.nodes, D'.front n = D.front n
  /-- Nodes that are not above the new value keep their children. -/
  kept : ∀ u ∈ D.nodes, cmp (D.front u) x ≠ .gt → D'.children u = D.children u
  /-- The others lose some, and get the new node at the end or not. -/
  trimmed : ∀ u ∈ insert D.root D.nodes, D.Above cmp u x →
    ∃ l, l.Sublist (D.children u) ∧ (D'.children u = l ∨ D'.children u = l ++ [v])
  /-- What they lose is below the new value. -/
  lost : ∀ u ∈ insert D.root D.nodes, D.Above cmp u x → ∀ c ∈ D.children u,
    (c ∈ D'.children u ↔ cmp x (D.front c) ≠ .gt)
  joined : ∀ u ∈ insert D.root D.nodes, D.Above cmp u x → (v ∈ D'.children u ↔ D.Joins cmp x u)
  /-- The new node gets what they lose. -/
  gained : ∀ c, c ∈ D'.children v ↔
    cmp x (D.front c) = .gt ∧ ∃ u ∈ insert D.root D.nodes, D.Above cmp u x ∧ c ∈ D.children u
  nodup : (D'.children v).Nodup
  sorted : ∀ d ∈ D'.children v, ∀ y ∈ D.nodes, cmp x (D.front y) = .gt →
    cmp (D.front y) (D.front d) = .gt → [y, d].Sublist (D'.children v)

end Encoders.Lib
