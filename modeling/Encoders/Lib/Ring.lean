import Mathlib.Data.List.Basic

/-!
# Rings of nodes linked both ways

A doubly linked list closed by a head: every node knows the one before it and the one behind it,
and behind the last node comes the head again. `Linked L a xs b` goes from a node through those
of a list to another one; a ring ends where it begins.

Two edits are enough for every list, a node linked in between two neighbours and a node taken
out from between them. What they need to know of the memory is which links they set, and that
all others are as they were.
-/

namespace Encoders.Lib

variable {ν : Type}

/-- The links of a memory; `none` where there is no node. -/
structure Links (ν : Type) where
  prev : ν → Option ν
  next : ν → Option ν

/-- Neighbours. -/
def Links.Joined (L : Links ν) (a b : ν) : Prop := L.next a = some b ∧ L.prev b = some a

/-- The nodes of a list lie between two others, all of them linked both ways. -/
def Linked (L : Links ν) : ν → List ν → ν → Prop
  | a, [], b => L.Joined a b
  | a, x :: xs, b => L.Joined a x ∧ Linked L x xs b

/-- A list of nodes closed by its head. -/
def Ring (L : Links ν) (h : ν) (xs : List ν) : Prop := Linked L h xs h

/-- The node before a place of a list, which is the head at its beginning. -/
def nodeBefore (h : ν) (ys : List ν) : ν := ys.getLastD h

/-- The node behind a place of a list, which is the head at its end. -/
def nodeAt (h : ν) (zs : List ν) : ν := zs.headD h

@[simp] theorem nodeBefore_cons (h y : ν) (ys : List ν) :
    nodeBefore h (y :: ys) = nodeBefore y ys := List.getLastD_cons

@[simp] theorem nodeAt_cons (h z : ν) (zs : List ν) : nodeAt h (z :: zs) = z := rfl

theorem nodeBefore_mem (h : ν) (ys : List ν) : nodeBefore h ys ∈ h :: ys := List.getLastD_mem_cons

theorem nodeAt_mem (h : ν) (zs : List ν) : nodeAt h zs ∈ h :: zs := by
  cases zs with
  | nil => exact List.mem_cons_self
  | cons z zs => exact List.mem_cons_of_mem _ List.mem_cons_self

/-- A list in two parts, the second behind the last node of the first. -/
theorem linked_append {L : Links ν} : ∀ {ys : List ν} {a : ν} {zs : List ν} {b : ν},
    Linked L a (ys ++ zs) b ↔ Linked L a ys (nodeAt b zs) ∧ Linked L (nodeBefore a ys) zs b
  | [], a, [], b => ⟨fun h => ⟨h, h⟩, fun h => h.1⟩
  | [], a, z :: zs, b => ⟨fun h => ⟨h.1, h⟩, fun h => h.2⟩
  | y :: ys, a, zs, b => by
      rw [nodeBefore_cons, List.cons_append]
      simp only [Linked, and_assoc]
      exact and_congr_right fun _ => linked_append

/-- Behind a node comes another one or the head, and before that the node itself. -/
theorem Linked.joined {L : Links ν} : ∀ {ys : List ν} {a : ν} {b : ν}, Linked L a ys b →
    L.Joined (nodeBefore a ys) b
  | [], _, _, h => h
  | y :: ys, _, _, h => by
      rw [nodeBefore_cons]
      exact Linked.joined h.2

/-- Only the links forward from its nodes and back to them matter to a list. -/
theorem Linked.congr {L L' : Links ν} : ∀ {xs : List ν} {a b : ν}, Linked L a xs b →
    (∀ x ∈ a :: xs, L'.next x = L.next x) → (∀ x ∈ xs ++ [b], L'.prev x = L.prev x) →
    Linked L' a xs b
  | [], a, b, h, hnext, hprev => by
      refine ⟨(hnext a List.mem_cons_self).trans h.1, (hprev b ?_).trans h.2⟩
      exact List.mem_singleton_self b
  | x :: xs, a, b, h, hnext, hprev => by
      refine ⟨⟨(hnext a List.mem_cons_self).trans h.1.1, (hprev x ?_).trans h.1.2⟩, ?_⟩
      · exact List.mem_cons_self
      · exact Linked.congr h.2 (fun y hy => hnext y (List.mem_cons_of_mem _ hy))
          (fun y hy => hprev y (List.mem_cons_of_mem _ hy))

/-- Another node comes behind the last one. -/
theorem Linked.new_last {L L' : Links ν} {b c : ν} : ∀ {ys : List ν} {a : ν}, Linked L a ys b →
    (a :: ys).Nodup → L'.Joined (nodeBefore a ys) c →
    (∀ x ∈ a :: ys, x ≠ nodeBefore a ys → L'.next x = L.next x) →
    (∀ x ∈ ys, L'.prev x = L.prev x) → Linked L' a ys c
  | [], _, _, _, hjoined, _, _ => hjoined
  | y :: ys, a, h, hnodup, hjoined, hnext, hprev => by
      obtain ⟨ha, hrest⟩ := List.nodup_cons.mp hnodup
      rw [nodeBefore_cons] at hjoined hnext
      refine ⟨⟨(hnext a List.mem_cons_self ?_).trans h.1.1,
          (hprev y List.mem_cons_self).trans h.1.2⟩,
        Linked.new_last h.2 hrest hjoined (fun x hx => hnext x (List.mem_cons_of_mem _ hx))
          (fun x hx => hprev x (List.mem_cons_of_mem _ hx))⟩
      intro heq
      exact ha (heq ▸ nodeBefore_mem y ys)

/-- Another node comes before the first one. -/
theorem Linked.new_first {L L' : Links ν} {a c b : ν} {zs : List ν} (h : Linked L a zs b)
    (hnodup : (zs ++ [b]).Nodup) (hjoined : L'.Joined c (nodeAt b zs))
    (hnext : ∀ x ∈ zs, L'.next x = L.next x)
    (hprev : ∀ x ∈ zs ++ [b], x ≠ nodeAt b zs → L'.prev x = L.prev x) : Linked L' c zs b := by
  cases zs with
  | nil => exact hjoined
  | cons z zs =>
      refine ⟨hjoined, Linked.congr h.2 hnext fun x hx => hprev x (List.mem_cons_of_mem _ hx) ?_⟩
      rintro rfl
      exact (List.nodup_cons.mp hnodup).1 hx

/-! ## Rings -/

theorem ring_nil {L : Links ν} {h : ν} : Ring L h [] ↔ L.next h = some h ∧ L.prev h = some h :=
  Iff.rfl

theorem Ring.joined {L : Links ν} {h : ν} {ys zs : List ν} (hr : Ring L h (ys ++ zs)) :
    L.Joined (nodeBefore h ys) (nodeAt h zs) := (linked_append.mp hr).1.joined

/-- A ring does not see what is done to other nodes. -/
theorem Ring.congr {L L' : Links ν} {h : ν} {xs : List ν} (hr : Ring L h xs)
    (hsame : ∀ x ∈ h :: xs, L'.next x = L.next x ∧ L'.prev x = L.prev x) : Ring L' h xs := by
  refine Linked.congr hr (fun x hx => (hsame x hx).1) (fun x hx => (hsame x ?_).2)
  rcases List.mem_append.mp hx with hx | hx
  · exact List.mem_cons_of_mem _ hx
  · exact List.mem_singleton.mp hx ▸ List.mem_cons_self

/-- **A node linked into a ring**, between two neighbours. -/
theorem Ring.link {L L' : Links ν} {h c : ν} {ys zs : List ν} (hr : Ring L h (ys ++ zs))
    (hnodup : (h :: (ys ++ zs)).Nodup) (hc : c ∉ h :: (ys ++ zs))
    (hbefore : L'.Joined (nodeBefore h ys) c) (hbehind : L'.Joined c (nodeAt h zs))
    (hnext : ∀ x, x ≠ nodeBefore h ys → x ≠ c → L'.next x = L.next x)
    (hprev : ∀ x, x ≠ nodeAt h zs → x ≠ c → L'.prev x = L.prev x) :
    Ring L' h (ys ++ c :: zs) := by
  obtain ⟨hys, hzs⟩ := linked_append.mp hr
  have hlast := nodeBefore_mem h ys
  have hfirst := nodeAt_mem h zs
  -- the links that are set are those of `c` and its two neighbours, and each is met once
  refine linked_append.mpr ⟨hys.new_last ?_ hbefore (fun x hx hx' => hnext x hx' ?_)
    (fun x hx => hprev x ?_ ?_), hbefore, hzs.new_first ?_ hbehind
      (fun x hx => hnext x ?_ ?_) (fun x hx hx' => hprev x hx' ?_)⟩ <;> grind

/-- **A node taken out of a ring**, and its neighbours joined. -/
theorem Ring.unlink {L L' : Links ν} {h c : ν} {ys zs : List ν} (hr : Ring L h (ys ++ c :: zs))
    (hnodup : (h :: (ys ++ c :: zs)).Nodup) (hjoined : L'.Joined (nodeBefore h ys) (nodeAt h zs))
    (hnext : ∀ x, x ≠ nodeBefore h ys → x ≠ c → L'.next x = L.next x)
    (hprev : ∀ x, x ≠ nodeAt h zs → x ≠ c → L'.prev x = L.prev x) : Ring L' h (ys ++ zs) := by
  obtain ⟨hys, -, hzs⟩ := linked_append.mp hr
  have hlast := nodeBefore_mem h ys
  have hfirst := nodeAt_mem h zs
  refine linked_append.mpr ⟨hys.new_last ?_ hjoined (fun x hx hx' => hnext x hx' ?_)
    (fun x hx => hprev x ?_ ?_), hzs.new_first ?_ hjoined
      (fun x hx => hnext x ?_ ?_) (fun x hx hx' => hprev x hx' ?_)⟩ <;> grind

end Encoders.Lib
