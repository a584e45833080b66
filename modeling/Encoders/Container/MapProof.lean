import Mathlib.Data.Set.Card
import Encoders.Lib.SortedAssoc
import Encoders.Container.Map

/-!
# `BasicMap` refines a finite map

`Holds m l` ties the array to the list of entries it stands for: the first
`number_of_entries` slots point at them. What lies behind those slots is not
described, and that is where the class can go wrong: `_insert` trusts `map_size`
to say whether one more slot was allocated, and `operator=` copies `map_size`
from the source together with an array that has no spare slot.

So the refinement is stated for programs in which an insertion of a new key finds
the slot it counts on (`Room`). In every such program no operation gets stuck and
each map behaves as the finite map obtained by replaying the same operations.
-/

namespace Encoders.Container

open Encoders.Lib

namespace BasicMap

variable {κ α : Type}
variable {m : BasicMap κ α} {l : List (κ × α)}

/-- The slots in use point at the entries of `l`, in order. -/
structure Holds (m : BasicMap κ α) (l : List (κ × α)) : Prop where
  count : m.numberOfEntries = l.length
  live : ∀ j, j < l.length → m.theMap[j]? = some l[j]?

/-- A map that believes in a spare slot has one. -/
def Room (m : BasicMap κ α) : Prop :=
  m.numberOfEntries < m.mapSize → m.numberOfEntries < m.theMap.length

instance (m : BasicMap κ α) : Decidable m.Room :=
  inferInstanceAs (Decidable (_ < _ → _ < _))

theorem Holds.deref (h : Holds m l) {j : Nat} (hj : j < l.length) : m.deref j = l[j]? := by
  rw [BasicMap.deref, h.live j hj, Option.join_some]

theorem Holds.length_le (h : Holds m l) : l.length ≤ m.theMap.length := by
  rcases Nat.eq_zero_or_pos l.length with h0 | h0
  · omega
  · have hlast := h.live (l.length - 1) (by omega)
    have := (List.getElem?_eq_some_iff.mp hlast).1
    omega

theorem holds_empty : Holds (empty : BasicMap κ α) [] :=
  ⟨rfl, fun j hj => absurd hj (by simp)⟩

/-! ## The loops over slots -/

theorem writeSlot_eq {slots : List (Option (κ × α))} {i : Nat} (p : Option (κ × α))
    (hi : i < slots.length) : writeSlot slots i p = some (slots.set i p) := by
  rw [writeSlot, if_pos hi]

theorem shiftUp_spec (pos : Nat) :
    ∀ (n : Nat) (slots : List (Option (κ × α))), n < slots.length → pos ≤ n →
      ∃ slots', shiftUp pos n slots = some slots' ∧ slots'.length = slots.length ∧
        ∀ j : Nat, slots'[j]? = if pos < j ∧ j ≤ n then slots[j - 1]? else slots[j]?
  | 0, slots, _, hp => by
      refine ⟨slots, rfl, rfl, ?_⟩
      intro j
      rw [if_neg (by omega)]
  | n + 1, slots, hn, hp => by
      rcases Nat.lt_or_ge pos (n + 1) with hlt | hge
      · -- one round copies slot `n` to slot `n + 1`; the rest shifts what lies below
        obtain ⟨s', hs', hlen, hget⟩ := shiftUp_spec pos n (slots.set (n + 1) slots[n])
          (by rw [List.length_set]; omega) (by omega)
        refine ⟨s', ?_, by rw [hlen, List.length_set], ?_⟩
        · rw [shiftUp, if_pos hlt, List.getElem?_eq_getElem (by omega)]
          simp only [Option.bind_eq_bind, Option.bind_some, writeSlot_eq _ hn]
          exact hs'
        · intro j
          rw [hget j]
          by_cases hj : j = n + 1
          · subst hj
            rw [if_neg (by omega), if_pos (by omega), List.getElem?_set_self hn,
              Nat.add_sub_cancel, List.getElem?_eq_getElem (by omega)]
          · by_cases h : pos < j ∧ j ≤ n
            · rw [if_pos h, if_pos (by omega), List.getElem?_set_ne (by omega)]
            · rw [if_neg h, if_neg (by omega), List.getElem?_set_ne (by omega)]
      · refine ⟨slots, by rw [shiftUp, if_neg (by omega)], rfl, ?_⟩
        intro j
        rw [if_neg (by omega)]

theorem copySlots_spec (src : List (Option (κ × α))) (off : Nat) :
    ∀ (n i : Nat) (dst : List (Option (κ × α))), i + n ≤ src.length →
      i + off + n ≤ dst.length →
      ∃ dst', copySlots src off i n dst = some dst' ∧ dst'.length = dst.length ∧
        ∀ j : Nat, dst'[j]? = if i + off ≤ j ∧ j < i + off + n then src[j - off]? else dst[j]?
  | 0, i, dst, _, _ => by
      refine ⟨dst, rfl, rfl, ?_⟩
      intro j
      rw [if_neg (by omega)]
  | n + 1, i, dst, hs, hd => by
      obtain ⟨d', hd', hlen, hget⟩ := copySlots_spec src off n (i + 1) (dst.set (i + off) src[i])
        (by omega) (by rw [List.length_set]; omega)
      refine ⟨d', ?_, by rw [hlen, List.length_set], ?_⟩
      · rw [copySlots, List.getElem?_eq_getElem (by omega)]
        simp only [Option.bind_eq_bind, Option.bind_some,
          writeSlot_eq src[i] (show i + off < dst.length by omega)]
        exact hd'
      · intro j
        rw [hget j]
        by_cases hj : j = i + off
        · subst hj
          rw [if_neg (by omega), if_pos (by omega), List.getElem?_set_self (by omega),
            Nat.add_sub_cancel, List.getElem?_eq_getElem (by omega)]
        · rw [List.getElem?_set_ne (by omega)]
          by_cases h : i + off ≤ j ∧ j < i + off + (n + 1)
          · rw [if_pos h, if_pos (by omega)]
          · rw [if_neg h, if_neg (by omega)]

theorem shiftDown_spec :
    ∀ (n i : Nat) (slots : List (Option (κ × α))), 0 < i → i + n ≤ slots.length →
      ∃ slots', shiftDown i n slots = some slots' ∧
        ∀ j : Nat, slots'[j]? = if i ≤ j + 1 ∧ j + 1 < i + n then slots[j + 1]? else slots[j]?
  | 0, i, slots, _, _ => by
      refine ⟨slots, rfl, ?_⟩
      intro j
      rw [if_neg (by omega)]
  | n + 1, i, slots, hi, hn => by
      obtain ⟨s', hs', hget⟩ := shiftDown_spec n (i + 1) (slots.set (i - 1) slots[i])
        (by omega) (by rw [List.length_set]; omega)
      refine ⟨s', ?_, ?_⟩
      · rw [shiftDown, List.getElem?_eq_getElem (by omega)]
        simp only [Option.bind_eq_bind, Option.bind_some,
          writeSlot_eq slots[i] (show i - 1 < slots.length by omega)]
        exact hs'
      · intro j
        rw [hget j]
        by_cases hj : j + 1 = i
        · subst hj
          rw [if_neg (by omega), if_pos (by omega), Nat.add_sub_cancel,
            List.getElem?_set_self (by omega), List.getElem?_eq_getElem (by omega)]
        · by_cases h : i ≤ j + 1 ∧ j + 1 < i + (n + 1)
          · rw [if_pos h, if_pos (by omega), List.getElem?_set_ne (by omega)]
          · rw [if_neg h, if_neg (by omega), List.getElem?_set_ne (by omega)]

/-! ## Inserting and erasing at a position -/

/-- `_insert` puts the entry at its position, provided the spare slot is real. -/
theorem Holds.insert' (h : Holds m l) {p : Nat} (x : κ × α) (hp : p ≤ l.length) (hroom : Room m) :
    ∃ m', m.insert' (some p) x = some m' ∧ Holds m' (l.insertIdx p x) := by
  have hlen := h.length_le
  have hcount := h.count
  have hins := List.length_insertIdx_of_le_length hp x
  -- the array after the entry is in: the old slots below `p`, the old ones shifted above
  have hlive : ∀ slots : List (Option (κ × α)),
      (∀ j : Nat, j < l.length + 1 → slots[j]? = if j < p then m.theMap[j]? else
        if j = p then some (some x) else m.theMap[j - 1]?) →
      ∀ j, j < (l.insertIdx p x).length → slots[j]? = some (l.insertIdx p x)[j]? := by
    intro slots hslots j hj
    rw [hslots j (by omega), List.getElem?_insertIdx]
    split_ifs with h1 h2 h3
    · exact h.live j (by omega)
    · rfl
    · omega
    · exact h.live (j - 1) (by omega)
  simp only [BasicMap.insert', Option.bind_eq_bind, Option.bind_some]
  by_cases hspare : m.numberOfEntries < m.mapSize
  · obtain ⟨s, hs, hslen, hget⟩ := shiftUp_spec p m.numberOfEntries m.theMap (hroom hspare)
      (by omega)
    have hps : p < s.length := by have := hroom hspare; omega
    refine ⟨_, by rw [if_pos hspare, hs, Option.bind_some, writeSlot_eq _ hps, Option.bind_some],
      by simp only [hins, hcount], hlive _ ?_⟩
    intro j hj
    rw [List.getElem?_set, hget j]
    split_ifs with h1 h2 h3 h4 h5 h6
    all_goals first | rfl | omega
  · obtain ⟨s, hs, hslen, hget⟩ := copySlots_spec m.theMap 0 p 0
      (List.replicate (m.numberOfEntries + 1) none) (by omega)
      (by rw [List.length_replicate]; omega)
    rw [List.length_replicate] at hslen
    obtain ⟨t, ht, htlen, htget⟩ := copySlots_spec m.theMap 1 (m.numberOfEntries - p) p
      (s.set p (some x)) (by omega) (by rw [List.length_set]; omega)
    refine ⟨_, by rw [if_neg hspare, hs, Option.bind_some, writeSlot_eq _ (by omega),
      Option.bind_some, ht, Option.bind_some], by simp only [hins, hcount], hlive _ ?_⟩
    intro j hj
    rw [htget j, List.getElem?_set, hget j]
    split_ifs with h1 h2 h3 h4 h5 h6
    all_goals first | rfl | omega

/--
`erase(iterator)` takes the entry out. The second half is about the slots behind
the position: none of them is left with the entry that was deleted.
-/
theorem Holds.erase (h : Holds m l) {i : Nat} (hi : i < l.length) :
    ∃ m', m.erase (some i) = some m' ∧ Holds m' (l.eraseIdx i) ∧
      ∀ j, i < j → j < l.length → ∃ n, i < n ∧ n < l.length ∧ m'.deref j = l[n]? := by
  have hlen := h.length_le
  have hcount := h.count
  obtain ⟨s, hs, hget⟩ := shiftDown_spec (m.numberOfEntries - (i + 1)) (i + 1)
    (m.theMap.set i none) (by omega) (by rw [List.length_set]; omega)
  refine ⟨{ m with theMap := s, numberOfEntries := m.numberOfEntries - 1 }, ?_, ⟨?_, ?_⟩, ?_⟩
  · simp only [BasicMap.erase, Option.bind_eq_bind]
    rw [if_neg (by omega), h.deref hi, List.getElem?_eq_getElem hi, Option.bind_some,
      writeSlot_eq _ (by omega), Option.bind_some, hs, Option.bind_some]
  · rw [List.length_eraseIdx_of_lt hi]
    simp only [hcount]
  · intro j hj
    rw [List.length_eraseIdx_of_lt hi] at hj
    simp only [List.getElem?_eraseIdx, hget j]
    by_cases hji : j < i
    · rw [if_neg (by omega), if_pos hji, List.getElem?_set_ne (by omega)]
      exact h.live j (by omega)
    · rw [if_pos (by omega), if_neg hji, List.getElem?_set_ne (by omega)]
      exact h.live (j + 1) (by omega)
  · intro j hij hj
    simp only [BasicMap.deref, hget j]
    by_cases hlast : j + 1 < l.length
    · refine ⟨j + 1, by omega, hlast, ?_⟩
      rw [if_pos (by omega), List.getElem?_set_ne (by omega), h.live (j + 1) hlast,
        Option.join_some]
    · refine ⟨j, hij, hj, ?_⟩
      rw [if_neg (by omega), List.getElem?_set_ne (by omega), h.live j hj, Option.join_some]

/-- A fresh array holds the entries and nothing else. -/
theorem Holds.copyEntries (h : Holds m l) : m.copyEntries = some (l.map some) := by
  have hmapM : ∀ (f : Nat → Option (Option (κ × α))) (g : Nat → Option (κ × α)) (xs : List Nat),
      (∀ x ∈ xs, f x = some (g x)) → xs.mapM f = some (xs.map g) := by
    intro f g xs
    induction xs with
    | nil => intro _; rfl
    | cons x xs ih =>
        intro hx
        rw [List.mapM_cons, hx x (by simp), ih (fun y hy => hx y (by simp [hy]))]
        rfl
  rw [BasicMap.copyEntries, hmapM _ (fun i => l[i]?), Option.some.injEq]
  · refine List.ext_getElem? ?_
    intro j
    rw [List.getElem?_map, List.getElem?_map, h.count]
    rcases Nat.lt_or_ge j l.length with hj | hj
    · rw [List.getElem?_range hj, List.getElem?_eq_getElem hj]; simp [hj]
    · rw [List.getElem?_eq_none (by simpa using hj), List.getElem?_eq_none hj]; rfl
  · intro i hi
    rw [List.mem_range, h.count] at hi
    rw [h.deref hi, List.getElem?_eq_getElem hi, Option.map_some]

theorem holds_copy (n : Nat) : Holds (⟨l.map some, l.length, n⟩ : BasicMap κ α) l := by
  refine ⟨rfl, ?_⟩
  intro j hj
  rw [List.getElem?_map, List.getElem?_eq_getElem hj, Option.map_some]

/-- Iteration visits the entries in array order. -/
theorem Holds.iterateFrom {m : BasicMap κ α} {l : List (κ × α)} (h : Holds m l) :
    ∀ (n i : Nat), l.length - i = n → i < l.length →
      m.iterateFrom (some i) = some (l.drop i)
  | 0, i, hn, hi => by omega
  | n + 1, i, hn, hi => by
      rw [BasicMap.iterateFrom, h.deref hi, List.getElem?_eq_getElem hi, BasicMap.next, h.count]
      simp only [Option.bind_eq_bind, Option.bind_some]
      rw [List.drop_eq_getElem_cons hi]
      split
      · rw [BasicMap.iterateFrom, Option.bind_some, List.drop_eq_nil_of_le (by omega)]
      · rw [Holds.iterateFrom h n (i + 1) (by omega) (by omega), Option.bind_some]

theorem Holds.iterate (h : Holds m l) : m.iterate = some l := by
  rw [BasicMap.iterate, BasicMap.begin, h.count]
  split
  · next hpos => rw [h.iterateFrom l.length 0 rfl hpos, List.drop_zero]
  · next hpos =>
      have hnil : l = [] := List.length_eq_zero_iff.mp (by omega)
      rw [BasicMap.iterateFrom, hnil]

/-! ## Search -/

section Search

variable [LinearOrder κ]
variable {m : BasicMap κ α} {l : List (κ × α)} {f : κ → Option α}
variable {k : κ}

/-- What a search reports: the entry's position, or the position the key belongs to. -/
def Reports (l : List (κ × α)) (k : κ) (r : Nat × Bool) : Prop :=
  if r.2 then ∃ v, l[r.1]? = some (k, v) else r.1 ≤ l.length ∧ Located l k r.1

/-- A report that, if asked to, gives the first of several entries with the key. -/
def Finds (l : List (κ × α)) (k : κ) (findFirst : Bool) (r : Nat × Bool) : Prop :=
  Reports l k r ∧ (r.2 = true → findFirst = true →
    ∀ (i : Nat) x, l[i]? = some x → i < r.1 → x.1 < k)

/-- Going back from an entry with the key ends at the first one. -/
theorem Holds.backtrack (h : Holds m l) (hs : Ascending l) :
    ∀ {p : Nat} {v : α}, l[p]? = some (k, v) →
    ∃ q, m.backtrack k p = some q ∧ (∃ v', l[q]? = some (k, v')) ∧
      ∀ (i : Nat) x, l[i]? = some x → i < q → x.1 < k := by
  intro p
  induction p with
  | zero =>
      intro v hp
      exact ⟨0, rfl, ⟨v, hp⟩, fun i _ _ hi => absurd hi (Nat.not_lt_zero i)⟩
  | succ p ih =>
      intro v hp
      have hlt := (List.getElem?_eq_some_iff.mp hp).1
      have hget : l[p]? = some l[p] := List.getElem?_eq_getElem (by omega)
      rw [BasicMap.backtrack, h.deref (by omega), hget]
      simp only [Option.bind_eq_bind, Option.bind_some]
      by_cases hk : l[p].1 = k
      · rw [if_pos hk]
        exact ih (v := l[p].2) (by rw [hget, ← hk])
      · rw [if_neg hk]
        have hbelow : l[p].1 < k := lt_of_le_of_ne (ascending_get_le hs hget hp (by omega)) hk
        refine ⟨p + 1, rfl, ⟨v, hp⟩, fun i x hi hip => ?_⟩
        rcases Nat.lt_or_eq_of_le (Nat.lt_succ_iff.mp hip) with hlt' | heq
        · exact lt_of_le_of_lt (ascending_get_le hs hi hget hlt') hbelow
        · subst heq
          rw [hget] at hi
          rw [← Option.some.inj hi]
          exact hbelow

/-- One past `rightMax`, with `npos` just before the first slot. -/
def upper (rightMax : Pos) : Nat := rightMax.elim 0 (· + 1)

theorem upper_pred (p : Nat) : upper (pred p) = p := by
  cases p with
  | zero => rfl
  | succ n => rfl

/--
Bisection. Keys left of `leftMin` are smaller and keys from `upper rightMax` on
are greater; `before` is one of the two ends, so it is right when they meet.
-/
theorem Holds.find' (h : Holds m l) (hs : Ascending l) (k : κ) (ff : Bool) :
    ∀ (n left : Nat) (right : Pos) (before : Nat), upper right - left = n →
      left ≤ upper right → upper right ≤ l.length →
      (∀ (i : Nat) x, l[i]? = some x → i < left → x.1 < k) →
      (∀ (i : Nat) x, l[i]? = some x → upper right ≤ i → k < x.1) →
      before = left ∨ before = upper right →
      ∃ r, m.find' k ff left right before = some r ∧ Finds l k ff r := by
  intro n
  induction n using Nat.strong_induction_on with
  | _ n ih =>
      intro left right before hn hle hlen hlo hhi hb
      -- the two ends have met: nothing between them, and the key is not there
      have hmeet : left = upper right → ∃ r, some (before, false) = some r ∧ Finds l k ff r := by
        intro heq
        have hbl : before = left := by rcases hb with hb | hb <;> omega
        subst hbl
        exact ⟨_, rfl, ⟨by omega, hlo, by rw [heq]; exact hhi⟩, fun hcon => by cases hcon⟩
      cases right with
      | none =>
          rw [BasicMap.find']
          exact hmeet (by simp only [upper, Option.elim_none] at hle ⊢; omega)
      | some r =>
          rw [BasicMap.find']
          simp only [upper, Option.elim_some] at hn hle hlen hhi hb hmeet
          by_cases hr : r < left
          · simp only [dif_pos hr]
            exact hmeet (by omega)
          · simp only [dif_neg hr]
            generalize hpos : (r - left + 1) / 2 + left = pos
            have hpl : pos < l.length := by omega
            have hget : l[pos]? = some l[pos] := List.getElem?_eq_getElem hpl
            rw [h.deref hpl, hget]
            simp only [Option.bind_eq_bind, Option.bind_some]
            -- the middle is too small, an entry of the key, or too large
            rcases lt_trichotomy l[pos].1 k with hk | hk | hk
            · rw [if_pos hk]
              refine ih (r + 1 - (pos + 1)) (by omega) (pos + 1) (some r) (pos + 1) rfl
                (by simp only [upper, Option.elim_some]; omega) hlen ?_ hhi (Or.inl rfl)
              intro i x hi hip
              rcases Nat.lt_or_eq_of_le (Nat.lt_succ_iff.mp hip) with hlt | heq
              · exact lt_of_le_of_lt (ascending_get_le hs hi hget hlt) hk
              · subst heq; rw [hget] at hi
                injection hi with hi
                rw [← hi]; exact hk
            · have hentry : l[pos]? = some (k, l[pos].2) := by rw [hget, ← hk]
              rw [if_neg (by rw [hk]; exact lt_irrefl k), if_neg (by rw [hk]; exact lt_irrefl k)]
              split
              · obtain ⟨q, hq, hqk, hfirst⟩ := h.backtrack hs hentry
                exact ⟨(q, true), by rw [hq, Option.bind_some], hqk, fun _ _ => hfirst⟩
              · next hff => exact ⟨_, rfl, ⟨l[pos].2, hentry⟩, fun _ hcon => absurd hcon hff⟩
            · rw [if_neg (lt_asymm hk), if_pos hk]
              have hup := upper_pred pos
              refine ih (pos - left) (by omega) left (pred pos) pos (by rw [hup]) (by omega)
                (by omega) hlo ?_ (Or.inr hup.symm)
              intro i x hi hip
              rw [hup] at hip
              rcases Nat.lt_or_eq_of_le hip with hlt | heq
              · exact lt_of_lt_of_le hk (ascending_get_le hs hget hi hlt)
              · subst heq; rw [hget] at hi
                injection hi with hi
                rw [← hi]; exact hk

/-- **The search is right** on a sorted array, and it always returns. -/
theorem Holds.findWhole (h : Holds m l) (hs : Ascending l) (k : κ) (ff : Bool) :
    ∃ r, m.findWhole k ff = some r ∧ Finds l k ff r := by
  have hup : upper (pred m.numberOfEntries) = l.length := by rw [upper_pred, h.count]
  refine h.find' hs k ff l.length 0 _ 0 (by omega) (by omega) (by omega) ?_ ?_ (Or.inl rfl)
  · intro i x _ hi
    exact absurd hi (Nat.not_lt_zero i)
  · intro i x hi hle
    have := (List.getElem?_eq_some_iff.mp hi).1
    omega

/-! ## Each operation against the finite map -/

/-- The array holds the entries of `l`, which are the sorted bindings of `f`. -/
structure Represents (m : BasicMap κ α) (l : List (κ × α)) (f : κ → Option α) : Prop where
  holds : Holds m l
  sorted : Sorted l
  denotes : Denotes l f

/-- The refinement relation between an array and a finite map. -/
def Refines (m : BasicMap κ α) (f : κ → Option α) : Prop := ∃ l, Represents m l f

/-- Inserting `k` does not run into a slot that was never allocated. -/
def HasRoom (m : BasicMap κ α) (k : κ) : Prop :=
  ∀ p, m.findWhole k false = some (p, false) → Room m

/-- The position handed to `insert` is the one the search gives for the key. -/
def AtSearch (m : BasicMap κ α) (pos : Pos) (k : κ) : Prop :=
  ∀ r, m.findWhole k false = some r → pos = some r.1

instance (m : BasicMap κ α) (k : κ) : Decidable (m.HasRoom k) :=
  match hr : m.findWhole k false with
  | some (p, false) =>
      decidable_of_iff m.Room ⟨fun h _ _ => h, fun h => h p hr⟩
  | some (p, true) => isTrue (fun q hq => by rw [hr] at hq; simp at hq)
  | none => isTrue (fun q hq => by rw [hr] at hq; simp at hq)

instance (m : BasicMap κ α) (pos : Pos) (k : κ) : Decidable (m.AtSearch pos k) :=
  match hr : m.findWhole k false with
  | some r =>
      decidable_of_iff (pos = some r.1)
        ⟨fun h q hq => by rw [hr] at hq; injection hq with hq; exact hq ▸ h, fun h => h r hr⟩
  | none => isTrue (fun q hq => by rw [hr] at hq; simp at hq)

theorem refines_empty : Refines (empty : BasicMap κ α) (fun _ => none) :=
  ⟨[], holds_empty, List.Pairwise.nil, fun k v => by simp⟩

/-- Insertion at the position the search gives, in the two forms the class has it. -/
theorem Represents.insertUniqueAt (h : Represents m l f) (v : α) (hroom : HasRoom m k) :
    ∃ r m' l' u, m.findWhole k false = some r ∧
      m.insertUniqueAt (some r.1) (k, v) = some m' ∧
      (if r.2 then some m else m.insert' (some r.1) (k, v)) = some m' ∧
      Represents m' l' (bindNew f k v) ∧ l'[r.1]? = some (k, u) := by
  obtain ⟨hl, hs, hd⟩ := h
  obtain ⟨⟨p, b⟩, hr, hrep, -⟩ := hl.findWhole hs.ascending k false
  cases b with
  | true =>
      obtain ⟨u, hu⟩ := hrep
      have hp : p < l.length := (List.getElem?_eq_some_iff.mp hu).1
      have hbound : bindNew f k v = f := by rw [bindNew, if_neg (by rw [hd.of_get hu]; simp)]
      refine ⟨(p, true), m, l, u, hr, ?_, rfl, ⟨hl, hs, by rw [hbound]; exact hd⟩, hu⟩
      simp only [BasicMap.insertUniqueAt, hl.count, if_pos hp, hl.deref hp, hu,
        Option.bind_eq_bind, Option.bind_some, if_true]
  | false =>
      obtain ⟨hp, hloc⟩ := hrep
      obtain ⟨m', hm', hl'⟩ := hl.insert' (k, v) hp (hroom p hr)
      refine ⟨(p, false), m', _, v, hr, ?_, hm',
        ⟨hl', hloc.sorted_insertIdx v hs hp, hloc.denotes_insertIdx v hd hp⟩, ?_⟩
      · simp only [BasicMap.insertUniqueAt, hl.count]
        split
        · next hlt =>
            have hget : l[p]? = some l[p] := List.getElem?_eq_getElem hlt
            rw [hl.deref hlt, hget, Option.bind_eq_bind, Option.bind_some,
              if_neg (ne_of_gt (hloc.above p _ hget (le_refl p)))]
            exact hm'
        · exact hm'
      · rw [List.getElem?_insertIdx_self, if_pos hp]

theorem Represents.insertUnique (h : Represents m l f) (v : α) (hroom : HasRoom m k) :
    ∃ m', m.insertUnique (k, v) = some m' ∧ Refines m' (bindNew f k v) := by
  obtain ⟨r, m', l', _, hr, _, hins, hm', _⟩ := h.insertUniqueAt v hroom
  exact ⟨m', by rw [BasicMap.insertUnique, hr]; exact hins, l', hm'⟩

/-- `operator[]` leaves a position that stands on the key's entry. -/
theorem Represents.index (h : Represents m l f) (dflt : α) (hroom : HasRoom m k) :
    ∃ m' p l' u, m.index dflt k = some (m', p) ∧ Represents m' l' (bindNew f k dflt) ∧
      l'[p]? = some (k, u) := by
  obtain ⟨r, m', l', u, hr, hat, hins, hm', hu⟩ := h.insertUniqueAt dflt hroom
  refine ⟨m', r.1, l', u, ?_, hm', hu⟩
  rw [BasicMap.index, hr]
  simp only [Option.bind_eq_bind, Option.bind_some]
  cases hb : r.2 with
  | true =>
      rw [hb] at hins
      injection hins with hins
      rw [hins]; rfl
  | false => rw [if_neg (by simp), hat, Option.bind_some]

theorem Represents.assignAt (h : Represents m l f) (dflt v : α) (hroom : HasRoom m k) :
    ∃ m', m.assignAt dflt k v = some m' ∧ Refines m' (Function.update f k (some v)) := by
  obtain ⟨m', p, l', u, hidx, ⟨hl, hs, hd⟩, hu⟩ := h.index dflt hroom
  have hupd : Function.update (bindNew f k dflt) k (some v) = Function.update f k (some v) := by
    rw [bindNew]; split
    · rw [Function.update_idem]
    · rfl
  have hp : p < l'.length := (List.getElem?_eq_some_iff.mp hu).1
  have hcap := hl.length_le
  refine ⟨{ m' with theMap := m'.theMap.set p (some (k, v)) }, ?_, l'.set p (k, v),
    ⟨by rw [List.length_set]; exact hl.count, ?_⟩, sorted_set v hs hu, ?_⟩
  · rw [BasicMap.assignAt, hidx]
    simp only [Option.bind_eq_bind, Option.bind_some, hl.deref hp, hu,
      writeSlot_eq _ (show p < m'.theMap.length by omega)]
  · intro j hj
    rw [List.length_set] at hj
    by_cases hjp : p = j
    · subst hjp
      rw [List.getElem?_set_self (by omega), List.getElem?_set_self hp]
    · rw [List.getElem?_set_ne hjp, List.getElem?_set_ne hjp]
      exact hl.live j hj
  · rw [← hupd]; exact denotes_set v hs hd hu

/-- `erase(k)`: the loop stops after one round, because no other entry has the key. -/
theorem Represents.eraseKey (h : Represents m l f) (k : κ) :
    ∃ m', m.eraseKey k = some m' ∧ Refines m' (Function.update f k none) := by
  obtain ⟨hl, hs, hd⟩ := h
  obtain ⟨⟨p, b⟩, hr, hrep, -⟩ := hl.findWhole hs.ascending k true
  simp only [BasicMap.eraseKey, BasicMap.find, hr, Option.bind_eq_bind, Option.bind_some]
  cases b with
  | false =>
      have hnone : Function.update f k none = f := by
        rw [Function.update_eq_self_iff, hrep.2.unbound hd]
      exact ⟨m, rfl, l, hl, hs, by rw [hnone]; exact hd⟩
  | true =>
      obtain ⟨v, hv⟩ := hrep
      have hp : p < l.length := (List.getElem?_eq_some_iff.mp hv).1
      obtain ⟨m', hm', hl', hbehind⟩ := hl.erase hp
      refine ⟨m', ?_, l.eraseIdx p, hl', hs.eraseIdx p, denotes_eraseIdx hs hd hv⟩
      simp only [if_true, BasicMap.eraseLoop, hl.deref hp, hv, Option.bind_eq_bind,
        Option.bind_some, hm', BasicMap.next, hl.count]
      split
      · obtain ⟨n, hn⟩ := Nat.exists_eq_succ_of_ne_zero (show l.length ≠ 0 by omega)
        rw [hn, BasicMap.eraseLoop]
      · next hlt =>
          -- the iterator was advanced before the erase: it stands on a greater key
          obtain ⟨n, hpn, hn, hder⟩ := hbehind (p + 1) (by omega) (by omega)
          obtain ⟨q, hq⟩ := Nat.exists_eq_succ_of_ne_zero (show l.length ≠ 0 by omega)
          have hget : l[n]? = some l[n] := List.getElem?_eq_getElem hn
          rw [hq, BasicMap.eraseLoop, hder, hget, Option.bind_eq_bind, Option.bind_some,
            if_neg (ne_of_gt (sorted_get_lt hs hv hget hpn))]

theorem Represents.erase (h : Represents m l f) (i : Nat) :
    ∃ m', m.erase (some i) = some m' ∧ Refines m' (unbindNth f i) := by
  obtain ⟨hl, hs, hd⟩ := h
  have hd' : Denotes (l.eraseIdx i) (unbindNth f i) := denotes_unbindNth hs hd
  rcases Nat.lt_or_ge i l.length with hi | hi
  · obtain ⟨m', hm', hl', _⟩ := hl.erase hi
    exact ⟨m', hm', l.eraseIdx i, hl', hs.eraseIdx i, hd'⟩
  · rw [List.eraseIdx_of_length_le hi] at hd'
    exact ⟨m, by rw [BasicMap.erase, hl.count, if_pos hi], l, hl, hs, hd'⟩

/-- Copies share nothing and hold the same entries, whatever size they claim. -/
theorem Represents.copy (h : Represents m l f) :
    (∃ m', m.copyConstruct = some m' ∧ Refines m' f) ∧
      ∃ m', m.assign = some m' ∧ Refines m' f := by
  obtain ⟨hl, hs, hd⟩ := h
  refine ⟨⟨⟨l.map some, l.length, l.length⟩, ?_, l, holds_copy _, hs, hd⟩,
    ⟨⟨l.map some, l.length, m.mapSize⟩, ?_, l, holds_copy _, hs, hd⟩⟩
  · rw [BasicMap.copyConstruct, hl.copyEntries, hl.count]; rfl
  · rw [BasicMap.assign, hl.copyEntries, hl.count]; rfl

/-! ## What a client observes -/

/-- `find(k)` returns an iterator to the binding of `k`, or `end()` when there is none. -/
def FindAgrees (m : BasicMap κ α) (f : κ → Option α) (k : κ) : Prop :=
  match f k with
  | none => m.find k = some none
  | some v => ∃ i, m.find k = some (some i) ∧ m.deref i = some (k, v)

/-- Sorted unique entries, and `find`, `size` and iteration that agree with `f`. -/
structure Behaves (m : BasicMap κ α) (f : κ → Option α) : Prop where
  find : ∀ k, FindAgrees m f k
  size : m.size = {k | f k ≠ none}.ncard
  iterate : ∃ l, m.iterate = some l ∧ Sorted l ∧ ∀ k v, (k, v) ∈ l ↔ f k = some v

theorem Represents.find (h : Represents m l f) (k : κ) : FindAgrees m f k := by
  obtain ⟨hl, hs, hd⟩ := h
  obtain ⟨⟨p, b⟩, hr, hrep, -⟩ := hl.findWhole hs.ascending k true
  rw [FindAgrees, BasicMap.find, hr]
  cases b with
  | false =>
      rw [hrep.2.unbound hd]
      rfl
  | true =>
      obtain ⟨v, hv⟩ := hrep
      rw [hd.of_get hv]
      exact ⟨p, rfl, by rw [hl.deref (List.getElem?_eq_some_iff.mp hv).1, hv]⟩

theorem Refines.behaves (h : Refines m f) : Behaves m f := by
  obtain ⟨l, hr⟩ := h
  refine ⟨hr.find, ?_, l, hr.holds.iterate, hr.sorted, hr.denotes⟩
  rw [BasicMap.size, hr.holds.count, hr.denotes.length_eq hr.sorted]

end Search

end BasicMap

/-! ## Whole programs -/

section Programs

variable {κ α : Type} [LinearOrder κ]

/-- The finite maps of a program. -/
abbrev FinMaps (κ α : Type) := Nat → κ → Option α

/-- What each operation means: replayed on finite maps, with no arrays in sight. -/
noncomputable def FinMaps.step (dflt : α) (a : FinMaps κ α) : MapOp κ α → FinMaps κ α
  | .insert i k v => Function.update a i (bindNew (a i) k v)
  | .insertAt i _ k v => Function.update a i (bindNew (a i) k v)
  | .index i k => Function.update a i (bindNew (a i) k dflt)
  | .assignAt i k v => Function.update a i (Function.update (a i) k (some v))
  | .eraseKey i k => Function.update a i (Function.update (a i) k none)
  | .erase _ none => a
  | .erase i (some p) => Function.update a i (unbindNth (a i) p)
  | .clear i => Function.update a i (fun _ => none)
  | .copyConstruct i j => Function.update a i (a j)
  | .assign i j => Function.update a i (a j)

/-- No step inserts a new key into a map whose spare slot does not exist. -/
def Maps.Sound (w : Maps κ α) : MapOp κ α → Prop
  | .insert i k _ => (w i).HasRoom k
  | .insertAt i pos k _ => (w i).AtSearch pos k ∧ (w i).HasRoom k
  | .index i k => (w i).HasRoom k
  | .assignAt i k _ => (w i).HasRoom k
  | _ => True

instance (w : Maps κ α) (op : MapOp κ α) : Decidable (w.Sound op) :=
  match op with
  | .insert i k _ => inferInstanceAs (Decidable ((w i).HasRoom k))
  | .insertAt i pos k _ => inferInstanceAs (Decidable ((w i).AtSearch pos k ∧ (w i).HasRoom k))
  | .index i k => inferInstanceAs (Decidable ((w i).HasRoom k))
  | .assignAt i k _ => inferInstanceAs (Decidable ((w i).HasRoom k))
  | .eraseKey _ _ | .erase _ _ | .clear _ | .copyConstruct _ _ | .assign _ _ => isTrue trivial

theorem refines_put {w : Maps κ α} {a : FinMaps κ α} (h : ∀ i, (w i).Refines (a i)) (i : Nat)
    {m : BasicMap κ α} {f : κ → Option α} (hm : m.Refines f) :
    ∀ j, (w.put i m j).Refines (Function.update a i f j) := by
  intro j
  by_cases hj : j = i
  · subst hj; rw [Maps.put, if_pos rfl, Function.update_self]; exact hm
  · rw [Maps.put, if_neg hj, Function.update_of_ne hj]; exact h j

/-- One step of a program. -/
theorem maps_step (dflt : α) (w : Maps κ α) (a : FinMaps κ α) (op : MapOp κ α)
    (h : ∀ i, (w i).Refines (a i)) (hok : w.Sound op) :
    ∃ w', w.step dflt op = some w' ∧ ∀ i, (w' i).Refines (a.step dflt op i) := by
  cases op with
  | insert i k v =>
      obtain ⟨l, hl⟩ := h i
      obtain ⟨m', hm', hr⟩ := hl.insertUnique v hok
      exact ⟨w.put i m', by rw [Maps.step, hm', Option.map_some], refines_put h i hr⟩
  | insertAt i pos k v =>
      obtain ⟨l, hl⟩ := h i
      obtain ⟨r, m', l', _, hr, hat, _, hm', _⟩ := hl.insertUniqueAt v hok.2
      rw [← hok.1 r hr] at hat
      exact ⟨w.put i m', by rw [Maps.step, hat, Option.map_some], refines_put h i ⟨l', hm'⟩⟩
  | index i k =>
      obtain ⟨l, hl⟩ := h i
      obtain ⟨m', p, l', _, hidx, hm', _⟩ := hl.index dflt hok
      exact ⟨w.put i m', by rw [Maps.step, hidx, Option.map_some], refines_put h i ⟨l', hm'⟩⟩
  | assignAt i k v =>
      obtain ⟨l, hl⟩ := h i
      obtain ⟨m', hm', hr⟩ := hl.assignAt dflt v hok
      exact ⟨w.put i m', by rw [Maps.step, hm', Option.map_some], refines_put h i hr⟩
  | eraseKey i k =>
      obtain ⟨l, hl⟩ := h i
      obtain ⟨m', hm', hr⟩ := hl.eraseKey k
      exact ⟨w.put i m', by rw [Maps.step, hm', Option.map_some], refines_put h i hr⟩
  | erase i pos =>
      cases pos with
      | none =>
          refine ⟨w, ?_, h⟩
          rw [Maps.step, BasicMap.erase, Option.map_some, Option.some.injEq]
          funext j
          rw [Maps.put]; split
          · next hj => rw [hj]
          · rfl
      | some p =>
          obtain ⟨l, hl⟩ := h i
          obtain ⟨m', hm', hr⟩ := hl.erase p
          exact ⟨w.put i m', by rw [Maps.step, hm', Option.map_some], refines_put h i hr⟩
  | clear i => exact ⟨_, rfl, refines_put h i BasicMap.refines_empty⟩
  | copyConstruct i j =>
      obtain ⟨l, hl⟩ := h j
      obtain ⟨m', hm', hr⟩ := hl.copy.1
      exact ⟨w.put i m', by rw [Maps.step, hm', Option.map_some], refines_put h i hr⟩
  | assign i j =>
      -- a map assigned to itself stays; another one becomes a copy
      by_cases hij : i = j
      · subst hij
        exact ⟨w, by rw [Maps.step, if_pos rfl], by
          rw [FinMaps.step, Function.update_eq_self]; exact h⟩
      · obtain ⟨l, hl⟩ := h j
        obtain ⟨m', hm', hr⟩ := hl.copy.2
        exact ⟨w.put i m', by rw [Maps.step, if_neg hij, hm', Option.map_some], refines_put h i hr⟩

/--
**Refinement.** In every program whose insertions find the slot they count on, no
operation gets stuck, and in the end every map behaves as the finite map the same
operations describe.
-/
theorem basicMap_refines_finMap (dflt : α) (ops : List (MapOp κ α))
    (hok : Guarded (Maps.step dflt) Maps.Sound Maps.init ops) :
    ∃ w, run (Maps.step dflt) Maps.init ops = some w ∧
      ∀ i, (w i).Behaves (ops.foldl (FinMaps.step dflt) (fun _ _ => none) i) := by
  obtain ⟨w, hw, hr⟩ := run_simulates (maps_step dflt) ops Maps.init (fun _ _ => none)
    (fun _ => BasicMap.refines_empty) hok
  exact ⟨w, hw, fun i => (hr i).behaves⟩

end Programs

/-- A program that erases, copies the map by construction, and inserts into the copy. -/
theorem basicMap_refines_finMap_copy :
    ∃ w, run (Maps.step 0) Maps.init
        [.insert 0 1 7, .assignAt 0 2 8, .eraseKey 0 1, .copyConstruct 1 0, .insert 1 3 9] =
          some w ∧
      ∀ i, (w i).Behaves (([.insert 0 1 7, .assignAt 0 2 8, .eraseKey 0 1, .copyConstruct 1 0,
        .insert 1 3 9] : List (MapOp Nat Nat)).foldl (FinMaps.step 0) (fun _ _ => none) i) :=
  basicMap_refines_finMap 0 _ (by decide +kernel)

/--
With an assignment in place of the construction the last insertion writes behind
the array: two keys were in, one was erased, so the source has a spare slot, and
the target inherits the belief in it without the slot.
-/
theorem assign_then_insert_stuck :
    ¬ ∃ w, run (Maps.step 0) Maps.init
        [.insert 0 1 7, .insert 0 2 8, .eraseKey 0 1, .assign 1 0, .insert 1 3 9] = some w ∧
      ∀ i, (w i).Behaves (([.insert 0 1 7, .insert 0 2 8, .eraseKey 0 1, .assign 1 0,
        .insert 1 3 9] : List (MapOp Nat Nat)).foldl (FinMaps.step 0) (fun _ _ => none) i) := by
  rintro ⟨w, hw, _⟩
  have hstuck : (run (Maps.step 0) Maps.init
      ([.insert 0 1 7, .insert 0 2 8, .eraseKey 0 1, .assign 1 0, .insert 1 3 9] :
        List (MapOp Nat Nat))).isSome = false := by decide +kernel
  rw [hw] at hstuck
  exact absurd hstuck (by simp)

end Encoders.Container
