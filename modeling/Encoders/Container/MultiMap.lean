import Encoders.Container.MapProof

/-!
# `BasicMap` with several entries of one key

`insert_sorted`, `equal_range` and `erase(k)` treat the class as a multimap: entries of
one key lie next to each other, and `find` goes back to the first of them. `insert_sorted`
walks on from there past smaller values, so among entries of one key the array is ordered
by value.

`erase(k)` walks along the entries of the key too, but it advances the iterator before it
erases under it. An erase moves everything behind it down by one place, so the iterator
stands one entry too far: every other entry of the key is passed over.
-/

namespace Encoders.Container

open Encoders.Lib

namespace BasicMap

variable {κ α : Type} [LinearOrder κ]
variable {m : BasicMap κ α} {l : List (κ × α)}

/-- The walk of `insert_sorted`: past the entries of the key with smaller values. -/
def walkSmaller (lt : α → α → Bool) (m : BasicMap κ α) (x : κ × α) : Nat → Pos → Option Pos
  | _, none => some none
  | 0, some _ => none
  | rounds + 1, some i => do
      let y ← m.deref i
      if y.1 = x.1 ∧ lt y.2 x.2 = true then walkSmaller lt m x rounds (m.next (some i))
      else some (some i)

/-- `insert_sorted(x)`, with `operator<` of the values. -/
def insertSorted (lt : α → α → Bool) (m : BasicMap κ α) (x : κ × α) : Option (BasicMap κ α) := do
  let tmp ← m.findWhole x.1 true
  let it ← if tmp.2 then walkSmaller lt m x (m.numberOfEntries + 1) (some tmp.1)
    else some (some tmp.1)
  m.insert' (some (it.getD m.numberOfEntries)) x

/-- The walk of `equal_range` past the last occurrence of the key. -/
def walkEqual (m : BasicMap κ α) (k : κ) : Nat → Pos → Option Pos
  | _, none => some none
  | 0, some _ => none
  | rounds + 1, some i => do
      let y ← m.deref i
      if k = y.1 then walkEqual m k rounds (m.next (some i)) else some (some i)

/-- `equal_range(k)` -/
def equalRange (m : BasicMap κ α) (k : κ) : Option (Pos × Pos) := do
  let it ← m.find k
  let high ← m.walkEqual k (m.numberOfEntries + 1) it
  some (it, high)

/-- The loop of `erase(k)`, with the number it counts. -/
def eraseCountLoop (k : κ) : Nat → BasicMap κ α → Pos → Nat → Option (BasicMap κ α × Nat)
  | _, m, none, n => some (m, n)
  | 0, _, some _, _ => none
  | rounds + 1, m, some i, n => do
      let x ← m.deref i
      if x.1 = k then
        let it := m.next (some i)
        let m' ← m.erase (some i)
        eraseCountLoop k rounds m' it (n + 1)
      else some (m, n)

/-- `erase(k)`, with the number of entries it says it has removed. -/
def eraseCount (m : BasicMap κ α) (k : κ) : Option (BasicMap κ α × Nat) := do
  let it ← m.find k
  eraseCountLoop k (m.numberOfEntries + 1) m it 0

theorem eraseLoop_eq_map (k : κ) : ∀ (rounds : Nat) (m : BasicMap κ α) (it : Pos) (n : Nat),
    eraseLoop k rounds m it = (eraseCountLoop k rounds m it n).map Prod.fst := by
  intro rounds
  induction rounds with
  | zero =>
      intro m it n
      cases it with
      | none => rfl
      | some i => rfl
  | succ rounds ih =>
      intro m it n
      cases it with
      | none => rfl
      | some i =>
          rw [eraseLoop, eraseCountLoop]
          cases m.deref i with
          | none => rfl
          | some x =>
              simp only [Option.bind_eq_bind, Option.bind_some]
              by_cases hk : x.1 = k
              · rw [if_pos hk, if_pos hk]
                cases m.erase (some i) with
                | none => rfl
                | some m' => exact ih m' _ (n + 1)
              · rw [if_neg hk, if_neg hk]
                rfl

/-- The count does not change what is erased. -/
theorem eraseKey_eq_map (m : BasicMap κ α) (k : κ) :
    m.eraseKey k = (m.eraseCount k).map Prod.fst := by
  unfold eraseKey eraseCount
  cases m.find k with
  | none => rfl
  | some it => exact eraseLoop_eq_map k _ m it 0

/-! ## Where a key begins -/

/-- `find` gives the first entry of the key, or `end()` when there is none. -/
theorem Holds.find_cases (h : Holds m l) (hs : Ascending l) (k : κ) :
    (m.find k = some none ∧ ∀ x ∈ l, x.1 ≠ k) ∨
    ∃ p v, m.find k = some (some p) ∧ l[p]? = some (k, v) ∧
      ∀ (i : Nat) x, l[i]? = some x → i < p → x.1 < k := by
  obtain ⟨⟨p, b⟩, hr, hrep, hfirst⟩ := h.findWhole hs k true
  unfold BasicMap.find
  rw [hr]
  cases b with
  | false =>
      refine Or.inl ⟨rfl, fun x hx heq => ?_⟩
      obtain ⟨i, hi⟩ := List.getElem?_of_mem hx
      rcases Nat.lt_or_ge i p with hlt | hge
      · exact absurd heq (ne_of_lt (hrep.2.below i x hi hlt))
      · exact absurd heq (ne_of_gt (hrep.2.above i x hi hge))
  | true =>
      obtain ⟨v, hv⟩ := hrep
      exact Or.inr ⟨p, v, rfl, hv, hfirst rfl rfl⟩

omit [LinearOrder κ] in
theorem next_eq (m : BasicMap κ α) (h : Holds m l) (i : Nat) :
    m.next (some i) = if l.length ≤ i + 1 then none else some (i + 1) := by
  rw [BasicMap.next, h.count]

omit [LinearOrder κ] in
/-- The array determines the list it holds. -/
theorem Holds.unique {l' : List (κ × α)} (h : Holds m l) (h' : Holds m l') : l = l' := by
  have hlen : l.length = l'.length := by rw [← h.count, ← h'.count]
  refine List.ext_getElem? (fun j => ?_)
  rcases Nat.lt_or_ge j l.length with hlt | hge
  · have heq := h.live j hlt
    rw [h'.live j (by omega)] at heq
    exact (Option.some.inj heq).symm
  · rw [List.getElem?_eq_none hge, List.getElem?_eq_none (by omega)]

/-! ## Erasing by key -/

/-- What stands before the iterator stays: the loop only erases from the iterator on. -/
theorem eraseCountLoop_keeps {k : κ} {p : Nat} {x : κ × α} : ∀ (rounds : Nat)
    {m m' : BasicMap κ α} {l : List (κ × α)} {it : Pos} {n n' : Nat}, Holds m l →
    l[p]? = some x → (∀ i, it = some i → p < i) →
    eraseCountLoop k rounds m it n = some (m', n') → ∃ l', Holds m' l' ∧ l'[p]? = some x := by
  intro rounds
  induction rounds with
  | zero =>
      intro m m' l it n n' hl hp hit h
      cases it with
      | none =>
          obtain ⟨rfl, rfl⟩ := Prod.mk.inj (Option.some.inj h)
          exact ⟨l, hl, hp⟩
      | some i => cases h
  | succ rounds ih =>
      intro m m' l it n n' hl hp hit h
      cases it with
      | none =>
          obtain ⟨rfl, rfl⟩ := Prod.mk.inj (Option.some.inj h)
          exact ⟨l, hl, hp⟩
      | some i =>
          have hpi := hit i rfl
          rw [eraseCountLoop, Option.bind_eq_bind, Option.bind_eq_some_iff] at h
          obtain ⟨y, hy, h⟩ := h
          by_cases hk : y.1 = k
          · rw [if_pos hk, Option.bind_eq_bind, Option.bind_eq_some_iff] at h
            obtain ⟨m₁, hm₁, h⟩ := h
            have hnext : ∀ j, m.next (some i) = some j → p < j := by
              intro j hj
              rw [next_eq m hl] at hj
              split at hj
              · cases hj
              · rw [← Option.some.inj hj]
                omega
            rcases Nat.lt_or_ge i l.length with hlt | hge
            · obtain ⟨m₂, hm₂, hl₂, -⟩ := hl.erase hlt
              obtain rfl := Option.some.inj (hm₁.symm.trans hm₂)
              refine ih hl₂ ?_ hnext h
              rw [List.getElem?_eraseIdx_of_lt hpi]
              exact hp
            · -- past the entries nothing is erased
              rw [BasicMap.erase, hl.count, if_pos hge] at hm₁
              obtain rfl := Option.some.inj hm₁
              exact ih hl hp hnext h
          · rw [if_neg hk] at h
            obtain ⟨rfl, rfl⟩ := Prod.mk.inj (Option.some.inj h)
            exact ⟨l, hl, hp⟩

/-- The entries of a key lie next to each other: the second one is right behind the first. -/
theorem getElem?_succ_of_two (hs : Ascending l) {k : κ} {p : Nat} {v : α} (hp : l[p]? = some (k, v))
    (hfirst : ∀ (i : Nat) x, l[i]? = some x → i < p → x.1 < k)
    (htwo : 1 < l.countP (fun x => x.1 = k)) : ∃ v', l[p + 1]? = some (k, v') := by
  obtain ⟨hlt, hget⟩ := List.getElem?_eq_some_iff.mp hp
  have hsplit : l = l.take p ++ (k, v) :: l.drop (p + 1) := by
    rw [← hget, ← List.drop_eq_getElem_cons hlt, List.take_append_drop]
  have hbefore : (l.take p).countP (fun x => x.1 = k) = 0 := by
    refine List.countP_eq_zero.mpr (fun x hx => ?_)
    obtain ⟨i, hi, heq⟩ := List.mem_take_iff_getElem.mp hx
    have := hfirst i x (by rw [List.getElem?_eq_getElem (by omega), heq]) (by omega)
    simpa using ne_of_lt this
  rw [hsplit, List.countP_append, hbefore, Nat.zero_add,
    List.countP_cons_of_pos (by simp)] at htwo
  obtain ⟨y, hy, hyk⟩ := List.countP_pos_iff.mp (Nat.lt_of_succ_lt_succ htwo)
  obtain ⟨j, hj⟩ := List.getElem?_of_mem hy
  rw [List.getElem?_drop] at hj
  have hlen := (List.getElem?_eq_some_iff.mp hj).1
  have hnext : l[p + 1]? = some l[p + 1] := List.getElem?_eq_getElem (by omega)
  have hge := ascending_get_le hs hp hnext (by omega)
  have hle : l[p + 1].1 ≤ y.1 := by
    rcases Nat.eq_zero_or_pos j with hzero | hpos
    · subst hzero
      rw [Nat.add_zero, hnext] at hj
      rw [Option.some.inj hj]
    · exact ascending_get_le hs hnext hj (by omega)
  rw [of_decide_eq_true hyk] at hle
  refine ⟨l[p + 1].2, ?_⟩
  rw [hnext, ← le_antisymm hle hge]

/-- Of several entries of a key one is passed over. -/
theorem Holds.eraseCount_leaves {m' : BasicMap κ α} {n : Nat} (h : Holds m l) (hs : Ascending l)
    {k : κ} (htwo : 1 < l.countP (fun x => x.1 = k)) (hrun : m.eraseCount k = some (m', n)) :
    ∃ l', Holds m' l' ∧ ∃ x ∈ l', x.1 = k := by
  rcases h.find_cases hs k with ⟨_, hnone⟩ | ⟨p, v, hfind, hp, hfirst⟩
  · have hzero : l.countP (fun x => x.1 = k) = 0 :=
      List.countP_eq_zero.mpr (fun x hx => by simpa using hnone x hx)
    omega
  · obtain ⟨v', hp'⟩ := getElem?_succ_of_two hs hp hfirst htwo
    have hlt := (List.getElem?_eq_some_iff.mp hp').1
    obtain ⟨m₁, hm₁, hl₁, -⟩ := h.erase (show p < l.length by omega)
    unfold eraseCount at hrun
    rw [hfind, Option.bind_eq_bind, Option.bind_some, eraseCountLoop, h.deref (by omega), hp,
      Option.bind_eq_bind, Option.bind_some, if_pos rfl, hm₁, Option.bind_eq_bind,
      Option.bind_some, next_eq m h, if_neg (by omega)] at hrun
    -- the second entry moved to the place of the first, and the iterator is behind it
    obtain ⟨l', hl', hkept⟩ := @eraseCountLoop_keeps κ α _ k p (k, v') l.length m₁ m'
      (l.eraseIdx p) (some (p + 1)) 1 n hl₁
      (by rw [List.getElem?_eraseIdx_of_ge (le_refl p)]; exact hp')
      (fun i hi => by rw [← Option.some.inj hi]; omega) (by rw [← h.count]; exact hrun)
    exact ⟨l', hl', (k, v'), List.mem_of_getElem? hkept, rfl⟩

/-- Without an entry of the key nothing happens; a single one is taken out. -/
theorem Holds.eraseCount_single (h : Holds m l) (hs : Ascending l) {k : κ}
    (hone : l.countP (fun x => x.1 = k) ≤ 1) :
    ∃ m', m.eraseCount k = some (m', l.countP (fun x => x.1 = k)) ∧
      Holds m' (l.filter (fun x => x.1 ≠ k)) := by
  unfold eraseCount
  rcases h.find_cases hs k with ⟨hfind, hnone⟩ | ⟨p, v, hfind, hp, hfirst⟩
  · have hzero : l.countP (fun x => x.1 = k) = 0 :=
      List.countP_eq_zero.mpr (fun x hx => by simpa using hnone x hx)
    have hfilter : l.filter (fun x => x.1 ≠ k) = l :=
      List.filter_eq_self.mpr (fun x hx => by simpa using hnone x hx)
    rw [hfind, hzero, hfilter]
    exact ⟨m, rfl, h⟩
  · obtain ⟨hlt, hget⟩ := List.getElem?_eq_some_iff.mp hp
    have hsplit : l = l.take p ++ (k, v) :: l.drop (p + 1) := by
      rw [← hget, ← List.drop_eq_getElem_cons hlt, List.take_append_drop]
    have hcount : l.countP (fun x => x.1 = k) = 1 := by
      have hpos : 0 < l.countP (fun x => x.1 = k) :=
        List.countP_pos_iff.mpr ⟨(k, v), List.mem_of_getElem? hp, by simp⟩
      omega
    have hothers : ∀ x ∈ l.take p ++ l.drop (p + 1), x.1 ≠ k := by
      rw [hsplit, List.countP_append, List.countP_cons_of_pos (by simp)] at hcount
      have hzero : (l.take p ++ l.drop (p + 1)).countP (fun x => x.1 = k) = 0 := by
        rw [List.countP_append]
        omega
      intro x hx
      simpa using List.countP_eq_zero.mp hzero x hx
    have hfilter : l.filter (fun x => x.1 ≠ k) = l.eraseIdx p := by
      have hself : (l.take p ++ l.drop (p + 1)).filter (fun x => x.1 ≠ k) =
          l.take p ++ l.drop (p + 1) :=
        List.filter_eq_self.mpr (fun x hx => by simpa using hothers x hx)
      rw [List.eraseIdx_eq_take_drop_succ, ← hself, List.filter_append]
      conv_lhs => rw [hsplit, List.filter_append, List.filter_cons_of_neg (by simp)]
    obtain ⟨m', hm', hl', hbehind⟩ := h.erase hlt
    refine ⟨m', ?_, by rw [hfilter]; exact hl'⟩
    rw [hfind, hcount, Option.bind_eq_bind, Option.bind_some, eraseCountLoop, h.deref hlt, hp,
      Option.bind_eq_bind, Option.bind_some, if_pos rfl, hm', Option.bind_eq_bind,
      Option.bind_some, next_eq m h, h.count]
    split
    · obtain ⟨n, hn⟩ := Nat.exists_eq_succ_of_ne_zero (show l.length ≠ 0 by omega)
      rw [hn, eraseCountLoop]
    · -- the iterator stands on an entry that was behind the erased one
      obtain ⟨q, hpq, hq, hder⟩ := hbehind (p + 1) (by omega) (by omega)
      obtain ⟨n, hn⟩ := Nat.exists_eq_succ_of_ne_zero (show l.length ≠ 0 by omega)
      have hother : l[q].1 ≠ k := by
        refine hothers l[q] (List.mem_append_right _ ?_)
        refine List.mem_of_getElem? (i := q - (p + 1)) ?_
        rw [List.getElem?_drop, show p + 1 + (q - (p + 1)) = q by omega]
        exact List.getElem?_eq_getElem hq
      rw [hn, eraseCountLoop, hder, List.getElem?_eq_getElem hq, Option.bind_eq_bind,
        Option.bind_some, if_neg hother]

/-- **`erase(k)` is complete exactly if there is at most one entry of the key.** -/
theorem Holds.eraseCount_iff (h : Holds m l) (hs : Ascending l) (k : κ) :
    (∃ m', m.eraseCount k = some (m', l.countP (fun x => x.1 = k)) ∧
      Holds m' (l.filter (fun x => x.1 ≠ k))) ↔ l.countP (fun x => x.1 = k) ≤ 1 := by
  constructor
  · intro hcomplete
    obtain ⟨m', hrun, hl'⟩ := hcomplete
    by_contra htwo
    obtain ⟨l', hl'', x, hx, hxk⟩ := h.eraseCount_leaves hs (by omega) hrun
    rw [hl''.unique hl'] at hx
    have := (List.mem_filter.mp hx).2
    exact absurd hxk (by simpa using this)
  · exact h.eraseCount_single hs

/-! ## Inserting in order -/

/-- Where `insert_sorted` goes on: at smaller keys, and at smaller values of the key. -/
def Passes (lt : α → α → Bool) (x y : κ × α) : Prop :=
  y.1 < x.1 ∨ (y.1 = x.1 ∧ lt y.2 x.2 = true)

instance (lt : α → α → Bool) (x y : κ × α) : Decidable (Passes lt x y) :=
  inferInstanceAs (Decidable (_ ∨ _))

/-- The list after `insert_sorted`. -/
def insertPast (lt : α → α → Bool) (x : κ × α) : List (κ × α) → List (κ × α)
  | [] => [x]
  | y :: ys => if Passes lt x y then y :: insertPast lt x ys else x :: y :: ys

theorem insertIdx_eq_insertPast {lt : α → α → Bool} {x : κ × α} : ∀ {l : List (κ × α)} {p : Nat},
    p ≤ l.length → (∀ (i : Nat) y, l[i]? = some y → i < p → Passes lt x y) →
    (∀ y, l[p]? = some y → ¬ Passes lt x y) → l.insertIdx p x = insertPast lt x l := by
  intro l
  induction l with
  | nil =>
      intro p hp _ _
      obtain rfl : p = 0 := by simpa using hp
      rfl
  | cons y ys ih =>
      intro p hp hpast hstop
      cases p with
      | zero =>
          rw [insertPast, if_neg (hstop y rfl), List.insertIdx_zero]
      | succ p =>
          rw [insertPast, if_pos (hpast 0 y rfl (Nat.succ_pos p)), List.insertIdx_succ_cons]
          refine congrArg (y :: ·) (ih (by simpa using hp) (fun i z hz hi => ?_) (fun z hz => ?_))
          · exact hpast (i + 1) z (by rw [List.getElem?_cons_succ]; exact hz) (by omega)
          · exact hstop z (by rw [List.getElem?_cons_succ]; exact hz)

omit [LinearOrder κ] in
/-- What holds of an entry and of those behind it up to a place holds from the entry on. -/
theorem passed_from {P : κ × α → Prop} {e : κ × α} {i p : Nat} (hget : l[i]? = some e) (he : P e)
    (hrest : ∀ (j : Nat) y, l[j]? = some y → i + 1 ≤ j → j < p → P y) :
    ∀ (j : Nat) y, l[j]? = some y → i ≤ j → j < p → P y := by
  intro j y hj hij hjp
  rcases Nat.lt_or_eq_of_le hij with hlt | heq
  · exact hrest j y hj hlt hjp
  · rw [← heq, hget] at hj
    rw [← Option.some.inj hj]
    exact he

omit [LinearOrder κ] in
/-- A walk over entries that it can pass stops at the first one it cannot, or behind the last
one. -/
theorem Holds.walk {P : κ × α → Prop} {w : Nat → Pos → Option Pos} (h : Holds m l)
    (hend : ∀ rounds, w rounds none = some none)
    (hpassed : ∀ (rounds i : Nat) y, l[i]? = some y → P y →
      w (rounds + 1) (some i) = w rounds (m.next (some i)))
    (hstopped : ∀ (rounds i : Nat) y, l[i]? = some y → ¬ P y →
      w (rounds + 1) (some i) = some (some i)) :
    ∀ (rounds i : Nat), i < l.length → l.length - i ≤ rounds →
    ∃ it, w rounds (some i) = some it ∧ i ≤ it.getD l.length ∧
      it.getD l.length ≤ l.length ∧ (∀ j, it = some j → j < l.length) ∧
      (∀ (j : Nat) y, l[j]? = some y → i ≤ j → j < it.getD l.length → P y) ∧
      ∀ y, l[it.getD l.length]? = some y → ¬ P y := by
  intro rounds
  induction rounds with
  | zero =>
      intro i hi hrounds
      omega
  | succ rounds ih =>
      intro i hi hrounds
      have hget : l[i]? = some l[i] := List.getElem?_eq_getElem hi
      by_cases hpass : P l[i]
      · rw [hpassed rounds i l[i] hget hpass, next_eq m h]
        -- one step further, and the entry passed counts
        have hfrom := fun p => passed_from (p := p) (P := P) hget hpass
        split
        · next hlast =>
            refine ⟨none, hend rounds, hi.le, le_refl _, fun j hj => (by cases hj), ?_, ?_⟩
            · exact hfrom _ (fun j y hj hij hjp => by
                have : j < l.length := hjp
                omega)
            · intro y hy
              rw [Option.getD_none, List.getElem?_eq_none (le_refl _)] at hy
              cases hy
        · next hmore =>
            obtain ⟨it, hit, hle, hlen, hin, hpast, hstop⟩ := ih (i + 1) (by omega) (by omega)
            exact ⟨it, hit, by omega, hlen, hin, hfrom _ hpast, hstop⟩
      · refine ⟨some i, hstopped rounds i l[i] hget hpass, le_refl _, hi.le,
          fun j hj => by rw [← Option.some.inj hj]; exact hi, ?_, ?_⟩
        · intro j y _ hij hjp
          have : j < i := hjp
          omega
        · intro y hy
          have : l[i]? = some y := hy
          rw [hget] at this
          rw [← Option.some.inj this]
          exact hpass

/-- The walk stops at the first entry it cannot pass, or behind the last one. -/
theorem Holds.walkSmaller {lt : α → α → Bool} {m : BasicMap κ α} {l : List (κ × α)}
    (h : Holds m l) (x : κ × α) : ∀ (rounds i : Nat), i < l.length → l.length - i ≤ rounds →
    ∃ it, m.walkSmaller lt x rounds (some i) = some it ∧ i ≤ it.getD l.length ∧
      it.getD l.length ≤ l.length ∧
      (∀ (j : Nat) y, l[j]? = some y → i ≤ j → j < it.getD l.length →
        y.1 = x.1 ∧ lt y.2 x.2 = true) ∧
      ∀ y, l[it.getD l.length]? = some y → ¬ (y.1 = x.1 ∧ lt y.2 x.2 = true) := by
  intro rounds i hi hrounds
  obtain ⟨it, hit, hle, hlen, -, hpast, hstop⟩ :=
    h.walk (P := fun y => y.1 = x.1 ∧ lt y.2 x.2 = true) (w := m.walkSmaller lt x)
      (fun rounds => by cases rounds <;> rfl)
      (fun rounds i y hy hpass => by
        rw [BasicMap.walkSmaller, h.deref (List.getElem?_eq_some_iff.mp hy).1, hy,
          Option.bind_eq_bind, Option.bind_some, if_pos hpass])
      (fun rounds i y hy hpass => by
        rw [BasicMap.walkSmaller, h.deref (List.getElem?_eq_some_iff.mp hy).1, hy,
          Option.bind_eq_bind, Option.bind_some, if_neg hpass])
      rounds i hi hrounds
  exact ⟨it, hit, hle, hlen, hpast, hstop⟩

/-- A map that does not believe in a spare slot: every insertion makes a new array. -/
def Snug (m : BasicMap κ α) : Prop := m.mapSize ≤ m.numberOfEntries

omit [LinearOrder κ] in
theorem Snug.room (h : Snug m) : Room m :=
  fun hlt => absurd h (Nat.not_le.mpr hlt)

omit [LinearOrder κ] in
theorem Snug.insert' {m' : BasicMap κ α} (h : Snug m) {pos : Pos} {x : κ × α}
    (hins : m.insert' pos x = some m') : Snug m' := by
  unfold BasicMap.insert' at hins
  obtain ⟨p, rfl, hput⟩ := Option.bind_eq_some_iff.mp hins
  rw [if_neg (Nat.not_lt.mpr h)] at hput
  dsimp only at hput
  obtain ⟨s₁, _, hput⟩ := Option.bind_eq_some_iff.mp hput
  obtain ⟨s₂, _, hput⟩ := Option.bind_eq_some_iff.mp hput
  obtain ⟨s₃, _, hput⟩ := Option.bind_eq_some_iff.mp hput
  rw [← Option.some.inj hput]
  exact Nat.succ_le_succ h

/-- **`insert_sorted` puts an entry where smaller keys, and smaller values of its key, end.** -/
theorem Holds.insertSorted {lt : α → α → Bool} {m : BasicMap κ α} {l : List (κ × α)}
    (h : Holds m l) (hs : Ascending l) (hsnug : Snug m) (x : κ × α) :
    ∃ m', m.insertSorted lt x = some m' ∧ Holds m' (insertPast lt x l) ∧ Snug m' := by
  have hplaced : ∀ p, p ≤ l.length → (∀ (i : Nat) y, l[i]? = some y → i < p → Passes lt x y) →
      (∀ y, l[p]? = some y → ¬ Passes lt x y) →
      ∃ m', m.insert' (some p) x = some m' ∧ Holds m' (insertPast lt x l) ∧ Snug m' := by
    intro p hp hpast hstop
    obtain ⟨m', hm', hl'⟩ := h.insert' x hp hsnug.room
    rw [insertIdx_eq_insertPast hp hpast hstop] at hl'
    exact ⟨m', hm', hl', hsnug.insert' hm'⟩
  obtain ⟨⟨p, b⟩, hr, hrep, hfirst⟩ := h.findWhole hs x.1 true
  unfold BasicMap.insertSorted
  rw [hr, Option.bind_eq_bind, Option.bind_some]
  cases b with
  | false =>
      obtain ⟨hp, hbelow, habove⟩ := hrep
      obtain ⟨m', hm', hl'⟩ := hplaced p hp (fun i y hy hi => Or.inl (hbelow i y hy hi))
        (fun y hy hpass => by
          have hgt := habove p y hy (le_refl p)
          rcases hpass with hlt | ⟨heq, _⟩
          · exact lt_asymm hlt hgt
          · exact ne_of_gt hgt heq)
      exact ⟨m', hm', hl'⟩
  | true =>
      obtain ⟨v, hv⟩ := hrep
      have hlt := (List.getElem?_eq_some_iff.mp hv).1
      obtain ⟨it, hit, hle, hlen, hpast, hstop⟩ :=
        @Holds.walkSmaller κ α _ lt m l h x (m.numberOfEntries + 1) p hlt (by rw [h.count]; omega)
      dsimp only
      rw [if_pos rfl, hit, Option.bind_eq_bind, Option.bind_some, h.count]
      refine hplaced _ hlen (fun i y hy hi => ?_) (fun y hy hpass => ?_)
      · rcases Nat.lt_or_ge i p with hip | hip
        · exact Or.inl (hfirst rfl rfl i y hy hip)
        · exact Or.inr (hpast i y hy hip hi)
      · rcases hpass with hless | hpass
        · -- keys do not decrease from the first entry of the key on
          have hge : x.1 ≤ y.1 := by
            rcases Nat.lt_or_eq_of_le hle with hlt' | heq
            · exact (ascending_get_le hs hv hy hlt' : (x.1, v).1 ≤ y.1)
            · rw [← heq, hv] at hy
              rw [← Option.some.inj hy]
          exact absurd hless (not_lt.mpr hge)
        · exact hstop y hy hpass

/-! ## The entries of one key -/

/-- The walk of `equal_range` ends at the first entry of another key. -/
theorem Holds.walkEqual (h : Holds m l) (k : κ) :
    ∀ (rounds i : Nat), i < l.length → l.length - i ≤ rounds →
    ∃ it, m.walkEqual k rounds (some i) = some it ∧ i ≤ it.getD l.length ∧
      it.getD l.length ≤ l.length ∧ (∀ j, it = some j → j < l.length) ∧
      (∀ (j : Nat) y, l[j]? = some y → i ≤ j → j < it.getD l.length → y.1 = k) ∧
      ∀ y, l[it.getD l.length]? = some y → y.1 ≠ k :=
  h.walk (P := fun y => y.1 = k) (w := m.walkEqual k)
    (fun rounds => by cases rounds <;> rfl)
    (fun rounds i y hy hk => by
      rw [BasicMap.walkEqual, h.deref (List.getElem?_eq_some_iff.mp hy).1, hy,
        Option.bind_eq_bind, Option.bind_some, if_pos hk.symm])
    (fun rounds i y hy hk => by
      rw [BasicMap.walkEqual, h.deref (List.getElem?_eq_some_iff.mp hy).1, hy,
        Option.bind_eq_bind, Option.bind_some, if_neg (Ne.symm hk)])

/-- A loop `for (; first != last; ++first)` that returns at the first entry to pass the test. -/
def findBetween (m : BasicMap κ α) (test : α → Bool) : Nat → Pos → Pos → Option Pos
  | 0, _, _ => none
  | rounds + 1, first, last =>
      if first = last then some none
      else do
        let i ← first
        let y ← m.deref i
        if test y.2 then some (some i) else findBetween m test rounds (m.next (some i)) last

omit [LinearOrder κ] in
theorem Holds.findBetween (h : Holds m l) (test : α → Bool) {last : Pos}
    (hlast : ∀ j, last = some j → j < l.length) :
    ∀ (rounds i : Nat), i < last.getD l.length → l.length - i < rounds →
    ∃ it, m.findBetween test rounds (some i) last = some it ∧
      (it.isSome = true ↔
        ∃ (j : Nat) (y : κ × α), l[j]? = some y ∧ i ≤ j ∧ j < last.getD l.length ∧
          test y.2 = true) ∧
      ∀ j, it = some j → i ≤ j ∧ j < last.getD l.length := by
  intro rounds
  induction rounds with
  | zero =>
      intro i _ hrounds
      omega
  | succ rounds ih =>
      intro i hi hrounds
      have hend : last.getD l.length ≤ l.length := by
        cases last with
        | none => exact le_refl _
        | some j => exact (hlast j rfl).le
      have hget : l[i]? = some l[i] := List.getElem?_eq_getElem (by omega)
      have hfewer : l.length - (i + 1) < rounds := by omega
      have hmore : rounds ≠ 0 := by omega
      have hne : some i ≠ last := by
        intro heq
        rw [← heq] at hi
        exact absurd hi (lt_irrefl _)
      rw [BasicMap.findBetween, if_neg hne, Option.bind_eq_bind, Option.bind_some,
        h.deref (by omega), hget, Option.bind_eq_bind, Option.bind_some]
      by_cases htest : test l[i].2 = true
      · rw [if_pos htest]
        refine ⟨some i, rfl, iff_of_true rfl ⟨i, l[i], hget, le_refl i, hi, htest⟩, ?_⟩
        intro j hj
        rw [← Option.some.inj hj]
        exact ⟨le_refl i, hi⟩
      · rw [if_neg htest, next_eq m h]
        have hfrom : (∃ (j : Nat) (y : κ × α), l[j]? = some y ∧ i ≤ j ∧
            j < last.getD l.length ∧ test y.2 = true) ↔
            ∃ (j : Nat) (y : κ × α), l[j]? = some y ∧ i + 1 ≤ j ∧ j < last.getD l.length ∧
              test y.2 = true := by
          constructor
          · rintro ⟨j, y, hj, hij, hjl, hy⟩
            rcases Nat.lt_or_eq_of_le hij with hlt | heq
            · exact ⟨j, y, hj, hlt, hjl, hy⟩
            · rw [← heq, hget] at hj
              rw [← Option.some.inj hj] at hy
              exact absurd hy htest
          · rintro ⟨j, y, hj, hij, hjl, hy⟩
            exact ⟨j, y, hj, by omega, hjl, hy⟩
        rw [hfrom]
        have hdone : last.getD l.length ≤ i + 1 → ∀ {it : Pos}, it = last →
            ∃ it', m.findBetween test rounds it last = some it' ∧
              (it'.isSome = true ↔ ∃ (j : Nat) (y : κ × α), l[j]? = some y ∧ i + 1 ≤ j ∧
                j < last.getD l.length ∧ test y.2 = true) ∧
              ∀ j, it' = some j → i ≤ j ∧ j < last.getD l.length := by
          intro hle it heq
          obtain ⟨r, hr⟩ := Nat.exists_eq_succ_of_ne_zero hmore
          refine ⟨none, by rw [hr, BasicMap.findBetween, if_pos heq], ?_, fun j hj => by cases hj⟩
          refine iff_of_false Bool.false_ne_true ?_
          rintro ⟨j, y, _, hij, hjl, _⟩
          omega
        split
        · next hend' =>
            -- behind the last entry: so does the range
            have hnone : last = none := by
              cases last with
              | none => rfl
              | some j =>
                  have hj := hlast j rfl
                  have hi : i < j := hi
                  omega
            rw [hnone] at hdone ⊢
            exact hdone (by rw [Option.getD_none]; omega) rfl
        · next hmore =>
            rcases Nat.lt_or_ge (i + 1) (last.getD l.length) with hlt | hge
            · obtain ⟨it, hit, hiff, hin⟩ := ih (i + 1) hlt hfewer
              exact ⟨it, hit, hiff, fun j hj => ⟨by have := (hin j hj).1; omega, (hin j hj).2⟩⟩
            · refine hdone hge ?_
              cases last with
              | none =>
                  have hge : l.length ≤ i + 1 := hge
                  omega
              | some j =>
                  have hge : j ≤ i + 1 := hge
                  have hi : i < j := hi
                  rw [show i + 1 = j by omega]

end BasicMap

end Encoders.Container
