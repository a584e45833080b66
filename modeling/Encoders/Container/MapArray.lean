import Encoders.Container.MultiMap

/-!
# How far `BasicMap` reaches into its array

`map_size` is what the class believes it has allocated. It is set in five places: by the
constructors, by `clear`, by `_insert` when it makes a new array, and by `operator=`. An
erasure leaves it alone, so that it may come to be greater than the number of entries, and
`_insert` then writes behind the entries without asking the array.

The entries need not be in order here. `insert` takes any iterator, so an array may hold the
keys in any order; the search still stops, and it looks at slots in use only.
-/

namespace Encoders.Container

open Encoders.Lib

namespace BasicMap

variable {κ α : Type}
variable {m : BasicMap κ α} {l : List (κ × α)}

/-- The array is as long as the class believes, and the entries fit in. -/
structure Within (m : BasicMap κ α) : Prop where
  allocated : m.mapSize ≤ m.theMap.length
  fits : m.numberOfEntries ≤ m.mapSize

instance (m : BasicMap κ α) : Decidable m.Within :=
  decidable_of_iff (m.mapSize ≤ m.theMap.length ∧ m.numberOfEntries ≤ m.mapSize)
    ⟨fun h => ⟨h.1, h.2⟩, fun h => ⟨h.allocated, h.fits⟩⟩

/-- `begin()`, advanced by `++` so many times. -/
def iterator (m : BasicMap κ α) (steps : Nat) : Pos := m.next^[steps] m.begin

theorem iterator_eq (m : BasicMap κ α) (steps : Nat) :
    m.iterator steps = if steps < m.numberOfEntries then some steps else none := by
  induction steps with
  | zero => rfl
  | succ steps ih =>
      rw [iterator, Function.iterate_succ_apply', ← iterator, ih]
      by_cases hlt : steps < m.numberOfEntries
      · rw [if_pos hlt, next]
        by_cases hlast : m.numberOfEntries ≤ steps + 1
        · rw [if_pos hlast, if_neg (by omega)]
        · rw [if_neg hlast, if_pos (by omega)]
      · rw [if_neg hlt, if_neg (by omega)]
        rfl

/-- `insert(x)`, which allows several entries of one key: at the first of them. -/
def insertFirst [LinearOrder κ] (m : BasicMap κ α) (x : κ × α) : Option (BasicMap κ α) := do
  let tmp ← m.findWhole x.1 true
  m.insert' (some tmp.1) x

/-! ## What the search looks at -/

theorem Holds.backtrack_le [LinearOrder κ] (h : Holds m l) (k : κ) :
    ∀ {p : Nat}, p < l.length → ∃ q, m.backtrack k p = some q ∧ q ≤ p := by
  intro p
  induction p with
  | zero => exact fun _ => ⟨0, rfl, le_refl 0⟩
  | succ p ih =>
      intro hp
      have hget : l[p]? = some l[p] := List.getElem?_eq_getElem (by omega)
      rw [BasicMap.backtrack, h.deref (by omega), hget]
      simp only [Option.bind_eq_bind, Option.bind_some]
      by_cases hk : l[p].1 = k
      · rw [if_pos hk]
        obtain ⟨q, hq, hle⟩ := ih (by omega)
        exact ⟨q, hq, by omega⟩
      · rw [if_neg hk]
        exact ⟨p + 1, rfl, le_refl _⟩

/-- Bisection stays between its two ends, whatever the order of the entries. -/
theorem Holds.find'_reach [LinearOrder κ] (h : Holds m l) (k : κ) (ff : Bool) :
    ∀ (n left : Nat) (right : Pos) (before : Nat), upper right - left = n →
      upper right ≤ l.length → before ≤ l.length →
      ∃ r, m.find' k ff left right before = some r ∧ r.1 ≤ l.length ∧
        (r.2 = true → r.1 < l.length) := by
  intro n
  induction n using Nat.strong_induction_on with
  | _ n ih =>
      intro left right before hn hlen hbefore
      have hnone : ∃ r, some (before, false) = some r ∧ r.1 ≤ l.length ∧
          (r.2 = true → r.1 < l.length) := ⟨_, rfl, hbefore, fun hcon => by cases hcon⟩
      cases right with
      | none =>
          rw [BasicMap.find']
          exact hnone
      | some r =>
          rw [BasicMap.find']
          simp only [upper, Option.elim_some] at hn hlen
          by_cases hr : r < left
          · rw [dif_pos hr]
            exact hnone
          · simp only [dif_neg hr]
            generalize hpos : (r - left + 1) / 2 + left = pos
            have hpl : pos < l.length := by omega
            rw [h.deref hpl, List.getElem?_eq_getElem hpl]
            simp only [Option.bind_eq_bind, Option.bind_some]
            split_ifs with hless hmore
            · -- the key in the middle is less: on to the right half
              exact ih (r + 1 - (pos + 1)) (by omega) (pos + 1) (some r) (pos + 1) rfl hlen
                (by omega)
            · -- it is greater: on to the left half
              have hup := upper_pred pos
              exact ih (pos - left) (by omega) left (pred pos) pos (by rw [hup]) (by omega)
                (by omega)
            · -- it is equal, and the walk back finds the first of its run
              obtain ⟨q, hq, hle⟩ := h.backtrack_le k hpl
              exact ⟨(q, true), by rw [hq, Option.bind_some], by simp only; omega,
                fun _ => by simp only; omega⟩
            · exact ⟨(pos, true), rfl, hpl.le, fun _ => hpl⟩

/-- The search returns: an entry, or a place among the entries or right behind them. -/
theorem Holds.findWhole_reach [LinearOrder κ] (h : Holds m l) (k : κ) (ff : Bool) :
    ∃ r, m.findWhole k ff = some r ∧ r.1 ≤ l.length ∧ (r.2 = true → r.1 < l.length) := by
  have hup : upper (pred m.numberOfEntries) = l.length := by rw [upper_pred, h.count]
  exact h.find'_reach k ff l.length 0 _ 0 (by omega) (by omega) (Nat.zero_le _)

/-! ## Each operation -/

/-- A map in order: its slots in use point at entries, and they lie within the array. -/
def Kept (m : BasicMap κ α) : Prop := m.Within ∧ ∃ l, Holds m l

theorem kept_empty : Kept (empty : BasicMap κ α) := ⟨⟨le_refl _, le_refl _⟩, [], holds_empty⟩

theorem Within.room (h : m.Within) : Room m := by
  have := h.allocated
  intro hlt
  omega

/-- A new array is one slot longer than the entries, and so is `map_size`. -/
theorem Within.insert' {m' : BasicMap κ α} (h : m.Within) (hl : Holds m l) {p : Nat} {x : κ × α}
    (hp : p ≤ l.length) (hins : m.insert' (some p) x = some m') : m'.Within := by
  have hcap := h.allocated
  have hfits := h.fits
  have hcount := hl.count
  have hlen := hl.length_le
  simp only [BasicMap.insert', Option.bind_eq_bind, Option.bind_some] at hins
  by_cases hspare : m.numberOfEntries < m.mapSize
  · obtain ⟨s, hs, hslen, -⟩ := shiftUp_spec p m.numberOfEntries m.theMap (by omega) (by omega)
    rw [if_pos hspare, hs, Option.bind_some, writeSlot_eq _ (by omega), Option.bind_some] at hins
    rw [← Option.some.inj hins]
    exact ⟨by simp only [List.length_set]; omega, by simp only; omega⟩
  · obtain ⟨s, hs, hslen, -⟩ := copySlots_spec m.theMap 0 p 0
      (List.replicate (m.numberOfEntries + 1) none) (by omega)
      (by rw [List.length_replicate]; omega)
    rw [List.length_replicate] at hslen
    obtain ⟨t, ht, htlen, -⟩ := copySlots_spec m.theMap 1 (m.numberOfEntries - p) p
      (s.set p (some x)) (by omega) (by rw [List.length_set]; omega)
    rw [if_neg hspare, hs, Option.bind_some, writeSlot_eq _ (by omega), Option.bind_some, ht,
      Option.bind_some] at hins
    rw [List.length_set] at htlen
    rw [← Option.some.inj hins]
    exact ⟨by simp only; omega, by simp only; omega⟩

theorem Kept.insert' (h : Kept m) {p : Nat} (x : κ × α) (hp : p ≤ m.numberOfEntries) :
    ∃ m', m.insert' (some p) x = some m' ∧ Kept m' ∧
      p < m'.numberOfEntries := by
  obtain ⟨hw, l, hl⟩ := h
  have hpl : p ≤ l.length := hl.count ▸ hp
  obtain ⟨m', hm', hl'⟩ := hl.insert' x hpl hw.room
  refine ⟨m', hm', ⟨hw.insert' hl hpl hm', _, hl'⟩, ?_⟩
  rw [hl'.count, List.length_insertIdx_of_le_length hpl]
  omega

theorem shiftDown_length : ∀ (n i : Nat) {slots slots' : List (Option (κ × α))},
    shiftDown i n slots = some slots' → slots'.length = slots.length
  | 0, _, slots, slots', h => by rw [← Option.some.inj h]
  | n + 1, i, slots, slots', h => by
      obtain ⟨p, -, h⟩ := Option.bind_eq_some_iff.mp h
      obtain ⟨s, hs, h⟩ := Option.bind_eq_some_iff.mp h
      rw [writeSlot] at hs
      split at hs
      · rw [shiftDown_length n (i + 1) h, ← Option.some.inj hs, List.length_set]
      · cases hs

/-- An erasure leaves the array and `map_size` as they are. -/
theorem Within.erase {m' : BasicMap κ α} (h : m.Within) {i : Nat}
    (herase : m.erase (some i) = some m') : m'.Within := by
  have hcap := h.allocated
  have hfits := h.fits
  rw [BasicMap.erase] at herase
  split at herase
  · rw [← Option.some.inj herase]
    exact h
  · obtain ⟨x, -, herase⟩ := Option.bind_eq_some_iff.mp herase
    obtain ⟨s, hs, herase⟩ := Option.bind_eq_some_iff.mp herase
    obtain ⟨t, ht, herase⟩ := Option.bind_eq_some_iff.mp herase
    have hslen : s.length = m.theMap.length := by
      rw [writeSlot] at hs
      split at hs
      · rw [← Option.some.inj hs, List.length_set]
      · cases hs
    have htlen := shiftDown_length _ _ ht
    rw [← Option.some.inj herase]
    exact ⟨by simp only; omega, by simp only; omega⟩

/--
The erasure of an entry, in order. The slot behind it, where the iterator of `erase(k)` may
stand, still points at an entry.
-/
theorem Kept.erase (h : Kept m) (pos : Pos) :
    ∃ m', m.erase pos = some m' ∧ Kept m' ∧ ∀ i, pos = some i → i < m.numberOfEntries →
      m'.numberOfEntries + 1 = m.numberOfEntries ∧
        (i + 1 < m.numberOfEntries → ∃ x, m'.deref (i + 1) = some x) := by
  obtain ⟨hw, l, hl⟩ := h
  cases pos with
  | none => exact ⟨m, rfl, ⟨hw, l, hl⟩, fun i hi => by cases hi⟩
  | some i =>
      rcases Nat.lt_or_ge i l.length with hlt | hge
      · obtain ⟨m', hm', hl', hbehind⟩ := hl.erase hlt
        refine ⟨m', hm', ⟨hw.erase hm', _, hl'⟩, ?_⟩
        rintro j hj -
        obtain rfl := Option.some.inj hj
        rw [hl'.count, hl.count, List.length_eraseIdx_of_lt hlt]
        refine ⟨by omega, fun hnext => ?_⟩
        obtain ⟨j, -, hj, hder⟩ := hbehind (i + 1) (Nat.lt_succ_self i) hnext
        exact ⟨l[j], by rw [hder, List.getElem?_eq_getElem hj]⟩
      · refine ⟨m, by rw [BasicMap.erase, hl.count, if_pos hge], ⟨hw, l, hl⟩, ?_⟩
        intro j hj hlt
        obtain rfl := Option.some.inj hj
        rw [hl.count] at hlt
        omega

/-- The loop of `erase(k)` never leaves the array, and each round takes an entry out or ends. -/
theorem Kept.eraseCountLoop [LinearOrder κ] (k : κ) : ∀ (rounds : Nat) {m : BasicMap κ α}
    {it : Pos} (n : Nat), Kept m →
    (∀ i, it = some i → m.numberOfEntries < rounds + i ∧ i ≤ m.numberOfEntries ∧
      ∃ x, m.deref i = some x) →
    ∃ r, BasicMap.eraseCountLoop k rounds m it n = some r ∧ Kept r.1 := by
  intro rounds
  induction rounds with
  | zero =>
      intro m it n h hit
      cases it with
      | none => exact ⟨_, rfl, h⟩
      | some i =>
          obtain ⟨hlt, hle, -⟩ := hit i rfl
          omega
  | succ rounds ih =>
      intro m it n h hit
      cases it with
      | none => exact ⟨_, rfl, h⟩
      | some i =>
          obtain ⟨hlt, hle, x, hx⟩ := hit i rfl
          rw [BasicMap.eraseCountLoop, hx, Option.bind_eq_bind, Option.bind_some]
          by_cases hk : x.1 = k
          · obtain ⟨m', hm', hkept, herased⟩ := h.erase (some i)
            rw [if_pos hk, hm', Option.bind_eq_bind, Option.bind_some]
            refine ih (n + 1) hkept (fun j hj => ?_)
            -- the iterator was advanced on the map as it was before the erasure
            rw [next] at hj
            split at hj
            · cases hj
            · obtain rfl := Option.some.inj hj
              obtain ⟨hcount, hderef⟩ := herased i rfl (by omega)
              exact ⟨by omega, by omega, hderef (by omega)⟩
          · rw [if_neg hk]
            exact ⟨_, rfl, h⟩

theorem Kept.eraseCount [LinearOrder κ] (h : Kept m) (k : κ) :
    ∃ r, m.eraseCount k = some r ∧ Kept r.1 := by
  obtain ⟨hw, l, hl⟩ := h
  obtain ⟨r, hr, -, hin⟩ := hl.findWhole_reach k true
  rw [BasicMap.eraseCount, BasicMap.find, hr]
  simp only [Option.bind_eq_bind, Option.bind_some]
  refine Kept.eraseCountLoop k _ 0 ⟨hw, l, hl⟩ (fun i hi => ?_)
  split at hi
  · next hfound =>
      obtain rfl := Option.some.inj hi
      have hlt := hin hfound
      rw [hl.count, hl.deref hlt, List.getElem?_eq_getElem hlt]
      exact ⟨by omega, by omega, _, rfl⟩
  · cases hi

theorem Kept.insertUniqueAt [LinearOrder κ] (h : Kept m) {p : Nat} (x : κ × α)
    (hp : p ≤ m.numberOfEntries) : ∃ m', m.insertUniqueAt (some p) x = some m' ∧ Kept m' ∧
      p < m'.numberOfEntries := by
  rw [BasicMap.insertUniqueAt]
  by_cases hlt : p < m.numberOfEntries
  · obtain ⟨l, hl⟩ := h.2
    have hpl : p < l.length := hl.count ▸ hlt
    rw [if_pos hlt, hl.deref hpl, List.getElem?_eq_getElem hpl, Option.bind_eq_bind,
      Option.bind_some]
    split
    · exact ⟨m, rfl, h, hlt⟩
    · exact h.insert' x hp
  · rw [if_neg hlt]
    exact h.insert' x hp

section Searching

variable [LinearOrder κ]
variable {m : BasicMap κ α}

theorem Kept.insertUnique (h : Kept m) (x : κ × α) :
    ∃ m', m.insertUnique x = some m' ∧ Kept m' := by
  obtain ⟨l, hl⟩ := h.2
  obtain ⟨r, hr, hle, -⟩ := hl.findWhole_reach x.1 false
  rw [BasicMap.insertUnique, hr, Option.bind_eq_bind, Option.bind_some]
  split
  · exact ⟨m, rfl, h⟩
  · obtain ⟨m', hm', hkept, -⟩ := h.insert' x (hl.count ▸ hle)
    exact ⟨m', hm', hkept⟩

theorem Kept.insertFirst (h : Kept m) (x : κ × α) : ∃ m', m.insertFirst x = some m' ∧ Kept m' := by
  obtain ⟨l, hl⟩ := h.2
  obtain ⟨r, hr, hle, -⟩ := hl.findWhole_reach x.1 true
  obtain ⟨m', hm', hkept, -⟩ := h.insert' x (hl.count ▸ hle)
  exact ⟨m', by rw [BasicMap.insertFirst, hr]; exact hm', hkept⟩

/-- `insert_sorted` puts `end()` in order before it inserts. -/
theorem Kept.insertSorted {m : BasicMap κ α} (h : Kept m) (lt : α → α → Bool) (x : κ × α) :
    ∃ m', m.insertSorted lt x = some m' ∧ Kept m' := by
  obtain ⟨l, hl⟩ := h.2
  obtain ⟨r, hr, hle, hin⟩ := hl.findWhole_reach x.1 true
  have hput : ∀ p, p ≤ m.numberOfEntries → ∃ m', m.insert' (some p) x = some m' ∧ Kept m' := by
    intro p hp
    obtain ⟨m', hm', hkept, -⟩ := h.insert' x hp
    exact ⟨m', hm', hkept⟩
  rw [BasicMap.insertSorted, hr, Option.bind_eq_bind, Option.bind_some]
  split
  · next hfound =>
      obtain ⟨it, hit, -, hend, -⟩ := @Holds.walkSmaller _ _ _ lt _ _ hl x (m.numberOfEntries + 1)
        r.1 (hin hfound) (by rw [hl.count]; omega)
      rw [hit, Option.bind_eq_bind, Option.bind_some]
      exact hput _ (by rw [hl.count]; exact hend)
  · exact hput r.1 (hl.count ▸ hle)

theorem Kept.index (h : Kept m) (dflt : α) (k : κ) :
    ∃ r, m.index dflt k = some r ∧ Kept r.1 ∧ r.2 < r.1.numberOfEntries := by
  obtain ⟨l, hl⟩ := h.2
  obtain ⟨r, hr, hle, hin⟩ := hl.findWhole_reach k false
  rw [BasicMap.index, hr, Option.bind_eq_bind, Option.bind_some]
  split
  · next hfound => exact ⟨_, rfl, h, by simp only [hl.count]; exact hin hfound⟩
  · obtain ⟨m', hm', hkept, hlt⟩ := h.insertUniqueAt (k, dflt) (hl.count ▸ hle)
    exact ⟨(m', r.1), by rw [hm', Option.bind_eq_bind, Option.bind_some], hkept, hlt⟩

/-- Assigning through the reference that `operator[]` gives. -/
theorem Kept.assignAt (h : Kept m) (dflt : α) (k : κ) (v : α) :
    ∃ m', m.assignAt dflt k v = some m' ∧ Kept m' := by
  obtain ⟨⟨m', p⟩, hr, ⟨hw, l, hl⟩, hlt⟩ := h.index dflt k
  dsimp only at hw hl hlt
  rw [hl.count] at hlt
  have hlen := hl.length_le
  refine ⟨{ m' with theMap := m'.theMap.set p (some (l[p].1, v)) }, ?_, ⟨?_, hw.fits⟩,
    l.set p (l[p].1, v), ⟨by rw [List.length_set]; exact hl.count, ?_⟩⟩
  · rw [BasicMap.assignAt, hr, Option.bind_eq_bind, Option.bind_some]
    dsimp only
    rw [hl.deref hlt, List.getElem?_eq_getElem hlt, Option.bind_eq_bind, Option.bind_some,
      writeSlot_eq _ (by omega), Option.bind_eq_bind, Option.bind_some]
  · rw [List.length_set]
    exact hw.allocated
  · intro j hj
    rw [List.length_set] at hj
    by_cases hjp : p = j
    · subst hjp
      rw [List.getElem?_set_self (by omega), List.getElem?_set_self hlt]
    · rw [List.getElem?_set_ne hjp, List.getElem?_set_ne hjp]
      exact hl.live j hj

end Searching

theorem Kept.copyConstruct {m : BasicMap κ α} (h : Kept m) :
    ∃ m', m.copyConstruct = some m' ∧ Kept m' := by
  obtain ⟨l, hl⟩ := h.2
  refine ⟨⟨l.map some, m.numberOfEntries, m.numberOfEntries⟩, ?_, ⟨?_, le_refl _⟩, l, ?_⟩
  · rw [BasicMap.copyConstruct, hl.copyEntries]
    rfl
  · rw [List.length_map]
    exact hl.count.le
  · rw [hl.count]
    exact holds_copy _

/-- An assignment makes an array of the entries only, and takes `map_size` over. -/
theorem Kept.assign {m : BasicMap κ α} (h : Kept m) :
    ∃ m', m.assign = some m' ∧ m'.theMap.length = m.numberOfEntries ∧ m'.mapSize = m.mapSize ∧
      (m.mapSize = m.numberOfEntries → Kept m') := by
  obtain ⟨hw, l, hl⟩ := h
  refine ⟨⟨l.map some, m.numberOfEntries, m.mapSize⟩, ?_, ?_, rfl, fun heq => ⟨⟨?_, ?_⟩, l, ?_⟩⟩
  · rw [BasicMap.assign, hl.copyEntries]
    rfl
  · rw [List.length_map, hl.count]
  · rw [List.length_map, ← hl.count]
    exact heq.le
  · exact heq.ge
  · rw [hl.count]
    exact holds_copy _

end BasicMap

/-! ## Programs -/

/--
What a program does to its maps. A place to insert at is an iterator: `begin()` advanced so
many times, `end()` if that is too many.
-/
inductive ArrayOp (κ α : Type) where
  | insertAt (i steps : Nat) (k : κ) (v : α)
  | insertFirst (i : Nat) (k : κ) (v : α)
  | insertSorted (i : Nat) (k : κ) (v : α)
  | insertUniqueAt (i steps : Nat) (k : κ) (v : α)
  | insertUnique (i : Nat) (k : κ) (v : α)
  | index (i : Nat) (k : κ)
  | assignAt (i : Nat) (k : κ) (v : α)
  | erase (i : Nat) (pos : Pos)
  | eraseKey (i : Nat) (k : κ)
  | clear (i : Nat)
  | copyConstruct (i j : Nat)
  | assign (i j : Nat)

section Programs

variable {κ α : Type} [LinearOrder κ]
variable {w : Maps κ α}

/-- One operation of a program. -/
def Maps.arrayStep (dflt : α) (lt : α → α → Bool) (w : Maps κ α) :
    ArrayOp κ α → Option (Maps κ α)
  | .insertAt i steps k v => ((w i).insert' ((w i).iterator steps) (k, v)).map (w.put i)
  | .insertFirst i k v => ((w i).insertFirst (k, v)).map (w.put i)
  | .insertSorted i k v => ((w i).insertSorted lt (k, v)).map (w.put i)
  | .insertUniqueAt i steps k v =>
      ((w i).insertUniqueAt ((w i).iterator steps) (k, v)).map (w.put i)
  | .insertUnique i k v => ((w i).insertUnique (k, v)).map (w.put i)
  | .index i k => ((w i).index dflt k).map (fun r => w.put i r.1)
  | .assignAt i k v => ((w i).assignAt dflt k v).map (w.put i)
  | .erase i pos => ((w i).erase pos).map (w.put i)
  | .eraseKey i k => ((w i).eraseCount k).map (fun r => w.put i r.1)
  | .clear i => some (w.put i (w i).clear)
  | .copyConstruct i j => ((w j).copyConstruct).map (w.put i)
  | .assign i j => if i = j then some w else ((w j).assign).map (w.put i)

/--
What keeps a program within its arrays: it inserts before an entry and not at `end()`, and it
assigns from a map that has no slot to spare.
-/
def Maps.InArray (w : Maps κ α) : ArrayOp κ α → Prop
  | .insertAt i steps _ _ => steps < (w i).numberOfEntries
  | .insertUniqueAt i steps _ _ => steps < (w i).numberOfEntries
  | .assign i j => i = j ∨ (w j).mapSize = (w j).numberOfEntries
  | _ => True

instance (w : Maps κ α) : ∀ op : ArrayOp κ α, Decidable (w.InArray op)
  | .insertAt _ _ _ _ => inferInstanceAs (Decidable (_ < _))
  | .insertUniqueAt _ _ _ _ => inferInstanceAs (Decidable (_ < _))
  | .assign _ _ => inferInstanceAs (Decidable (_ ∨ _))
  | .insertFirst _ _ _ | .insertSorted _ _ _ | .insertUnique _ _ _ | .index _ _
  | .assignAt _ _ _ | .erase _ _ | .eraseKey _ _ | .clear _ | .copyConstruct _ _ =>
      inferInstanceAs (Decidable True)

omit [LinearOrder κ] in
theorem Maps.put_kept (hw : ∀ i, (w i).Kept) {i : Nat} {m : BasicMap κ α} (h : m.Kept) :
    ∀ j, ((w.put i m) j).Kept := by
  intro j
  rw [Maps.put]
  split
  · exact h
  · exact hw j

omit [LinearOrder κ] in
/-- A step that replaces one map by one in order. -/
theorem Maps.map_put_kept (hw : ∀ i, (w i).Kept) {β : Type} {i : Nat} {r : Option β}
    (part : β → BasicMap κ α) (h : ∃ b, r = some b ∧ (part b).Kept) :
    ∃ w', r.map (fun b => w.put i (part b)) = some w' ∧ ∀ j, (w' j).Kept := by
  obtain ⟨b, rfl, hb⟩ := h
  exact ⟨_, rfl, Maps.put_kept hw hb⟩

omit [LinearOrder κ] in
/-- The iterator of a place before the last entry, and of `end()`. -/
theorem BasicMap.iterator_cases (m : BasicMap κ α) (steps : Nat) :
    (steps < m.numberOfEntries ∧ m.iterator steps = some steps) ∨
      (¬ steps < m.numberOfEntries ∧ m.iterator steps = none) := by
  rw [BasicMap.iterator_eq]
  by_cases h : steps < m.numberOfEntries
  · exact Or.inl ⟨h, if_pos h⟩
  · exact Or.inr ⟨h, if_neg h⟩

/-- An operation that is fit leaves all maps in order. -/
theorem Maps.arrayStep_kept (dflt : α) (lt : α → α → Bool) (hw : ∀ i, (w i).Kept) {op : ArrayOp κ α}
    (hok : w.InArray op) : ∃ w', Maps.arrayStep dflt lt w op = some w' ∧ ∀ i, (w' i).Kept := by
  cases op with
  | insertAt i steps k v =>
      have hin : steps < (w i).numberOfEntries := hok
      obtain ⟨m', hm', hkept, -⟩ := (hw i).insert' (k, v) hin.le
      rw [Maps.arrayStep, BasicMap.iterator_eq, if_pos hin]
      exact Maps.map_put_kept hw id ⟨m', hm', hkept⟩
  | insertFirst i k v => exact Maps.map_put_kept hw id ((hw i).insertFirst (k, v))
  | insertSorted i k v => exact Maps.map_put_kept hw id ((hw i).insertSorted lt (k, v))
  | insertUniqueAt i steps k v =>
      have hin : steps < (w i).numberOfEntries := hok
      obtain ⟨m', hm', hkept, -⟩ := (hw i).insertUniqueAt (k, v) hin.le
      rw [Maps.arrayStep, BasicMap.iterator_eq, if_pos hin]
      exact Maps.map_put_kept hw id ⟨m', hm', hkept⟩
  | insertUnique i k v => exact Maps.map_put_kept hw id ((hw i).insertUnique (k, v))
  | index i k =>
      obtain ⟨r, hr, hkept, -⟩ := (hw i).index dflt k
      exact Maps.map_put_kept hw Prod.fst ⟨r, hr, hkept⟩
  | assignAt i k v => exact Maps.map_put_kept hw id ((hw i).assignAt dflt k v)
  | erase i pos =>
      obtain ⟨m', hm', hkept, -⟩ := (hw i).erase pos
      exact Maps.map_put_kept hw id ⟨m', hm', hkept⟩
  | eraseKey i k => exact Maps.map_put_kept hw Prod.fst ((hw i).eraseCount k)
  | clear i => exact ⟨_, rfl, Maps.put_kept hw BasicMap.kept_empty⟩
  | copyConstruct i j => exact Maps.map_put_kept hw id (hw j).copyConstruct
  | assign i j =>
      rw [Maps.arrayStep]
      by_cases hij : i = j
      · exact ⟨w, if_pos hij, hw⟩
      · obtain ⟨m', hm', -, -, hkept⟩ := (hw j).assign
        rw [if_neg hij]
        exact Maps.map_put_kept hw id ⟨m', hm', hkept (hok.resolve_left hij)⟩

/-- An operation that leaves all maps within their arrays was fit. -/
theorem Maps.inArray_of_step (dflt : α) (lt : α → α → Bool) {w' : Maps κ α} (hw : ∀ i, (w i).Kept)
    {op : ArrayOp κ α} (hstep : Maps.arrayStep dflt lt w op = some w')
    (hwithin : ∀ i, (w' i).Within) : w.InArray op := by
  cases op with
  | insertAt i steps k v =>
      rcases BasicMap.iterator_cases (w i) steps with ⟨hin, -⟩ | ⟨-, hend⟩
      · exact hin
      · rw [Maps.arrayStep, hend] at hstep
        cases hstep
  | insertUniqueAt i steps k v =>
      rcases BasicMap.iterator_cases (w i) steps with ⟨hin, -⟩ | ⟨-, hend⟩
      · exact hin
      · rw [Maps.arrayStep, hend] at hstep
        cases hstep
  | assign i j =>
      by_cases hij : i = j
      · exact Or.inl hij
      · obtain ⟨m', hm', hlen, hsize, -⟩ := (hw j).assign
        rw [Maps.arrayStep, if_neg hij, hm'] at hstep
        have hput : (w' i).mapSize ≤ (w' i).theMap.length := (hwithin i).allocated
        rw [← Option.some.inj hstep, Maps.put, if_pos rfl, hlen, hsize] at hput
        exact Or.inr (le_antisymm hput (hw j).1.fits)
  | insertFirst | insertSorted | insertUnique | index | assignAt | erase | eraseKey | clear
  | copyConstruct => trivial

/--
**A program stays within its arrays exactly if it never inserts at `end()` and never assigns
from a map with a slot to spare.** To stay within is that no access goes wrong, and that every
array is always as long as its map believes, with room for the entries it counts.
-/
theorem basicMap_within_array_iff (dflt : α) (lt : α → α → Bool) (ops : List (ArrayOp κ α)) :
    (∀ pre post, ops = pre ++ post →
      ∃ w, run (Maps.arrayStep dflt lt) Maps.init pre = some w ∧ ∀ i, (w i).Within) ↔
      Guarded (Maps.arrayStep dflt lt) Maps.InArray Maps.init ops :=
  @run_wanted_iff (Maps κ α) (ArrayOp κ α) (Maps.arrayStep dflt lt) Maps.InArray
    (fun w => ∀ i, (w i).Kept) (fun w => ∀ i, (w i).Within) (fun _ => True)
    (fun _ h i => (h i).1) (fun _ _ h _ hok => Maps.arrayStep_kept dflt lt h hok)
    (fun _ _ _ h _ hstep hwithin => Maps.inArray_of_step dflt lt h hstep hwithin) ops Maps.init
    (fun _ => BasicMap.kept_empty) (fun _ _ => trivial)

/--
Two keys are inserted and one is erased, so that the map has a slot to spare; the map assigned
from it believes in that slot and has an array of one.
-/
theorem basicMap_within_array_fails :
    ¬ ∀ pre post : List (ArrayOp Nat Nat),
      [.insertUnique 0 1 7, .insertUnique 0 2 8, .eraseKey 0 1, .assign 1 0] = pre ++ post →
      ∃ w, run (Maps.arrayStep 0 (fun _ _ => false)) Maps.init pre = some w ∧
        ∀ i, (w i).Within := by
  intro h
  obtain ⟨w, hw, hwithin⟩ := h _ [] (List.append_nil _).symm
  have hmap : (run (Maps.arrayStep 0 (fun _ _ => false)) Maps.init
      ([.insertUnique 0 1 7, .insertUnique 0 2 8, .eraseKey 0 1, .assign 1 0] :
        List (ArrayOp Nat Nat))).map (fun w => decide (w 1).Within) = some false := by
    decide +kernel
  rw [hw, Option.map_some, decide_eq_true (hwithin 1)] at hmap
  cases hmap

end Programs

end Encoders.Container
