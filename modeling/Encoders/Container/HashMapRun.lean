import Encoders.Container.HashMapWalk
import Encoders.Lib.Run
import Mathlib.Logic.Function.Basic

/-!
# Runs of `HashMap`s

A `HashMap` counts its pairs in a member of its own, `_size`, which decides when the table
grows and is what `size()` answers. `SizedMap` is a table with that member. Beside each map
of a run stands the sequence of the pairs it should hold, in the order they were inserted.

What differs from it is one thing. `operator=` frees the table of the left side before it
copies the table of the right side, and keeps the count. For a map assigned to itself that
copies a table of empty chains.
-/

namespace Encoders.Container

open Encoders.Lib

/-- `class HashMap`: the table, and the member that counts. -/
structure SizedMap (κ ν : Type) [Hash κ] where
  size : Int
  map : HashMap κ ν

/-- Change a chain by taking pairs out of it. -/
def HashMap.shrink {κ ν : Type} [Hash κ] (m : HashMap κ ν) (i : Nat)
    (f : List (κ × ν) → List (κ × ν)) (hsub : ∀ chain, (f chain).Sublist chain) : HashMap κ ν where
  table := m.table.modify i f
  sized := by rw [List.length_modify]; exact m.sized
  placed := by
    intro j chain hj e he
    rw [List.getElem?_modify] at hj
    rw [List.length_modify]
    cases hold : m.table[j]? with
    | none =>
        rw [hold] at hj
        split at hj <;> cases hj
    | some old =>
        rw [hold] at hj
        refine m.placed j old hold e ?_
        split at hj
        · injection hj with hj
          rw [← hj] at he
          exact (hsub old).subset he
        · injection hj with hj
          rw [← hj] at he
          exact he
  grouped := by
    intro j chain hj
    rw [List.getElem?_modify] at hj
    cases hold : m.table[j]? with
    | none =>
        rw [hold] at hj
        split at hj <;> cases hj
    | some old =>
        rw [hold] at hj
        have hgrouped := m.grouped j old hold
        split at hj
        · injection hj with hj
          exact hj ▸ hgrouped.sublist (hsub old)
        · injection hj with hj
          exact hj ▸ hgrouped

namespace SizedMap

variable {κ ν : Type} [DecidableEq κ] [Hash κ]

omit [DecidableEq κ] in
/-- `HashMap()` -/
def empty : SizedMap κ ν := ⟨0, HashMap.empty⟩

/-- `grow`: the pairs are inserted into the larger map in the order of a walk, which counts
them, and the larger map is assigned. -/
def grow (s : SizedMap κ ν) : SizedMap κ ν :=
  if getPrime (s.map.table.length + 1) ≠ 0 ∧
      s.map.table.length < getPrime (s.map.table.length + 1) then
    ⟨s.map.toList.length, s.map.grow⟩
  else s

/-- `insert` -/
def insert (s : SizedMap κ ν) (k : κ) (v : ν) : SizedMap κ ν :=
  let s' := if (s.map.table.length : Int) < s.size + 1 then s.grow else s
  ⟨s'.size + 1, s'.map.put k v⟩

/-- `erase(k)`, and how many it erased. -/
def eraseKey (s : SizedMap κ ν) (k : κ) : Nat × SizedMap κ ν :=
  let n := (chainAt s.map.table (s.map.getIndex k)).countP (fun e => e.1 = k)
  (n, ⟨s.size - n, s.map.shrink (s.map.getIndex k) (fun chain => chain.filter (fun e => e.1 ≠ k))
    (fun _ => List.filter_sublist)⟩)

omit [DecidableEq κ] in
/-- `erase(pos)`: a list erases nothing at its head, and the count goes down all the same.
There is no chain at the index an iterator has after a walk to the end. -/
def eraseIt (s : SizedMap κ ν) (pos : Iterator) : Option (SizedMap κ ν) :=
  if pos.tableIndex < s.map.table.length then
    some ⟨s.size - 1, s.map.shrink pos.tableIndex (fun chain => chain.eraseIdx pos.pos)
      (fun _ => List.eraseIdx_sublist _ _)⟩
  else none

omit [DecidableEq κ] in
/-- `clear` -/
def clear (s : SizedMap κ ν) : SizedMap κ ν := ⟨0, HashMap.ofSize s.map.table.length s.map.sized⟩

omit [DecidableEq κ] in
/-- The copy constructor. -/
def copy (m : SizedMap κ ν) : SizedMap κ ν := ⟨m.size, m.map⟩

omit [DecidableEq κ] in
/-- `operator=`, for another map or for the map itself. -/
def assign (self : Bool) (m : SizedMap κ ν) : SizedMap κ ν :=
  if self then ⟨m.size, HashMap.ofSize m.map.table.length m.map.sized⟩ else ⟨m.size, m.map⟩

end SizedMap

/-! ## The pairs in order -/

section Sequence

variable {κ ν : Type} [DecidableEq κ]

/-- Take out the `n`-th pair of a key. -/
def eraseNth (k : κ) : Nat → List (κ × ν) → List (κ × ν)
  | _, [] => []
  | n, e :: l =>
      if e.1 = k then
        match n with
        | 0 => l
        | n + 1 => e :: eraseNth k n l
      else e :: eraseNth k n l

theorem atKey_eraseNth (k k' : κ) : ∀ (n : Nat) (l : List (κ × ν)),
    atKey k' (eraseNth k n l) = if k' = k then (atKey k l).eraseIdx n else atKey k' l
  | n, [] => by simp [eraseNth]
  | n, e :: l => by
      unfold eraseNth
      by_cases hk : e.1 = k
      · rw [if_pos hk, atKey_cons k e l, if_pos hk, atKey_cons k' e l]
        cases n with
        | zero =>
            by_cases hk' : k' = k
            · simp [hk']
            · simp [hk', hk, Ne.symm hk']
        | succ n =>
            simp only
            rw [atKey_cons, atKey_eraseNth k k' n l]
            by_cases hk' : k' = k
            · simp [hk', hk]
            · simp [hk', hk, Ne.symm hk']
      · rw [if_neg hk, atKey_cons, atKey_eraseNth k k' n l, atKey_cons k e l, if_neg hk,
          atKey_cons k' e l]
        by_cases hk' : k' = k
        · simp [hk', hk]
        · simp [hk']

/-- Taking out a place takes out a pair of its key, the one with as many before it. -/
theorem atKey_eraseIdx {k k' : κ} {v : ν} : ∀ {l : List (κ × ν)} {i : Nat}, l[i]? = some (k, v) →
    atKey k' (l.eraseIdx i) =
      if k' = k then (atKey k l).eraseIdx ((l.take i).countP (fun e => e.1 = k)) else atKey k' l
  | [], i, h => by cases h
  | e :: l, 0, h => by
      injection h with h
      rw [h, List.eraseIdx_cons_zero, List.take_zero, List.countP_nil, atKey_cons k, if_pos rfl,
        List.eraseIdx_cons_zero, atKey_cons k']
      by_cases hk' : k' = k
      · rw [if_pos hk', hk']
      · rw [if_neg hk', if_neg (Ne.symm hk')]
  | e :: l, i + 1, h => by
      rw [List.getElem?_cons_succ] at h
      rw [List.eraseIdx_cons_succ, atKey_cons, atKey_eraseIdx h, List.take_succ_cons,
        List.countP_cons, atKey_cons k e l, atKey_cons k' e l]
      by_cases hk : e.1 = k
      · by_cases hk' : k' = k
        · simp [hk', hk]
        · simp [hk', hk, Ne.symm hk']
      · by_cases hk' : k' = k
        · simp [hk', hk]
        · simp [hk']

end Sequence

/-! ## What the operations do to the table -/

namespace HashMap

variable {κ ν : Type} [DecidableEq κ] [Hash κ]

theorem values_shrink (m : HashMap κ ν) (i : Nat) (f : List (κ × ν) → List (κ × ν))
    (hsub : ∀ chain, (f chain).Sublist chain) (k : κ) :
    (m.shrink i f hsub).values k =
      if m.getIndex k = i then atKey k (f (chainAt m.table i)) else m.values k := by
  have hindex : (m.shrink i f hsub).getIndex k = m.getIndex k := by
    unfold getIndex shrink
    rw [List.length_modify]
  rw [values_eq_atKey, values_eq_atKey]
  unfold chain
  rw [hindex]
  unfold shrink
  simp only
  have hlt := m.getIndex_lt k
  rw [List.getElem?_modify, List.getElem?_eq_getElem hlt]
  by_cases hi : m.getIndex k = i
  · subst hi
    unfold chainAt
    rw [List.getElem?_eq_getElem hlt]
    simp
  · rw [if_neg hi]
    simp [Ne.symm hi]

end HashMap

/-- A pair at a place is one more of its key than there are before it. -/
theorem countP_take_lt {κ ν : Type} [DecidableEq κ] {l : List (κ × ν)} {i : Nat} {e : κ × ν}
    (h : l[i]? = some e) :
    (l.take i).countP (fun f => f.1 = e.1) < l.countP (fun f => f.1 = e.1) := by
  obtain ⟨hlt, hget⟩ := List.getElem?_eq_some_iff.mp h
  have hsplit : l.countP (fun f => f.1 = e.1) =
      (l.take i).countP (fun f => f.1 = e.1) + (l.drop i).countP (fun f => f.1 = e.1) := by
    rw [← List.countP_append, List.take_append_drop]
  rw [List.drop_eq_getElem_cons hlt, hget, List.countP_cons_of_pos (by simp)] at hsplit
  omega

theorem length_atKey {κ ν : Type} [DecidableEq κ] (k : κ) (l : List (κ × ν)) :
    (atKey k l).length = l.countP (fun e => e.1 = k) := by
  unfold atKey
  rw [List.length_map, List.countP_eq_length_filter]

theorem length_eraseNth {κ ν : Type} [DecidableEq κ] (k : κ) : ∀ (n : Nat) (l : List (κ × ν)),
    n < l.countP (fun e => e.1 = k) → (eraseNth k n l).length + 1 = l.length
  | n, [], h => by cases h
  | n, e :: l, h => by
      unfold eraseNth
      by_cases hk : e.1 = k
      · rw [if_pos hk]
        rw [List.countP_cons_of_pos (by simp [hk])] at h
        cases n with
        | zero => rfl
        | succ n =>
            simp only [List.length_cons]
            rw [length_eraseNth k n l (by omega)]
      · rw [if_neg hk]
        rw [List.countP_cons_of_neg (by simp [hk])] at h
        simp only [List.length_cons]
        rw [length_eraseNth k n l h]

/-! ## A map and its pairs -/

namespace SizedMap

variable {κ ν : Type} [DecidableEq κ] [Hash κ]
variable {s : SizedMap κ ν} {pairs : List (κ × ν)}

/-- The map counts the pairs, and has under each key what they have, in their order. -/
structure Holds (s : SizedMap κ ν) (pairs : List (κ × ν)) : Prop where
  size : s.size = pairs.length
  values : ∀ k, s.map.values k = atKey k pairs

theorem Holds.perm (h : s.Holds pairs) : s.map.toList.Perm pairs :=
  perm_of_atKey (fun k => (HashMap.atKey_toList s.map k).trans (h.values k))

theorem holds_ofSize {n : Nat} (h : n ∈ tableSizes) :
    (⟨0, HashMap.ofSize n h⟩ : SizedMap κ ν).Holds [] :=
  ⟨rfl, fun k => HashMap.values_ofSize h k⟩

theorem Holds.grow (h : s.Holds pairs) : s.grow.Holds pairs := by
  unfold SizedMap.grow
  split
  · refine ⟨?_, fun k => (HashMap.values_grow s.map k).trans (h.values k)⟩
    simp only
    rw [h.perm.length_eq]
  · exact h

theorem Holds.insert (h : s.Holds pairs) (k : κ) (v : ν) :
    (s.insert k v).Holds (pairs ++ [(k, v)]) := by
  have hput : ∀ s' : SizedMap κ ν, s'.Holds pairs →
      (⟨s'.size + 1, s'.map.put k v⟩ : SizedMap κ ν).Holds (pairs ++ [(k, v)]) := by
    intro s' h'
    refine ⟨?_, ?_⟩
    · simp only
      rw [h'.size, List.length_append, List.length_singleton]
      rfl
    · intro k'
      simp only
      rw [HashMap.values_put, h'.values, h'.values, atKey_append, atKey_cons]
      by_cases hk : k' = k
      · simp [hk]
      · simp [hk, Ne.symm hk]
  unfold SizedMap.insert
  split
  · exact hput _ h.grow
  · exact hput _ h

theorem Holds.eraseKey (h : s.Holds pairs) (k : κ) :
    (s.eraseKey k).2.Holds (pairs.filter (fun e => e.1 ≠ k)) ∧
      (s.eraseKey k).1 = pairs.countP (fun e => e.1 = k) := by
  have hcount : (s.eraseKey k).1 = pairs.countP (fun e => e.1 = k) := by
    rw [← length_atKey, ← h.values, HashMap.values_eq_atKey, length_atKey]
    rfl
  refine ⟨⟨?_, ?_⟩, hcount⟩
  · change s.size - ((s.eraseKey k).1 : Int) = _
    have hsplit := List.length_eq_countP_add_countP (fun e : κ × ν => decide (e.1 = k)) (l := pairs)
    have hfilter : (pairs.filter (fun e => e.1 ≠ k)).length =
        pairs.countP (fun e => !decide (e.1 = k)) := by
      rw [List.countP_eq_length_filter]
      congr 1
      simp
    rw [hcount, h.size, hfilter]
    simp only [decide_not, Bool.decide_eq_true] at hsplit
    omega
  · -- only the chain of the key is filtered, and the key's values are all in it
    intro k'
    have hkept : ∀ l : List (κ × ν), atKey k' (l.filter (fun e => e.1 ≠ k)) =
        if k' = k then [] else atKey k' l := by
      intro l
      have hat := atKey_filter_at k (fun _ => true) l k'
      simp only [Bool.and_true, Bool.not_true, List.filter_false] at hat
      rw [← hat]
      congr 2
      funext e
      simp
    unfold SizedMap.eraseKey
    simp only
    rw [HashMap.values_shrink, hkept, hkept, ← h.values]
    by_cases hk : k' = k
    · rw [if_pos (by rw [hk]), if_pos hk, if_pos hk]
    · rw [if_neg hk, if_neg hk]
      by_cases hi : s.map.getIndex k' = s.map.getIndex k
      · rw [if_pos hi, ← hi, HashMap.values_eq_atKey]
        rfl
      · rw [if_neg hi]

/-- The iterator is at a pair of the map. -/
def At (s : SizedMap κ ν) (pos : Iterator) : Prop :=
  pos.list = pos.tableIndex ∧ (deref s.map.table pos).isSome = true

/-- The pairs without the one an iterator is at. -/
def without (s : SizedMap κ ν) (pos : Iterator) (pairs : List (κ × ν)) : List (κ × ν) :=
  match deref s.map.table pos with
  | some e => eraseNth e.1
      (((chainAt s.map.table pos.list).take pos.pos).countP (fun f => f.1 = e.1)) pairs
  | none => pairs

theorem Holds.eraseIt {pos : Iterator} (h : s.Holds pairs) (hat : s.At pos) :
    ∃ s', s.eraseIt pos = some s' ∧ s'.Holds (s.without pos pairs) := by
  obtain ⟨hlist, hsome⟩ := hat
  obtain ⟨e, he⟩ := Option.isSome_iff_exists.mp hsome
  have hindex := HashMap.getIndex_of_mem (List.mem_of_getElem? he)
  have hlt := s.map.getIndex_lt e.1
  rw [hindex] at hlt
  have hchain : chainAt s.map.table pos.list = s.map.chain e.1 := by
    unfold HashMap.chain chainAt
    rw [hindex]
  have hvalues : s.map.values e.1 = atKey e.1 (chainAt s.map.table pos.list) := by
    rw [HashMap.values_eq_atKey, hchain]
  have hfirst := countP_take_lt he
  refine ⟨_, if_pos (hlist ▸ hlt), ?_, ?_⟩
  · have hcount : (chainAt s.map.table pos.list).countP (fun f => f.1 = e.1) =
        pairs.countP (fun f => f.1 = e.1) := by
      rw [← length_atKey, ← length_atKey, ← hvalues, h.values]
    have hlen := length_eraseNth e.1 _ pairs (hcount ▸ hfirst)
    unfold without
    rw [he]
    simp only
    rw [h.size]
    omega
  · -- the first of the key's values before the iterator's place keep their order
    intro k'
    simp only
    rw [HashMap.values_shrink, ← hlist]
    unfold without
    rw [he]
    simp only
    rw [atKey_eraseNth, ← h.values, ← h.values, atKey_eraseIdx he]
    by_cases hk : k' = e.1
    · rw [if_pos (by rw [hk, hindex]), if_pos hk, if_pos hk, hvalues]
    · rw [if_neg hk, if_neg hk]
      by_cases hi : s.map.getIndex k' = pos.list
      · rw [if_pos hi, HashMap.values_eq_atKey]
        unfold HashMap.chain chainAt
        rw [hi]
      · rw [if_neg hi]

/-! ## Growing by inserting -/

/-- While there is room, inserting does not grow the table. -/
theorem foldl_insert : ∀ (l : List (κ × ν)) (s : SizedMap κ ν),
    s.size + l.length ≤ (s.map.table.length : Int) →
    l.foldl (fun s e => s.insert e.1 e.2) s =
      ⟨s.size + l.length, l.foldl (fun m e => m.put e.1 e.2) s.map⟩
  | [], s, _ => by simp
  | e :: l, s, hroom => by
      rw [List.length_cons] at hroom
      have hinsert : s.insert e.1 e.2 = ⟨s.size + 1, s.map.put e.1 e.2⟩ := by
        unfold SizedMap.insert
        rw [if_neg (by omega)]
      have hlen : (s.map.put e.1 e.2).table.length = s.map.table.length := by
        unfold HashMap.put HashMap.change
        exact List.length_modify _ _ _
      rw [List.foldl_cons, List.foldl_cons, hinsert, foldl_insert l _ (by
        simp only
        rw [hlen]
        omega)]
      simp only [List.length_cons]
      congr 1
      omega

/-- **`grow` inserts the pairs of a walk into an empty map** of the next but one size. -/
theorem grow_eq_inserts (s : SizedMap κ ν) (h : getPrime (s.map.table.length + 1) ≠ 0)
    (hlt : s.map.table.length < getPrime (s.map.table.length + 1))
    (hroom : s.map.toList.length ≤ getPrime (getPrime (s.map.table.length + 1))) :
    s.grow = s.map.toList.foldl (fun larger e => larger.insert e.1 e.2)
      ⟨0, HashMap.ofSize (getPrime (getPrime (s.map.table.length + 1)))
        (getPrime_tableSizes _ s.map.sized h)⟩ := by
  rw [foldl_insert]
  · unfold SizedMap.grow HashMap.grow
    rw [if_pos ⟨h, hlt⟩, dif_pos ⟨h, hlt⟩]
    simp
  · simp only [HashMap.ofSize, List.length_replicate]
    omega

/-! ## What a map answers -/

/-- The map is the multimap that has the pairs. -/
structure Refines (s : SizedMap κ ν) (pairs : List (κ × ν)) : Prop where
  size : s.size = pairs.length
  find : ∀ k, (s.map.findIt k).eq (endIt s.map.table) = false ↔ ∃ v, (k, v) ∈ pairs
  loop : ∀ k, (visitWhile s.map.table (fun e => k = e.1) pairs.length (s.map.findIt k)).map
    (List.map Prod.snd) = some (atKey k pairs)
  range : ∀ k, ∃ high, s.map.equalRange k pairs.length = some (s.map.findIt k, high) ∧
    (visit s.map.table high pairs.length (s.map.findIt k)).map (List.map Prod.snd) =
      some (atKey k pairs)
  walk : ∃ l, visitWhile s.map.table (fun _ => true) pairs.length (beginIt s.map.table) = some l ∧
    l.Perm pairs

theorem Holds.refines (h : s.Holds pairs) : s.Refines pairs := by
  have hlen : s.map.toList.length ≤ pairs.length := Nat.le_of_eq h.perm.length_eq
  refine ⟨h.size, ?_, ?_, ?_, ⟨_, s.map.visitWhile_begin hlen, h.perm⟩⟩
  · intro k
    rw [s.map.findIt_ne_end, h.values]
    constructor
    · intro hne
      obtain ⟨v, hv⟩ := List.exists_mem_of_ne_nil _ hne
      exact ⟨v, mem_atKey.mp hv⟩
    · intro hex
      obtain ⟨v, hv⟩ := hex
      exact List.ne_nil_of_mem (mem_atKey.mpr hv)
  · intro k
    rw [← h.values]
    exact s.map.visitWhile_findIt k hlen
  · intro k
    rw [← h.values]
    exact s.map.visit_equalRange k hlen

end SizedMap

/-! ## Runs -/

/-- The operations, on maps that have numbers for names. -/
inductive HashMapOp (κ ν : Type) where
  | insert (i : Nat) (k : κ) (v : ν)
  | eraseKey (i : Nat) (k : κ)
  | eraseIt (i : Nat) (pos : Iterator)
  | clear (i : Nat)
  /-- Map `i` is made as a copy of map `j`. -/
  | copy (i j : Nat)
  /-- Map `j` is assigned to map `i`. -/
  | assign (i j : Nat)

/-- Maps, and the pairs each of them should have. -/
structure HashMapRun (κ ν : Type) [Hash κ] where
  maps : Nat → SizedMap κ ν
  pairs : Nat → List (κ × ν)

namespace HashMapRun

variable {κ ν : Type} [DecidableEq κ] [Hash κ]

omit [DecidableEq κ] in
/-- All maps are empty. -/
def init : HashMapRun κ ν := ⟨fun _ => SizedMap.empty, fun _ => []⟩

omit [DecidableEq κ] in
/-- Change one map. -/
def set (r : HashMapRun κ ν) (i : Nat) (s : SizedMap κ ν) (pairs : List (κ × ν)) : HashMapRun κ ν :=
  ⟨Function.update r.maps i s, Function.update r.pairs i pairs⟩

/-- One operation. -/
def step (r : HashMapRun κ ν) : HashMapOp κ ν → Option (HashMapRun κ ν)
  | .insert i k v => some (r.set i ((r.maps i).insert k v) (r.pairs i ++ [(k, v)]))
  | .eraseKey i k =>
      some (r.set i ((r.maps i).eraseKey k).2 ((r.pairs i).filter (fun e => e.1 ≠ k)))
  | .eraseIt i pos =>
      ((r.maps i).eraseIt pos).map (fun s => r.set i s ((r.maps i).without pos (r.pairs i)))
  | .clear i => some (r.set i (r.maps i).clear [])
  | .copy i j => some (r.set i (SizedMap.copy (r.maps j)) (r.pairs j))
  | .assign i j => some (r.set i (SizedMap.assign (i = j) (r.maps j)) (r.pairs j))

/--
What an operation must find. An iterator that is erased is at a pair of its map, and a map
that is assigned to itself is empty.
-/
def ok (r : HashMapRun κ ν) : HashMapOp κ ν → Prop
  | .eraseIt i pos => (r.maps i).At pos
  | .assign i j => i = j → (r.maps j).size = 0
  | _ => True

instance (r : HashMapRun κ ν) : ∀ op, Decidable (r.ok op)
  | .insert _ _ _ => isTrue trivial
  | .eraseKey _ _ => isTrue trivial
  | .eraseIt _ _ => inferInstanceAs (Decidable (_ ∧ _))
  | .clear _ => isTrue trivial
  | .copy _ _ => isTrue trivial
  | .assign _ _ => inferInstanceAs (Decidable (_ → _))

/-- Every map has what it should. -/
def Holds (r : HashMapRun κ ν) : Prop := ∀ i, (r.maps i).Holds (r.pairs i)

theorem Holds.set {r : HashMapRun κ ν} (h : r.Holds) (i : Nat) {s : SizedMap κ ν}
    {pairs : List (κ × ν)} (hs : s.Holds pairs) : (r.set i s pairs).Holds := by
  intro j
  unfold HashMapRun.set
  simp only
  by_cases hj : j = i
  · rw [hj, Function.update_self, Function.update_self]
    exact hs
  · rw [Function.update_of_ne hj, Function.update_of_ne hj]
    exact h j

theorem Holds.step {r : HashMapRun κ ν} {op : HashMapOp κ ν} (h : r.Holds) (hok : r.ok op) :
    ∃ r', r.step op = some r' ∧ r'.Holds := by
  cases op with
  | insert i k v => exact ⟨_, rfl, h.set i ((h i).insert k v)⟩
  | eraseKey i k => exact ⟨_, rfl, h.set i ((h i).eraseKey k).1⟩
  | eraseIt i pos =>
      obtain ⟨s, hs, hholds⟩ := (h i).eraseIt hok
      refine ⟨_, ?_, h.set i hholds⟩
      unfold HashMapRun.step
      simp only [hs, Option.map_some]
  | clear i => exact ⟨_, rfl, h.set i (SizedMap.holds_ofSize (r.maps i).map.sized)⟩
  | copy i j => exact ⟨_, rfl, h.set i (h j)⟩
  | assign i j =>
      refine ⟨_, rfl, h.set i ?_⟩
      unfold SizedMap.assign
      by_cases hself : i = j
      · have hzero : (r.maps j).size = 0 := hok hself
        have hnil : r.pairs j = [] := by
          have hsize := (h j).size
          rw [hzero] at hsize
          exact List.length_eq_zero_iff.mp (by omega)
        rw [if_pos (by simpa using hself), hnil, hzero]
        exact SizedMap.holds_ofSize (r.maps j).map.sized
      · rw [if_neg (by simpa using hself)]
        exact h j

end HashMapRun

/--
**A `HashMap` is a multimap**, for every hash function, in every run in which no map with
anything in it is assigned to itself and iterators are erased while they are at a pair.
-/
theorem hashMap_refines (κ ν : Type) [DecidableEq κ] [Hash κ] (ops : List (HashMapOp κ ν))
    (h : Guarded HashMapRun.step HashMapRun.ok HashMapRun.init ops) :
    ∃ r, run HashMapRun.step HashMapRun.init ops = some r ∧ ∀ i, (r.maps i).Refines (r.pairs i) := by
  have hinit : (HashMapRun.init : HashMapRun κ ν).Holds := fun _ => SizedMap.holds_ofSize _
  obtain ⟨r, hrun, hholds⟩ := run_invariant (fun s op hs hok => HashMapRun.Holds.step hs hok) ops _
    hinit h
  exact ⟨r, hrun, fun i => (hholds i).refines⟩

/-- Two maps, one of them assigned to the other and then relieved of a pair. -/
def twoMaps : List (HashMapOp Int Int) :=
  [.insert 0 1 10, .insert 0 2 20, .insert 0 1 11, .assign 1 0, .eraseKey 1 2, .copy 2 1,
    .clear 1, .assign 1 1, .insert 1 3 30, .eraseIt 0 ⟨2, 2, 1⟩]

theorem hashMap_refines_twoMaps :
    ∃ r, run HashMapRun.step HashMapRun.init twoMaps = some r ∧ ∀ i, (r.maps i).Refines (r.pairs i) :=
  hashMap_refines Int Int twoMaps (by decide +kernel)

/-- A map that is assigned to itself says that it has a pair, and does not find it. -/
theorem self_assigned_map_is_empty :
    ∃ r, run HashMapRun.step (HashMapRun.init : HashMapRun Int Int) [.insert 0 1 10, .assign 0 0] = some r ∧
      (r.maps 0).size = 1 ∧ (r.maps 0).map.values 1 = [] ∧ r.pairs 0 = [(1, 10)] ∧
      ¬ (r.maps 0).Refines (r.pairs 0) := by
  refine ⟨_, rfl, by decide +kernel, by decide +kernel, by decide +kernel, ?_⟩
  intro h
  have hloop := h.loop 1
  revert hloop
  decide +kernel

end Encoders.Container
