import Encoders.Container.HashMap

/-!
# Walking over a `HashMap`

The iterators of `HashMap.h`. One is the index of a chain and an iterator of a chain's
list, and only the latter is compared. A list is a ring closed by its head: the head is
`end`, and behind it comes the first element again. `begin` on an empty first chain uses
that. It steps once from the head to the head and so enters the search for the next chain
with anything in it. A walk that leaves the last such chain stops at the head of the very
last one, which is `end` of the map.

`Ahead t it l` says that `l` is what a walk from `it` on has before it. Each step takes the
first of `l`, whichever chains are empty.
-/

namespace Encoders.Container

open Encoders.Lib

/-! ## Iterators -/

/-- `HashMap::iterator`: the element at `pos` of a list, which is the head if there is none. -/
structure Iterator where
  tableIndex : Nat
  list : Nat
  pos : Nat
deriving DecidableEq

/-- `operator==` -/
def Iterator.eq (a b : Iterator) : Bool := a.list = b.list && a.pos = b.pos

section Table

variable {α : Type} (t : List (List α))

/-- A chain of the table. -/
def chainAt (i : Nat) : List α := (t[i]?).getD []

/-- `end()` of a chain. -/
def endAt (i : Nat) : Nat := (chainAt t i).length

/-- `it++` of a list iterator. -/
def listNext (it : Iterator) : Iterator :=
  { it with pos := if it.pos < endAt t it.list then it.pos + 1 else 0 }

/-- The loop of `find_next_filled_bucket`. -/
def skipEmpty : Nat → Iterator → Iterator
  | 0, it => it
  | fuel + 1, it =>
      if it.tableIndex + 1 < t.length then
        if endAt t (it.tableIndex + 1) = 0 then
          skipEmpty fuel ⟨it.tableIndex + 1, it.tableIndex + 1, 0⟩
        else ⟨it.tableIndex + 1, it.tableIndex + 1, 0⟩
      else { it with tableIndex := it.tableIndex + 1 }

/-- `find_next_filled_bucket`, which is `operator++`. -/
def findNextFilledBucket (it : Iterator) : Iterator :=
  if it.tableIndex < t.length then
    let it' := listNext t it
    if it'.list = it.tableIndex ∧ it'.pos = endAt t it.tableIndex then skipEmpty t t.length it'
    else it'
  else it

/-- `begin()` -/
def beginIt : Iterator :=
  if endAt t 0 = 0 then findNextFilledBucket t ⟨0, 0, 0⟩ else ⟨0, 0, 0⟩

/-- `end()` -/
def endIt : Iterator := ⟨t.length - 1, t.length - 1, endAt t (t.length - 1)⟩

/-- `operator*` -/
def deref (it : Iterator) : Option α := (chainAt t it.list)[it.pos]?

/-- `while (it != end() && test(*it)) it++` -/
def advanceWhile (test : α → Bool) : Nat → Iterator → Option Iterator
  | 0, it => if it.eq (endIt t) then some it else none
  | fuel + 1, it =>
      if it.eq (endIt t) then some it
      else match deref t it with
      | none => none
      | some e => if test e then advanceWhile test fuel (findNextFilledBucket t it) else some it

/-- `for (; it != stop; it++)`: what it visits. -/
def visit (stop : Iterator) : Nat → Iterator → Option (List α)
  | 0, it => if it.eq stop then some [] else none
  | fuel + 1, it =>
      if it.eq stop then some []
      else match deref t it with
      | none => none
      | some e => (visit stop fuel (findNextFilledBucket t it)).map (e :: ·)

/-- `while (it != end() && test(*it)) it++`: what it visits. -/
def visitWhile (test : α → Bool) : Nat → Iterator → Option (List α)
  | 0, it => if it.eq (endIt t) then some [] else none
  | fuel + 1, it =>
      if it.eq (endIt t) then some []
      else match deref t it with
      | none => none
      | some e =>
          if test e then (visitWhile test fuel (findNextFilledBucket t it)).map (e :: ·) else some []

end Table

/-! ## What is ahead of an iterator -/

variable {α : Type} {t : List (List α)}

/-- Either the iterator is at an element of its chain, or it is at the end of the table. -/
inductive Ahead (t : List (List α)) (it : Iterator) : List α → Prop where
  | inside (hlist : it.list = it.tableIndex) (hindex : it.tableIndex < t.length)
      (hpos : it.pos < endAt t it.tableIndex) :
      Ahead t it ((chainAt t it.tableIndex).drop it.pos ++ (t.drop (it.tableIndex + 1)).flatten)
  | done (hend : it.eq (endIt t) = true) : Ahead t it []

theorem flatten_drop {i : Nat} (hi : i < t.length) :
    (t.drop i).flatten = chainAt t i ++ (t.drop (i + 1)).flatten := by
  unfold chainAt
  rw [List.drop_eq_getElem_cons hi, List.flatten_cons, List.getElem?_eq_getElem hi,
    Option.getD_some]

theorem chainAt_eq_nil {i : Nat} (h : endAt t i = 0) : chainAt t i = [] :=
  List.length_eq_zero_iff.mp h

/-- From the head of a chain the search arrives at what the later chains have. -/
theorem skipEmpty_ahead : ∀ (fuel : Nat) (it : Iterator), it.list = it.tableIndex →
    it.tableIndex < t.length → it.pos = endAt t it.tableIndex →
    t.length ≤ it.tableIndex + fuel →
    Ahead t (skipEmpty t fuel it) (t.drop (it.tableIndex + 1)).flatten
  | 0, it, _, hindex, _, hfuel => by omega
  | fuel + 1, it, hlist, hindex, hpos, hfuel => by
      unfold skipEmpty
      by_cases hnext : it.tableIndex + 1 < t.length
      · rw [if_pos hnext, flatten_drop hnext]
        by_cases hempty : endAt t (it.tableIndex + 1) = 0
        · rw [if_pos hempty, chainAt_eq_nil hempty, List.nil_append]
          exact skipEmpty_ahead fuel ⟨it.tableIndex + 1, it.tableIndex + 1, 0⟩ rfl hnext
            hempty.symm (by simp only; omega)
        · rw [if_neg hempty]
          exact Ahead.inside rfl hnext (Nat.pos_of_ne_zero hempty)
      · rw [if_neg hnext, List.drop_eq_nil_of_le (by omega), List.flatten_nil]
        refine Ahead.done ?_
        have hlast : it.tableIndex = t.length - 1 := by omega
        unfold Iterator.eq endIt
        simp [hlist, hpos, hlast]

/-- `end` is at the end. -/
theorem ahead_end : Ahead t (endIt t) [] :=
  Ahead.done (by unfold Iterator.eq; simp)

/-- The end of the table is no place of an element. -/
theorem Ahead.eq_end_iff {it : Iterator} {l : List α} (h : Ahead t it l) :
    it.eq (endIt t) = true ↔ l = [] := by
  cases h with
  | done hend => exact ⟨fun _ => rfl, fun _ => hend⟩
  | inside hlist hindex hpos =>
      constructor
      · intro heq
        unfold Iterator.eq endIt at heq
        rw [Bool.and_eq_true, decide_eq_true_eq, decide_eq_true_eq] at heq
        obtain ⟨hsame, hend⟩ := heq
        simp only at hsame hend
        rw [← hsame, hlist] at hend
        omega
      · intro hnil
        have hdrop := (List.append_eq_nil_iff.mp hnil).1
        rw [List.drop_eq_nil_iff] at hdrop
        unfold endAt at hpos
        omega

/-- **A step takes the first of what is ahead.** -/
theorem Ahead.step {it : Iterator} {e : α} {l : List α} (h : Ahead t it (e :: l)) :
    deref t it = some e ∧ Ahead t (findNextFilledBucket t it) l := by
  generalize hl : e :: l = l' at h
  cases h with
  | done hend => cases hl
  | inside hlist hindex hpos =>
      have hlt : it.pos < (chainAt t it.tableIndex).length := hpos
      have hcut := List.drop_eq_getElem_cons hlt
      rw [hcut, List.cons_append] at hl
      injection hl with he hrest
      refine ⟨?_, ?_⟩
      · unfold deref
        rw [hlist, List.getElem?_eq_getElem hlt, he]
      · rw [hrest]
        have hnext : listNext t it = { it with pos := it.pos + 1 } := by
          unfold listNext
          rw [hlist, if_pos hpos]
        unfold findNextFilledBucket
        rw [if_pos hindex, hnext]
        by_cases hlast : it.pos + 1 = endAt t it.tableIndex
        · have hdrop : (chainAt t it.tableIndex).drop (it.pos + 1) = [] :=
            List.drop_eq_nil_of_le (by unfold endAt at hlast; omega)
          simp only [if_pos (⟨hlist, hlast⟩ : it.list = it.tableIndex ∧ _)]
          rw [hdrop, List.nil_append]
          exact skipEmpty_ahead t.length { it with pos := it.pos + 1 } hlist hindex hlast (by omega)
        · simp only [if_neg (fun hand : it.list = it.tableIndex ∧ _ => hlast hand.2)]
          exact @Ahead.inside _ t { it with pos := it.pos + 1 } hlist hindex
            (by simp only; omega)

/-- Equal iterators have the same ahead of them. -/
theorem Ahead.eq_of_eq {a b : Iterator} {l l' : List α} (ha : Ahead t a l) (hb : Ahead t b l')
    (heq : a.eq b = true) : l = l' := by
  unfold Iterator.eq at heq
  rw [Bool.and_eq_true, decide_eq_true_eq, decide_eq_true_eq] at heq
  obtain ⟨hsame, hpos⟩ := heq
  have hend : a.eq (endIt t) = b.eq (endIt t) := by
    unfold Iterator.eq
    rw [hsame, hpos]
  by_cases hdone : a.eq (endIt t) = true
  · rw [ha.eq_end_iff.mp hdone, hb.eq_end_iff.mp (hend ▸ hdone)]
  · cases ha with
    | done h => exact absurd h hdone
    | inside hla _ _ =>
        cases hb with
        | done h => exact absurd (hend.trans h) hdone
        | inside hlb _ _ => rw [← hla, ← hlb, hsame, hpos]

/-- **`begin` has everything ahead.** -/
theorem ahead_begin (hpos : 0 < t.length) : Ahead t (beginIt t) t.flatten := by
  have hflat := flatten_drop hpos
  rw [List.drop_zero] at hflat
  unfold beginIt
  by_cases hempty : endAt t 0 = 0
  · rw [if_pos hempty, hflat, chainAt_eq_nil hempty, List.nil_append]
    -- the step goes from the head of the first chain to the head again
    unfold findNextFilledBucket listNext
    simp only [if_pos hpos, hempty, Nat.lt_irrefl, if_false, and_self, if_true]
    exact skipEmpty_ahead t.length ⟨0, 0, 0⟩ rfl hpos hempty.symm (by simp only; omega)
  · rw [if_neg hempty, hflat]
    exact Ahead.inside rfl hpos (Nat.pos_of_ne_zero hempty)

/-! ## Loops -/

theorem visitWhile_ahead (test : α → Bool) : ∀ {l : List α} {fuel : Nat} {it : Iterator},
    Ahead t it l → l.length ≤ fuel → visitWhile t test fuel it = some (l.takeWhile test)
  | [], fuel, it, h, _ => by
      have hend := h.eq_end_iff.mpr rfl
      cases fuel with
      | zero => exact if_pos hend
      | succ fuel => exact if_pos hend
  | e :: l, 0, it, _, hfuel => by cases hfuel
  | e :: l, fuel + 1, it, h, hfuel => by
      have hend : ¬ it.eq (endIt t) = true := fun hcon => by cases h.eq_end_iff.mp hcon
      obtain ⟨hderef, hnext⟩ := h.step
      unfold visitWhile
      rw [if_neg hend, hderef]
      by_cases htest : test e = true
      · simp only [if_pos htest, List.takeWhile_cons_of_pos htest]
        rw [visitWhile_ahead test hnext (by rw [List.length_cons] at hfuel; omega)]
        rfl
      · simp only [if_neg htest, List.takeWhile_cons_of_neg htest]

/-- A loop up to where another loop stopped visits what that one passed. -/
theorem visit_advanceWhile (test : α → Bool) : ∀ {l : List α} {fuel : Nat} {it : Iterator},
    Ahead t it l → l.length ≤ fuel →
    ∃ stop, advanceWhile t test fuel it = some stop ∧ Ahead t stop (l.dropWhile test) ∧
      visit t stop fuel it = some (l.takeWhile test)
  | [], fuel, it, h, _ => by
      have hend := h.eq_end_iff.mpr rfl
      have hself : it.eq it = true := by
        unfold Iterator.eq
        simp
      refine ⟨it, ?_, h, ?_⟩
      · cases fuel with
        | zero => exact if_pos hend
        | succ fuel => exact if_pos hend
      · cases fuel with
        | zero => exact if_pos hself
        | succ fuel => exact if_pos hself
  | e :: l, 0, it, _, hfuel => by cases hfuel
  | e :: l, fuel + 1, it, h, hfuel => by
      have hend : ¬ it.eq (endIt t) = true := fun hcon => by cases h.eq_end_iff.mp hcon
      obtain ⟨hderef, hnext⟩ := h.step
      unfold advanceWhile
      rw [if_neg hend, hderef]
      by_cases htest : test e = true
      · have hfuel' : l.length ≤ fuel := by
          rw [List.length_cons] at hfuel
          omega
        obtain ⟨stop, hstop, hahead, hvisit⟩ := visit_advanceWhile test hnext hfuel'
        simp only [if_pos htest, List.dropWhile_cons_of_pos htest, List.takeWhile_cons_of_pos htest]
        refine ⟨stop, hstop, hahead, ?_⟩
        -- the loop is not there yet: less is ahead of `stop`
        have hnot : ¬ it.eq stop = true := by
          intro heq
          have hlen := congrArg List.length (h.eq_of_eq hahead heq)
          have hle := (List.dropWhile_sublist test (l := l)).length_le
          rw [List.length_cons] at hlen
          omega
        unfold visit
        rw [if_neg hnot, hderef]
        simp only [hvisit, Option.map_some]
      · simp only [if_neg htest, List.dropWhile_cons_of_neg htest,
          List.takeWhile_cons_of_neg htest]
        refine ⟨it, rfl, h, ?_⟩
        unfold visit
        exact if_pos (by unfold Iterator.eq; simp)

/-! ## Maps -/

namespace HashMap

variable {κ ν : Type} [DecidableEq κ] [Hash κ]

/-- `find(k)`, as an iterator. -/
def findIt (m : HashMap κ ν) (k : κ) : Iterator :=
  let chain := chainAt m.table (m.getIndex k)
  let pos := chain.findIdx (fun e => k = e.1)
  if pos < chain.length then ⟨m.getIndex k, m.getIndex k, pos⟩ else endIt m.table

/-- The loop of `equal_range(k)`, which starts at `find(k)`. -/
def equalRange (m : HashMap κ ν) (k : κ) (fuel : Nat) : Option (Iterator × Iterator) :=
  (advanceWhile m.table (fun e => k = e.1) fuel (m.findIt k)).map (fun high => (m.findIt k, high))

omit [DecidableEq κ] in
theorem table_pos (m : HashMap κ ν) : 0 < m.table.length := tableSizes_pos _ m.sized

omit [DecidableEq κ] in
/-- A key is in its chain only. -/
theorem getIndex_of_mem {m : HashMap κ ν} {i : Nat} {e : κ × ν} (he : e ∈ chainAt m.table i) :
    m.getIndex e.1 = i := by
  unfold chainAt at he
  cases hchain : m.table[i]? with
  | none =>
      rw [hchain] at he
      cases he
  | some chain =>
      rw [hchain] at he
      exact m.placed i chain hchain e he

omit [DecidableEq κ] in
/-- The chains one after the other keep the pairs of a key together. -/
theorem grouped_toList (m : HashMap κ ν) : Grouped m.toList := by
  have hdrop : ∀ n i, i + n = m.table.length → Grouped (m.table.drop i).flatten := by
    intro n
    induction n with
    | zero =>
        intro i hi
        rw [List.drop_eq_nil_of_le (by omega)]
        trivial
    | succ n ih =>
        intro i hi
        have hlt : i < m.table.length := by omega
        rw [flatten_drop hlt]
        refine Grouped.append ?_ (ih (i + 1) (by omega)) ?_
        · unfold chainAt
          rw [List.getElem?_eq_getElem hlt]
          exact m.grouped i _ (List.getElem?_eq_getElem hlt)
        · intro e he f hf heq
          obtain ⟨chain, hchain, hfc⟩ := List.mem_flatten.mp hf
          obtain ⟨j, hj⟩ := List.mem_iff_getElem?.mp hchain
          rw [List.getElem?_drop] at hj
          have hplaced := m.placed _ chain hj f hfc
          have hindex := getIndex_of_mem he
          unfold getIndex at hindex
          rw [heq] at hindex
          omega
  have hall := hdrop m.table.length 0 (by omega)
  rw [List.drop_zero] at hall
  exact hall

/-- **From `find(k)` on, a walk has everything from the first pair of the key on.** -/
theorem ahead_findIt (m : HashMap κ ν) (k : κ) :
    Ahead m.table (m.findIt k) (m.toList.dropWhile (fun e => !decide (k = e.1))) := by
  have hlt := m.getIndex_lt k
  -- a key is only in the chain of its index, so the chains before it are passed over
  have hbefore : ∀ e ∈ (m.table.take (m.getIndex k)).flatten,
      (!decide (k = e.1)) = true := by
    intro e he
    rw [Bool.not_eq_true', decide_eq_false_iff_not]
    intro heq
    obtain ⟨chain, hchain, hmem⟩ := List.mem_flatten.mp he
    obtain ⟨j, hj⟩ := List.mem_iff_getElem?.mp hchain
    rw [List.getElem?_take] at hj
    by_cases hjlt : j < m.getIndex k
    · rw [if_pos hjlt] at hj
      have hplaced := m.placed j chain hj e hmem
      have hindex : m.getIndex k = j := by
        unfold getIndex
        rw [heq]
        exact hplaced
      omega
    · rw [if_neg hjlt] at hj
      cases hj
  have hsplit : m.toList = (m.table.take (m.getIndex k)).flatten ++
      (chainAt m.table (m.getIndex k) ++ (m.table.drop (m.getIndex k + 1)).flatten) := by
    rw [← flatten_drop hlt, ← List.flatten_append, List.take_append_drop]
    rfl
  rw [hsplit, List.dropWhile_append_of_pos hbefore]
  unfold findIt
  -- in its chain the walk starts at the first pair of the key; without one there is none later
  by_cases hfound : (chainAt m.table (m.getIndex k)).findIdx (fun e => decide (k = e.1)) <
      (chainAt m.table (m.getIndex k)).length
  · simp only [if_pos hfound]
    have hhave : (chainAt m.table (m.getIndex k)).dropWhile (fun e => !decide (k = e.1)) =
        (chainAt m.table (m.getIndex k)).drop
          ((chainAt m.table (m.getIndex k)).findIdx (fun e => decide (k = e.1))) := by
      rw [List.dropWhile_eq_drop_findIdx_not]
      simp
    rw [List.dropWhile_append, hhave]
    have hne : ((chainAt m.table (m.getIndex k)).drop
        ((chainAt m.table (m.getIndex k)).findIdx (fun e => decide (k = e.1)))).isEmpty = false := by
      rw [List.isEmpty_eq_false_iff]
      intro hnil
      rw [List.drop_eq_nil_iff] at hnil
      omega
    rw [hne, if_neg (by simp)]
    exact @Ahead.inside _ m.table ⟨m.getIndex k, m.getIndex k, _⟩ rfl hlt hfound
  · simp only [if_neg hfound]
    have hnone : ∀ e ∈ chainAt m.table (m.getIndex k) ++
        (m.table.drop (m.getIndex k + 1)).flatten, (!decide (k = e.1)) = true := by
      intro e he
      rcases List.mem_append.mp he with hin | hlater
      · rw [List.findIdx_lt_length] at hfound
        rw [Bool.not_eq_true']
        by_contra hcon
        rw [Bool.not_eq_false] at hcon
        exact hfound ⟨e, hin, hcon⟩
      · rw [Bool.not_eq_true', decide_eq_false_iff_not]
        intro heq
        obtain ⟨chain, hchain, hmem⟩ := List.mem_flatten.mp hlater
        obtain ⟨j, hj⟩ := List.mem_iff_getElem?.mp hchain
        rw [List.getElem?_drop] at hj
        have hplaced := m.placed _ chain hj e hmem
        rw [← heq] at hplaced
        have hindex : m.getIndex k = m.getIndex k + 1 + j := hplaced
        omega
    rw [List.dropWhile_eq_nil_iff.mpr hnone]
    exact ahead_end

/-- **A loop from `find(k)` while the key is the same** visits the values under the key. -/
theorem visitWhile_findIt (m : HashMap κ ν) (k : κ) {fuel : Nat} (hfuel : m.toList.length ≤ fuel) :
    (visitWhile m.table (fun e => k = e.1) fuel (m.findIt k)).map (List.map Prod.snd) =
      some (m.values k) := by
  have hle := (List.dropWhile_sublist (fun e => !decide (k = e.1)) (l := m.toList)).length_le
  rw [visitWhile_ahead _ (m.ahead_findIt k) (by omega), Option.map_some,
    takeWhile_dropWhile_eq_runAt, runAt_eq_atKey m.grouped_toList, atKey_toList]

/-- **`equal_range(k)`** is the values under the key. -/
theorem visit_equalRange (m : HashMap κ ν) (k : κ) {fuel : Nat} (hfuel : m.toList.length ≤ fuel) :
    ∃ high, m.equalRange k fuel = some (m.findIt k, high) ∧
      (visit m.table high fuel (m.findIt k)).map (List.map Prod.snd) = some (m.values k) := by
  have hle := (List.dropWhile_sublist (fun e => !decide (k = e.1)) (l := m.toList)).length_le
  obtain ⟨high, hadvance, _, hvisit⟩ :=
    visit_advanceWhile (fun e : κ × ν => decide (k = e.1)) (m.ahead_findIt k)
      (show _ ≤ fuel by omega)
  refine ⟨high, ?_, ?_⟩
  · unfold equalRange
    rw [hadvance]
    rfl
  · rw [hvisit, Option.map_some, takeWhile_dropWhile_eq_runAt, runAt_eq_atKey m.grouped_toList,
      atKey_toList]

/-- **`find(k)` is not `end()`** exactly if there is something under the key. -/
theorem findIt_ne_end (m : HashMap κ ν) (k : κ) :
    (m.findIt k).eq (endIt m.table) = false ↔ m.values k ≠ [] := by
  rw [← Bool.not_eq_true, (m.ahead_findIt k).eq_end_iff, ← atKey_toList, Ne, atKey_eq_nil,
    List.dropWhile_eq_nil_iff]
  refine not_congr (forall_congr' (fun e => imp_congr_right (fun _ => ?_)))
  rw [Bool.not_eq_true', decide_eq_false_iff_not]
  exact ne_comm

omit [DecidableEq κ] in
/-- **A loop from `begin()` to `end()`** visits the pairs of the map. -/
theorem visitWhile_begin (m : HashMap κ ν) {fuel : Nat} (hfuel : m.toList.length ≤ fuel) :
    visitWhile m.table (fun _ => true) fuel (beginIt m.table) = some m.toList := by
  rw [visitWhile_ahead _ (ahead_begin m.table_pos) hfuel]
  congr 1
  exact List.takeWhile_eq_self_iff.mpr (fun _ _ => rfl)

end HashMap

end Encoders.Container
