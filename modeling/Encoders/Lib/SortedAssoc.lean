import Mathlib.Data.Set.Card
import Mathlib.Data.List.InsertIdx
import Mathlib.Order.Defs.LinearOrder

/-!
# Sorted lists of bindings as finite maps

A list of bindings in strictly increasing key order denotes a finite map. This
file says what the three edits an array-backed map makes to such a list do to the
map: putting a binding where its key belongs, taking one out by position, and
replacing the value of one.

Positions matter because array-backed maps hand them out as iterators. On the
side of the map, a position is the number of keys below the one it stands on.
-/

namespace Encoders.Lib

variable {κ α : Type} [LinearOrder κ]
variable {l : List (κ × α)} {i : Nat} {f : κ → Option α}
variable {x y : κ × α} {k : κ}

/-- Strictly increasing in key. -/
def Sorted (l : List (κ × α)) : Prop := l.Pairwise (fun a b => a.1 < b.1)

/-- Keys do not decrease; a key may be bound more than once. -/
def Ascending (l : List (κ × α)) : Prop := l.Pairwise (fun a b => a.1 ≤ b.1)

/-- The list holds exactly the bindings of the map. -/
def Denotes (l : List (κ × α)) (f : κ → Option α) : Prop :=
  ∀ k v, (k, v) ∈ l ↔ f k = some v

/-- Position `p` is where `k` belongs: smaller keys before it, greater ones from it on. -/
structure Located (l : List (κ × α)) (k : κ) (p : Nat) : Prop where
  below : ∀ i x, l[i]? = some x → i < p → x.1 < k
  above : ∀ i x, l[i]? = some x → p ≤ i → k < x.1

/-- Bind `k` unless it is bound already. -/
def bindNew (f : κ → Option α) (k : κ) (v : α) : κ → Option α :=
  if f k = none then Function.update f k (some v) else f

/-- `k` is the key a position `i` stands on: it is bound, and `i` bound keys are smaller. -/
def Nth (f : κ → Option α) (i : Nat) (k : κ) : Prop :=
  f k ≠ none ∧ {k' | f k' ≠ none ∧ k' < k}.ncard = i

open Classical in
/-- Unbind the key position `i` stands on, if there is one. -/
noncomputable def unbindNth (f : κ → Option α) (i : Nat) : κ → Option α :=
  fun k => if Nth f i k then none else f k

/-! ## Reading a sorted list -/

theorem sorted_get_lt (hs : Sorted l) {j : Nat} (hi : l[i]? = some x) (hj : l[j]? = some y)
    (hij : i < j) : x.1 < y.1 := by
  obtain ⟨hi', hx⟩ := List.getElem?_eq_some_iff.mp hi
  obtain ⟨hj', hy⟩ := List.getElem?_eq_some_iff.mp hj
  rw [← hx, ← hy]
  exact (List.pairwise_iff_getElem.mp hs) i j hi' hj' hij

theorem Sorted.ascending (hs : Sorted l) : Ascending l :=
  hs.imp (fun h => h.le)

theorem ascending_get_le (hs : Ascending l) {j : Nat} (hi : l[i]? = some x) (hj : l[j]? = some y)
    (hij : i < j) : x.1 ≤ y.1 := by
  obtain ⟨hi', hx⟩ := List.getElem?_eq_some_iff.mp hi
  obtain ⟨hj', hy⟩ := List.getElem?_eq_some_iff.mp hj
  rw [← hx, ← hy]
  exact (List.pairwise_iff_getElem.mp hs) i j hi' hj' hij

/-- A key sits at one position only. -/
theorem sorted_get_inj (hs : Sorted l) {j : Nat} (hi : l[i]? = some x) (hj : l[j]? = some y)
    (hk : x.1 = y.1) : i = j := by
  rcases Nat.lt_trichotomy i j with h | h | h
  · exact absurd (sorted_get_lt hs hi hj h) (by rw [hk]; exact lt_irrefl _)
  · exact h
  · exact absurd (sorted_get_lt hs hj hi h) (by rw [hk]; exact lt_irrefl _)

theorem sorted_keys_nodup (hs : Sorted l) : (l.map Prod.fst).Nodup := by
  rw [List.Nodup, List.pairwise_map]
  exact hs.imp (fun h => ne_of_lt h)

omit [LinearOrder κ] in
theorem Denotes.of_get (hd : Denotes l f) {v : α} (h : l[i]? = some (k, v)) : f k = some v :=
  (hd k v).mp (List.mem_of_getElem? h)

/-- A located key is not in the map. -/
theorem Located.unbound {p : Nat} (hl : Located l k p) (hd : Denotes l f) : f k = none := by
  cases hf : f k with
  | none => rfl
  | some v =>
      exfalso
      obtain ⟨i, hi⟩ := List.mem_iff_getElem?.mp ((hd k v).mpr hf)
      rcases Nat.lt_or_ge i p with h | h
      · exact lt_irrefl _ (hl.below i _ hi h)
      · exact lt_irrefl _ (hl.above i _ hi h)

/-- The length of the list is the number of bound keys. -/
theorem Denotes.length_eq (hs : Sorted l) (hd : Denotes l f) :
    l.length = {k | f k ≠ none}.ncard := by
  have hset : {k | f k ≠ none} = ((l.map Prod.fst).toFinset : Set κ) := by
    ext k
    simp only [Set.mem_ofPred_eq, List.coe_toFinset, List.mem_map, Prod.exists, exists_and_right,
      exists_eq_right]
    constructor
    · intro h
      obtain ⟨v, hv⟩ := Option.ne_none_iff_exists'.mp h
      exact ⟨v, (hd k v).mpr hv⟩
    · rintro ⟨v, hv⟩
      rw [(hd k v).mp hv]; simp
  rw [hset, Set.ncard_coe_finset, List.toFinset_card_of_nodup (sorted_keys_nodup hs),
    List.length_map]

/-- The position of a key is the number of keys below it. -/
theorem nth_iff (hs : Sorted l) (hd : Denotes l f) (i : Nat) (k : κ) :
    Nth f i k ↔ ∃ v, l[i]? = some (k, v) := by
  -- below the key at position `j` lie exactly the first `j` keys
  have hcard : ∀ (j : Nat) (v : α), l[j]? = some (k, v) →
      {k' | f k' ≠ none ∧ k' < k}.ncard = j := by
    intro j v hj
    have htake : Denotes (l.take j) (fun k' => if k' < k then f k' else none) := by
      intro k' v'
      rw [List.mem_iff_getElem?]
      constructor
      · rintro ⟨n, hn⟩
        rw [List.getElem?_take, Option.ite_none_right_eq_some] at hn
        simp [sorted_get_lt hs hn.2 hj hn.1, hd.of_get hn.2]
      · intro h
        simp only [Option.ite_none_right_eq_some] at h
        obtain ⟨n, hget⟩ := List.mem_iff_getElem?.mp ((hd k' v').mpr h.2)
        refine ⟨n, ?_⟩
        rw [List.getElem?_take, Option.ite_none_right_eq_some]
        refine ⟨?_, hget⟩
        rcases Nat.lt_or_ge n j with hlt | hge
        · exact hlt
        · exfalso
          rcases Nat.lt_or_eq_of_le hge with hgt | heq
          · exact lt_asymm h.1 (sorted_get_lt hs hj hget hgt)
          · subst heq; rw [hj] at hget
            injection hget with hget
            have hkk : k = k' := congrArg Prod.fst hget
            exact absurd h.1 (by rw [hkk]; exact lt_irrefl _)
    have hlen := Denotes.length_eq (List.Pairwise.sublist (List.take_sublist j l) hs) htake
    have hj' : j < l.length := (List.getElem?_eq_some_iff.mp hj).1
    rw [List.length_take_of_le hj'.le] at hlen
    rw [hlen]
    congr 1
    ext k'
    simp [and_comm]
  constructor
  · rintro ⟨hbound, hn⟩
    obtain ⟨v, hv⟩ := Option.ne_none_iff_exists'.mp hbound
    obtain ⟨j, hj⟩ := List.mem_iff_getElem?.mp ((hd k v).mpr hv)
    exact ⟨v, by rw [← hn, hcard j v hj]; exact hj⟩
  · rintro ⟨v, hv⟩
    exact ⟨by rw [hd.of_get hv]; simp, hcard i v hv⟩

/-! ## Editing a sorted list -/

theorem Located.sorted_insertIdx {p : Nat} (v : α) (hs : Sorted l) (hp : p ≤ l.length)
    (hl : Located l k p) : Sorted (l.insertIdx p (k, v)) := by
  refine List.pairwise_iff_getElem.mpr ?_
  intro i j hi hj hij
  simp only [List.getElem_insertIdx]
  rw [List.length_insertIdx_of_le_length hp] at hi hj
  have hget : ∀ n (h : n < l.length), l[n]? = some l[n] := fun n h => List.getElem?_eq_getElem h
  split_ifs with h1 h2 h3 h4 h5 h6
  · exact sorted_get_lt hs (hget i (by omega)) (hget j (by omega)) hij
  · exact hl.below i _ (hget i (by omega)) h1
  · exact sorted_get_lt hs (hget i (by omega)) (hget (j - 1) (by omega)) (by omega)
  · omega
  · omega
  · exact hl.above (j - 1) _ (hget (j - 1) (by omega)) (by omega)
  · omega
  · omega
  · exact sorted_get_lt hs (hget (i - 1) (by omega)) (hget (j - 1) (by omega)) (by omega)

theorem Located.denotes_insertIdx {p : Nat} (v : α) (hd : Denotes l f) (hp : p ≤ l.length)
    (hl : Located l k p) : Denotes (l.insertIdx p (k, v)) (bindNew f k v) := by
  have hnone := hl.unbound hd
  intro k' v'
  rw [bindNew, if_pos hnone, List.mem_insertIdx hp, hd k' v', Prod.mk.injEq]
  by_cases hk : k' = k
  · subst hk; simp [hnone, eq_comm]
  · simp [hk]

theorem Sorted.eraseIdx (hs : Sorted l) (i : Nat) : Sorted (l.eraseIdx i) :=
  List.Pairwise.sublist (List.eraseIdx_sublist l i) hs

theorem denotes_eraseIdx {v : α} (hs : Sorted l) (hd : Denotes l f) (hi : l[i]? = some (k, v)) :
    Denotes (l.eraseIdx i) (Function.update f k none) := by
  intro k' v'
  rw [List.mem_eraseIdx_iff_getElem?]
  by_cases hk : k' = k
  · subst hk
    simp only [Function.update_self, reduceCtorEq, iff_false]
    rintro ⟨j, hj, hget⟩
    exact hj (sorted_get_inj hs hget hi rfl)
  · rw [Function.update_of_ne hk, ← hd k' v', List.mem_iff_getElem?]
    constructor
    · rintro ⟨j, _, hget⟩; exact ⟨j, hget⟩
    · rintro ⟨j, hget⟩
      refine ⟨j, ?_, hget⟩
      intro hj
      subst hj; rw [hget] at hi
      injection hi with hi
      exact hk (congrArg Prod.fst hi)

/-- Taking out position `i` unbinds the key it stands on. -/
theorem denotes_unbindNth (hs : Sorted l) (hd : Denotes l f) :
    Denotes (l.eraseIdx i) (unbindNth f i) := by
  cases hi : l[i]? with
  | none =>
      rw [List.eraseIdx_of_length_le (List.getElem?_eq_none_iff.mp hi)]
      intro k v
      rw [unbindNth, if_neg, hd k v]
      intro hn
      obtain ⟨w, hw⟩ := (nth_iff hs hd i k).mp hn
      rw [hi] at hw; exact absurd hw (by simp)
  | some x =>
      obtain ⟨k, v⟩ := x
      have hupd : unbindNth f i = Function.update f k none := by
        funext k'
        by_cases hk : k' = k
        · subst hk
          rw [unbindNth, if_pos ((nth_iff hs hd i k').mpr ⟨v, hi⟩), Function.update_self]
        · rw [unbindNth, if_neg, Function.update_of_ne hk]
          intro hn
          obtain ⟨w, hw⟩ := (nth_iff hs hd i k').mp hn
          rw [hi] at hw
          injection hw with hw
          exact hk (congrArg Prod.fst hw).symm
      rw [hupd]
      exact denotes_eraseIdx hs hd hi

theorem sorted_set {u : α} (v : α) (hs : Sorted l) (hi : l[i]? = some (k, u)) :
    Sorted (l.set i (k, v)) := by
  refine List.pairwise_iff_getElem.mpr ?_
  intro a b ha hb hab
  rw [List.length_set] at ha hb
  obtain ⟨hi', hx⟩ := List.getElem?_eq_some_iff.mp hi
  have h0 := (List.pairwise_iff_getElem.mp hs) a b ha hb hab
  simp only [List.getElem_set]
  split_ifs with h1 h2 h3
  · omega
  · subst h1; rw [hx] at h0; exact h0
  · subst h3; rw [hx] at h0; exact h0
  · exact h0

theorem denotes_set {u : α} (v : α) (hs : Sorted l) (hd : Denotes l f) (hi : l[i]? = some (k, u)) :
    Denotes (l.set i (k, v)) (Function.update f k (some v)) := by
  have hlen := (List.getElem?_eq_some_iff.mp hi).1
  intro k' v'
  rw [List.mem_iff_getElem?]
  by_cases hk : k' = k
  · subst hk
    rw [Function.update_self, Option.some.injEq]
    constructor
    · rintro ⟨j, hj⟩
      rw [List.getElem?_set] at hj
      split_ifs at hj with h1
      · injection hj with hj; exact congrArg Prod.snd hj
      · exact absurd (sorted_get_inj hs hi hj rfl) h1
    · intro hv; subst hv
      exact ⟨i, by rw [List.getElem?_set_self hlen]⟩
  · rw [Function.update_of_ne hk, ← hd k' v', List.mem_iff_getElem?]
    have hne : ∀ j : Nat, (l.set i (k, v))[j]? = some (k', v') ↔ l[j]? = some (k', v') := by
      intro j
      rw [List.getElem?_set]
      split_ifs with h1
      · subst h1; rw [hi]
        constructor
        · intro h; injection h with h; exact absurd (congrArg Prod.fst h).symm hk
        · intro h; injection h with h; exact absurd (congrArg Prod.fst h).symm hk
      · exact Iff.rfl
    exact exists_congr hne

end Encoders.Lib
