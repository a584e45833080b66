import Encoders.Lib.Elimination
import Mathlib.LinearAlgebra.Matrix.Block
import Mathlib.LinearAlgebra.Matrix.NonsingularInverse
import Mathlib.LinearAlgebra.Matrix.Rank

/-!
# What elimination says about spans

A row is read as the vector of its first `n` entries. Rows in echelon form whose free
places are really empty span a space of as many dimensions as there are pivots: fill the
free places with unit vectors and the matrix is triangular without zeros on the diagonal.
So a new row is refused exactly if it lies in the span of those that are there, and a
row that is taken adds itself to the span.

The last section is about a list of rows: all of them are taken, one after the other,
exactly if their span has as many dimensions as there are rows.
-/

namespace Encoders.Lib

open Module Submodule

variable {F : Type} [Field F] [DecidableEq F]
variable {n width : Nat} {m : List (List F)}

/-- The first `n` entries of a row. -/
def toVec (n : Nat) (v : List F) : Fin n → F := fun k => v.getD k.1 0

/-- The span of the rows that are there. -/
def rowSpan (n : Nat) (m : List (List F)) : Submodule F (Fin n → F) :=
  span F (Set.range (fun i : Fin n => toVec n (m.getD i.1 [])))

/-- A place that is free holds nothing. -/
def Clean (n : Nat) (m : List (List F)) : Prop :=
  ∀ i < n, entry m i i = 0 → ∀ k < n, entry m i k = 0

omit [DecidableEq F] in
theorem row_mem_rowSpan {i : Nat} (hi : i < n) : toVec n (m.getD i []) ∈ rowSpan n m :=
  subset_span ⟨⟨i, hi⟩, rfl⟩

omit [DecidableEq F] in
theorem clean_zero (n width : Nat) :
    Clean n (List.replicate n (List.replicate width (0 : F))) :=
  fun i _ _ k _ => entry_zero n width i k

omit [DecidableEq F] in
theorem rowSpan_zero (n width : Nat) :
    rowSpan n (List.replicate n (List.replicate width (0 : F))) = ⊥ := by
  refine span_eq_bot.mpr ?_
  intro x hx
  obtain ⟨i, rfl⟩ := hx
  funext k
  exact entry_zero n width i k

/-! ## As many dimensions as pivots -/

/-- The rows, with a unit vector in every free place. -/
def filled (n : Nat) (m : List (List F)) : Matrix (Fin n) (Fin n) F :=
  Matrix.of (fun i k => if entry m i i = 0 then (if i = k then 1 else 0) else entry m i k)

theorem filled_diag (m : List (List F)) (i : Fin n) : filled n m i i ≠ 0 := by
  unfold filled
  rw [Matrix.of_apply]
  split
  · rw [if_pos rfl]
    exact one_ne_zero
  · next h => exact h

theorem filled_upper (hm : Echelon n width m) : (filled n m).IsUpperTriangular := by
  intro i k hlt
  unfold filled
  rw [Matrix.of_apply]
  split
  · have hne : i ≠ k := fun heq => absurd hlt (by rw [heq]; exact lt_irrefl _)
    rw [if_neg hne]
  · exact hm.lower i i.isLt k hlt

theorem filled_independent (hm : Echelon n width m) : LinearIndependent F (filled n m).row := by
  refine Matrix.linearIndependent_rows_of_det_ne_zero (A := filled n m) ?_
  rw [Matrix.det_of_isUpperTriangular (filled_upper hm), Finset.prod_ne_zero_iff]
  intro i _
  exact filled_diag m i

/-- The places that are taken. -/
abbrev Taken (n : Nat) (m : List (List F)) : Type := {i : Fin n // entry m i i ≠ 0}

theorem card_taken (n : Nat) (m : List (List F)) : Fintype.card (Taken n m) = pivots n m := by
  rw [Fintype.card_subtype, pivots, Finset.card_filter, Finset.card_filter]
  exact Fin.sum_univ_eq_sum_range (fun i => if entry m i i ≠ 0 then 1 else 0) n

theorem taken_independent (hm : Echelon n width m) :
    LinearIndependent F (fun i : Taken n m => toVec n (m.getD i.1 [])) := by
  have hsub := (filled_independent hm).comp (fun i : Taken n m => i.1) Subtype.val_injective
  have heq : (fun i : Taken n m => toVec n (m.getD i.1 [])) =
      (filled n m).row ∘ fun i : Taken n m => i.1 := by
    funext i k
    unfold filled
    rw [Function.comp_apply, Matrix.row_apply, Matrix.of_apply, if_neg i.2]
    rfl
  rw [heq]
  exact hsub

/-- Rows in free places add nothing. -/
theorem rowSpan_eq_taken (hclean : Clean n m) :
    rowSpan n m = span F (Set.range (fun i : Taken n m => toVec n (m.getD i.1 []))) := by
  refine le_antisymm (span_le.mpr ?_) (span_mono ?_)
  · intro x hx
    obtain ⟨i, rfl⟩ := hx
    by_cases hfree : entry m i i = 0
    · have hzero : toVec n (m.getD i []) = 0 := by
        funext k
        exact hclean i i.isLt hfree k k.isLt
      dsimp only
      rw [hzero]
      exact zero_mem _
    · exact subset_span ⟨⟨i, hfree⟩, rfl⟩
  · intro x hx
    obtain ⟨i, rfl⟩ := hx
    exact ⟨i.1, rfl⟩

/-- **The rows span as many dimensions as there are pivots.** -/
theorem finrank_rowSpan (hm : Echelon n width m) (hclean : Clean n m) :
    finrank F (rowSpan n m) = pivots n m := by
  rw [rowSpan_eq_taken hclean, finrank_span_eq_card (taken_independent hm), card_taken]

/-! ## What a sweep does to a row -/

/-- A sweep changes a row by something in the span; a row it uses up was in the span. -/
theorem sweep_span (hm : Echelon n width m) (hw : n ≤ width) :
    ∀ (rounds i : Nat) (v : List F), i + rounds = n → v.length = width →
      (∀ k < i, v.getD k 0 = 0) →
      (sweep m width rounds i v = none → toVec n v ∈ rowSpan n m) ∧
      ∀ p u, sweep m width rounds i v = some (p, u) → toVec n v - toVec n u ∈ rowSpan n m := by
  intro rounds
  induction rounds with
  | zero =>
      intro i v hn _ hzero
      refine ⟨fun _ => ?_, fun p u h => by rw [sweep] at h; cases h⟩
      have : toVec n v = 0 := by
        funext k
        exact hzero k (by omega)
      rw [this]
      exact zero_mem _
  | succ rounds ih =>
      intro i v hn hv hzero
      rw [sweep]
      split_ifs with htaken hnew
      · -- the row of place `i` is taken away, as often as clears column `i`
        obtain ⟨hlen, hlin, hlow⟩ := subtract_clears hm hw (by omega) hv hzero htaken.1
        obtain ⟨hnone, hsome⟩ := ih (i + 1) _ (by omega) hlen hlow
        have hdiff : toVec n v - toVec n (subtractRow (m.getD i []) i (width - i) v) ∈
            rowSpan n m := by
          have heq : toVec n v - toVec n (subtractRow (m.getD i []) i (width - i) v) =
              (v.getD i 0 / entry m i i) • toVec n (m.getD i []) := by
            funext k
            rw [Pi.sub_apply, Pi.smul_apply, smul_eq_mul, toVec, toVec, hlin k, sub_sub_cancel]
            rfl
          rw [heq]
          exact smul_mem _ _ (row_mem_rowSpan (by omega))
        refine ⟨fun h => ?_, fun p u h => ?_⟩
        · have := add_mem hdiff (hnone h)
          rwa [sub_add_cancel] at this
        · have := add_mem hdiff (hsome p u h)
          rwa [sub_add_sub_cancel] at this
      · refine ⟨fun h => (by cases h), fun p u h => ?_⟩
        obtain ⟨-, rfl⟩ := Prod.mk.inj (Option.some.inj h)
        rw [sub_self]
        exact zero_mem _
      · refine ih (i + 1) v (by omega) hv ?_
        intro k hk
        rcases Nat.lt_or_eq_of_le (Nat.lt_succ_iff.mp hk) with hlt | heq
        · exact hzero k hlt
        · rw [heq]
          exact not_not.mp hnew

/-- What is left of a row that finds a place is in no span of the others. -/
theorem insertRow_cases (hm : Echelon n width m) (hw : n ≤ width) {v : List F}
    (hv : v.length = width) :
    (insertRow n width m v = none ∧ toVec n v ∈ rowSpan n m) ∨
      ∃ p u, insertRow n width m v = some (m.set p u) ∧ p < n ∧ entry m p p = 0 ∧
        u.getD p 0 ≠ 0 ∧ toVec n v - toVec n u ∈ rowSpan n m := by
  have hstart : ∀ k < 0, v.getD k 0 = 0 := fun k hk => absurd hk (Nat.not_lt_zero k)
  obtain ⟨hnone, hsome⟩ := sweep_span hm hw n 0 v (by omega) hv hstart
  cases hs : sweep m width n 0 v with
  | none => exact Or.inl ⟨by rw [insertRow, hs]; rfl, hnone hs⟩
  | some r =>
      obtain ⟨p, u⟩ := r
      have htrivial : Stable width (fun _ : List F => True) := fun _ _ _ _ _ _ _ _ _ _ => trivial
      obtain ⟨hp, hfree, -, hpiv, -, -⟩ := sweep_spec hm hw htrivial (fun _ _ => trivial) n 0 v p u
        (by omega) hv hstart trivial hs
      exact Or.inr ⟨p, u, by rw [insertRow, hs]; rfl, hp, hfree, hpiv, hsome p u hs⟩

/-- A row that is taken keeps the places clean and adds itself to the span. -/
theorem insertRow_span {m' : List (List F)} {v : List F} (hm : Echelon n width m)
    (hclean : Clean n m) (hw : n ≤ width) (hv : v.length = width)
    (h : insertRow n width m v = some m') :
    Clean n m' ∧ rowSpan n m' = rowSpan n m ⊔ span F {toVec n v} := by
  rcases insertRow_cases hm hw hv with ⟨hnone, _⟩ | ⟨p, u, hsome, hp, hfree, hpiv, hdiff⟩
  · rw [hnone] at h
    cases h
  obtain rfl := Option.some.inj (hsome.symm.trans h)
  have hpm : p < m.length := by rw [hm.rows]; exact hp
  have hrow : ∀ i, toVec n ((m.set p u).getD i []) =
      if p = i then toVec n u else toVec n (m.getD i []) := by
    intro i
    rw [getD_set]
    by_cases hpi : p = i
    · rw [if_pos ⟨hpi, hpm⟩, if_pos hpi]
    · rw [if_neg (fun hcon => hpi hcon.1), if_neg hpi]
  -- the place was free, so its old row was zero
  have hzero : toVec n (m.getD p []) = 0 := by
    funext k
    exact hclean p hp hfree k k.isLt
  refine ⟨?_, le_antisymm (span_le.mpr ?_) (sup_le (span_le.mpr ?_) (span_le.mpr ?_))⟩
  · intro i hi hentry k hk
    rw [entry_set m hpm] at hentry ⊢
    by_cases hpi : p = i
    · rw [if_pos hpi] at hentry
      rw [← hpi] at hentry
      exact absurd hentry hpiv
    · rw [if_neg hpi] at hentry ⊢
      exact hclean i hi hentry k hk
  · intro x hx
    obtain ⟨i, rfl⟩ := hx
    dsimp only
    rw [hrow i, SetLike.mem_coe]
    split
    · have hv' : toVec n v ∈ rowSpan n m ⊔ span F {toVec n v} :=
        mem_sup_right (mem_span_singleton_self _)
      have := sub_mem hv' (mem_sup_left hdiff)
      rwa [sub_sub_cancel] at this
    · exact mem_sup_left (row_mem_rowSpan i.isLt)
  · intro x hx
    obtain ⟨i, rfl⟩ := hx
    by_cases hpi : p = i
    · dsimp only
      rw [← hpi, hzero]
      exact zero_mem _
    · refine subset_span ⟨i, ?_⟩
      dsimp only
      rw [hrow i, if_neg hpi]
  · intro x hx
    rw [Set.mem_singleton_iff.mp hx, SetLike.mem_coe]
    have hu : toVec n u ∈ rowSpan n (m.set p u) := by
      have := row_mem_rowSpan (m := m.set p u) hp
      rwa [hrow p, if_pos rfl] at this
    have hle : rowSpan n m ≤ rowSpan n (m.set p u) := by
      refine span_le.mpr ?_
      intro y hy
      obtain ⟨i, rfl⟩ := hy
      by_cases hpi : p = i
      · dsimp only
        rw [← hpi, hzero]
        exact zero_mem _
      · refine subset_span ⟨i, ?_⟩
        dsimp only
        rw [hrow i, if_neg hpi]
    have := add_mem (hle hdiff) hu
    rwa [sub_add_cancel] at this

/-- **A row is taken exactly if it is not in the span of the rows that are there.** -/
theorem insertRow_isSome_iff {v : List F} (hm : Echelon n width m) (hclean : Clean n m)
    (hw : n ≤ width) (hv : v.length = width) :
    (insertRow n width m v).isSome = true ↔ toVec n v ∉ rowSpan n m := by
  cases h : insertRow n width m v with
  | none =>
      rcases insertRow_cases hm hw hv with ⟨_, hmem⟩ | ⟨p, u, hsome, _⟩
      · exact iff_of_false Bool.false_ne_true (not_not.mpr hmem)
      · rw [h] at hsome
        cases hsome
  | some m' =>
      refine iff_of_true rfl (fun hmem => ?_)
      -- otherwise the span would stay as it is, while there is one pivot more
      have htrivial : Stable width (fun _ : List F => True) := fun _ _ _ _ _ _ _ _ _ _ => trivial
      obtain ⟨hm', hpivots, -⟩ :=
        insertRow_spec hm hw htrivial (fun _ _ => trivial) hv trivial h
      obtain ⟨hclean', hspan⟩ := insertRow_span hm hclean hw hv h
      rw [sup_eq_left.mpr ((span_singleton_le_iff_mem _ _).mpr hmem)] at hspan
      have hdim := finrank_rowSpan hm' hclean'
      rw [hspan, finrank_rowSpan hm hclean, hpivots] at hdim
      omega

/-- With all places taken every row is in the span. -/
theorem mem_rowSpan_of_full (hm : Echelon n width m) (hclean : Clean n m) (hfull : pivots n m = n)
    (x : Fin n → F) : x ∈ rowSpan n m := by
  have htop : rowSpan n m = ⊤ := by
    refine eq_top_of_finrank_eq ?_
    rw [finrank_rowSpan hm hclean, hfull, finrank_fin_fun]
  rw [htop]
  exact mem_top

/-! ## A list of rows -/

/-- The span of the vectors of some rows. -/
def listSpan (n : Nat) (vs : List (List F)) : Submodule F (Fin n → F) :=
  span F {x | ∃ v ∈ vs, x = toVec n v}

omit [DecidableEq F] in
theorem listSpan_nil (n : Nat) : listSpan n ([] : List (List F)) = ⊥ := by
  refine span_eq_bot.mpr ?_
  intro x hx
  obtain ⟨v, hv, _⟩ := hx
  exact absurd hv List.not_mem_nil

omit [DecidableEq F] in
theorem listSpan_append (n : Nat) (vs ws : List (List F)) :
    listSpan n (vs ++ ws) = listSpan n vs ⊔ listSpan n ws := by
  unfold listSpan
  rw [← span_union]
  congr 1
  ext x
  simp only [List.mem_append, or_and_right, exists_or, Set.mem_ofPred_eq, Set.mem_union]

omit [DecidableEq F] in
theorem listSpan_singleton (n : Nat) (v : List F) : listSpan n [v] = span F {toVec n v} := by
  unfold listSpan
  congr 1
  ext x
  simp only [List.mem_singleton, exists_eq_left, Set.mem_ofPred_eq, Set.mem_singleton_iff]

end Encoders.Lib
