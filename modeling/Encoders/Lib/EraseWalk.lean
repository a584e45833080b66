import Mathlib.Data.List.Nodup

/-!
# Erasing from a list while walking through it

A loop goes through an array of bindings by position and may erase the binding it stands on. The
array closes up, and the loop still steps to the next position: the binding after an erased one is
never looked at. So the loop erases every other binding of a run of unwanted ones, and it erases
all that are unwanted exactly when no two of them are neighbours.

The bindings are part of some state, and erasing one may change the rest of that state as well.
-/

namespace Encoders.Lib

variable {σ κ τ : Type}

/-- The loop, for a number of rounds from a position on. -/
def eraseWalk (bindings : σ → List (κ × τ)) (erase : κ → σ → σ) (unwanted : τ → Bool) :
    Nat → Nat → σ → σ
  | 0, _, s => s
  | rounds + 1, i, s =>
      match (bindings s)[i]? with
      | none => s
      | some x =>
          eraseWalk bindings erase unwanted rounds (i + 1)
            (if unwanted x.2 then erase x.1 s else s)

/-- What the loop erases of a list it walks through from the start. -/
def walkErased (unwanted : τ → Bool) : List (κ × τ) → List (κ × τ)
  | [] => []
  | [x] => if unwanted x.2 then [x] else []
  | x :: y :: xs =>
      if unwanted x.2 then x :: walkErased unwanted xs else walkErased unwanted (y :: xs)

/-- No two neighbours are unwanted. -/
def Isolated (unwanted : τ → Bool) (l : List (κ × τ)) : Prop :=
  ∀ i x y, l[i]? = some x → l[i + 1]? = some y →
    ¬ (unwanted x.2 = true ∧ unwanted y.2 = true)

theorem walkErased_cons (unwanted : τ → Bool) (x : κ × τ) (xs : List (κ × τ)) :
    walkErased unwanted (x :: xs) =
      if unwanted x.2 then x :: walkErased unwanted (xs.drop 1) else walkErased unwanted xs := by
  cases xs with
  | nil => rfl
  | cons y ys => rfl

theorem mem_walkErased {unwanted : τ → Bool} {x : κ × τ} : ∀ {l : List (κ × τ)},
    x ∈ walkErased unwanted l → x ∈ l ∧ unwanted x.2 = true := by
  intro l
  induction l using walkErased.induct unwanted with
  | case1 => intro h; cases h
  | case2 y hy =>
      intro h
      rw [walkErased, if_pos hy] at h
      rw [List.mem_singleton.mp h]
      exact ⟨List.mem_cons_self, hy⟩
  | case3 y hy =>
      intro h
      rw [walkErased, if_neg hy] at h
      cases h
  | case4 y z ys hy ih =>
      intro h
      rw [walkErased, if_pos hy] at h
      rcases List.mem_cons.mp h with rfl | hrest
      · exact ⟨List.mem_cons_self, hy⟩
      · obtain ⟨hmem, hx⟩ := ih hrest
        exact ⟨List.mem_cons_of_mem _ (List.mem_cons_of_mem _ hmem), hx⟩
  | case5 y z ys hy ih =>
      intro h
      rw [walkErased, if_neg hy] at h
      obtain ⟨hmem, hx⟩ := ih h
      exact ⟨List.mem_cons_of_mem _ hmem, hx⟩

theorem isolated_cons {unwanted : τ → Bool} {x y : κ × τ} {xs : List (κ × τ)} :
    Isolated unwanted (x :: y :: xs) ↔
      ¬ (unwanted x.2 = true ∧ unwanted y.2 = true) ∧ Isolated unwanted (y :: xs) := by
  constructor
  · intro h
    exact ⟨h 0 x y rfl rfl, fun i a b ha hb => h (i + 1) a b ha hb⟩
  · rintro ⟨hhead, htail⟩ i a b ha hb
    cases i with
    | zero =>
        rw [List.getElem?_cons_zero] at ha
        rw [List.getElem?_cons_succ, List.getElem?_cons_zero] at hb
        rw [← Option.some.inj ha, ← Option.some.inj hb]
        exact hhead
    | succ i => exact htail i a b ha hb

theorem Isolated.tail {unwanted : τ → Bool} {x : κ × τ} {xs : List (κ × τ)}
    (h : Isolated unwanted (x :: xs)) : Isolated unwanted xs :=
  fun i a b ha hb => h (i + 1) a b ha hb

/-- **All that is unwanted is erased** exactly when no two neighbours are unwanted. -/
theorem walkErased_all_iff {unwanted : τ → Bool} : ∀ {l : List (κ × τ)}, l.Nodup →
    ((∀ x ∈ l, unwanted x.2 = true → x ∈ walkErased unwanted l) ↔ Isolated unwanted l) := by
  intro l
  induction l using walkErased.induct unwanted with
  | case1 =>
      intro _
      exact iff_of_true (fun x hx => absurd hx List.not_mem_nil)
        (fun i x y hx => absurd hx (by simp))
  | case2 y hy =>
      intro _
      rw [walkErased, if_pos hy]
      exact iff_of_true (fun x hx _ => hx) (fun i a b ha hb => absurd hb (by simp))
  | case3 y hy =>
      intro _
      refine iff_of_true (fun x hx hold => ?_) (fun i a b ha hb => absurd hb (by simp))
      rw [List.mem_singleton.mp hx] at hold
      exact absurd hold hy
  | case4 y z ys hy ih =>
      intro hnodup
      obtain ⟨hynot, hznodup⟩ := List.nodup_cons.mp hnodup
      obtain ⟨hznot, hysnodup⟩ := List.nodup_cons.mp hznodup
      rw [walkErased, if_pos hy, isolated_cons]
      constructor
      · intro hall
        -- the neighbour is not looked at
        have hz : unwanted z.2 ≠ true := by
          intro hz
          rcases List.mem_cons.mp (hall z (List.mem_cons_of_mem _ List.mem_cons_self) hz) with
            rfl | hmem
          · exact hynot List.mem_cons_self
          · exact hznot (mem_walkErased hmem).1
        have hrest : Isolated unwanted ys := by
          refine (ih hysnodup).mp (fun x hx hold => ?_)
          rcases List.mem_cons.mp (hall x
            (List.mem_cons_of_mem _ (List.mem_cons_of_mem _ hx)) hold) with rfl | hmem
          · exact absurd (List.mem_cons_of_mem _ hx) hynot
          · exact hmem
        refine ⟨fun hboth => hz hboth.2, ?_⟩
        cases ys with
        | nil => exact fun i a b ha hb => absurd hb (by simp)
        | cons w ws => exact isolated_cons.mpr ⟨fun hboth => hz hboth.1, hrest⟩
      · rintro ⟨hpair, hisolated⟩ x hx hold
        rcases List.mem_cons.mp hx with rfl | hx
        · exact List.mem_cons_self
        · rcases List.mem_cons.mp hx with rfl | hx
          · exact absurd ⟨hy, hold⟩ hpair
          · exact List.mem_cons_of_mem _ ((ih hysnodup).mpr hisolated.tail x hx hold)
  | case5 y z ys hy ih =>
      intro hnodup
      obtain ⟨hynot, hznodup⟩ := List.nodup_cons.mp hnodup
      rw [walkErased, if_neg hy, isolated_cons, ← ih hznodup]
      constructor
      · intro hall
        exact ⟨fun hboth => hy hboth.1, fun x hx hold => hall x (List.mem_cons_of_mem _ hx) hold⟩
      · rintro ⟨-, hall⟩ x hx hold
        rcases List.mem_cons.mp hx with rfl | hx
        · exact absurd hold hy
        · exact hall x hx hold

/-! ## The loop on a state -/

section Walk

variable {bindings : σ → List (κ × τ)} {erase : κ → σ → σ} {unwanted : τ → Bool}
variable [DecidableEq κ]

/-- Taking a key out of a list that has it once. -/
theorem filter_key {before after : List (κ × τ)} {x : κ × τ}
    (hnodup : ((before ++ x :: after).map Prod.fst).Nodup) :
    (before ++ x :: after).filter (fun y => y.1 ≠ x.1) = before ++ after := by
  rw [List.map_append, List.map_cons, List.nodup_append] at hnodup
  obtain ⟨-, hafter, hdisjoint⟩ := hnodup
  have hbefore : before.filter (fun y => y.1 ≠ x.1) = before := by
    rw [List.filter_eq_self]
    intro y hy
    exact decide_eq_true
      (hdisjoint y.1 (List.mem_map_of_mem hy) x.1 List.mem_cons_self)
  have hrest : after.filter (fun y => y.1 ≠ x.1) = after := by
    rw [List.filter_eq_self]
    intro y hy
    refine decide_eq_true (fun heq => (List.nodup_cons.mp hafter).1 ?_)
    rw [← heq]
    exact List.mem_map_of_mem hy
  rw [List.filter_append, List.filter_cons_of_neg (by simp), hbefore, hrest]

/-- The loop erases what `walkErased` says, one after the other. -/
theorem eraseWalk_eq (herase : ∀ k s, bindings (erase k s) =
      (bindings s).filter (fun y => y.1 ≠ k)) : ∀ (rounds : Nat) (before rest : List (κ × τ)) (s : σ),
    bindings s = before ++ rest → ((bindings s).map Prod.fst).Nodup → rest.length ≤ rounds →
    eraseWalk bindings erase unwanted rounds before.length s =
      (walkErased unwanted rest).foldl (fun s x => erase x.1 s) s := by
  intro rounds
  induction rounds with
  | zero =>
      intro before rest s _ _ hlen
      rw [List.length_eq_zero_iff.mp (Nat.le_zero.mp hlen)]
      rfl
  | succ rounds ih =>
      intro before rest s hs hnodup hlen
      cases rest with
      | nil =>
          rw [eraseWalk, hs, List.append_nil, List.getElem?_eq_none (Nat.le_refl _)]
          rfl
      | cons x rest =>
          rw [eraseWalk, hs, List.getElem?_append_right (Nat.le_refl _), Nat.sub_self,
            List.getElem?_cons_zero, walkErased_cons]
          dsimp only
          rw [List.length_cons] at hlen
          -- the erased key leaves the rest in its place, and the iterator moves on one farther
          by_cases hx : unwanted x.2 = true
          · rw [if_pos hx, if_pos hx, List.foldl_cons]
            have herased : bindings (erase x.1 s) = before ++ rest := by
              rw [herase, hs]
              rw [hs] at hnodup
              exact filter_key hnodup
            have hnodup' : ((bindings (erase x.1 s)).map Prod.fst).Nodup := by
              rw [herase]
              exact hnodup.sublist (List.filter_sublist.map _)
            cases rest with
            | nil =>
                have hend : (bindings (erase x.1 s))[before.length + 1]? = none := by
                  rw [herased, List.append_nil]
                  exact List.getElem?_eq_none (Nat.le_succ _)
                cases rounds with
                | zero => rfl
                | succ rounds =>
                    rw [eraseWalk, hend]
                    rfl
            | cons y rest =>
                -- the place behind the erased one is skipped, which `walkErased` does as well
                have hnext := ih (before ++ [y]) rest (erase x.1 s)
                  (by rw [herased, List.append_assoc]; rfl) hnodup'
                  (by rw [List.length_cons] at hlen; omega)
                rw [List.length_append] at hnext
                exact hnext
          · rw [if_neg hx, if_neg hx]
            have hnext := ih (before ++ [x]) rest s (by rw [hs, List.append_assoc]; rfl) hnodup
              (by omega)
            rw [List.length_append] at hnext
            exact hnext

/-- The bindings that are left when some keys have been erased. -/
theorem bindings_foldl (herase : ∀ k s, bindings (erase k s) =
      (bindings s).filter (fun y => y.1 ≠ k)) : ∀ (erased : List (κ × τ)) (s : σ),
    bindings (erased.foldl (fun s x => erase x.1 s) s) =
      (bindings s).filter (fun y => y.1 ∉ erased.map Prod.fst) := by
  intro erased
  induction erased with
  | nil => intro s; simp
  | cons x erased ih =>
      intro s
      rw [List.foldl_cons, ih, herase, List.filter_filter]
      refine List.filter_congr (fun y _ => ?_)
      rw [List.map_cons, ← Bool.decide_and, decide_eq_decide, List.mem_cons, not_or, and_comm]

/-- The whole loop, where a key is bound once. -/
theorem eraseWalk_start (herase : ∀ k s, bindings (erase k s) =
      (bindings s).filter (fun y => y.1 ≠ k)) {s : σ} (hkeys : ((bindings s).map Prod.fst).Nodup) :
    eraseWalk bindings erase unwanted (bindings s).length 0 s =
      (walkErased unwanted (bindings s)).foldl (fun s x => erase x.1 s) s :=
  eraseWalk_eq herase _ [] (bindings s) s rfl hkeys (Nat.le_refl _)

/-- **The bindings that are left are the wanted ones** exactly when no two neighbours are
unwanted. -/
theorem eraseWalk_bindings_iff (herase : ∀ k s, bindings (erase k s) =
      (bindings s).filter (fun y => y.1 ≠ k)) {s : σ} (hkeys : ((bindings s).map Prod.fst).Nodup) :
    bindings (eraseWalk bindings erase unwanted (bindings s).length 0 s) =
        (bindings s).filter (fun y => !unwanted y.2) ↔ Isolated unwanted (bindings s) := by
  have hsame : ∀ x ∈ bindings s, ∀ y ∈ bindings s, x.1 = y.1 → x = y := by
    intro x hx y hy heq
    exact List.inj_on_of_nodup_map hkeys hx hy heq
  rw [eraseWalk_start herase hkeys, bindings_foldl herase,
    ← walkErased_all_iff (List.Nodup.of_map _ hkeys)]
  constructor
  · intro hleft x hx hold
    by_contra hnot
    have hkept : x ∈ (bindings s).filter
        (fun y => y.1 ∉ (walkErased unwanted (bindings s)).map Prod.fst) := by
      rw [List.mem_filter]
      refine ⟨hx, decide_eq_true (fun hmem => hnot ?_)⟩
      obtain ⟨y, hy, heq⟩ := List.mem_map.mp hmem
      rw [hsame x hx y (mem_walkErased hy).1 heq.symm]
      exact hy
    rw [hleft, List.mem_filter, hold] at hkept
    exact absurd hkept.2 (by decide)
  · intro hall
    refine List.filter_congr (fun y hy => ?_)
    cases hold : unwanted y.2 with
    | true => simp [List.mem_map_of_mem (f := Prod.fst) (hall y hy hold)]
    | false =>
        refine decide_eq_true (fun hmem => ?_)
        obtain ⟨z, hz, heq⟩ := List.mem_map.mp hmem
        obtain ⟨hzmem, hzold⟩ := mem_walkErased hz
        rw [hsame z hzmem y hy heq, hold] at hzold
        cases hzold

omit [DecidableEq κ] in
/-- Then the erased keys are those of the unwanted bindings. -/
theorem Isolated.mem_erased {l : List (κ × τ)} (h : Isolated unwanted l) (hkeys : l.Nodup) {k : κ} :
    k ∈ (walkErased unwanted l).map Prod.fst ↔ ∃ t, (k, t) ∈ l ∧ unwanted t = true := by
  constructor
  · intro hmem
    obtain ⟨⟨k', t⟩, hx, rfl⟩ := List.mem_map.mp hmem
    exact ⟨t, mem_walkErased hx⟩
  · rintro ⟨t, hx, hold⟩
    exact List.mem_map.mpr ⟨(k, t), (walkErased_all_iff hkeys).mpr h _ hx hold, rfl⟩

end Walk

end Encoders.Lib
