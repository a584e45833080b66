import Mathlib.Algebra.BigOperators.Group.List.Basic
import Mathlib.Algebra.Ring.Nat
import Encoders.Lib.Run

/-!
# Loops over a list of things to do

A loop takes the first thing from a list, works on it, and may put more things at the end
of the list. Whether such a loop ends is seen from weights: when everything that is put on
the list weighs less, together, than what was taken off it, the weight of the list bounds
the rounds (`worklist_ends`).

A component with such a loop in it has steps that need fuel, and no bound in advance.
`run_converges` is the invariant rule for them: from some amount of fuel on, a run gives
the same result whatever the fuel, and keeps the invariant.

Where several parties work on one list, any of its things may be next (`anyNext`). Weights
then bound the length of every run (`run_measured`).

Calls that nest are a list too, on which a call puts what it calls in front (`nested`).
-/

namespace Encoders.Lib

variable {σ ι : Type}
variable {step : Nat → σ → ι → Option σ}

/-- Work on the first thing and put what it leaves to do at the end, `fuel` times at most. -/
def worklist (step : σ → ι → Option (σ × List ι)) : Nat → σ → List ι → Option σ
  | _, s, [] => some s
  | 0, _, _ :: _ => none
  | fuel + 1, s, x :: rest =>
      (step s x).bind (fun r => worklist step fuel r.1 (rest ++ r.2))

/--
**The rule for loops over a worklist.** A loop whose things get lighter ends, with the
invariant and an empty list, and more fuel does not change the result.
-/
theorem worklist_ends {step : σ → ι → Option (σ × List ι)} {Inv : σ → List ι → Prop}
    {weight : ι → Nat}
    (hstep : ∀ s x rest, Inv s (x :: rest) → ∃ s' more, step s x = some (s', more) ∧
      Inv s' (rest ++ more) ∧ (more.map weight).sum < weight x) :
    ∀ (n : Nat) (s : σ) (work : List ι), Inv s work → (work.map weight).sum ≤ n →
      ∃ s', Inv s' [] ∧ ∀ fuel, n ≤ fuel → worklist step fuel s work = some s'
  | n, s, [], hinv, _ => ⟨s, hinv, fun fuel _ => by cases fuel <;> rfl⟩
  | n, s, x :: rest, hinv, hn => by
      obtain ⟨s', more, hs', hinv', hlight⟩ := hstep s x rest hinv
      rw [List.map_cons, List.sum_cons] at hn
      cases n with
      | zero => omega
      | succ m =>
          have hm : ((rest ++ more).map weight).sum ≤ m := by
            rw [List.map_append, List.sum_append]
            omega
          obtain ⟨s'', hdone, hall⟩ := worklist_ends hstep m s' (rest ++ more) hinv' hm
          refine ⟨s'', hdone, ?_⟩
          intro fuel hfuel
          cases fuel with
          | zero => omega
          | succ fuel =>
              rw [worklist, hs']
              exact hall fuel (Nat.le_of_succ_le_succ hfuel)

/--
**The invariant rule for steps that need fuel.** If every guarded step succeeds from some
amount of fuel on, always with the same result, so does every guarded run.
-/
theorem run_converges {step : Nat → σ → ι → Option σ} {ok : σ → ι → Prop} {P : σ → Prop}
    (hstep : ∀ s op, P s → ok s op →
      ∃ s', P s' ∧ ∃ n, ∀ fuel, n ≤ fuel → step fuel s op = some s') :
    ∀ (ops : List ι) (s : σ), P s → ∃ n, ∀ fuel, n ≤ fuel → Guarded (step fuel) ok s ops →
      ∃ s', run (step fuel) s ops = some s' ∧ P s'
  | [], s, h => ⟨0, fun _ _ _ => ⟨s, rfl, h⟩⟩
  | op :: ops, s, h => by
      by_cases hok : ok s op
      · obtain ⟨s', hP, n, hn⟩ := hstep s op h hok
        obtain ⟨m, hm⟩ := run_converges hstep ops s' hP
        refine ⟨max n m, ?_⟩
        intro fuel hfuel hg
        have hs' := hn fuel (Nat.le_trans (Nat.le_max_left n m) hfuel)
        obtain ⟨s'', hrun, hP''⟩ := hm fuel (Nat.le_trans (Nat.le_max_right n m) hfuel) (hg.2 s' hs')
        exact ⟨s'', by simp only [run, hs']; exact hrun, hP''⟩
      · exact ⟨0, fun fuel _ hg => absurd hg.1 hok⟩

/-- A loop that has ended ends the same way with more fuel. -/
theorem worklist_more {step : σ → ι → Option (σ × List ι)} : ∀ {fuel fuel' : Nat} {s s' : σ}
    {work : List ι}, fuel ≤ fuel' → worklist step fuel s work = some s' →
      worklist step fuel' s work = some s'
  | fuel, fuel', s, s', [], _, h => by
      cases fuel <;> cases fuel' <;> exact h
  | 0, _, _, _, _ :: _, _, h => by
      rw [worklist] at h
      exact absurd h (by simp)
  | fuel + 1, 0, _, _, _ :: _, hle, _ => absurd hle (Nat.not_succ_le_zero fuel)
  | fuel + 1, fuel' + 1, s, s', x :: rest, hle, h => by
      rw [worklist, Option.bind_eq_some_iff] at h ⊢
      obtain ⟨r, hr, h⟩ := h
      exact ⟨r, hr, worklist_more (Nat.le_of_succ_le_succ hle) h⟩

/-- With more fuel a run that has ended ends the same. -/
theorem run_more {fuel fuel' : Nat}
    (hmore : ∀ s op s', step fuel s op = some s' → step fuel' s op = some s') :
    ∀ {ops : List ι} {s s' : σ}, run (step fuel) s ops = some s' → run (step fuel') s ops = some s'
  | [], _, _, hrun => hrun
  | op :: ops, s, s', hrun => by
      rw [run, Option.bind_eq_some_iff] at hrun ⊢
      obtain ⟨t, ht, hrun⟩ := hrun
      exact ⟨t, hmore s op t ht, run_more hmore hrun⟩

/-- A guarded run that has ended is guarded with more fuel. -/
theorem guarded_more {ok : σ → ι → Prop} {fuel fuel' : Nat}
    (hmore : ∀ s op s', step fuel s op = some s' → step fuel' s op = some s') :
    ∀ {ops : List ι} {s s' : σ}, run (step fuel) s ops = some s' →
      Guarded (step fuel) ok s ops → Guarded (step fuel') ok s ops
  | [], _, _, _, _ => trivial
  | op :: ops, s, s', hrun, hg => by
      rw [run, Option.bind_eq_some_iff] at hrun
      obtain ⟨t, ht, hrun⟩ := hrun
      refine ⟨hg.1, ?_⟩
      intro t' ht'
      rw [hmore s op t ht] at ht'
      injection ht' with ht'
      rw [← ht']
      exact guarded_more hmore hrun (hg.2 t ht)

/-! ## In any order -/

/-- Work on any of the things, in any surroundings, and put what it leaves to do at the end. -/
def anyNext {α : Type} (work : α → ι → List ι) (l : List ι) (op : Nat × α) : Option (List ι) :=
  (l[op.1]?).map (fun x => l.eraseIdx op.1 ++ work op.2 x)

/-- What is at hand after a step was there before, or was left by the thing worked on. -/
theorem mem_of_anyNext {α : Type} {work : α → ι → List ι} {l l' : List ι} {op : Nat × α}
    (h : anyNext work l op = some l') :
    ∃ x ∈ l, l[op.1]? = some x ∧ l' = l.eraseIdx op.1 ++ work op.2 x ∧
      ∀ y ∈ l', y ∈ l ∨ y ∈ work op.2 x := by
  obtain ⟨x, hx, rfl⟩ := Option.map_eq_some_iff.mp h
  refine ⟨x, List.mem_of_getElem? hx, hx, rfl, fun y hy => ?_⟩
  rcases List.mem_append.mp hy with hold | hnew
  · exact Or.inl (List.mem_of_mem_eraseIdx hold)
  · exact Or.inr hnew

/-- If a thing leaves less to do than itself, a step makes the list lighter. -/
theorem anyNext_lighter {α : Type} {work : α → ι → List ι} {weight : ι → Nat} {l l' : List ι}
    {op : Nat × α} (h : anyNext work l op = some l')
    (hlight : ∀ x ∈ l, ((work op.2 x).map weight).sum < weight x) :
    (l'.map weight).sum < (l.map weight).sum := by
  obtain ⟨x, hx, hk, rfl, -⟩ := mem_of_anyNext h
  obtain ⟨hlt, hget⟩ := List.getElem?_eq_some_iff.mp hk
  have hperm : l.Perm (x :: l.eraseIdx op.1) := by
    rw [← hget]
    exact (List.getElem_cons_eraseIdx_perm hlt).symm
  have hsum : (l.map weight).sum = weight x + ((l.eraseIdx op.1).map weight).sum := by
    rw [(hperm.map weight).sum_eq, List.map_cons, List.sum_cons]
  rw [hsum, List.map_append, List.sum_append]
  have := hlight x hx
  omega

/-- **The rule for runs that get lighter with every step**: their length is bounded. -/
theorem run_measured {step : σ → ι → Option σ} {Inv : σ → Prop} {measure : σ → Nat}
    (hstep : ∀ s op s', Inv s → step s op = some s' → Inv s' ∧ measure s' < measure s) :
    ∀ (ops : List ι) (s s' : σ), Inv s → run step s ops = some s' →
      Inv s' ∧ ops.length + measure s' ≤ measure s := by
  intro ops
  induction ops with
  | nil =>
      intro s s' hinv hrun
      obtain rfl := Option.some.inj hrun
      exact ⟨hinv, Nat.le_of_eq (Nat.zero_add _)⟩
  | cons op ops ih =>
      intro s s' hinv hrun
      rw [run, Option.bind_eq_some_iff] at hrun
      obtain ⟨t, ht, hrun⟩ := hrun
      obtain ⟨hinvt, hlt⟩ := hstep s op t hinv ht
      obtain ⟨hinv', hle⟩ := ih t s' hinvt hrun
      refine ⟨hinv', ?_⟩
      rw [List.length_cons]
      omega

/-! ## Calls that nest -/

/-- Work on the first thing and put what it leaves to do in front, `fuel` times at most. -/
def nested (step : σ → ι → Option (σ × List ι)) : Nat → σ → List ι → Option σ
  | _, s, [] => some s
  | 0, _, _ :: _ => none
  | fuel + 1, s, x :: rest =>
      (step s x).bind (fun r => nested step fuel r.1 (r.2 ++ rest))

/-- **The rule for calls that nest.** Every call takes something off the state. -/
theorem nested_ends {step : σ → ι → Option (σ × List ι)} {Inv : σ → List ι → Prop}
    {measure : σ → Nat}
    (hstep : ∀ s x rest, Inv s (x :: rest) → ∃ s' more, step s x = some (s', more) ∧
      Inv s' (more ++ rest) ∧ measure s' < measure s) :
    ∀ (fuel : Nat) (s : σ) (work : List ι), Inv s work → measure s ≤ fuel →
      ∃ s', nested step fuel s work = some s' ∧ Inv s' []
  | fuel, s, [], hinv, _ => ⟨s, by cases fuel <;> rfl, hinv⟩
  | 0, s, x :: rest, hinv, hfuel => by
      obtain ⟨s', more, -, -, hlt⟩ := hstep s x rest hinv
      omega
  | fuel + 1, s, x :: rest, hinv, hfuel => by
      obtain ⟨s', more, hs', hinv', hlt⟩ := hstep s x rest hinv
      obtain ⟨s'', hs'', hdone⟩ := nested_ends hstep fuel s' (more ++ rest) hinv' (by omega)
      exact ⟨s'', by rw [nested, hs', Option.bind_some, hs''], hdone⟩

/--
A change of the state that no call sees, as long as it is still there to be seen in the end: the
calls do the same with it and without it.
-/
theorem nested_commutes {step : σ → ι → Option (σ × List ι)} {P Q : σ → Prop} {change : σ → σ}
    (hkeep : ∀ s x s' more, P s → step s x = some (s', more) → P s')
    (hback : ∀ s x s' more, P s → step s x = some (s', more) → Q s' → Q s)
    (hstep : ∀ s x s' more, P s → step s x = some (s', more) → Q s' →
      step (change s) x = some (change s', more)) :
    ∀ (fuel : Nat) (s s' : σ) (work : List ι), P s → nested step fuel s work = some s' → Q s' →
      Q s ∧ nested step fuel (change s) work = some (change s')
  | 0, s, s', [], _, hs', hQ => by
      cases hs'
      exact ⟨hQ, rfl⟩
  | fuel + 1, s, s', [], _, hs', hQ => by
      cases hs'
      exact ⟨hQ, rfl⟩
  | 0, _, _, _ :: _, _, hs', _ => by cases hs'
  | fuel + 1, s, s', x :: rest, h, hs', hQ => by
      rw [nested] at hs'
      obtain ⟨⟨t, more⟩, hr, hs'⟩ := Option.bind_eq_some_iff.mp hs'
      obtain ⟨hQt, hrest⟩ := nested_commutes hkeep hback hstep fuel t s' (more ++ rest)
        (hkeep s x t more h hr) hs' hQ
      refine ⟨hback s x t more h hr hQt, ?_⟩
      rw [nested, hstep s x t more h hr hQt, Option.bind_some]
      exact hrest

end Encoders.Lib
