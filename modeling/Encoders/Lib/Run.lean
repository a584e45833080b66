import Mathlib.Logic.Basic

/-!
# Runs of a partial step function

A component is a state and a step that may get stuck: `none` stands for a step
the language gives no meaning to (a write past an array, a read through a freed
pointer). A run folds the step over a list of operations.

Some components keep their promises only while each operation finds a state fit
for it. `Guarded` says so along a whole run, and `run_simulates` turns one lemma
about one step into a statement about every run: the run never gets stuck, and
the state it reaches stays related to the state of an abstract machine that
processed the same operations.
-/

namespace Encoders.Lib

variable {σ τ ι : Type}
variable {step : σ → ι → Option σ} {ok : σ → ι → Prop}

/-- Fold a partial step over a list of operations. -/
def run (step : σ → ι → Option σ) : σ → List ι → Option σ
  | s, [] => some s
  | s, op :: ops => (step s op).bind (fun s' => run step s' ops)

/-- Every operation of the list meets `ok` in the state it is applied to. -/
def Guarded (step : σ → ι → Option σ) (ok : σ → ι → Prop) : σ → List ι → Prop
  | _, [] => True
  | s, op :: ops => ok s op ∧ ∀ s', step s op = some s' → Guarded step ok s' ops

/-- A guard that can be tested can be tested along a run. -/
instance Guarded.decidable {step : σ → ι → Option σ} {ok : σ → ι → Prop}
    [∀ s op, Decidable (ok s op)] : ∀ s ops, Decidable (Guarded step ok s ops)
  | _, [] => isTrue trivial
  | s, op :: ops =>
      match hs : step s op with
      | none => decidable_of_iff (ok s op) ⟨fun h => ⟨h, by simp [hs]⟩, fun h => h.1⟩
      | some s' =>
          have : Decidable (Guarded step ok s' ops) := Guarded.decidable s' ops
          decidable_of_iff (ok s op ∧ Guarded step ok s' ops)
            ⟨fun h => ⟨h.1, fun t ht => by rw [hs] at ht; injection ht with ht; exact ht ▸ h.2⟩,
              fun h => ⟨h.1, h.2 s' hs⟩⟩

theorem run_append (step : σ → ι → Option σ) :
    ∀ (xs ys : List ι) (s : σ),
      run step s (xs ++ ys) = (run step s xs).bind (fun s' => run step s' ys)
  | [], _, _ => rfl
  | x :: xs, ys, s => by
      simp only [List.cons_append, run]
      cases step s x with
      | none => rfl
      | some s' => exact run_append step xs ys s'

/--
A guard along a run is a guard on every operation after the operations before it.
-/
theorem guarded_iff (step : σ → ι → Option σ) (ok : σ → ι → Prop) :
    ∀ (ops : List ι) (s : σ), Guarded step ok s ops ↔
      ∀ pre op post, ops = pre ++ op :: post → ∀ s', run step s pre = some s' → ok s' op
  | [], s => by simp [Guarded]
  | x :: xs, s => by
      constructor
      · rintro ⟨hx, hxs⟩ pre op post heq s' hs'
        cases pre with
        | nil =>
            simp only [run, Option.some.injEq] at hs'
            simp only [List.nil_append, List.cons.injEq] at heq
            rw [← hs', ← heq.1]; exact hx
        | cons y ys =>
            simp only [List.cons_append, List.cons.injEq] at heq
            obtain ⟨rfl, rfl⟩ := heq
            simp only [run, Option.bind_eq_some_iff] at hs'
            obtain ⟨t, ht, hs'⟩ := hs'
            exact (guarded_iff step ok _ t).mp (hxs t ht) ys op post rfl s' hs'
      · intro h
        refine ⟨h [] x xs rfl s rfl, ?_⟩
        intro t ht
        refine (guarded_iff step ok xs t).mpr ?_
        intro pre op post heq s' hs'
        refine h (x :: pre) op post (by rw [heq]; rfl) s' ?_
        rw [run, ht]; exact hs'

/-- A guard along a run in two parts. -/
theorem guarded_append (step : σ → ι → Option σ) (ok : σ → ι → Prop) :
    ∀ (xs ys : List ι) (s : σ), Guarded step ok s (xs ++ ys) ↔
      Guarded step ok s xs ∧ ∀ s', run step s xs = some s' → Guarded step ok s' ys
  | [], ys, s => by simp [Guarded, run]
  | x :: xs, ys, s => by
      simp only [List.cons_append, Guarded, run, Option.bind_eq_some_iff]
      constructor
      · rintro ⟨hx, hrest⟩
        refine ⟨⟨hx, fun t ht => ((guarded_append step ok xs ys t).mp (hrest t ht)).1⟩, ?_⟩
        rintro s' ⟨t, ht, hs'⟩
        exact ((guarded_append step ok xs ys t).mp (hrest t ht)).2 s' hs'
      · rintro ⟨⟨hx, hrest⟩, hys⟩
        refine ⟨hx, fun t ht => (guarded_append step ok xs ys t).mpr ⟨hrest t ht, ?_⟩⟩
        exact fun s' hs' => hys s' ⟨t, ht, hs'⟩

/--
Two guards that agree where a property holds agree along a run, if the first keeps it; the
operations of the run may be of a kind.
-/
theorem guarded_congr_of {step : σ → ι → Option σ} {ok ok' : σ → ι → Prop} {P : σ → Prop}
    {Meant : ι → Prop} (hiff : ∀ s op, P s → Meant op → (ok s op ↔ ok' s op))
    (hkeep : ∀ s op s', P s → Meant op → ok s op → step s op = some s' → P s') :
    ∀ (ops : List ι) (s : σ), (∀ op ∈ ops, Meant op) → P s →
      (Guarded step ok s ops ↔ Guarded step ok' s ops)
  | [], _, _, _ => Iff.rfl
  | op :: ops, s, hops, h => by
      have hop := hops op List.mem_cons_self
      rw [Guarded, Guarded, ← hiff s op h hop]
      refine and_congr_right (fun hok => forall_congr' (fun s' => ?_))
      refine imp_congr_right (fun hs' => ?_)
      exact guarded_congr_of hiff hkeep ops s' (fun op' hop' => hops op' (List.mem_cons_of_mem _ hop'))
        (hkeep s op s' h hop hok hs')

/-- The same, for all operations. -/
theorem guarded_congr {step : σ → ι → Option σ} {ok ok' : σ → ι → Prop} {P : σ → Prop}
    (hiff : ∀ s op, P s → (ok s op ↔ ok' s op))
    (hkeep : ∀ s op s', P s → ok s op → step s op = some s' → P s') (ops : List ι) (s : σ)
    (h : P s) : Guarded step ok s ops ↔ Guarded step ok' s ops :=
  @guarded_congr_of σ ι step ok ok' P (fun _ => True) (fun s op hP _ => hiff s op hP)
    (fun s op s' hP _ => hkeep s op s' hP) ops s (fun _ _ => trivial) h

/-- A total step folds. -/
theorem run_total (aStep : τ → ι → τ) : ∀ (ops : List ι) (a : τ),
    run (fun a op => some (aStep a op)) a ops = some (ops.foldl aStep a)
  | [], _ => rfl
  | op :: ops, a => run_total aStep ops (aStep a op)

/-- A guard that looks at a part of the state which steps on its own. -/
theorem guarded_part {σ' : Type} {big : σ' → ι → σ'} {small : τ → ι → τ} {part : σ' → τ}
    {ok : τ → ι → Prop} (hpart : ∀ w op, part (big w op) = small (part w) op) :
    ∀ (ops : List ι) (w : σ'),
      Guarded (fun w op => some (big w op)) (fun w op => ok (part w) op) w ops ↔
        Guarded (fun a op => some (small a op)) ok (part w) ops
  | [], _ => Iff.rfl
  | op :: ops, w => by
      simp only [Guarded, Option.some.injEq, forall_eq']
      rw [← hpart, guarded_part hpart ops (big w op)]

/-- A guard along a run of a total step, operation by operation. -/
theorem guarded_foldl_iff (aStep : τ → ι → τ) (ok : τ → ι → Prop) (ops : List ι) (a : τ) :
    Guarded (fun a op => some (aStep a op)) ok a ops ↔
      ∀ pre op post, ops = pre ++ op :: post → ok (pre.foldl aStep a) op := by
  rw [guarded_iff]
  refine forall_congr' (fun pre => forall_congr' (fun op => forall_congr' (fun post => ?_)))
  refine imp_congr_right (fun _ => ?_)
  rw [run_total]
  simp

/-- For a total step, one operation more. -/
theorem guarded_snoc (aStep : τ → ι → τ) (ok : τ → ι → Prop) (ops : List ι) (op : ι) (a : τ) :
    Guarded (fun a op => some (aStep a op)) ok a (ops ++ [op]) ↔
      Guarded (fun a op => some (aStep a op)) ok a ops ∧ ok (ops.foldl aStep a) op := by
  rw [guarded_append, run_total]
  simp [Guarded]

/--
**The simulation rule.** If one guarded step succeeds and keeps the concrete and
the abstract state related, a guarded run succeeds and ends in related states.
Both sides may have a guard.
-/
theorem run_simulates_guarded {step : σ → ι → Option σ} {ok : σ → ι → Prop} {aStep : τ → ι → τ}
    {aOk : τ → ι → Prop} {R : σ → τ → Prop}
    (hstep : ∀ s a op, R s a → ok s op → aOk a op →
      ∃ s', step s op = some s' ∧ R s' (aStep a op)) :
    ∀ (ops : List ι) (s : σ) (a : τ), R s a → Guarded step ok s ops →
      Guarded (fun a op => some (aStep a op)) aOk a ops →
      ∃ s', run step s ops = some s' ∧ R s' (ops.foldl aStep a)
  | [], s, _, hR, _, _ => ⟨s, rfl, hR⟩
  | op :: ops, s, a, hR, hg, ha => by
      obtain ⟨s', hs', hR'⟩ := hstep s a op hR hg.1 ha.1
      obtain ⟨s'', hrun, hR''⟩ := run_simulates_guarded hstep ops s' (aStep a op) hR'
        (hg.2 s' hs') (ha.2 _ rfl)
      exact ⟨s'', by simp only [run, hs']; exact hrun, hR''⟩

/-- The simulation rule with a guard on the concrete side only. -/
theorem run_simulates {step : σ → ι → Option σ} {ok : σ → ι → Prop} {aStep : τ → ι → τ}
    {R : σ → τ → Prop}
    (hstep : ∀ s a op, R s a → ok s op → ∃ s', step s op = some s' ∧ R s' (aStep a op))
    (ops : List ι) (s : σ) (a : τ) (hR : R s a) (hg : Guarded step ok s ops) :
    ∃ s', run step s ops = some s' ∧ R s' (ops.foldl aStep a) := by
  have htrue : ∀ s a op, R s a → ok s op → True →
      ∃ s', step s op = some s' ∧ R s' (aStep a op) := fun s a op hR hok _ => hstep s a op hR hok
  refine @run_simulates_guarded σ τ ι step ok aStep (fun _ _ => True) R htrue ops s a hR hg ?_
  · refine (guarded_iff _ _ ops a).mpr ?_
    intros
    trivial

/-- **The invariant rule**: the simulation rule with nothing on the abstract side. -/
theorem run_invariant {P : σ → Prop}
    (hstep : ∀ s op, P s → ok s op → ∃ s', step s op = some s' ∧ P s') (ops : List ι) (s : σ)
    (h : P s) (hg : Guarded step ok s ops) : ∃ s', run step s ops = some s' ∧ P s' := by
  have hsim : ∀ s (u : Unit) op, P s → ok s op →
      ∃ s', step s op = some s' ∧ P s' := fun s _ op => hstep s op
  exact @run_simulates σ Unit ι step ok (fun u _ => u) (fun s _ => P s) hsim ops s () h hg

/-- A step that keeps a property whenever it succeeds keeps it along every run that succeeds. -/
theorem run_keeps {step : σ → ι → Option σ} {P : σ → Prop} :
    ∀ (ops : List ι) (s s' : σ),
      (∀ s, ∀ op ∈ ops, ∀ s', P s → step s op = some s' → P s') →
      P s → run step s ops = some s' → P s'
  | [], s, s', _, h, hrun => by
      simp only [run, Option.some.injEq] at hrun
      exact hrun ▸ h
  | op :: ops, s, s', hstep, h, hrun => by
      simp only [run, Option.bind_eq_some_iff] at hrun
      obtain ⟨t, ht, hrun⟩ := hrun
      have hkeep : P t := hstep s op (List.mem_cons_self) t h ht
      exact run_keeps ops t s'
        (fun s op hop => hstep s op (List.mem_cons_of_mem _ hop)) hkeep hrun

/-- The same, where the step keeps the property if it finds what it asks for. -/
theorem run_keeps_guarded {step : σ → ι → Option σ} {ok : σ → ι → Prop} {P : σ → Prop}
    {Meant : ι → Prop}
    (hstep : ∀ s op s', P s → Meant op → ok s op → step s op = some s' → P s') :
    ∀ (ops : List ι) (s s' : σ), (∀ op ∈ ops, Meant op) → P s → Guarded step ok s ops →
      run step s ops = some s' → P s'
  | [], s, s', _, h, _, hrun => by
      simp only [run, Option.some.injEq] at hrun
      exact hrun ▸ h
  | op :: ops, s, s', hmeant, h, hg, hrun => by
      simp only [run, Option.bind_eq_some_iff] at hrun
      obtain ⟨t, ht, hrun⟩ := hrun
      have hkeep : P t := hstep s op t h (hmeant op List.mem_cons_self) hg.1 ht
      exact run_keeps_guarded hstep ops t s' (fun op hop => hmeant op (List.mem_cons_of_mem _ hop))
        hkeep (hg.2 t ht) hrun

/--
**The rule for conditions that are exact.** An invariant implies what is wanted of a state.
If under the invariant a step that is meant is allowed exactly when it leaves a wanted state,
and an allowed step keeps the invariant, then a run of such steps goes through wanted states
only exactly when all of its steps are allowed.
-/
theorem run_wanted_guarded_iff {step : σ → ι → Option σ} {ok : σ → ι → Prop}
    {P Wanted : σ → Prop} {Meant : σ → ι → Prop} (hwanted : ∀ s, P s → Wanted s)
    (hkeep : ∀ s op, P s → Meant s op → ok s op → ∃ s', step s op = some s' ∧ P s')
    (hback : ∀ s op s', P s → Meant s op → step s op = some s' → Wanted s' → ok s op) :
    ∀ (ops : List ι) (s : σ), P s → Guarded step Meant s ops →
      ((∀ pre post, ops = pre ++ post → ∃ s', run step s pre = some s' ∧ Wanted s') ↔
        Guarded step ok s ops)
  | [], s, h, _ => by
      refine ⟨fun _ => trivial, fun _ pre post heq => ?_⟩
      obtain ⟨rfl, -⟩ := List.append_eq_nil_iff.mp heq.symm
      exact ⟨s, rfl, hwanted s h⟩
  | op :: ops, s, h, hmeant => by
      refine ⟨fun hall => ?_, fun hguard pre post heq => ?_⟩
      · -- forward: the wanted state after one step gives the guard of that step
        obtain ⟨s', hs', hgood⟩ := hall [op] ops rfl
        have hstep : step s op = some s' := by
          rw [run] at hs'
          obtain ⟨t, ht, hts⟩ := Option.bind_eq_some_iff.mp hs'
          exact ht.trans hts
        have hok := hback s op s' h hmeant.1 hstep hgood
        refine ⟨hok, fun t ht => ?_⟩
        obtain ⟨t', ht', hP⟩ := hkeep s op h hmeant.1 hok
        obtain rfl : t = t' := Option.some.inj (ht.symm.trans ht')
        refine (run_wanted_guarded_iff hwanted hkeep hback ops t hP (hmeant.2 t ht)).mp ?_
        intro pre post heq
        obtain ⟨u, hu, hugood⟩ := hall (op :: pre) post (congrArg (op :: ·) heq)
        rw [run, ht, Option.bind_some] at hu
        exact ⟨u, hu, hugood⟩
      · -- back: the guards carry the invariant, and the invariant gives what is wanted
        cases pre with
        | nil => exact ⟨s, rfl, hwanted s h⟩
        | cons op' pre =>
            obtain ⟨rfl, hops⟩ := List.cons.inj heq
            obtain ⟨t, ht, hP⟩ := hkeep s op h hmeant.1 hguard.1
            obtain ⟨u, hu, hugood⟩ :=
              (run_wanted_guarded_iff hwanted hkeep hback ops t hP (hmeant.2 t ht)).mpr
                (hguard.2 t ht) pre post hops
            exact ⟨u, by rw [run, ht, Option.bind_some]; exact hu, hugood⟩

/-- The rule where what is meant does not depend on the state. -/
theorem run_wanted_iff {step : σ → ι → Option σ} {ok : σ → ι → Prop} {P Wanted : σ → Prop}
    {Meant : ι → Prop} (hwanted : ∀ s, P s → Wanted s)
    (hkeep : ∀ s op, P s → Meant op → ok s op → ∃ s', step s op = some s' ∧ P s')
    (hback : ∀ s op s', P s → Meant op → step s op = some s' → Wanted s' → ok s op)
    (ops : List ι) (s : σ) (h : P s) (hmeant : ∀ op ∈ ops, Meant op) :
    (∀ pre post, ops = pre ++ post → ∃ s', run step s pre = some s' ∧ Wanted s') ↔
      Guarded step ok s ops := by
  refine @run_wanted_guarded_iff σ ι step ok P Wanted (fun _ => Meant) hwanted hkeep hback ops s h ?_
  refine (guarded_iff _ _ ops s).mpr (fun pre op post heq _ _ => hmeant op ?_)
  rw [heq]
  exact List.mem_append_right _ List.mem_cons_self

/-- A guard on a part of the state that steps on its own holds along a run of the whole. -/
theorem Guarded.of_part {big : σ → ι → Option σ} {small : τ → ι → τ} {part : σ → τ}
    {ok : τ → ι → Prop} (hpart : ∀ s op s', big s op = some s' → part s' = small (part s) op) :
    ∀ (ops : List ι) (s : σ), Guarded (fun a op => some (small a op)) ok (part s) ops →
      Guarded big (fun s op => ok (part s) op) s ops
  | [], _, _ => trivial
  | op :: ops, s, h => by
      refine ⟨h.1, fun s' hs' => Guarded.of_part hpart ops s' ?_⟩
      rw [hpart s op s' hs']
      exact h.2 _ rfl

/-- A step, and beside the state a record of what it did. -/
def beside (step : σ → ι → Option σ) (record : σ → τ → ι → σ → τ) :
    σ × τ → ι → Option (σ × τ) :=
  fun w op => (step w.1 op).map (fun s' => (s', record w.1 w.2 op s'))

/-- A guard on the state does not see the record. -/
theorem guarded_beside (step : σ → ι → Option σ) (record : σ → τ → ι → σ → τ)
    (ok : σ → ι → Prop) : ∀ (ops : List ι) (w : σ × τ),
      Guarded (beside step record) (fun w op => ok w.1 op) w ops ↔ Guarded step ok w.1 ops
  | [], _ => Iff.rfl
  | op :: ops, w => by
      rw [Guarded, Guarded, beside]
      cases step w.1 op with
      | none => simp
      | some s' => simp [guarded_beside step record ok ops (s', record w.1 w.2 op s')]

/--
**The rule for conditions that are exact, with a record.** The condition is on the state, and
what is wanted on state and record.
-/
theorem run_beside_iff {record : σ → τ → ι → σ → τ} {P Wanted : σ × τ → Prop}
    (hwanted : ∀ w, P w → Wanted w)
    (hkeep : ∀ w op, P w → ok w.1 op → ∃ w', beside step record w op = some w' ∧ P w')
    (hback : ∀ w op w', P w → beside step record w op = some w' → Wanted w' → ok w.1 op)
    (ops : List ι) (w : σ × τ) (h : P w) :
    (∀ pre post, ops = pre ++ post → ∃ w', run (beside step record) w pre = some w' ∧ Wanted w') ↔
      Guarded step ok w.1 ops := by
  rw [← guarded_beside step record ok ops w]
  exact @run_wanted_iff (σ × τ) ι (beside step record) (fun w op => ok w.1 op) P Wanted
    (fun _ => True) hwanted (fun w op hP _ => hkeep w op hP) (fun w op w' hP _ => hback w op w' hP)
    ops w h (fun _ _ => trivial)

/-- A partial step beside a total one, on the same operations. -/
def paired (step : σ → ι → Option σ) (aStep : τ → ι → τ) : σ × τ → ι → Option (σ × τ) :=
  beside step (fun _ a op _ => aStep a op)

theorem run_paired (step : σ → ι → Option σ) (aStep : τ → ι → τ) :
    ∀ (ops : List ι) (s : σ) (a : τ),
      run (paired step aStep) (s, a) ops =
        (run step s ops).map (fun s' => (s', ops.foldl aStep a))
  | [], _, _ => rfl
  | op :: ops, s, a => by
      rw [run, run, paired, beside]
      cases step s op with
      | none => rfl
      | some s' => exact run_paired step aStep ops s' (aStep a op)

/--
**The rule for conditions that are exact, beside a specification.** What is wanted relates the
state to that of a machine that never gets stuck, and says which operations are meant.
-/
theorem run_related_iff {step : σ → ι → Option σ} {aStep : τ → ι → τ} {ok : σ → ι → Prop}
    {R Wanted : σ → τ → Prop} {Meant : τ → ι → Prop} (hwanted : ∀ s a, R s a → Wanted s a)
    (hkeep : ∀ s a op, R s a → Meant a op → ok s op →
      ∃ s', step s op = some s' ∧ R s' (aStep a op))
    (hback : ∀ s a op s', R s a → Meant a op → step s op = some s' → Wanted s' (aStep a op) →
      ok s op) (ops : List ι) (s : σ) (a : τ) (h : R s a)
    (hmeant : Guarded (fun a op => some (aStep a op)) Meant a ops) :
    (∀ pre post, ops = pre ++ post →
        ∃ s', run step s pre = some s' ∧ Wanted s' (pre.foldl aStep a)) ↔
      Guarded step ok s ops := by
  have hpart : ∀ (w : σ × τ) (op : ι) (w' : σ × τ), paired step aStep w op = some w' →
      w'.2 = aStep w.2 op := by
    intro w op w' hw
    obtain ⟨s', -, rfl⟩ := Option.map_eq_some_iff.mp hw
    rfl
  have hmeant' : Guarded (paired step aStep) (fun w op => Meant w.2 op) (s, a) ops :=
    Guarded.of_part hpart ops (s, a) hmeant
  have hrun := @run_wanted_guarded_iff (σ × τ) ι (paired step aStep) (fun w op => ok w.1 op)
    (fun w => R w.1 w.2) (fun w => Wanted w.1 w.2) (fun w op => Meant w.2 op)
    (fun w hR => hwanted w.1 w.2 hR) ?_ ?_ ops (s, a) h hmeant'
  · refine Iff.trans ?_
      (hrun.trans (guarded_beside step (fun _ a op _ => aStep a op) ok ops (s, a)))
    refine forall_congr' (fun pre => forall_congr' (fun post => imp_congr_right (fun _ => ?_)))
    rw [run_paired]
    simp
  · intro w op hR hM hok
    obtain ⟨s', hs', hR'⟩ := hkeep w.1 w.2 op hR hM hok
    exact ⟨(s', aStep w.2 op), by rw [paired, beside, hs']; rfl, hR'⟩
  · intro w op w' hR hM hw hgood
    obtain ⟨s', hs', rfl⟩ := Option.map_eq_some_iff.mp hw
    exact hback w.1 w.2 op s' hR hM hs' hgood

/-- The rule for a total step. -/
theorem foldl_wanted_iff {aStep : τ → ι → τ} {ok : τ → ι → Prop} {P Wanted : τ → Prop}
    (hwanted : ∀ a, P a → Wanted a) (hkeep : ∀ a op, P a → ok a op → P (aStep a op))
    (hback : ∀ a op, P a → Wanted (aStep a op) → ok a op) (ops : List ι) (a : τ) (h : P a) :
    (∀ pre post, ops = pre ++ post → Wanted (pre.foldl aStep a)) ↔
      Guarded (fun a op => some (aStep a op)) ok a ops := by
  have hrun := @run_wanted_iff τ ι (fun a op => some (aStep a op)) ok P Wanted (fun _ => True)
    hwanted (fun a op hP _ hok => ⟨aStep a op, rfl, hkeep a op hP hok⟩)
    (fun a op s' hP _ hs' hgood => hback a op hP (by rw [Option.some.inj hs']; exact hgood))
    ops a h (fun _ _ => trivial)
  rw [← hrun]
  refine forall_congr' (fun pre => forall_congr' (fun post => imp_congr_right (fun _ => ?_)))
  rw [run_total]
  simp

/-- The rule for total steps on both sides. -/
theorem foldl_related_iff {step : σ → ι → σ} {aStep : τ → ι → τ} {ok : σ → ι → Prop}
    {R Wanted : σ → τ → Prop} {Meant : τ → ι → Prop} (hwanted : ∀ s a, R s a → Wanted s a)
    (hkeep : ∀ s a op, R s a → Meant a op → ok s op → R (step s op) (aStep a op))
    (hback : ∀ s a op, R s a → Meant a op → Wanted (step s op) (aStep a op) → ok s op)
    (ops : List ι) (s : σ) (a : τ) (h : R s a)
    (hmeant : Guarded (fun a op => some (aStep a op)) Meant a ops) :
    (∀ pre post, ops = pre ++ post → Wanted (pre.foldl step s) (pre.foldl aStep a)) ↔
      Guarded (fun s op => some (step s op)) ok s ops := by
  rw [← @run_related_iff σ τ ι (fun s op => some (step s op)) aStep ok R Wanted Meant hwanted
    (fun s a op hR hM hok => ⟨step s op, rfl, hkeep s a op hR hM hok⟩)
    (fun s a op s' hR hM hs' hgood => hback s a op hR hM (by rw [Option.some.inj hs']; exact hgood))
    ops s a h hmeant]
  refine forall_congr' (fun pre => forall_congr' (fun post => imp_congr_right (fun _ => ?_)))
  rw [run_total]
  simp

/--
The rule for an operation that goes through several states: `between` are those of one operation,
the last one among them. A property that holds of them exactly when the operation is allowed holds
of all states of a run exactly when all of its operations are.
-/
theorem foldl_between_iff {aStep : τ → ι → τ} {between : τ → ι → List τ} {ok : τ → ι → Prop}
    {P : τ → Prop} (hlast : ∀ a op, aStep a op ∈ between a op)
    (hone : ∀ a op, P a → ((∀ b ∈ between a op, P b) ↔ ok a op)) :
    ∀ (ops : List ι) (a : τ), P a →
      ((∀ pre op post, ops = pre ++ op :: post → ∀ b ∈ between (pre.foldl aStep a) op, P b) ↔
        Guarded (fun a op => some (aStep a op)) ok a ops)
  | [], a, _ => by simp [Guarded]
  | op :: ops, a, h => by
      have hrest : ok a op → ((∀ pre op' post, ops = pre ++ op' :: post →
          ∀ b ∈ between (pre.foldl aStep (aStep a op)) op', P b) ↔
            Guarded (fun a op => some (aStep a op)) ok (aStep a op) ops) := fun hok =>
        foldl_between_iff hlast hone ops (aStep a op) ((hone a op h).mpr hok _ (hlast a op))
      simp only [Guarded, Option.some.injEq, forall_eq']
      constructor
      · intro hall
        have hok : ok a op := (hone a op h).mp (hall [] op ops rfl)
        refine ⟨hok, (hrest hok).mp (fun pre op' post heq => ?_)⟩
        exact hall (op :: pre) op' post (congrArg (op :: ·) heq)
      · rintro ⟨hok, hguard⟩ pre op' post heq
        cases pre with
        | nil =>
            obtain ⟨rfl, -⟩ := List.cons.inj heq
            exact (hone a op h).mpr hok
        | cons x pre =>
            obtain ⟨rfl, hops⟩ := List.cons.inj heq
            exact (hrest hok).mpr hguard pre op' post hops

end Encoders.Lib
