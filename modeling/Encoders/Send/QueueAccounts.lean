import Encoders.Send.Queue

/-!
# What the send queue keeps

Something waits for a node only while all its stations are in use (`SendState.Busy`). Before
`startSend` this may fail by one station that has become free, or by one element that has
been added, and `startSend` restores it (`startSend_spec`). So a state without a station in
use has nothing in its sorter, and is thrown away without a loss (`Stocked.drained`).

What was added is then always in one of three places (`queue_accounted`), as long as the
sorter itself keeps what it is given. Where the elements are not tame it does not, and a
send that has come to its end makes the queue read through a pointer that was deleted
(`queue_reads_deleted`).
-/

namespace Encoders.Send

open Encoders.Lib Encoders.Data TopologicalSorter

/-! ## A state -/

/-- Sound, and counted: the state of a node, also between two parts of a call. -/
structure Stocked (po : PartialOrder) (P : Int) (E : List SendPriorityElement)
    (st : SendState) : Prop where
  sound : ∃ N, Sound E N st.topSorter
  order : st.topSorter.partialOrder = po
  counted : st.numActiveSendStations = st.sendStations.length
  within : st.numActiveSendStations ≤ P
  ready : ∀ e ∈ st.topSorter.held, e.event ≠ none
  /-- A pointer is in one place. -/
  apart : ∀ a, (st.topSorter.held + st.sendStations).countP (fun e => e.addr = a) ≤ 1

/-- Nothing waits while a station is free. -/
def SendState.Busy (P : Int) (st : SendState) : Prop :=
  st.topSorter.held ≠ 0 → st.numActiveSendStations = P

variable {po : PartialOrder} {P : Int} {E : List SendPriorityElement}

/-- Before `startSend` a station may have become free, or an element have been added. -/
theorem SendState.Busy.almost {P : Int} {st : SendState} (h : st.Busy P) :
    st.topSorter.held = 0 ∨ P ≤ st.numActiveSendStations := by
  by_cases hwaits : st.topSorter.held = 0
  · exact Or.inl hwaits
  · exact Or.inr (le_of_eq (h hwaits).symm)

theorem held_new (po : PartialOrder) : (new po).held = 0 := by
  rw [(sound_new po []).held_eq, Finset.sum_empty]

theorem stocked_new (hP : 1 ≤ P) : Stocked po P E ⟨.new po, [], 0⟩ where
  sound := ⟨∅, sound_new po E⟩
  order := rfl
  counted := rfl
  within := by
    show (0 : Int) ≤ P
    omega
  ready := by
    intro e he
    rw [held_new] at he
    exact absurd he (Multiset.notMem_zero e)
  apart := by
    intro a
    rw [held_new]
    exact Nat.zero_le 1

theorem busy_new : SendState.Busy P ⟨.new po, [], 0⟩ := fun h => absurd (held_new po) h

/-- What is held is among the elements the sorter is sound for. -/
theorem Stocked.mem_of_held {st : SendState} (h : Stocked po P E st) {e : SendPriorityElement}
    (he : e ∈ st.topSorter.held) : e ∈ E := by
  obtain ⟨N, hsound⟩ := h.sound
  obtain ⟨n, hn, hen⟩ := hsound.mem_held.mp he
  exact hsound.members n hn e hen

theorem filter_equals_one (po : PartialOrder) (c se : SendPriorityElement) :
    [se].filter (po.equals c) = if po.compareElements c se = .eq then [se] else [] := by
  by_cases heq : po.compareElements c se = .eq
  · rw [if_pos heq]
    exact List.filter_cons_of_pos (decide_eq_true heq)
  · rw [if_neg heq]
    exact List.filter_cons_of_neg (mt of_decide_eq_true heq)

/--
**What `startSend` does.** Where all stations are in use but one, or one element waits, no
element waits for a free station when it is done; and what it starts asks for the event it
raises. An element that goes back because no station is free goes behind those it equals, so
the lines stay as they were if there are none.
-/
theorem startSend_spec (T : Tame po.compareElements E) {st : SendState} (h : Stocked po P E st)
    (halmost : st.topSorter.held.card ≤ 1 ∨ P ≤ st.numActiveSendStations + 1) :
    ∃ st' e out, Stocked po P E st' ∧ st'.Busy P ∧
      st'.sendStations = st.sendStations ++ out ∧
      st.topSorter.held = (out : Multiset SendPriorityElement) + st'.topSorter.held ∧
      out.map SendPriorityElement.event = e.toList.map some ∧
      (∀ ev, e = some ev → ∃ se ∈ E, se.event = some ev) ∧
      ((P ≤ st.numActiveSendStations → Untied po.compareElements st.topSorter.held) →
        ∀ c ∈ E, st.topSorter.line c =
          out.filter (po.equals c) ++ st'.topSorter.line c) ∧
      ∃ n, ∀ fuel, n ≤ fuel → SendQueue.startSend fuel P st = some (st', e) := by
  obtain ⟨N, hsound⟩ := h.sound
  have T' : Tame st.topSorter.partialOrder.compareElements E := by
    rw [h.order]
    exact T
  rcases hsound.popTop_spec T' with ⟨hpop, hnone⟩ |
    ⟨se, s', N', hpop, hsound', hheld, hpo, -, hbest, hlines⟩
  · -- nothing waits
    refine ⟨st, none, [], h, fun hne => absurd hnone hne, ?_, ?_, rfl, ?_, fun _ _ _ => rfl, 0, ?_⟩
    · exact (List.append_nil _).symm
    · rw [Multiset.coe_nil, zero_add]
    · intro ev hev
      cases hev
    · intro fuel _
      rw [SendQueue.startSend, hpop]
      rfl
  have hse : se ∈ st.topSorter.held := by
    rw [hheld]
    exact Multiset.mem_cons_self se s'.held
  obtain ⟨ev, hev⟩ := Option.ne_none_iff_exists'.mp (h.ready se hse)
  have hready' : ∀ e ∈ s'.held, e.event ≠ none := by
    intro e he
    exact h.ready e (by rw [hheld]; exact Multiset.mem_cons_of_mem he)
  by_cases hfree : st.numActiveSendStations < P
  · -- a station is free
    have hsum : s'.held + (st.sendStations ++ [se] : List _) =
        st.topSorter.held + st.sendStations := by
      have hput : ((st.sendStations ++ [se] : List _) : Multiset SendPriorityElement) =
          se ::ₘ st.sendStations :=
        Multiset.coe_eq_coe.mpr (List.perm_append_singleton se st.sendStations)
      rw [hput, hheld, Multiset.add_cons, Multiset.cons_add]
    refine ⟨⟨s', st.sendStations ++ [se], st.numActiveSendStations + 1⟩, some ev, [se], ?_, ?_, rfl,
      ?_, ?_, ?_, ?_, 0, ?_⟩
    · refine ⟨⟨N', hsound'⟩, hpo.trans h.order, ?_, hfree, hready', ?_⟩
      · rw [h.counted, List.length_append, List.length_singleton]
        push_cast
        rfl
      · intro a
        rw [hsum]
        exact h.apart a
    · intro hne
      have hpos : 1 ≤ s'.held.card := Multiset.card_pos.mpr hne
      rw [hheld, Multiset.card_cons] at halmost
      show st.numActiveSendStations + 1 = P
      omega
    · rw [hheld, Multiset.coe_singleton, Multiset.singleton_add]
    · rw [List.map_singleton, hev]
      rfl
    · intro ev' hev'
      injection hev' with hev'
      exact ⟨se, h.mem_of_held hse, by rw [hev, hev']⟩
    · intro _ c hc
      rw [hlines c hc, h.order, filter_equals_one]
      by_cases heq : po.compareElements c se = .eq
      · rw [if_pos heq, if_pos heq]
        rfl
      · rw [if_neg heq, if_neg heq]
        rfl
    · intro fuel _
      simp only [SendQueue.startSend, hpop, Option.bind_some, hev, if_pos hfree]
  · -- the element goes back
    have hfresh : ∀ e ∈ s'.held, e.addr ≠ se.addr := by
      have hapart := h.apart se.addr
      rw [hheld, Multiset.cons_add,
        Multiset.countP_cons_of_pos (p := fun e : SendPriorityElement => e.addr = se.addr) _ rfl,
        Multiset.countP_add] at hapart
      have hzero : Multiset.countP (fun e => e.addr = se.addr) s'.held = 0 := by omega
      exact Multiset.countP_eq_zero.mp hzero
    obtain ⟨s'', N'', hsound'', hheld'', hpo'', -, hlines'', n, hn⟩ :=
      addElement_spec hsound' (by rw [hpo]; exact T') (h.mem_of_held hse) hfresh
    have hsame : s''.held = st.topSorter.held := by rw [hheld'', hheld]
    refine ⟨{ st with topSorter := s'' }, none, [], ?_, ?_, ?_, ?_, rfl, ?_, ?_, n, ?_⟩
    · refine ⟨⟨N'', hsound''⟩, hpo''.trans (hpo.trans h.order), h.counted, h.within, ?_, ?_⟩
      · rw [hsame]
        exact h.ready
      · intro a
        rw [hsame]
        exact h.apart a
    · intro _
      exact le_antisymm h.within (not_lt.mp hfree)
    · exact (List.append_nil _).symm
    · rw [hsame, Multiset.coe_nil, zero_add]
    · intro ev' hev'
      cases hev'
    · intro huntied c hc
      rw [h.order] at hbest hlines
      rw [hpo, h.order] at hlines''
      show st.topSorter.line c = s''.line c
      rw [hlines c hc, hlines'' c hc]
      by_cases heq : po.compareElements c se = .eq
      · -- none that equals it was behind it
        have hnil : s'.line c = [] := by
          refine List.eq_nil_iff_forall_not_mem.mpr fun y hy => ?_
          obtain ⟨hyheld, hcy⟩ := hsound'.mem_line.mp hy
          have hys : y ∈ st.topSorter.held := by
            rw [hheld]
            exact Multiset.mem_cons_of_mem hyheld
          rw [hpo, h.order, T.congr c hc se (h.mem_of_held hse) y (h.mem_of_held hys) heq] at hcy
          have hsame := huntied (not_lt.mp hfree) se hse hbest y hys hcy
          exact hfresh y hyheld (hsame ▸ rfl)
        rw [if_pos heq, if_pos heq, hnil]
        rfl
      · rw [if_neg heq, if_neg heq]
    · intro fuel hfuel
      simp only [SendQueue.startSend, hpop, Option.bind_some, hev, if_neg hfree, hn fuel hfuel,
        Option.map_some]

/-! ## A step -/

/-- What a run keeps, with the elements the run may add for each node. -/
structure QueueInv (po : PartialOrder) (P : Int) (E : CString → List SendPriorityElement)
    (r : QueueRun) : Prop where
  order : r.queue.partialOrder = some po
  factor : r.queue.parallelFactor = P
  stocked : ∀ name st, r.queue.senders name = some st → Stocked po P (E name) st ∧ st.Busy P
  kept : ∀ name,
    r.queue.pending name + (r.queue.stations name ++ forNode name r.finished : List _) =
      (forNode name r.added : Multiset SendPriorityElement)
  raised : ∀ name, ((r.queue.stations name ++ forNode name r.finished).map
    SendPriorityElement.event).Perm ((eventsFor name r.queue.kernel).map some)

theorem queueInv_start (po : PartialOrder) (P : Int) (E : CString → List SendPriorityElement) :
    QueueInv po P E (.start (some po) P) where
  order := rfl
  factor := rfl
  stocked name st h := absurd h (by simp [QueueRun.start])
  kept name := rfl
  raised name := .refl _

theorem QueueInv.accounted {E : CString → List SendPriorityElement} {r : QueueRun}
    (h : QueueInv po P E r) : r.Accounted where
  counted name st hst := (h.stocked name st hst).1.counted
  within name st hst := by
    rw [h.factor]
    exact (h.stocked name st hst).1.within
  busy name st hst := by
    rw [h.factor]
    exact (h.stocked name st hst).2
  kept := h.kept
  raised := h.raised

section Settle

variable {q : SendQueue} {st : SendState} {e : Option SendEvent} {name : CString}

/-- A state without a station in use has nothing to lose. -/
theorem Stocked.drained (h : Stocked po P E st) (hbusy : st.Busy P) (hP : 1 ≤ P)
    (hzero : st.numActiveSendStations = 0) : st.topSorter.held = 0 ∧ st.sendStations = [] := by
  constructor
  · by_contra hne
    have := hbusy hne
    omega
  · have hcount := h.counted
    rw [hzero] at hcount
    exact List.length_eq_zero_iff.mp (by omega)

theorem settle_senders (r : SendState × Option SendEvent) :
    (q.settle name r).senders name = if r.1.numActiveSendStations = 0 then none else some r.1 :=
  Function.update_self _ _ _

theorem settle_senders_ne (r : SendState × Option SendEvent) {other : CString}
    (hne : other ≠ name) : (q.settle name r).senders other = q.senders other :=
  Function.update_of_ne hne _ _

theorem pending_of_senders (hst : q.senders name = some st) :
    q.pending name = st.topSorter.held := by
  simp only [SendQueue.pending, hst]

theorem stations_of_senders (hst : q.senders name = some st) :
    q.stations name = st.sendStations := by
  simp only [SendQueue.stations, hst]

theorem line_of_senders (hst : q.senders name = some st) (c : SendPriorityElement) :
    q.line name c = st.topSorter.line c := by
  simp only [SendQueue.line, hst]

/-- Where nothing is held no line has an element. -/
theorem Stocked.line_eq_nil (h : Stocked po P E st) (hnone : st.topSorter.held = 0)
    (c : SendPriorityElement) : st.topSorter.line c = [] := by
  obtain ⟨N, hsound⟩ := h.sound
  refine List.eq_nil_iff_forall_not_mem.mpr fun x hx => ?_
  have hheld := (hsound.mem_line.mp hx).1
  rw [hnone] at hheld
  exact Multiset.notMem_zero x hheld

/-- What is settled is found again. -/
theorem settle_places (h : Stocked po P E st) (hbusy : st.Busy P) (hP : 1 ≤ P) :
    (q.settle name (st, e)).pending name = st.topSorter.held ∧
      (q.settle name (st, e)).stations name = st.sendStations ∧
      ∀ c, (q.settle name (st, e)).line name c = st.topSorter.line c := by
  have hsenders := @settle_senders q name (st, e)
  by_cases hzero : st.numActiveSendStations = 0
  · obtain ⟨hheld, hstations⟩ := h.drained hbusy hP hzero
    rw [if_pos hzero] at hsenders
    simp only [SendQueue.pending, SendQueue.stations, SendQueue.line, hsenders, hheld, hstations,
      h.line_eq_nil hheld, implies_true, and_self]
  · rw [if_neg hzero] at hsenders
    exact ⟨pending_of_senders hsenders, stations_of_senders hsenders, line_of_senders hsenders⟩

/-- Nothing changes for other nodes. -/
theorem settle_places_ne (r : SendState × Option SendEvent) {other : CString}
    (hne : other ≠ name) :
    (q.settle name r).pending other = q.pending other ∧
      (q.settle name r).stations other = q.stations other ∧
      ∀ c, (q.settle name r).line other c = q.line other c := by
  have hsenders := @settle_senders_ne q name r other hne
  simp only [SendQueue.pending, SendQueue.stations, SendQueue.line, hsenders, implies_true,
    and_self]

end Settle

variable {se : SendPriorityElement} {node : NodeRef}
variable {dObj : DataObjectRef} {res : SendState × Option SendEvent}

/-- An event is for the node of its element. -/
theorem event_node {ev : SendEvent} (h : se.event = some ev) : se.node = some ev.node := by
  unfold SendPriorityElement.event at h
  cases hdObj : se.dObj with
  | none => simp [hdObj] at h
  | some dObj =>
      cases hnode : se.node with
      | none => simp [hdObj, hnode] at h
      | some node =>
          simp only [hdObj, hnode] at h
          by_cases hzero : se.sendCallback = 0
          · simp [hzero] at h
          · simp only [if_neg hzero, Option.some.injEq] at h
            rw [← h]

theorem eventsFor_append (name : CString) (es es' : List SendEvent) :
    eventsFor name (es ++ es') = eventsFor name es ++ eventsFor name es' :=
  List.filter_append _ _

theorem forNode_append (name : CString) (ses ses' : List SendPriorityElement) :
    forNode name (ses ++ ses') = forNode name ses ++ forNode name ses' :=
  List.filter_append _ _

/-- An element is for the node of one name. -/
theorem forNode_one (hnode : se.node = some node) (name : CString) :
    forNode name [se] = if node.name = name then [se] else [] := by
  simp [forNode, List.filter_cons, hnode]

variable {E : CString → List SendPriorityElement} {r : QueueRun}

/-- What `startSend` hands out of a state, with the queue it is settled in. -/
def HandsOut (po : PartialOrder) (P : Int) (E : List SendPriorityElement) (st : SendState)
    (q : SendQueue) (name : CString) (out : List SendPriorityElement) : Prop :=
  q.stations name = st.sendStations ++ out ∧
    st.topSorter.held = (out : Multiset SendPriorityElement) + q.pending name ∧
    ((P ≤ st.numActiveSendStations → Untied po.compareElements st.topSorter.held) →
      ∀ c ∈ E, st.topSorter.line c =
        out.filter (po.equals c) ++ q.line name c)

/--
**The end of a call.** What was changed for one node before `startSend` is settled by it: the
accounts are kept, whatever it starts.
-/
theorem QueueInv.started (hP : 1 ≤ P) (T : ∀ name, Tame po.compareElements (E name))
    (hE : ∀ name, ∀ se ∈ E name, ∀ node, se.node = some node → node.name = name)
    (h : QueueInv po P E r) {name : CString} {st : SendState}
    {added finished : List SendPriorityElement}
    (hst : Stocked po P (E name) st)
    (halmost : st.topSorter.held.card ≤ 1 ∨ P ≤ st.numActiveSendStations + 1)
    (hadded : ∀ other, other ≠ name → forNode other added = forNode other r.added)
    (hfinished : ∀ other, other ≠ name → forNode other finished = forNode other r.finished)
    (hkept : st.topSorter.held + (st.sendStations ++ forNode name finished : List _) =
      (forNode name added : Multiset SendPriorityElement))
    (hraised : ((st.sendStations ++ forNode name finished).map SendPriorityElement.event).Perm
      ((eventsFor name r.queue.kernel).map some)) :
    ∃ res out, QueueInv po P E ⟨r.queue.settle name res, added, finished⟩ ∧
      HandsOut po P (E name) st (r.queue.settle name res) name out ∧
      ∃ n, ∀ fuel, n ≤ fuel → SendQueue.startSend fuel P st = some res := by
  obtain ⟨st', e, out, hst', hbusy', hput, hheld, hout, hasked, hlines, n, hn⟩ :=
    startSend_spec (T name) hst halmost
  obtain ⟨hpending, hstations, hline⟩ :=
    @settle_places po P (E name) r.queue st' e name hst' hbusy' hP
  have hsum : st'.topSorter.held + st'.sendStations = st.topSorter.held + st.sendStations := by
    rw [hput, hheld, ← Multiset.coe_add, add_comm (out : Multiset SendPriorityElement),
      add_right_comm, add_assoc]
  have hevents : st'.sendStations.map SendPriorityElement.event =
      st.sendStations.map SendPriorityElement.event ++ e.toList.map some := by
    rw [hput, List.map_append, hout]
  -- the event that is raised is for this node
  have hhere : eventsFor name e.toList = e.toList := by
    cases he : e with
    | none => rfl
    | some ev =>
        obtain ⟨se, hse, hev⟩ := hasked ev he
        simp [eventsFor, hE name se hse ev.node (event_node hev)]
  have helse : ∀ other, other ≠ name → eventsFor other e.toList = [] := by
    intro other hne
    rw [← hhere]
    refine List.filter_eq_nil_iff.mpr ?_
    intro ev hev hother
    have hname := (List.mem_filter.mp hev).2
    simp only [decide_eq_true_eq] at hother hname
    exact hne (hother.symm.trans hname)
  have hhands : HandsOut po P (E name) st (r.queue.settle name (st', e)) name out := by
    refine ⟨hstations.trans hput, hheld.trans (by rw [hpending]), fun huntied c hc => ?_⟩
    rw [hline c]
    exact hlines huntied c hc
  refine ⟨(st', e), out, ⟨h.order, h.factor, ?_, ?_, ?_⟩, hhands, n, hn⟩
  · intro other st'' hfound
    by_cases hname : other = name
    · subst hname
      rw [settle_senders] at hfound
      by_cases hzero : st'.numActiveSendStations = 0
      · rw [if_pos hzero] at hfound
        cases hfound
      · rw [if_neg hzero] at hfound
        injection hfound with hfound
        rw [← hfound]
        exact ⟨hst', hbusy'⟩
    · rw [settle_senders_ne _ hname] at hfound
      exact h.stocked other st'' hfound
  · intro other
    by_cases hname : other = name
    · subst hname
      dsimp only
      rw [hpending, hstations, ← hkept, ← Multiset.coe_add, ← Multiset.coe_add, ← add_assoc, hsum,
        add_assoc]
    · obtain ⟨hpending', hstations', -⟩ := @settle_places_ne r.queue name (st', e) other hname
      dsimp only
      rw [hpending', hstations', hadded other hname, hfinished other hname]
      exact h.kept other
  · intro other
    show (List.map _ (_ ++ forNode other finished)).Perm
      (List.map some (eventsFor other (e.toList ++ r.queue.kernel)))
    rw [eventsFor_append]
    by_cases hname : other = name
    · subst hname
      rw [hstations, hhere, List.map_append, hevents, List.map_append]
      rw [List.map_append] at hraised
      -- the new event stands behind the old stations, and before the old events
      have hswap : (st.sendStations.map SendPriorityElement.event ++ e.toList.map some).Perm
          (e.toList.map some ++ st.sendStations.map SendPriorityElement.event) :=
        List.perm_append_comm
      refine (hswap.append_right _).trans ?_
      rw [List.append_assoc]
      exact hraised.append_left _
    · rw [(@settle_places_ne r.queue name (st', e) other hname).2.1, helse other hname,
        hfinished other hname]
      exact h.raised other

/-- The state of a node, a new one if it has none. -/
theorem QueueInv.state (hP : 1 ≤ P) (h : QueueInv po P E r) (name : CString) :
    ∃ st, (r.queue.senders name).or r.queue.createSendState = some st ∧
      Stocked po P (E name) st ∧ st.Busy P ∧
      r.queue.pending name = st.topSorter.held ∧ r.queue.stations name = st.sendStations ∧
      ∀ c, r.queue.line name c = st.topSorter.line c := by
  cases hfound : r.queue.senders name with
  | some st =>
      obtain ⟨hst, hbusy⟩ := h.stocked name st hfound
      exact ⟨st, rfl, hst, hbusy, pending_of_senders hfound, stations_of_senders hfound,
        line_of_senders hfound⟩
  | none =>
      have hnew : Stocked po P (E name) ⟨.new po, [], 0⟩ := stocked_new hP
      refine ⟨⟨.new po, [], 0⟩, ?_, hnew, busy_new, ?_, ?_, fun c => ?_⟩
      · rw [Option.none_or, SendQueue.createSendState, h.order]
        rfl
      · simp only [SendQueue.pending, hfound, held_new]
      · simp only [SendQueue.stations, hfound]
      · rw [hnew.line_eq_nil (held_new po)]
        simp only [SendQueue.line, hfound]

/-- An element that asks for an event has a data object and a node. -/
theorem parts_of_event (h : se.event ≠ none) :
    ∃ dObj node, se.dObj = some dObj ∧ se.node = some node := by
  obtain ⟨ev, hev⟩ := Option.ne_none_iff_exists'.mp h
  cases hdObj : se.dObj with
  | none => simp [SendPriorityElement.event, hdObj] at hev
  | some dObj => exact ⟨dObj, ev.node, rfl, event_node hev⟩

/--
What a call does for a node: it puts some of what waits on stations, and what it adds stands
behind those it equals. If it has to put an element back, this asks that no other waits that
the element equals.
-/
structure Passed (po : PartialOrder) (P : Int) (E : List SendPriorityElement) (q q' : SendQueue)
    (op : QueueOp) (name : CString) (out : List SendPriorityElement) : Prop where
  stations : q'.stations name = q.remaining name op ++ out
  pending : q.pending name + (forNode name op.added.toList : Multiset SendPriorityElement) =
    out + q'.pending name
  lines : (op.element.target = some name → P ≤ (q.remaining name op).length →
      Untied po.compareElements (q.pending name + (forNode name op.added.toList : List _))) →
    ∀ c ∈ E, q.line name c ++ (forNode name op.added.toList).filter (po.equals c) =
      out.filter (po.equals c) ++ q'.line name c

/-- Nothing is done for another node. -/
theorem passed_of_same {q q' : SendQueue} {op : QueueOp} {name : CString}
    (hadded : forNode name op.added.toList = [])
    (hstations : q'.stations name = q.remaining name op)
    (hpending : q'.pending name = q.pending name) (hline : ∀ c, q'.line name c = q.line name c)
    (P : Int) (E : List SendPriorityElement) : Passed po P E q q' op name [] where
  stations := hstations.trans (List.append_nil _).symm
  pending := by
    rw [hadded, hpending, Multiset.coe_nil, add_zero, zero_add]
  lines _ c _ := by
    rw [hadded, hline, List.filter_nil, List.append_nil, List.nil_append]

/-- **`addSendPriorityElement` keeps the accounts.** -/
theorem QueueInv.add (hP : 1 ≤ P) (T : ∀ name, Tame po.compareElements (E name))
    (hE : ∀ name, ∀ se ∈ E name, ∀ node, se.node = some node → node.name = name)
    (h : QueueInv po P E r) (hmeets : r.Meets (.add se))
    (hmem : ∀ node, se.node = some node → se ∈ E node.name) :
    ∃ r', QueueInv po P E r' ∧
      (∀ name, ∃ out, Passed po P (E name) r.queue r'.queue (.add se) name out) ∧
      ∃ n, ∀ fuel, n ≤ fuel → r.step fuel (.add se) = some r' := by
  obtain ⟨hevent, hfresh⟩ := hmeets
  obtain ⟨dObj, node, hdObj, hnode⟩ := parts_of_event hevent
  obtain ⟨st, hstate, hst, hbusy, hpending, hstations, hline⟩ := h.state hP node.name
  have hkept := h.kept node.name
  rw [hpending, hstations] at hkept
  -- the pointer neither waits nor is on its way
  have hcount := congrArg (Multiset.countP (fun e => e.addr = se.addr)) hkept
  rw [Multiset.countP_add, Multiset.coe_countP, Multiset.coe_countP, List.countP_append,
    hfresh node hnode] at hcount
  have hnone : Multiset.countP (fun e => e.addr = se.addr) st.topSorter.held = 0 := by omega
  have hnone' : (st.sendStations.countP fun e => e.addr = se.addr) = 0 := by omega
  obtain ⟨N, hsound⟩ := hst.sound
  have T' : Tame st.topSorter.partialOrder.compareElements (E node.name) := by
    rw [hst.order]
    exact T node.name
  obtain ⟨s', N', hsound', hheld, hpo, -, hlines, n, hn⟩ :=
    addElement_spec hsound T' (hmem node hnode) (Multiset.countP_eq_zero.mp hnone)
  have hst' : Stocked po P (E node.name) { st with topSorter := s' } := by
    refine ⟨⟨N', hsound'⟩, hpo.trans hst.order, hst.counted, hst.within, ?_, ?_⟩
    · intro e he
      rw [hheld] at he
      rcases Multiset.mem_cons.mp he with rfl | he
      · exact hevent
      · exact hst.ready e he
    · intro a
      show Multiset.countP _ (s'.held + (st.sendStations : Multiset _)) ≤ 1
      rw [hheld, Multiset.cons_add, Multiset.countP_cons]
      by_cases ha : se.addr = a
      · rw [if_pos ha, ← ha, Multiset.countP_add, Multiset.coe_countP, hnone, hnone']
      · rw [if_neg ha]
        exact hst.apart a
  have halmost : s'.held.card ≤ 1 ∨ P ≤ st.numActiveSendStations + 1 := by
    rcases hbusy.almost with hnothing | hall
    · left
      rw [hheld, hnothing]
      rfl
    · right
      omega
  have hhere : forNode node.name [se] = [se] := by rw [forNode_one hnode, if_pos rfl]
  obtain ⟨res, out, hinv, hhands, n', hn'⟩ := @QueueInv.started _ _ E r hP T hE h node.name
    { st with topSorter := s' } (se :: r.added) r.finished hst' halmost
    (by
      intro other hne
      rw [← List.singleton_append, forNode_append, forNode_one hnode, if_neg (Ne.symm hne)]
      rfl)
    (fun other _ => rfl)
    (by
      rw [← List.singleton_append, forNode_append, hhere, List.singleton_append, hheld,
        Multiset.cons_add, hkept]
      rfl)
    (by
      have hraised := h.raised node.name
      rwa [hstations] at hraised)
  have hhere' : forNode node.name (QueueOp.add se).added.toList = [se] := hhere
  have hmore : st.topSorter.held + ([se] : List SendPriorityElement) = s'.held := by
    rw [hheld, Multiset.coe_singleton, add_comm, Multiset.singleton_add]
  have hpassed : Passed po P (E node.name) r.queue (r.queue.settle node.name res) (.add se)
      node.name out := by
    obtain ⟨hput, hout, hleft⟩ := hhands
    refine ⟨hput.trans (by rw [← hstations]; rfl), ?_, fun huntied c hc => ?_⟩
    · rw [hhere', hpending, hmore]
      exact hout
    · rw [hhere', hline c, ← hleft (fun hfull => ?_) c hc, hlines c hc, hst.order,
        filter_equals_one]
      · by_cases heq : po.compareElements c se = .eq
        · rw [if_pos heq, if_pos heq]
        · rw [if_neg heq, if_neg heq]
          exact List.append_nil _
      · rw [hhere', hpending, hmore] at huntied
        refine huntied ?_ ?_
        · show se.target = some node.name
          unfold SendPriorityElement.target
          rw [hdObj, hnode]
        · show P ≤ (r.queue.stations node.name).length
          rw [hstations, ← hst.counted]
          exact hfull
  refine ⟨_, hinv, fun name => ?_, max n n', ?_⟩
  · by_cases hname : name = node.name
    · exact ⟨out, hname ▸ hpassed⟩
    · obtain ⟨hpending', hstations', hline'⟩ := @settle_places_ne r.queue node.name res name hname
      refine ⟨[], passed_of_same ?_ hstations' hpending' hline' P _⟩
      show forNode name [se] = []
      rw [forNode_one hnode, if_neg (Ne.symm hname)]
  intro fuel hfuel
  simp only [QueueRun.step, SendQueue.addSendPriorityElement, hdObj, hnode, hstate,
    hn fuel (Nat.le_trans (Nat.le_max_left n n') hfuel), Option.bind_some, h.factor,
    hn' fuel (Nat.le_trans (Nat.le_max_right n n') hfuel), Option.map_some]

/-- The first match is what `eraseP` takes out. -/
theorem find_eraseP {p : SendPriorityElement → Bool} {l : List SendPriorityElement}
    {x : SendPriorityElement} (h : l.find? p = some x) : l.Perm (x :: l.eraseP p) := by
  induction l with
  | nil => cases h
  | cons y l ih =>
      by_cases hy : p y = true
      · rw [List.find?_cons_of_pos hy] at h
        injection h with h
        rw [List.eraseP_cons_of_pos hy, h]
      · rw [List.find?_cons_of_neg hy] at h
        rw [List.eraseP_cons_of_neg hy]
        exact ((ih h).cons y).trans (List.Perm.swap x y _)

/-- What `freeStation` does: a matching station is there or not. -/
theorem freeStation_cases (dObj : DataObjectRef) (node : NodeRef) (st : SendState) :
    (st.sendStations.find? (SendQueue.isFor dObj node) = none ∧
      SendQueue.freeStation dObj node st = st) ∨
    ∃ se rest, st.sendStations.find? (SendQueue.isFor dObj node) = some se ∧
      rest = st.sendStations.eraseP (SendQueue.isFor dObj node) ∧
      st.sendStations.Perm (se :: rest) ∧
      SendQueue.freeStation dObj node st =
        ⟨st.topSorter, rest, st.numActiveSendStations - 1⟩ := by
  cases hfind : st.sendStations.find? (SendQueue.isFor dObj node) with
  | none =>
      left
      have hany : ¬ (st.sendStations.any (SendQueue.isFor dObj node) = true) := by
        rw [List.any_eq_true]
        rintro ⟨se, hse, hfor⟩
        exact List.find?_eq_none.mp hfind se hse hfor
      exact ⟨rfl, if_neg hany⟩
  | some se =>
      right
      have hany : st.sendStations.any (SendQueue.isFor dObj node) = true :=
        List.any_eq_true.mpr ⟨se, List.mem_of_find?_eq_some hfind, List.find?_some hfind⟩
      exact ⟨se, _, rfl, rfl, find_eraseP hfind, if_pos hany⟩

/-- What stays on the stations of the node of a call. -/
theorem remaining_of_found (hdObj : se.dObj = some dObj) (hnode : se.node = some node)
    (q : SendQueue) :
    q.remaining node.name (.remove se) =
      (q.stations node.name).eraseP (SendQueue.isFor dObj node) := by
  simp only [SendQueue.remaining, hdObj, hnode, if_true]

theorem remaining_of_other (hdObj : se.dObj = some dObj) (hnode : se.node = some node)
    (q : SendQueue) {name : CString} (hne : name ≠ node.name) :
    q.remaining name (.remove se) = q.stations name := by
  simp only [SendQueue.remaining, hdObj, hnode, if_neg (Ne.symm hne)]

/-- What `startSend` hands out after a station may have become free. -/
theorem passed_of_freed {q : SendQueue} (hdObj : se.dObj = some dObj) (hnode : se.node = some node)
    {E : List SendPriorityElement} {st st' : SendState} {out : List SendPriorityElement}
    (hfound : q.senders node.name = some st) (hst' : Stocked po P E st')
    (hsorter : st'.topSorter = st.topSorter)
    (hfreed : st'.sendStations = st.sendStations.eraseP (SendQueue.isFor dObj node))
    (hhands : HandsOut po P E st' (q.settle node.name res) node.name out) :
    Passed po P E q (q.settle node.name res) (.remove se) node.name out := by
  obtain ⟨hput, hout, hleft⟩ := hhands
  have hremaining : q.remaining node.name (.remove se) = st'.sendStations := by
    rw [remaining_of_found hdObj hnode, stations_of_senders hfound, hfreed]
  rw [hsorter] at hout hleft
  refine ⟨hput.trans (by rw [hremaining]), ?_, fun huntied c hc => ?_⟩
  · rw [pending_of_senders hfound]
    exact (add_zero _).trans hout
  · rw [line_of_senders hfound, ← hleft (fun hfull => ?_) c hc]
    · exact List.append_nil _
    · rw [pending_of_senders hfound, hremaining] at huntied
      have htarget : se.target = some node.name := by
        unfold SendPriorityElement.target
        rw [hdObj, hnode]
      rw [hst'.counted] at hfull
      have hzero := add_zero st.topSorter.held
      exact hzero ▸ huntied htarget hfull

/-- **`removeSendPriorityElement` keeps the accounts.** -/
theorem QueueInv.remove (hP : 1 ≤ P) (T : ∀ name, Tame po.compareElements (E name))
    (hE : ∀ name, ∀ se ∈ E name, ∀ node, se.node = some node → node.name = name)
    (h : QueueInv po P E r) (se : SendPriorityElement) :
    ∃ r', QueueInv po P E r' ∧
      (∀ name, ∃ out, Passed po P (E name) r.queue r'.queue (.remove se) name out) ∧
      ∃ n, ∀ fuel, n ≤ fuel → r.step fuel (.remove se) = some r' := by
  -- where nothing is found nothing is done
  have hidle : r.queue.leaving se = none →
      (∀ name, r.queue.stations name = r.queue.remaining name (.remove se)) → (∀ fuel,
      r.queue.removeSendPriorityElement fuel se = some (r.queue, false)) →
      ∃ r', QueueInv po P E r' ∧
        (∀ name, ∃ out, Passed po P (E name) r.queue r'.queue (.remove se) name out) ∧
        ∃ n, ∀ fuel, n ≤ fuel → r.step fuel (.remove se) = some r' := by
    intro hleaving hremaining hsame
    refine ⟨r, h, fun name => ⟨[], ?_⟩, 0, ?_⟩
    · exact passed_of_same rfl (hremaining name) rfl (fun _ => rfl) P _
    · intro fuel _
      rw [QueueRun.step, hsame, hleaving]
      rfl
  cases hdObj : se.dObj with
  | none =>
      exact hidle (by simp only [SendQueue.leaving, hdObj])
        (fun name => by simp only [SendQueue.remaining, hdObj])
        (fun fuel => by simp only [SendQueue.removeSendPriorityElement, hdObj])
  | some dObj =>
  cases hnode : se.node with
  | none =>
      exact hidle (by simp only [SendQueue.leaving, hdObj, hnode])
        (fun name => by simp only [SendQueue.remaining, hdObj, hnode])
        (fun fuel => by simp only [SendQueue.removeSendPriorityElement, hdObj, hnode])
  | some node =>
  cases hfound : r.queue.senders node.name with
  | none =>
      have hnothing : r.queue.stations node.name = [] := by
        simp only [SendQueue.stations, hfound]
      have hremaining : ∀ name,
          r.queue.stations name = r.queue.remaining name (.remove se) := by
        intro name
        by_cases hname : name = node.name
        · rw [hname, remaining_of_found hdObj hnode, hnothing]
          rfl
        · rw [remaining_of_other hdObj hnode _ hname]
      exact hidle (by simp only [SendQueue.leaving, hdObj, hnode, hfound, Option.bind_none])
        hremaining
        (fun fuel => by simp only [SendQueue.removeSendPriorityElement, hdObj, hnode, hfound])
  | some st =>
      obtain ⟨hst, hbusy⟩ := h.stocked node.name st hfound
      have hpending := pending_of_senders hfound
      have hstations := stations_of_senders hfound
      have hkept := h.kept node.name
      have hraised := h.raised node.name
      rw [hpending, hstations] at hkept
      rw [hstations] at hraised
      have hleaving : r.queue.leaving se =
          st.sendStations.find? (SendQueue.isFor dObj node) := by
        simp only [SendQueue.leaving, hdObj, hnode, hfound, Option.bind_some]
      -- for the other nodes nothing is done
      have hpassed : ∀ (res : SendState × Option SendEvent) (out : List SendPriorityElement),
          Passed po P (E node.name) r.queue (r.queue.settle node.name res) (.remove se) node.name
            out → ∀ name, ∃ out, Passed po P (E name) r.queue (r.queue.settle node.name res)
            (.remove se) name out := by
        intro res out hhere name
        by_cases hname : name = node.name
        · exact ⟨out, hname ▸ hhere⟩
        · obtain ⟨hpending', hstations', hline'⟩ :=
            @settle_places_ne r.queue node.name res name hname
          refine ⟨[], passed_of_same rfl (hstations'.trans ?_) hpending' hline' P _⟩
          rw [remaining_of_other hdObj hnode _ hname]
      rcases freeStation_cases dObj node st with ⟨hfind, hfree⟩ |
        ⟨gone, rest, hfind, hrest, hperm, hfree⟩
      · -- no station is freed
        have halmost : st.topSorter.held.card ≤ 1 ∨ P ≤ st.numActiveSendStations + 1 := by
          rcases hbusy.almost with hnothing | hall
          · exact Or.inl (by simp [hnothing])
          · right
            omega
        obtain ⟨res, out, hinv, hhands, n, hn⟩ :=
          @QueueInv.started _ _ E r hP T hE h node.name st r.added
          r.finished hst halmost (fun _ _ => rfl) (fun _ _ => rfl) hkept hraised
        have hnone : st.sendStations = st.sendStations.eraseP (SendQueue.isFor dObj node) :=
          (List.eraseP_of_forall_not (List.find?_eq_none.mp hfind)).symm
        refine ⟨_, hinv, hpassed res out
          (passed_of_freed hdObj hnode hfound hst rfl hnone hhands), n, ?_⟩
        intro fuel hfuel
        simp only [QueueRun.step, SendQueue.removeSendPriorityElement, hdObj, hnode, hfound, hfree,
          h.factor, hn fuel hfuel, Option.map_some, hleaving, hfind, Option.toList_none,
          List.nil_append]
      · -- the element that leaves is one that was added for this node
        have hgone : forNode node.name [gone] = [gone] := by
          have hmem : gone ∈ (forNode node.name r.added : Multiset SendPriorityElement) := by
            rw [← hkept]
            refine Multiset.mem_add.mpr (Or.inr (Multiset.mem_coe.mpr ?_))
            exact List.mem_append_left _ (hperm.mem_iff.mpr List.mem_cons_self)
          have hnamed := (List.mem_filter.mp (Multiset.mem_coe.mp hmem)).2
          exact List.filter_cons_of_pos hnamed
        have helse : ∀ other, other ≠ node.name → forNode other [gone] = [] := by
          intro other hne
          rw [← hgone]
          refine List.filter_eq_nil_iff.mpr ?_
          intro e he hother
          have hname := (List.mem_filter.mp he).2
          cases henode : e.node with
          | none => simp [henode] at hother
          | some enode =>
              simp only [henode, Option.any_some, decide_eq_true_eq] at hother hname
              exact hne (hother.symm.trans hname)
        have hst' : Stocked po P (E node.name)
            ⟨st.topSorter, rest, st.numActiveSendStations - 1⟩ := by
          refine ⟨hst.sound, hst.order, ?_, ?_, hst.ready, ?_⟩
          · have hlength := hperm.length_eq
            rw [List.length_cons] at hlength
            have hcounted := hst.counted
            dsimp only
            omega
          · have hwithin := hst.within
            dsimp only
            omega
          · intro a
            refine le_trans ?_ (hst.apart a)
            refine Multiset.countP_le_of_le _ (add_le_add_right ?_ _)
            rw [Multiset.coe_eq_coe.mpr hperm]
            exact Multiset.le_cons_self _ _
        have halmost : st.topSorter.held.card ≤ 1 ∨ P ≤ st.numActiveSendStations - 1 + 1 := by
          rcases hbusy.almost with hnothing | hall
          · exact Or.inl (by simp [hnothing])
          · right
            omega
        have hmoved : (st.sendStations ++ forNode node.name r.finished).Perm
            (rest ++ forNode node.name ([gone] ++ r.finished)) := by
          rw [forNode_append, hgone, List.singleton_append]
          exact (hperm.append_right _).trans List.perm_middle.symm
        obtain ⟨res, out, hinv, hhands, n, hn⟩ := @QueueInv.started _ _ E r hP T hE h node.name
          ⟨st.topSorter, rest, st.numActiveSendStations - 1⟩ r.added ([gone] ++ r.finished) hst'
          halmost (fun _ _ => rfl)
          (by
            intro other hne
            rw [forNode_append, helse other hne, List.nil_append])
          (by rw [← hkept, Multiset.coe_eq_coe.mpr hmoved])
          ((hmoved.map _).symm.trans hraised)
        refine ⟨_, hinv, hpassed res out
          (passed_of_freed hdObj hnode hfound hst' rfl hrest hhands), n, ?_⟩
        intro fuel hfuel
        simp only [QueueRun.step, SendQueue.removeSendPriorityElement, hdObj, hnode, hfound, hfree,
          h.factor, hn fuel hfuel, Option.map_some, hleaving, hfind, Option.toList_some]

/-! ## Runs -/

/-- What is added for a name is for a node of that name. -/
theorem node_of_addedFor {name : CString} {ops : List QueueOp} (hse : se ∈ addedFor name ops)
    (hnode : se.node = some node) : node.name = name := by
  have hnamed := (List.mem_filter.mp hse).2
  simpa [hnode] using hnamed

/--
**What was added to the queue waits, is on a station, or has been sent to its end.** The stations
are counted, there are never more than `parallel_factor`, and all are in use while something
waits. This holds in every run over elements that ask for an event and are, for each node,
tame for the configured order, with pointers added only when they are not in the queue.
-/
theorem queue_accounted (po : PartialOrder) (P : Int) (hP : 1 ≤ P) (ops : List QueueOp)
    (T : ∀ name, Tame po.compareElements (addedFor name ops)) : ∃ n, ∀ fuel, n ≤ fuel →
      Guarded (QueueRun.step fuel) QueueRun.Meets (.start (some po) P) ops →
      ∃ r, QueueRun.after fuel (some po) P ops = some r ∧ r.Accounted := by
  let E := fun name => addedFor name ops
  -- each element is accounted for under the name of its node
  let ok := fun (r : QueueRun) op => r.Meets op ∧
    ∀ se, op = .add se → ∀ node, se.node = some node → se ∈ E node.name
  have hE : ∀ name, ∀ se ∈ E name, ∀ node, se.node = some node → node.name = name :=
    fun name se hse node hnode => node_of_addedFor hse hnode
  have hstep : ∀ r op, QueueInv po P E r → ok r op →
      ∃ r', QueueInv po P E r' ∧ ∃ n, ∀ fuel, n ≤ fuel → QueueRun.step fuel r op = some r' := by
    intro r op h hok
    cases op with
    | add se =>
        obtain ⟨r', hinv, -, hconv⟩ := h.add hP T hE hok.1 (hok.2 se rfl)
        exact ⟨r', hinv, hconv⟩
    | remove se =>
        obtain ⟨r', hinv, -, hconv⟩ := h.remove hP T hE se
        exact ⟨r', hinv, hconv⟩
  obtain ⟨n, hn⟩ := run_converges hstep ops (.start (some po) P) (queueInv_start po P E)
  refine ⟨n, ?_⟩
  intro fuel hfuel hg
  have hg' : Guarded (QueueRun.step fuel) ok (.start (some po) P) ops := by
    rw [guarded_iff] at hg ⊢
    intro pre op post heq r hr
    refine ⟨hg pre op post heq r hr, ?_⟩
    rintro se rfl node hnode
    refine List.mem_filter.mpr ⟨List.mem_filterMap.mpr ⟨.add se, ?_, rfl⟩, by simp [hnode]⟩
    rw [heq]
    simp
  obtain ⟨r, hr, hinv⟩ := hn fuel hfuel hg'
  exact ⟨r, hr, hinv.accounted⟩

/-- With more fuel a `startSend` that has returned returns the same. -/
theorem startSend_more {fuel fuel' : Nat} (hle : fuel ≤ fuel') {P : Int} {st : SendState}
    (h : SendQueue.startSend fuel P st = some res) : SendQueue.startSend fuel' P st = some res := by
  unfold SendQueue.startSend at h ⊢
  rw [Option.bind_eq_some_iff] at h ⊢
  obtain ⟨⟨top, s'⟩, hpop, h⟩ := h
  refine ⟨(top, s'), hpop, ?_⟩
  cases top with
  | none => exact h
  | some se =>
      dsimp only at h ⊢
      cases hev : se.event with
      | none => rwa [hev] at h
      | some ev =>
          simp only [hev] at h ⊢
          by_cases hfree : st.numActiveSendStations < P
          · rwa [if_pos hfree] at h ⊢
          · rw [if_neg hfree, Option.map_eq_some_iff] at h ⊢
            obtain ⟨s'', hs'', hres⟩ := h
            exact ⟨s'', addElement_more hle hs'', hres⟩

/-- With more fuel a call that has returned returns the same. -/
theorem queue_step_more {fuel fuel' : Nat} (hle : fuel ≤ fuel') (r : QueueRun) (op : QueueOp)
    (r' : QueueRun) (h : r.step fuel op = some r') : r.step fuel' op = some r' := by
  cases op with
  -- nothing but the two loops has fuel
  | add se =>
      simp only [QueueRun.step, Option.map_eq_some_iff] at h ⊢
      obtain ⟨q, hq, hr⟩ := h
      refine ⟨q, ?_, hr⟩
      unfold SendQueue.addSendPriorityElement at hq ⊢
      cases hdObj : se.dObj with
      | none => simpa [hdObj] using hq
      | some dObj =>
      cases hnode : se.node with
      | none => simpa [hdObj, hnode] using hq
      | some node =>
      simp only [hdObj, hnode] at hq ⊢
      cases hstate : (r.queue.senders node.name).or r.queue.createSendState with
      | none => simpa [hstate] using hq
      | some st =>
          simp only [hstate, Option.bind_eq_some_iff, Option.map_eq_some_iff] at hq ⊢
          obtain ⟨s', hs', res, hres, hq⟩ := hq
          exact ⟨s', addElement_more hle hs', res, startSend_more hle hres, hq⟩
  | remove se =>
      simp only [QueueRun.step, Option.map_eq_some_iff] at h ⊢
      obtain ⟨p, hp, hr⟩ := h
      refine ⟨p, ?_, hr⟩
      unfold SendQueue.removeSendPriorityElement at hp ⊢
      cases hdObj : se.dObj with
      | none => simpa [hdObj] using hp
      | some dObj =>
      cases hnode : se.node with
      | none => simpa [hdObj, hnode] using hp
      | some node =>
      simp only [hdObj, hnode] at hp ⊢
      cases hstate : r.queue.senders node.name with
      | none => simpa [hstate] using hp
      | some st =>
          simp only [hstate, Option.map_eq_some_iff] at hp ⊢
          obtain ⟨res, hres, hp⟩ := hp
          exact ⟨res, startSend_more hle hres, hp⟩

/-- A node. -/
def receiver : NodeRef := ⟨0, lit "N", lit "receiver", false, []⟩

/-- An element for the node. -/
def toReceiver (se : SendPriorityElement) : SendPriorityElement := { se with node := some receiver }

/-- A chain of sends, one at a time: two of them come to their end. -/
def chainSends : List QueueOp :=
  [.add (toReceiver plain), .add (toReceiver (urgentLevel 3 "1")),
    .add (toReceiver (urgentLevel 2 "2")), .remove (toReceiver plain),
    .remove (toReceiver (urgentLevel 2 "2"))]

/-- `queue_accounted` applied to a chain. -/
theorem queue_accounted_chain : ∃ fuel,
    Guarded (QueueRun.step fuel) QueueRun.Meets (.start (some markedThenNumber) 1) chainSends ∧
    ∃ r, QueueRun.after fuel (some markedThenNumber) 1 chainSends = some r ∧ r.Accounted := by
  have hall : Tame markedThenNumber.compareElements
      (chainSends.filterMap QueueOp.added) := by decide +kernel
  obtain ⟨n, hn⟩ := queue_accounted markedThenNumber 1 (by omega) chainSends
    (fun name => hall.subset (List.filter_subset_self _))
  have hran : (QueueRun.after 9 (some markedThenNumber) 1 chainSends).isSome = true := by
    decide +kernel
  obtain ⟨r, hr⟩ := Option.isSome_iff_exists.mp hran
  have hguard : Guarded (QueueRun.step (max n 9)) QueueRun.Meets
      (.start (some markedThenNumber) 1) chainSends :=
    guarded_more (queue_step_more (Nat.le_max_right n 9)) hr (by decide +kernel)
  exact ⟨max n 9, hguard, hn _ (Nat.le_max_left n 9) hguard⟩

/-- Two incomparable elements above a third wait while a fourth is sent; three sends come to
their end, and the third element leaves the sorter before the last of those above it. -/
def prongSends : List QueueOp :=
  [.add (toReceiver (elementOf 1 [])), .add (toReceiver (urgentLevel 2 "1")),
    .add (toReceiver (elementOf 3 [⟨lit "Urgent", lit "yes", 1⟩])),
    .add (toReceiver (urgentLevel 4 "2")), .add (toReceiver (elementOf 5 [])),
    .remove (toReceiver (elementOf 1 [])),
    .remove (toReceiver (elementOf 3 [⟨lit "Urgent", lit "yes", 1⟩])),
    .remove (toReceiver (urgentLevel 4 "2"))]

/-- The third element comes to its end. -/
def prongEnds : QueueOp := .remove (toReceiver (elementOf 5 []))

/--
**The queue reads through a pointer that was deleted.** All calls but the last return. In the
last, `popTop` moves a child up that was deleted when it left through the other prong.
-/
theorem queue_reads_deleted :
    (QueueRun.after 9 (some markedThenNumber) 1 prongSends).isSome = true ∧
    ¬ ∃ fuel r,
      QueueRun.after fuel (some markedThenNumber) 1 (prongSends ++ [prongEnds]) = some r ∧
        r.Accounted := by
  have hran : (QueueRun.after 9 (some markedThenNumber) 1 prongSends).bind (fun r =>
      (r.queue.senders receiver.name).map (fun st => st.topSorter.popTop.isNone)) =
      some true := by decide +kernel
  simp only [Option.bind_eq_some_iff, Option.map_eq_some_iff, Option.isNone_iff_eq_none] at hran
  obtain ⟨r, hr, st, hst, hpop⟩ := hran
  refine ⟨by rw [hr]; rfl, ?_⟩
  rintro ⟨fuel, r', hr', -⟩
  -- the calls before the last have the same result whatever the fuel
  rw [QueueRun.after, run_append, Option.bind_eq_some_iff] at hr'
  obtain ⟨t, ht, hlast⟩ := hr'
  have hmore := run_more (queue_step_more (Nat.le_max_left fuel 9)) ht
  have hmore' := run_more (queue_step_more (Nat.le_max_right fuel 9)) hr
  rw [hmore] at hmore'
  injection hmore' with hsame
  subst hsame
  -- and the last reads a deleted node
  have hnone : t.step fuel prongEnds = none := by
    have hfree : (SendQueue.freeStation ⟨5, [5], []⟩ receiver st).topSorter = st.topSorter := by
      rcases freeStation_cases ⟨5, [5], []⟩ receiver st with ⟨-, h⟩ | ⟨_, _, -, -, -, h⟩
      · rw [h]
      · rw [h]
    have hstart : SendQueue.startSend fuel t.queue.parallelFactor
        (SendQueue.freeStation ⟨5, [5], []⟩ receiver st) = none := by
      unfold SendQueue.startSend
      rw [hfree, hpop]
      rfl
    show (t.queue.removeSendPriorityElement fuel (toReceiver (elementOf 5 []))).map _ = none
    unfold SendQueue.removeSendPriorityElement toReceiver elementOf
    dsimp only
    rw [hst]
    dsimp only
    exact congrArg _ (congrArg _ hstart)
  simp only [run, hnone, Option.bind_none] at hlast
  cases hlast

end Encoders.Send
