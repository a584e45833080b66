import Encoders.Lib.Run
import Encoders.Protocol.Receive

/-!
# The send loop

`Protocol::run`. The loop connects, waits for something to do, and sends what it takes
from the queue. A send that fails in a way worth a retry puts the object into a slot, from
which the next round takes it again. When an object is finished, with success or not,
the kernel and the send priority manager are told.

An object can get lost on two ways out. If the peer is not in the node store the
function returns, with the object in its hands. And if the loop ends while an object is in
the slot (the thread is told to exit, or the connection cannot be made again) nobody looks
at the slot. `run_accounts_iff`: there is no third.

The environment is an argument: what the queue, the connection, the peer and the rest of
the kernel answer, round by round.
-/

namespace Encoders.Protocol

open Encoders.Lib

variable {Obj : Type}

/-- The three numbers of `ProtocolConfiguration` that the loop compares with. -/
structure RunConfiguration where
  connectionAttempts : Int
  maxProtocolErrors : Int
  maxSendTimeouts : Int

/-- One attempt to connect: how it ends, and whether the thread is to stop after it. -/
structure Attempt where
  result : ProtocolEvent
  stop : Bool

/--
What a round of the loop meets. `stop` and `shouldExit` are the answers to the questions
whether the thread is to end, at the head of the loop and after an error; a protocol that
another thread shuts down answers alike. The attempts are those made before the connection
stands. `event` is what `waitForEvent` returns, with an object or not.
-/
structure Turn (Obj : Type) where
  stop : Bool
  attempts : List Attempt
  event : ProtocolEvent
  dObj : Option Obj
  actualPeer : Bool
  isObsolete : Bool
  loadReduction : Bool
  peerHas : Bool
  sent : ProtocolEvent
  received : ProtocolEvent
  shouldExit : Bool

/-- The events the loop gives the kernel. -/
inductive SendEvent (Obj : Type) where
  | sendSuccessful (dObj : Obj) (flag : Nat)
  | prioritySuccess (dObj : Obj)
  | sendStats (dObj : Obj)
  | sendFailure (dObj : Obj)
  | priorityFailure (dObj : Obj)

/-- The loop's variables, what it took from the queue, and the events it gave. -/
structure Running (Obj : Type) where
  done : Bool
  numConnectTry : Int
  numerr : Int
  numSendTimeouts : Int
  dObjToRetransmit : Option Obj
  dequeued : List Obj
  events : List (SendEvent Obj)
  exited : Bool

namespace Running

/-- Before the first round. -/
def start : Running Obj := ⟨false, 0, 0, 0, none, [], [], false⟩

/-- The label `done`, and the other ways out. -/
def exit (s : Running Obj) : Running Obj := { s with done := true, exited := true }

/-- `setMode(PROT_MODE_DONE)` -/
def setDone (s : Running Obj) : Running Obj := { s with done := true }

/-- The end of the switch. -/
def reset (s : Running Obj) : Running Obj := { s with numerr := 0, numSendTimeouts := 0 }

/-- One attempt to connect. -/
def attempt (c : RunConfiguration) (s : Running Obj) (result : ProtocolEvent) : Running Obj :=
  if result = .success then s
  else if result = .errorFatal then s.setDone
  else if s.numConnectTry + 1 = c.connectionAttempts then
    { s with numConnectTry := s.numConnectTry + 1 }.setDone
  else { s with numConnectTry := s.numConnectTry + 1 }

/-- The inner loop: connect until it works or there is a reason to stop. -/
def connect (c : RunConfiguration) : Running Obj → List Attempt → Running Obj
  | s, [] => s
  | s, a :: rest =>
      let s := s.attempt c a.result
      if s.done ∨ a.stop then s.exit else connect c s rest

/-- An error is counted; `true` if there were too many. -/
def countError (c : RunConfiguration) (s : Running Obj) (shouldExit : Bool) :
    Running Obj × Bool :=
  let gone := decide (c.maxProtocolErrors ≤ s.numerr) || shouldExit
  let s := { s with numerr := s.numerr + 1 }
  (if gone then s.setDone else s, gone)

/-- A send that timed out is counted; `true` if there were too many. -/
def countTimeout (c : RunConfiguration) (s : Running Obj) (shouldExit : Bool) :
    Running Obj × Bool :=
  let gone := decide (c.maxSendTimeouts ≤ s.numSendTimeouts) || shouldExit
  let s := { s with numSendTimeouts := s.numSendTimeouts + 1 }
  (if gone then s.setDone else s, gone)

/-- The flag of a success: was the object rejected, and why? -/
def successFlag (e : ProtocolEvent) : Nat :=
  if e = .reject then 1 else if e = .rejectParentDataObject then 2 else 0

/-- The events of an object that was sent. -/
def succeed (s : Running Obj) (dObj : Obj) (e : ProtocolEvent) : Running Obj :=
  { s with events := s.events ++
      [.sendSuccessful dObj (successFlag e), .prioritySuccess dObj, .sendStats dObj] }

/-- The events of an object that was not. -/
def fail (s : Running Obj) (dObj : Obj) : Running Obj :=
  { s with events := s.events ++ [.sendFailure dObj, .priorityFailure dObj] }

/-- What the attempt to send ends with. -/
def sendResult (t : Turn Obj) : ProtocolEvent :=
  if t.isObsolete then .success
  else if t.loadReduction then .error
  else if t.peerHas then .success
  else t.sent

/-- The case of a new data object, with the object taken from the queue or the slot. -/
def send (c : RunConfiguration) (s : Running Obj) (t : Turn Obj) (dObj : Obj) : Running Obj :=
  if t.actualPeer = false then
    -- this returns `PROT_EVENT_ERROR`, and the thread calls the function again
    { s with exited := true }
  else
    match sendResult t with
    | .success => (s.succeed dObj .success).reset
    | .reject => (s.succeed dObj .reject).reset
    | .rejectParentDataObject => (s.succeed dObj .rejectParentDataObject).reset
    | .error =>
        let (s, gone) := s.countError c t.shouldExit
        if gone then (s.fail dObj).reset else { s with dObjToRetransmit := some dObj }
    | .timeout =>
        let (s, gone) := s.countTimeout c t.shouldExit
        if gone then (s.fail dObj).reset else { s with dObjToRetransmit := some dObj }
    | _ => (s.setDone.fail dObj).reset

/-- The case of incoming data. -/
def receive (c : RunConfiguration) (s : Running Obj) (t : Turn Obj) : Running Obj :=
  match t.received with
  | .success => s.reset
  | .error => (s.countError c t.shouldExit).1
  | .timeout => (s.countError c t.shouldExit).1
  | _ => s.setDone.reset

/-- The switch over what `waitForEvent` returned. -/
def dispatch (c : RunConfiguration) (s : Running Obj) (t : Turn Obj) : Running Obj :=
  match t.event with
  | .timeout => s.setDone.reset
  | .txqNewDataObject =>
      match t.dObj with
      | none => s.reset
      | some dObj => { s with dequeued := s.dequeued ++ [dObj] }.send c t dObj
  | .incomingData => s.receive c t
  | .error => (s.countError c t.shouldExit).1
  | .shouldExit => s.setDone.reset
  | _ => s.reset

/-- One round of the loop. -/
def turn (c : RunConfiguration) (s : Running Obj) (t : Turn Obj) : Running Obj :=
  if s.exited then s
  else if s.done ∨ t.stop then s.exit
  else
    let s := s.connect c t.attempts
    if s.exited then s
    else
      match s.dObjToRetransmit with
      | some dObj => { s with dObjToRetransmit := none }.send c t dObj
      | none => s.dispatch c t

end Running

variable {events : List (SendEvent Obj)}

/-- `Protocol::run`, as far as the rounds reach. -/
def run (c : RunConfiguration) (turns : List (Turn Obj)) : Running Obj :=
  turns.foldl (Running.turn c) Running.start

/-! ## Accounting -/

/-- How an object is finished. -/
inductive Outcome where
  | success (flag : Nat)
  | failure

/-- The events that say so: one to everybody, one to the send priority manager. -/
def report (dObj : Obj) : Outcome → List (SendEvent Obj)
  | .success flag => [.sendSuccessful dObj flag, .prioritySuccess dObj, .sendStats dObj]
  | .failure => [.sendFailure dObj, .priorityFailure dObj]

/-- Every object taken from the queue has one report, and there are no others. -/
def AccountedFor (dequeued : List Obj) (events : List (SendEvent Obj)) : Prop :=
  ∃ outcomes : List Outcome, outcomes.length = dequeued.length ∧
    events = (List.zipWith report dequeued outcomes).flatten

/--
The connection is made: no attempt fails for good, none is the last one allowed, and the
thread is not told to stop after one.
-/
def connects (c : RunConfiguration) : Int → List Attempt → Bool
  | _, [] => true
  | numConnectTry, a :: rest =>
      !a.stop &&
        (if a.result = .success then connects c numConnectTry rest
        else if a.result = .errorFatal then false
        else numConnectTry + 1 ≠ c.connectionAttempts && connects c (numConnectTry + 1) rest)

/-- The round comes to the point where it takes an object. -/
def Running.proceeds (c : RunConfiguration) (s : Running Obj) (t : Turn Obj) : Bool :=
  !s.done && !t.stop && connects c s.numConnectTry t.attempts

/-- The object that a round is to send. -/
def Running.inHand (s : Running Obj) (t : Turn Obj) : Option Obj :=
  match s.dObjToRetransmit with
  | some dObj => some dObj
  | none => if t.event = .txqNewDataObject then t.dObj else none

/--
The rounds that lose nothing: if the round does not proceed no object waits to be sent
again, and if it has an object to send the peer is in the node store.
-/
def TurnOk (c : RunConfiguration) (s : Running Obj) (t : Turn Obj) : Prop :=
  s.exited = false →
    if s.proceeds c t then s.inHand t = none ∨ t.actualPeer = true
    else s.dObjToRetransmit = none

theorem accountedFor_nil : AccountedFor ([] : List Obj) [] := ⟨[], rfl, rfl⟩

theorem AccountedFor.snoc {dequeued : List Obj} (h : AccountedFor dequeued events) (dObj : Obj)
    (outcome : Outcome) : AccountedFor (dequeued ++ [dObj]) (events ++ report dObj outcome) := by
  obtain ⟨outcomes, hlen, hevents⟩ := h
  refine ⟨outcomes ++ [outcome], by simp [hlen], ?_⟩
  rw [List.zipWith_append hlen.symm, List.flatten_append, ← hevents]
  simp

/-- An event that finishes an object. -/
def SendEvent.finishes : SendEvent Obj → Bool
  | .sendSuccessful _ _ => true
  | .sendFailure _ => true
  | _ => false

theorem countP_report (dObj : Obj) (outcome : Outcome) :
    (report dObj outcome).countP SendEvent.finishes = 1 := by
  cases outcome <;> rfl

/-- There are as many reports as objects. -/
theorem AccountedFor.count {dequeued : List Obj} (h : AccountedFor dequeued events) :
    events.countP SendEvent.finishes = dequeued.length := by
  obtain ⟨outcomes, hlen, rfl⟩ := h
  induction dequeued generalizing outcomes with
  | nil => rfl
  | cons dObj rest ih =>
      cases outcomes with
      | nil => simp at hlen
      | cons outcome outcomes =>
          have hrest := ih outcomes (by simpa using hlen)
          rw [List.zipWith_cons_cons, List.flatten_cons, List.countP_append, countP_report, hrest,
            List.length_cons]
          omega

/-! ## What a round does -/

namespace Running

variable {s : Running Obj} {c : RunConfiguration}
variable {dObj : Obj} {t : Turn Obj}

/-- What a run keeps while nothing is lost: the object in the slot is the only one open. -/
structure RunInv (s : Running Obj) : Prop where
  idle : s.dObjToRetransmit = none → AccountedFor s.dequeued s.events
  waits : ∀ dObj, s.dObjToRetransmit = some dObj →
    ∃ before, s.dequeued = before ++ [dObj] ∧ AccountedFor before s.events
  exits : s.exited = true → s.dObjToRetransmit = none

/-- The loop was left with an object open. -/
structure Lost (s : Running Obj) : Prop where
  exits : s.exited = true
  last : ∃ before dObj, s.dequeued = before ++ [dObj] ∧ AccountedFor before s.events

/-- What the events, the queue and the slot are. -/
def ledger (s : Running Obj) : Option Obj × List Obj × List (SendEvent Obj) :=
  (s.dObjToRetransmit, s.dequeued, s.events)

theorem attempt_ledger (c : RunConfiguration) (s : Running Obj) (result : ProtocolEvent) :
    (s.attempt c result).ledger = s.ledger ∧ (s.attempt c result).exited = s.exited := by
  unfold attempt
  split
  · exact ⟨rfl, rfl⟩
  · split
    · exact ⟨rfl, rfl⟩
    · split <;> exact ⟨rfl, rfl⟩

/-- Connecting touches nothing that is accounted for. -/
theorem connect_ledger (c : RunConfiguration) : ∀ (attempts : List Attempt) (s : Running Obj),
    (s.connect c attempts).ledger = s.ledger := by
  intro attempts
  induction attempts with
  | nil => exact fun s => rfl
  | cons a rest ih =>
      intro s
      unfold connect
      simp only
      split
      · exact (attempt_ledger c s a.result).1
      · rw [ih, (attempt_ledger c s a.result).1]

/-- Whether the loop is left there is decided by the attempts. -/
theorem connect_exited (c : RunConfiguration) : ∀ (attempts : List Attempt) (s : Running Obj),
    s.done = false → s.exited = false →
    (s.connect c attempts).exited = !connects c s.numConnectTry attempts := by
  intro attempts
  induction attempts with
  | nil => exact fun s _ hexited => hexited
  | cons a rest ih =>
      intro s hdone hexited
      unfold connect connects
      cases hstop : a.stop with
      | true => simp [exit]
      | false =>
          simp only [Bool.false_eq_true, or_false, Bool.not_false, Bool.true_and]
          unfold attempt
          by_cases hsuccess : a.result = .success
          · simp only [hsuccess, if_true, hdone, Bool.false_eq_true, if_false]
            exact ih s hdone hexited
          · by_cases hfatal : a.result = .errorFatal
            · simp [hfatal, setDone, exit]
            · simp only [hsuccess, hfatal, if_false]
              by_cases hlast : s.numConnectTry + 1 = c.connectionAttempts
              · simp [hlast, setDone, exit]
              · simp only [hlast, if_false, hdone, Bool.false_eq_true, ne_eq, not_false_eq_true,
                  decide_true, Bool.true_and]
                have hrest := ih { s with numConnectTry := s.numConnectTry + 1 } hdone hexited
                simp only [hdone] at hrest
                exact hrest

theorem countError_ledger (c : RunConfiguration) (s : Running Obj) (shouldExit : Bool) :
    (s.countError c shouldExit).1.ledger = s.ledger ∧
      (s.countError c shouldExit).1.exited = s.exited := by
  unfold countError
  simp only
  split <;> exact ⟨rfl, rfl⟩

theorem countTimeout_ledger (c : RunConfiguration) (s : Running Obj) (shouldExit : Bool) :
    (s.countTimeout c shouldExit).1.ledger = s.ledger ∧
      (s.countTimeout c shouldExit).1.exited = s.exited := by
  unfold countTimeout
  simp only
  split <;> exact ⟨rfl, rfl⟩

/-- A round in which no object is open says nothing and takes nothing. -/
theorem RunInv.of_ledger {t : Running Obj} (h : RunInv s) (hledger : t.ledger = s.ledger)
    (hexited : t.exited = s.exited) : RunInv t := by
  have hslot : t.dObjToRetransmit = s.dObjToRetransmit := congrArg Prod.fst hledger
  have hdequeued : t.dequeued = s.dequeued := congrArg (fun v => v.2.1) hledger
  have hevents : t.events = s.events := congrArg (fun v => v.2.2) hledger
  refine ⟨?_, ?_, ?_⟩
  · rw [hslot, hdequeued, hevents]
    exact h.idle
  · rw [hslot, hdequeued, hevents]
    exact h.waits
  · rw [hexited, hslot]
    exact h.exits

/-- An object is open: it is the last one taken, and the others are finished. -/
structure Open (s : Running Obj) (dObj : Obj) : Prop where
  slot : s.dObjToRetransmit = none
  goes : s.exited = false
  last : ∃ before, s.dequeued = before ++ [dObj] ∧ AccountedFor before s.events

/-- An open object that is reported is finished. -/
theorem Open.reported {t : Running Obj} (h : Open s dObj) (outcome : Outcome)
    (hslot : t.dObjToRetransmit = s.dObjToRetransmit) (hdequeued : t.dequeued = s.dequeued)
    (hevents : t.events = s.events ++ report dObj outcome) (hexited : t.exited = s.exited) :
    RunInv t := by
  obtain ⟨before, hbefore, haccount⟩ := h.last
  refine ⟨?_, ?_, ?_⟩
  · intro _
    rw [hdequeued, hevents, hbefore]
    exact haccount.snoc dObj outcome
  · intro o ho
    rw [hslot, h.slot] at ho
    cases ho
  · intro hcon
    rw [hexited, h.goes] at hcon
    cases hcon

/-- An open object that is kept for a retry stays open. -/
theorem Open.kept {t : Running Obj} (h : Open s dObj) (hslot : t.dObjToRetransmit = some dObj)
    (hdequeued : t.dequeued = s.dequeued) (hevents : t.events = s.events)
    (hexited : t.exited = s.exited) : RunInv t := by
  obtain ⟨before, hbefore, haccount⟩ := h.last
  refine ⟨?_, ?_, ?_⟩
  · intro hcon
    rw [hslot] at hcon
    cases hcon
  · intro o ho
    rw [hslot] at ho
    injection ho with ho
    subst ho
    exact ⟨before, by rw [hdequeued, hbefore], by rw [hevents]; exact haccount⟩
  · intro hcon
    rw [hexited, h.goes] at hcon
    cases hcon

/-- **Sending finishes an open object or keeps it**, if the peer is known. -/
theorem send_keeps (h : Open s dObj) (hpeer : t.actualPeer = true) : RunInv (s.send c t dObj) := by
  have hretry : ∀ (u : Running Obj) (gone : Bool), u.ledger = s.ledger ∧ u.exited = s.exited →
      RunInv (if gone then (u.fail dObj).reset else { u with dObjToRetransmit := some dObj }) := by
    intro u gone hu
    have hslot : u.dObjToRetransmit = s.dObjToRetransmit := congrArg Prod.fst hu.1
    have hdequeued : u.dequeued = s.dequeued := congrArg (fun v => v.2.1) hu.1
    have hevents : u.events = s.events := congrArg (fun v => v.2.2) hu.1
    cases gone with
    | true => exact h.reported .failure hslot hdequeued (by rw [← hevents]; rfl) hu.2
    | false => exact h.kept rfl hdequeued hevents hu.2
  unfold send
  rw [hpeer]
  simp only [Bool.true_eq_false, if_false]
  cases sendResult t with
  | success => exact h.reported (.success 0) rfl rfl rfl rfl
  | reject => exact h.reported (.success 1) rfl rfl rfl rfl
  | rejectParentDataObject => exact h.reported (.success 2) rfl rfl rfl rfl
  | error => exact hretry _ _ (countError_ledger c s t.shouldExit)
  | timeout => exact hretry _ _ (countTimeout_ledger c s t.shouldExit)
  | _ => exact h.reported .failure rfl rfl rfl rfl

/-- Without the peer the loop is left with the object open. -/
theorem send_loses (h : Open s dObj) (hpeer : t.actualPeer = false) : Lost (s.send c t dObj) := by
  unfold send
  rw [if_pos hpeer]
  obtain ⟨before, hbefore, haccount⟩ := h.last
  exact ⟨rfl, before, dObj, hbefore, haccount⟩

/-- What is done when nothing is open and nothing is taken. -/
theorem dispatch_idle (h : RunInv s) (hnone : t.event = .txqNewDataObject → t.dObj = none) :
    RunInv (s.dispatch c t) := by
  have herror := countError_ledger c s t.shouldExit
  unfold dispatch
  cases hevent : t.event with
  | txqNewDataObject =>
      simp only [hnone hevent]
      exact h.of_ledger rfl rfl
  | incomingData =>
      unfold receive
      cases t.received with
      | error => exact h.of_ledger herror.1 herror.2
      | timeout => exact h.of_ledger herror.1 herror.2
      | _ => exact h.of_ledger rfl rfl
  | error => exact h.of_ledger herror.1 herror.2
  | _ => exact h.of_ledger rfl rfl

theorem turn_exited (h : s.exited = true) (t : Turn Obj) : s.turn c t = s := by
  unfold turn
  rw [if_pos h]

/-- A round that does not proceed leaves the loop as it is. -/
theorem turn_leaves (hexited : s.exited = false) (h : s.proceeds c t = false) :
    (s.turn c t).exited = true ∧ (s.turn c t).ledger = s.ledger := by
  unfold turn
  simp only [hexited, Bool.false_eq_true, if_false]
  by_cases hstop : s.done ∨ t.stop
  · rw [if_pos hstop]
    exact ⟨rfl, rfl⟩
  · rw [if_neg hstop]
    simp only [not_or, Bool.not_eq_true] at hstop
    have hconnects : connects c s.numConnectTry t.attempts = false := by
      unfold proceeds at h
      simpa [hstop.1, hstop.2] using h
    have hleft := connect_exited c t.attempts s hstop.1 hexited
    rw [hconnects] at hleft
    simp only [hleft, Bool.not_false, if_true]
    exact ⟨trivial, connect_ledger c t.attempts s⟩

/-- One that does takes up the object in the slot, or waits for something to do. -/
theorem turn_proceeds (hexited : s.exited = false) (h : s.proceeds c t = true) :
    ∃ u : Running Obj, u.ledger = s.ledger ∧ u.exited = false ∧
      (∀ dObj, s.dObjToRetransmit = some dObj →
        s.turn c t = { u with dObjToRetransmit := none }.send c t dObj) ∧
      (s.dObjToRetransmit = none → s.turn c t = u.dispatch c t) := by
  unfold proceeds at h
  simp only [Bool.and_eq_true, Bool.not_eq_true'] at h
  have hexits := connect_exited c t.attempts s h.1.1 hexited
  rw [h.2] at hexits
  have hledger := connect_ledger c t.attempts s
  have hslot : (s.connect c t.attempts).dObjToRetransmit = s.dObjToRetransmit :=
    congrArg Prod.fst hledger
  refine ⟨s.connect c t.attempts, hledger, hexits, ?_, ?_⟩
  · intro dObj hpending
    unfold turn
    simp only [hexited, Bool.false_eq_true, if_false, h.1.1, h.1.2, or_self, hexits,
      Bool.not_true, hslot, hpending]
  · intro hidle
    unfold turn
    simp only [hexited, Bool.false_eq_true, if_false, h.1.1, h.1.2, or_self, hexits,
      Bool.not_true, hslot, hidle]

/-- **One round keeps the account or loses an object**, and the condition decides which. -/
theorem turn_accounts (h : RunInv s) (t : Turn Obj) :
    (TurnOk c s t ∧ RunInv (s.turn c t)) ∨ (¬ TurnOk c s t ∧ Lost (s.turn c t)) := by
  cases hexited : s.exited with
  | true =>
      rw [turn_exited hexited]
      refine Or.inl ⟨?_, h⟩
      intro hcon
      rw [hexited] at hcon
      cases hcon
  | false =>
      cases hproceeds : s.proceeds c t with
      | false =>
          have hok : TurnOk c s t ↔ s.dObjToRetransmit = none := by
            unfold TurnOk
            simp [hexited, hproceeds]
          obtain ⟨hleft, hledger⟩ := turn_leaves hexited hproceeds
          have hslot : (s.turn c t).dObjToRetransmit = s.dObjToRetransmit :=
            congrArg Prod.fst hledger
          have hdequeued : (s.turn c t).dequeued = s.dequeued := congrArg (fun v => v.2.1) hledger
          have hevents : (s.turn c t).events = s.events := congrArg (fun v => v.2.2) hledger
          rw [hok]
          cases hpending : s.dObjToRetransmit with
          | none =>
              refine Or.inl ⟨rfl, ?_, ?_, ?_⟩
              · intro _
                rw [hdequeued, hevents]
                exact h.idle hpending
              · intro o ho
                rw [hslot, hpending] at ho
                cases ho
              · intro _
                rw [hslot, hpending]
          | some dObj =>
              obtain ⟨before, hbefore, haccount⟩ := h.waits dObj hpending
              refine Or.inr ⟨by simp, hleft, before, dObj, ?_, ?_⟩
              · rw [hdequeued, hbefore]
              · rw [hevents]
                exact haccount
      | true =>
          have hok : TurnOk c s t ↔ s.inHand t = none ∨ t.actualPeer = true := by
            unfold TurnOk
            simp [hexited, hproceeds]
          obtain ⟨u, hledger, huexited, hagain, hidle⟩ := turn_proceeds hexited hproceeds
          have hslot : u.dObjToRetransmit = s.dObjToRetransmit := congrArg Prod.fst hledger
          have hdequeued : u.dequeued = s.dequeued := congrArg (fun v => v.2.1) hledger
          have hevents : u.events = s.events := congrArg (fun v => v.2.2) hledger
          -- an object in hand goes one way or the other with the peer
          have hsend : ∀ (v : Running Obj) (dObj : Obj), Open v dObj → s.inHand t = some dObj →
              s.turn c t = v.send c t dObj →
              (TurnOk c s t ∧ RunInv (s.turn c t)) ∨ (¬ TurnOk c s t ∧ Lost (s.turn c t)) := by
            intro v dObj hopen hhand hturn
            rw [hok, hturn, hhand]
            cases hpeer : t.actualPeer with
            | true => exact Or.inl ⟨Or.inr rfl, send_keeps hopen hpeer⟩
            | false => exact Or.inr ⟨by simp, send_loses hopen hpeer⟩
          cases hpending : s.dObjToRetransmit with
          | some dObj =>
              obtain ⟨before, hbefore, haccount⟩ := h.waits dObj hpending
              refine hsend { u with dObjToRetransmit := none } dObj ⟨rfl, huexited, before, ?_, ?_⟩
                ?_ (hagain dObj hpending)
              · exact hdequeued.trans hbefore
              · rw [hevents]
                exact haccount
              · unfold inHand
                rw [hpending]
          | none =>
              have hinv : RunInv u := h.of_ledger hledger (huexited.trans hexited.symm)
              by_cases hnew : t.event = .txqNewDataObject ∧ t.dObj ≠ none
              · obtain ⟨hevent, hsome⟩ := hnew
                obtain ⟨dObj, hdObj⟩ := Option.ne_none_iff_exists'.mp hsome
                refine hsend { u with dequeued := u.dequeued ++ [dObj] } dObj
                  ⟨hslot.trans hpending, huexited, u.dequeued, rfl,
                    hinv.idle (hslot.trans hpending)⟩ ?_ ?_
                · unfold inHand
                  rw [hpending]
                  simp [hevent, hdObj]
                · rw [hidle hpending]
                  unfold dispatch
                  simp only [hevent, hdObj]
              · have hnone : t.event = .txqNewDataObject → t.dObj = none := by
                  intro hevent
                  by_contra hcon
                  exact hnew ⟨hevent, hcon⟩
                refine Or.inl ⟨hok.mpr (Or.inl ?_), ?_⟩
                · unfold inHand
                  rw [hpending]
                  simp only
                  split
                  · next hevent => exact hnone hevent
                  · rfl
                · rw [hidle hpending]
                  exact dispatch_idle hinv hnone

end Running

/-! ## Whole runs -/

/-- The rounds of a run lose nothing. -/
def Lossless (c : RunConfiguration) (turns : List (Turn Obj)) : Prop :=
  Guarded (fun s t => some (Running.turn c s t)) (TurnOk c) Running.start turns

theorem run_snoc (c : RunConfiguration) (turns : List (Turn Obj)) (t : Turn Obj) :
    run c (turns ++ [t]) = (run c turns).turn c t := by
  unfold run
  rw [List.foldl_append]
  rfl

theorem lossless_snoc {c : RunConfiguration} {turns : List (Turn Obj)} {t : Turn Obj} :
    Lossless c (turns ++ [t]) ↔ Lossless c turns ∧ TurnOk c (run c turns) t :=
  guarded_snoc (Running.turn c) (TurnOk c) turns t Running.start

/-- **A run keeps its account or loses an object**, by its rounds. -/
theorem run_accounts (c : RunConfiguration) : ∀ (turns : List (Turn Obj)),
    (Lossless c turns ∧ (run c turns).RunInv) ∨ (¬ Lossless c turns ∧ (run c turns).Lost) := by
  intro turns
  induction turns using List.reverseRecOn with
  | nil =>
      refine Or.inl ⟨trivial, ?_, ?_, ?_⟩
      · exact fun _ => accountedFor_nil
      · intro dObj h
        cases h
      · intro h
        cases h
  | append_singleton turns t ih =>
      rw [run_snoc, lossless_snoc]
      rcases ih with ⟨hlossless, hinv⟩ | ⟨hlossy, hlost⟩
      · rcases Running.turn_accounts (c := c) hinv t with ⟨hok, hnext⟩ | ⟨hbad, hnext⟩
        · exact Or.inl ⟨⟨hlossless, hok⟩, hnext⟩
        · exact Or.inr ⟨fun h => hbad h.2, hnext⟩
      · rw [Running.turn_exited hlost.exits]
        exact Or.inr ⟨fun h => hlossy h.1, hlost⟩

/--
**When the loop has been left, every object taken from the queue has exactly one report**
if and only if no round gave up with an object waiting to be sent again, and none had an
object to send to a peer that is not in the node store.
-/
theorem run_accounts_iff (c : RunConfiguration) (turns : List (Turn Obj))
    (hexited : (run c turns).exited = true) :
    AccountedFor (run c turns).dequeued (run c turns).events ↔ Lossless c turns := by
  rcases run_accounts c turns with ⟨hlossless, hinv⟩ | ⟨hlossy, hlost⟩
  · exact ⟨fun _ => hlossless, fun _ => hinv.idle (hinv.exits hexited)⟩
  · refine ⟨?_, fun h => absurd h hlossy⟩
    intro haccount
    obtain ⟨before, dObj, hdequeued, hbefore⟩ := hlost.last
    have hcount := haccount.count
    rw [hbefore.count, hdequeued, List.length_append, List.length_singleton] at hcount
    omega

/-! ## Two runs -/

/-- Three of everything. -/
def threeOfEach : RunConfiguration := ⟨3, 3, 3⟩

/-- A connected round with an object in the queue. -/
def sending (sent : ProtocolEvent) (actualPeer : Bool) : Turn Nat where
  stop := false
  attempts := []
  event := .txqNewDataObject
  dObj := some 7
  actualPeer := actualPeer
  isObsolete := false
  loadReduction := false
  peerHas := false
  sent := sent
  received := .success
  shouldExit := false

/-- An object that is sent at the second try, and then the end. -/
theorem run_accounts_second_try :
    AccountedFor
      (run threeOfEach
        [sending .error true, sending .success true, { sending .success true with stop := true }]).dequeued
      (run threeOfEach
        [sending .error true, sending .success true,
          { sending .success true with stop := true }]).events := by
  refine (run_accounts_iff threeOfEach [sending .error true, sending .success true,
    { sending .success true with stop := true }] (by decide)).mpr ?_
  refine ⟨fun _ => Or.inr rfl, ?_⟩
  rintro s ⟨⟩
  refine ⟨fun _ => Or.inr rfl, ?_⟩
  rintro s ⟨⟩
  exact ⟨fun _ => rfl, fun _ _ => trivial⟩

/-- A peer that is not in the node store: the loop is left without a word. -/
theorem unknown_peer_loses :
    (run threeOfEach [sending .success false]).exited = true ∧
      (run threeOfEach [sending .success false]).dequeued = [7] ∧
      ¬ AccountedFor (run threeOfEach [sending .success false]).dequeued
        (run threeOfEach [sending .success false]).events := by
  refine ⟨by decide, by decide, ?_⟩
  intro h
  exact absurd h.count (by decide)

end Encoders.Protocol
