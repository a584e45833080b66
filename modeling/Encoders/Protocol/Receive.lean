import Encoders.Lib.Run
import Encoders.Lib.Slice
import Encoders.Data.PutData
import Encoders.Data.NodeDescription

/-!
# Receiving a data object

`Protocol::receiveDataObject` over `ProtocolUDPGeneric`. Every message has a session and
a sequence number; its payload is read into the protocol's buffer and handed to the
object under construction. A message seen before is to be ignored, one of another
session or from behind a gap ends the reception.

Four things go wrong. `curSessionNoDefined` is never set, so a session is never
compared with another. A duplicate is dropped after `getData` has counted its bytes, so
the next call of `putData` is given more than the next message. `getData` reads to
the start of the buffer, over what an earlier call of `putData` left there. And a message that
was refused is counted if the socket's last error says that it would block.

While no round does any of this the reception is what it should be: `session_integrity`.
-/

namespace Encoders.Protocol

open Encoders.Lib Encoders.Data

/-- `ProtocolEvent` -/
inductive ProtocolEvent where
  | errorFatal
  | error
  | success
  | reject
  | rejectParentDataObject
  | terminate
  | sendFailed
  | recvFailed
  | timeout
  | peerClosed
  | shouldExit
  | notConnected
  | txqEmpty
  | txqNewDataObject
  | incomingData
  | writeable
deriving DecidableEq

/-- `DataObjectId_t`, which also numbers the sessions. -/
abbrev DataObjectId := { bytes : List UInt8 // bytes.length = 20 }

/-- A datagram with all of its `udpmsg_t`, and what follows it. -/
structure Message where
  sessionNo : DataObjectId
  seqNo : Int32
  srcIP : UInt64
  payload : List UInt8

/-- What `waitForEvent` and `recv` come back with. -/
inductive Arrival where
  | message (m : Message)
  | event (e : ProtocolEvent)

/--
What `getData` makes of a failed `receiveData`, from the socket's error: `wouldBlock` while there
are tries left.
-/
inductive Failure where
  | wouldBlock
  | fatal
  | connectionReset
  | other
deriving DecidableEq

/-- The event it returns, if it does not try again. -/
def Failure.event : Failure → Option ProtocolEvent
  | .wouldBlock => none
  | .fatal => some .errorFatal
  | .connectionReset => some .peerClosed
  | .other => some .error

/--
One round of the loop: what arrives, what a failed `receiveData` leads to, and how
sending a control message ends.
-/
structure Round where
  arrival : Arrival
  failure : Failure
  control : ProtocolEvent

/-- The control messages of the receiver. -/
inductive ControlType where
  | ack
  | accept
  | reject
  | rejectParentDataObject
deriving DecidableEq

/-- The events it gives the kernel. -/
inductive KernelEvent where
  | incoming
  | deleted
  | received
deriving DecidableEq

/-- What the reception is given: the protocol's own data, the parser, and the node's filter. -/
structure Receiver where
  bufferSize : Nat
  srcIP : UInt64
  isSender : Bool
  peerIface : Bool
  parse : CString → Option DataObject
  path : CString
  has : DataObject → Bool
  hasFragmentationParent : DataObject → Bool
  hasNetworkCodingParent : DataObject → Bool

/--
The variables of `receiveDataObject` and the members of the protocol it uses, with
a record of what `putData` was handed in each call and of the object that was announced.
`crashed` is the access through a node that could not be created.
-/
structure Receiving where
  object : Putting
  buffer : List UInt8
  bufferDataLen : Nat
  bytesRemaining : Nat
  md : Bool
  incoming : Bool
  announced : Option DataObject
  crashed : Bool
  curSessionNoDefined : Bool
  curSessionNo : DataObjectId
  curSeqNo : Int
  lastReceivedSessionNo : DataObjectId
  lastReceivedSeqNo : Int
  handed : List (List UInt8)
  control : List ControlType
  events : List KernelEvent
  ended : Option ProtocolEvent

namespace Receiving

/-- Before the first round, on what the protocol did before. -/
def start (buffer : List UInt8) (session : DataObjectId) (lastSession : DataObjectId)
    (lastSeq : Int) : Receiving where
  object := createForPutting
  buffer := buffer
  bufferDataLen := 0
  bytesRemaining := metadataPending
  md := false
  incoming := false
  announced := none
  crashed := false
  curSessionNoDefined := false
  curSessionNo := session
  curSeqNo := 1
  lastReceivedSessionNo := lastSession
  lastReceivedSeqNo := lastSeq
  handed := []
  control := []
  events := []
  ended := none

/--
`getData`: a message goes to the start of the buffer, the rest of what there was room for
is zeros, and its bytes are counted on top of what the buffer holds. A message of the node's own,
or without an interface of the peer, is refused; but if the socket's error says that it would
block, it is counted all the same.
-/
def getData (c : Receiver) (s : Receiving) (r : Round) : Receiving × Option ProtocolEvent :=
  match r.arrival with
  | .event e => if e = .success then (s, none) else (s, some e)
  | .message m =>
      let readLen := c.bufferSize - s.bufferDataLen
      if readLen = 0 then (s, some .error)
      else if m.payload = [] then (s, r.failure.event)
      else
        let bytes := m.payload.take readLen
        let s := { s with
          lastReceivedSessionNo := m.sessionNo
          lastReceivedSeqNo := m.seqNo.toInt
          buffer := bytes ++ List.replicate (readLen - bytes.length) 0 ++ s.buffer.drop readLen }
        if (m.srcIP = c.srcIP ∨ c.peerIface = false) ∧ r.failure ≠ .wouldBlock then
          (s, r.failure.event)
        else ({ s with bufferDataLen := s.bufferDataLen + bytes.length }, some .success)

/-- `removeData` -/
def removeData (s : Receiving) (len : Nat) : Receiving :=
  if len = 0 then s
  else if s.bufferDataLen ≤ len then { s with bufferDataLen := 0 }
  else
    { s with
      buffer := slice s.buffer len (s.bufferDataLen - len) ++
        s.buffer.drop (s.bufferDataLen - len)
      bufferDataLen := s.bufferDataLen - len }

/-- The object is a node description, and `Node::create` makes no node of it. -/
def nameless (s : Receiving) : Bool :=
  s.object.object.any (fun d => d.isNodeDesc && !createsNode d)

/-- What follows the loop. The new node is asked for its type before anything else is done. -/
def finish (s : Receiving) (e : ProtocolEvent) : Receiving :=
  if e = .success then
    if s.nameless then { s with crashed := true, ended := some e }
    else
      { s with
        control := s.control ++ [.ack], events := s.events ++ [.received], ended := some e }
  else if s.incoming then { s with events := s.events ++ [.deleted], ended := some e }
  else { s with ended := some e }

/-- The condition of the loop. -/
def next (s : Receiving) (e : ProtocolEvent) : Receiving :=
  if s.bytesRemaining ≠ 0 ∧ e = .success then s else s.finish e

/-- What is done once, when the metadata are there: reject the object or accept it. -/
def header (c : Receiver) (s : Receiving) (r : Round) (e : ProtocolEvent) : Receiving :=
  if s.bytesRemaining ≠ metadataPending ∧ s.md = false then
    match s.object.object with
    | none => s.next e
    | some d =>
        let s := { s with md := true }
        if c.has d then
          { s with control := s.control ++ [.reject], ended := some r.control }
        else if c.hasFragmentationParent d ∨ c.hasNetworkCodingParent d then
          { s with control := s.control ++ [.rejectParentDataObject], ended := some r.control }
        else
          let s := { s with
            control := s.control ++ [ControlType.accept]
            events := s.events ++ [KernelEvent.incoming]
            incoming := true
            announced := some d }
          s.next r.control
  else s.next e

/-- The call of `putData`. -/
def put (c : Receiver) (s : Receiving) (r : Round) (e : ProtocolEvent) : Receiving :=
  if s.bufferDataLen = 0 then s.next e
  else
    let data := s.buffer.take s.bufferDataLen
    let result := putData c.parse c.path false s.object data s.bytesRemaining
    let s := { s with
      object := result.state
      bytesRemaining := result.remaining
      handed := s.handed ++ [data] }
    if result.putLen < 0 then s.finish .error
    else header c (s.removeData result.putLen.toNat) r e

/-- The check of the sequence number. -/
def checkSeqNo (c : Receiver) (s : Receiving) (r : Round) (e : ProtocolEvent) : Receiving :=
  if s.lastReceivedSeqNo = 0 then s.put c r e
  else if s.lastReceivedSeqNo = s.curSeqNo then { s with curSeqNo := s.curSeqNo + 1 }.put c r e
  else if s.lastReceivedSeqNo ≤ s.curSeqNo - 1 then s.next e
  else s.finish .error

/-- The check of the session. -/
def checkSessionNo (c : Receiver) (s : Receiving) (r : Round) (e : ProtocolEvent) : Receiving :=
  if s.curSessionNoDefined = false then
    { s with curSessionNo := s.lastReceivedSessionNo }.checkSeqNo c r e
  else if s.curSessionNo ≠ s.lastReceivedSessionNo then s.finish .error
  else s.checkSeqNo c r e

/-- One round of the loop in `receiveDataObject`. -/
def round (c : Receiver) (s : Receiving) (r : Round) : Receiving :=
  match s.ended with
  | some _ => s
  | none =>
      match s.getData c r with
      | (s, none) => s
      | (s, some e) =>
          if e = .peerClosed ∨ e = .errorFatal ∨ e = .error ∨ e = .timeout then s.finish e
          else if c.isSender then s.finish .error
          else s.checkSessionNo c r e

end Receiving

/-! ## Integrity -/

/-- The message that a round brings: one that is not refused, or counted all the same. -/
def Round.delivered (c : Receiver) (r : Round) : Option Message :=
  match r.arrival with
  | .event _ => none
  | .message m =>
      if m.payload = [] ∨ (m.srcIP = c.srcIP ∨ c.peerIface = false) ∧ r.failure ≠ .wouldBlock then
        none
      else some m

/-- Where a reception starts: an empty buffer in front of what was left by earlier ones. -/
structure Before where
  buffer : List UInt8
  session : DataObjectId
  lastSession : DataObjectId
  lastSeq : Int

/-- The reception after some rounds. -/
def receiveDataObject (c : Receiver) (b : Before) (rounds : List Round) : Receiving :=
  rounds.foldl (Receiving.round c) (Receiving.start b.buffer b.session b.lastSession b.lastSeq)

/-- 1, 2, 3 and so on. -/
def numbersTo (n : Nat) : List Int := (List.range n).map (fun i : Nat => (i : Int) + 1)

/-- The session of the first message. -/
def firstSession (c : Receiver) (rounds : List Round) : Option DataObjectId :=
  ((rounds.filterMap (Round.delivered c)).head?).map (fun m => m.sessionNo)

/--
What a reception should be. `putData` is handed, call by call, the payloads of the
messages 1, 2, 3 and so on of one session. A message with a number already seen changes
nothing. A message of another session, or from behind a gap, ends it with an error.
-/
structure SessionIntegrity (c : Receiver) (b : Before) (rounds : List Round) : Prop where
  stream : ∃ used : List Message, used.Sublist (rounds.filterMap (Round.delivered c)) ∧
    (∀ m ∈ used, firstSession c rounds = some m.sessionNo) ∧
    used.map (fun m => m.seqNo.toInt) = numbersTo used.length ∧
    (receiveDataObject c b rounds).handed = used.map (fun m => m.payload) ∧
    ((receiveDataObject c b rounds).ended = none →
      (receiveDataObject c b rounds).curSeqNo = (used.length : Int) + 1)
  duplicate : ∀ pre r post m, rounds = pre ++ r :: post → r.delivered c = some m →
    firstSession c rounds = some m.sessionNo → 1 ≤ m.seqNo.toInt →
    m.seqNo.toInt < (receiveDataObject c b pre).curSeqNo →
    receiveDataObject c b (pre ++ [r]) = receiveDataObject c b pre
  stray : ∀ pre r post m, rounds = pre ++ r :: post → r.delivered c = some m →
    (receiveDataObject c b pre).ended = none →
    firstSession c rounds ≠ some m.sessionNo ∨
      (receiveDataObject c b pre).curSeqNo < m.seqNo.toInt →
    (receiveDataObject c b (pre ++ [r])).ended = some .error

/--
The rounds that do no harm: the buffer is empty, and a message fits into it, belongs to
the session of the messages before it, and was not seen before. A gap is allowed.
-/
def RoundOk (c : Receiver) (s : Receiving) (r : Round) : Prop :=
  s.ended = none → s.bufferDataLen = 0 ∧ ∀ m, r.delivered c = some m →
    m.payload.length ≤ c.bufferSize ∧ m.seqNo.toInt < 2147483647 ∧
    s.curSeqNo ≤ m.seqNo.toInt ∧
    (s.curSeqNo = 1 ∨ m.sessionNo = s.curSessionNo ∨ s.curSeqNo < m.seqNo.toInt)

/-! ## What a round does -/

namespace Receiving

variable {s : Receiving}
variable {r : Round} {m : Message}

/-- The part of the state that only an accepted message changes. -/
def seen (s : Receiving) : List (List UInt8) × Int × DataObjectId × Bool :=
  (s.handed, s.curSeqNo, s.curSessionNo, s.curSessionNoDefined)

@[simp] theorem finish_ended (s : Receiving) (e : ProtocolEvent) :
    (s.finish e).ended = some e := by
  unfold finish
  split
  · split <;> rfl
  · split <;> rfl

@[simp] theorem finish_seen (s : Receiving) (e : ProtocolEvent) :
    (s.finish e).seen = s.seen := by
  unfold finish
  split
  · split <;> rfl
  · split <;> rfl

@[simp] theorem next_seen (s : Receiving) (e : ProtocolEvent) : (s.next e).seen = s.seen := by
  unfold next
  split
  · rfl
  · exact finish_seen s e

theorem next_ended {e : ProtocolEvent} (h : e ≠ .success) : (s.next e).ended = some e := by
  unfold next
  rw [if_neg (fun hcon => h hcon.2)]
  exact finish_ended s e

@[simp] theorem removeData_seen (s : Receiving) (len : Nat) :
    (s.removeData len).seen = s.seen := by
  unfold removeData
  split
  · rfl
  · split <;> rfl

@[simp] theorem header_seen (c : Receiver) (s : Receiving) (r : Round) (e : ProtocolEvent) :
    (s.header c r e).seen = s.seen := by
  unfold header
  split
  · split
    · exact next_seen s e
    · simp only
      split
      · rfl
      · split
        · rfl
        · exact next_seen _ _
  · exact next_seen s e

/-- Nothing is handed over from an empty buffer. -/
theorem put_empty {c : Receiver} (h : s.bufferDataLen = 0) (r : Round) (e : ProtocolEvent) :
    s.put c r e = s.next e := by
  unfold put
  rw [if_pos h]

/-- Otherwise it is what the buffer holds. -/
theorem put_seen {c : Receiver} (h : s.bufferDataLen ≠ 0) (r : Round) (e : ProtocolEvent) :
    (s.put c r e).seen =
      (s.handed ++ [s.buffer.take s.bufferDataLen], s.curSeqNo, s.curSessionNo,
        s.curSessionNoDefined) := by
  unfold put
  rw [if_neg h]
  simp only
  split
  · exact finish_seen _ _
  · rw [header_seen, removeData_seen]
    rfl

/-- With an empty buffer nothing is handed over, and an event ends the loop. -/
theorem checkSeqNo_empty {c : Receiver} (h : s.bufferDataLen = 0) (r : Round) {e : ProtocolEvent}
    (he : e ≠ .success) :
    (s.checkSeqNo c r e).handed = s.handed ∧ (s.checkSeqNo c r e).ended ≠ none := by
  have hnext : ∀ t : Receiving, t.handed = s.handed →
      (t.next e).handed = s.handed ∧ (t.next e).ended ≠ none := by
    intro t ht
    refine ⟨(congrArg Prod.fst (next_seen t e)).trans ht, ?_⟩
    rw [next_ended he]
    simp
  unfold checkSeqNo
  split
  · rw [put_empty h]
    exact hnext s rfl
  · split
    · rw [put_empty (by exact h)]
      exact hnext _ rfl
    · split
      · exact hnext s rfl
      · refine ⟨congrArg Prod.fst (finish_seen s .error), ?_⟩
        rw [finish_ended]
        simp

theorem checkSessionNo_eq {c : Receiver} (h : s.curSessionNoDefined = false) (r : Round)
    (e : ProtocolEvent) : s.checkSessionNo c r e =
      { s with curSessionNo := s.lastReceivedSessionNo }.checkSeqNo c r e := by
  unfold checkSessionNo
  rw [if_pos h]

/-- The message that a quiet round leaves behind is never looked at. -/
theorem getData_quiet {c : Receiver} (h : r.delivered c = none) :
    (s.getData c r).2 ≠ some .success ∧ (s.getData c r).1.seen = s.seen ∧
      (s.getData c r).1.bufferDataLen = s.bufferDataLen ∧ (s.getData c r).1.ended = s.ended := by
  have hfailure : r.failure.event ≠ some .success := by
    cases r.failure <;> simp [Failure.event]
  unfold Round.delivered at h
  unfold getData
  cases harr : r.arrival with
  | event e =>
      simp only
      split
      · exact ⟨by simp, rfl, rfl, rfl⟩
      · next he => exact ⟨by simpa using he, rfl, rfl, rfl⟩
  | message m =>
      simp only [harr] at h ⊢
      split
      · exact ⟨by simp, rfl, rfl, rfl⟩
      · split
        · exact ⟨hfailure, rfl, rfl, rfl⟩
        · next hpay =>
            split at h
            · next hcase =>
                have hown := hcase.resolve_left hpay
                rw [if_pos hown]
                exact ⟨hfailure, rfl, rfl, rfl⟩
            · cases h

/-- A message that fits into the empty buffer is all that the buffer holds. -/
theorem getData_message {c : Receiver} (h : r.delivered c = some m) (hempty : s.bufferDataLen = 0)
    (hfits : m.payload.length ≤ c.bufferSize) :
    m.payload ≠ [] ∧ ∃ s', s.getData c r = (s', some .success) ∧ s'.seen = s.seen ∧
      s'.ended = s.ended ∧ s'.lastReceivedSessionNo = m.sessionNo ∧
      s'.lastReceivedSeqNo = m.seqNo.toInt ∧ s'.bufferDataLen = m.payload.length ∧
      s'.buffer.take s'.bufferDataLen = m.payload := by
  unfold Round.delivered at h
  cases harr : r.arrival with
  | event e =>
      rw [harr] at h
      cases h
  | message m' =>
      simp only [harr] at h
      split at h
      · cases h
      · next hcase =>
          injection h with h
          subst h
          have hpay : m'.payload ≠ [] := fun hcon => hcase (Or.inl hcon)
          have hown : ¬ ((m'.srcIP = c.srcIP ∨ c.peerIface = false) ∧ r.failure ≠ .wouldBlock) :=
            fun hcon => hcase (Or.inr hcon)
          have hpos : 0 < m'.payload.length := List.length_pos_iff.mpr hpay
          refine ⟨hpay, ?_⟩
          unfold getData
          simp only [harr, hempty, Nat.sub_zero]
          rw [if_neg (by omega), if_neg hpay, if_neg hown, List.take_of_length_le hfits]
          refine ⟨_, rfl, rfl, rfl, rfl, rfl, ?_, ?_⟩
          · simp
          · simp

theorem round_ended {c : Receiver} (h : s.ended ≠ none) (r : Round) : s.round c r = s := by
  unfold round
  cases he : s.ended with
  | none => exact absurd he h
  | some e => rfl

/-- A round without a message from the peer hands nothing over. -/
theorem round_quiet {c : Receiver} (hopen : s.ended = none) (hdef : s.curSessionNoDefined = false)
    (hempty : s.bufferDataLen = 0) (h : r.delivered c = none) :
    (s.round c r).handed = s.handed ∧ ((s.round c r).ended = none → (s.round c r).seen = s.seen) := by
  obtain ⟨hevent, hseen, hlen, hended⟩ := getData_quiet (s := s) h
  unfold round
  rw [hopen]
  simp only
  generalize s.getData c r = result at hevent hseen hlen hended
  obtain ⟨t, event⟩ := result
  simp only at hevent hseen hlen hended
  have hfinish : ∀ e, (t.finish e).handed = s.handed ∧
      ((t.finish e).ended = none → (t.finish e).seen = s.seen) := by
    intro e
    refine ⟨(congrArg Prod.fst (finish_seen t e)).trans (congrArg Prod.fst hseen), ?_⟩
    intro _
    rw [finish_seen, hseen]
  cases event with
  | none => exact ⟨congrArg Prod.fst hseen, fun _ => hseen⟩
  | some e =>
      simp only
      split
      · exact hfinish e
      · split
        · exact hfinish .error
        · have htdef : t.curSessionNoDefined = false :=
            (congrArg (fun v => v.2.2.2) hseen).trans hdef
          -- whatever its number, nothing is there to be handed over
          rw [checkSessionNo_eq htdef]
          obtain ⟨hhanded, hend⟩ := checkSeqNo_empty (c := c)
            (s := { t with curSessionNo := t.lastReceivedSessionNo }) (hlen.trans hempty) r
            (fun hcon => hevent (congrArg some hcon))
          exact ⟨hhanded.trans (congrArg Prod.fst hseen), fun hcon => absurd hcon hend⟩

/-- What a round makes of a message from the peer: the sending side does not want it, and the
other one looks at its number. -/
theorem round_received {c : Receiver} (hopen : s.ended = none)
    (hdef : s.curSessionNoDefined = false) (hempty : s.bufferDataLen = 0)
    (h : r.delivered c = some m) (hfits : m.payload.length ≤ c.bufferSize) :
    ∃ t : Receiving, t.handed = s.handed ∧ t.curSeqNo = s.curSeqNo ∧
      t.curSessionNoDefined = false ∧ t.lastReceivedSessionNo = m.sessionNo ∧
      t.lastReceivedSeqNo = m.seqNo.toInt ∧ t.bufferDataLen ≠ 0 ∧
      t.buffer.take t.bufferDataLen = m.payload ∧
      s.round c r = if c.isSender then t.finish .error
        else { t with curSessionNo := t.lastReceivedSessionNo }.checkSeqNo c r .success := by
  obtain ⟨hpay, t, hget, hseen, hended, hsession, hlast, hlen, htake⟩ :=
    getData_message h hempty hfits
  have htdef : t.curSessionNoDefined = false := (congrArg (fun v => v.2.2.2) hseen).trans hdef
  have hfull : t.bufferDataLen ≠ 0 := by
    rw [hlen]
    exact fun hcon => hpay (List.eq_nil_of_length_eq_zero hcon)
  refine ⟨t, congrArg Prod.fst hseen, congrArg (fun v => v.2.1) hseen, htdef, hsession, hlast,
    hfull, htake, ?_⟩
  unfold round
  rw [hopen]
  simp only [hget]
  rw [if_neg (by decide), checkSessionNo_eq htdef]

/-- The message the reception waits for is handed over, unless this is the sending side. -/
theorem round_message {c : Receiver} (hopen : s.ended = none) (hdef : s.curSessionNoDefined = false)
    (hempty : s.bufferDataLen = 0) (hpos : 0 < s.curSeqNo) (h : r.delivered c = some m)
    (hfits : m.payload.length ≤ c.bufferSize) (hseq : m.seqNo.toInt = s.curSeqNo) :
    (c.isSender = true ∧ (s.round c r).handed = s.handed ∧ (s.round c r).ended = some .error) ∨
      (s.round c r).seen = (s.handed ++ [m.payload], s.curSeqNo + 1, m.sessionNo, false) := by
  obtain ⟨t, hhanded, hcur, htdef, hsession, hlast, hfull, htake, hround⟩ :=
    round_received hopen hdef hempty h hfits
  rw [hround]
  cases hsender : c.isSender with
  | true =>
      rw [if_pos rfl]
      exact Or.inl ⟨rfl, (congrArg Prod.fst (finish_seen t .error)).trans hhanded,
        finish_ended t .error⟩
  | false =>
      rw [if_neg Bool.false_ne_true]
      refine Or.inr ?_
      rw [checkSeqNo]
      simp only
      rw [if_neg (by omega), if_pos (by omega), put_seen (by exact hfull)]
      simp only [hhanded, htake, hcur, hsession, htdef]

/-- A message from behind a gap ends the reception. -/
theorem round_gap {c : Receiver} (hopen : s.ended = none) (hdef : s.curSessionNoDefined = false)
    (hempty : s.bufferDataLen = 0) (hpos : 0 < s.curSeqNo) (h : r.delivered c = some m)
    (hfits : m.payload.length ≤ c.bufferSize) (hseq : s.curSeqNo < m.seqNo.toInt) :
    (s.round c r).handed = s.handed ∧ (s.round c r).ended = some .error := by
  obtain ⟨t, hhanded, hcur, htdef, hsession, hlast, hfull, htake, hround⟩ :=
    round_received hopen hdef hempty h hfits
  rw [hround]
  cases hsender : c.isSender with
  | true =>
      rw [if_pos rfl]
      exact ⟨(congrArg Prod.fst (finish_seen t .error)).trans hhanded, finish_ended t .error⟩
  | false =>
      rw [if_neg Bool.false_ne_true, checkSeqNo]
      simp only
      rw [if_neg (by omega), if_neg (by omega), if_neg (by omega)]
      exact ⟨(congrArg Prod.fst (finish_seen _ .error)).trans hhanded, finish_ended _ .error⟩

end Receiving

/-! ## Whole receptions -/

section

variable {c : Receiver} {b : Before}
variable {pre : List Round}

/-- The messages of some rounds. -/
def messages (c : Receiver) (rounds : List Round) : List Message :=
  rounds.filterMap (Round.delivered c)

/-- The rounds of a reception are all in order. -/
def Orderly (c : Receiver) (b : Before) (rounds : List Round) : Prop :=
  Guarded (fun s r => some (Receiving.round c s r)) (RoundOk c)
    (Receiving.start b.buffer b.session b.lastSession b.lastSeq) rounds

theorem receiveDataObject_snoc (rounds : List Round) (r : Round) :
    receiveDataObject c b (rounds ++ [r]) = (receiveDataObject c b rounds).round c r := by
  unfold receiveDataObject
  rw [List.foldl_append]
  rfl

/-- Each round of an orderly reception is in order after the rounds before it. -/
theorem Orderly.at {post : List Round} {r : Round} (h : Orderly c b (pre ++ r :: post)) :
    RoundOk c (receiveDataObject c b pre) r :=
  (guarded_iff _ _ _ _).mp h pre r post rfl _ (run_total (Receiving.round c) pre _)

theorem Orderly.before {post : List Round} (h : Orderly c b (pre ++ post)) : Orderly c b pre :=
  ((guarded_append _ _ pre post _).mp h).1

theorem firstSession_append (post : List Round) (h : messages c pre ≠ []) :
    firstSession c (pre ++ post) = firstSession c pre := by
  unfold firstSession
  rw [List.filterMap_append]
  unfold messages at h
  cases hm : pre.filterMap (Round.delivered c) with
  | nil => exact absurd hm h
  | cons m rest => rfl

/--
What an orderly reception keeps. `used` is what was handed over; while the reception goes
on these are all messages, and all of the session that was noted last.
-/
structure ReceptionInv (c : Receiver) (rounds : List Round) (s : Receiving)
    (used : List Message) : Prop where
  sublist : used.Sublist (messages c rounds)
  session : ∀ m ∈ used, firstSession c rounds = some m.sessionNo
  numbers : used.map (fun m => m.seqNo.toInt) = numbersTo used.length
  handed : s.handed = used.map (fun m => m.payload)
  going : s.ended = none → used = messages c rounds ∧
    s.curSeqNo = (used.length : Int) + 1 ∧ s.curSessionNoDefined = false ∧
    ∀ m ∈ used, m.sessionNo = s.curSessionNo

theorem receptionInv_start (b : Before) :
    ReceptionInv c [] (Receiving.start b.buffer b.session b.lastSession b.lastSeq) [] where
  sublist := List.Sublist.slnil
  session := by simp
  numbers := rfl
  handed := rfl
  going := fun _ => ⟨rfl, rfl, rfl, by simp⟩

/-- A round that hands nothing over, and ends the reception or brings no message. -/
theorem ReceptionInv.keep {rounds : List Round} {s t : Receiving} {used : List Message}
    (h : ReceptionInv c rounds s used) (r : Round) (hhanded : t.handed = s.handed)
    (hgoing : t.ended = none → s.ended = none ∧ t.seen = s.seen ∧ r.delivered c = none) :
    ReceptionInv c (rounds ++ [r]) t used := by
  refine ⟨?_, ?_, h.numbers, hhanded.trans h.handed, ?_⟩
  · unfold messages
    rw [List.filterMap_append]
    exact h.sublist.trans (List.sublist_append_left _ _)
  · intro m hm
    have hne : messages c rounds ≠ [] := List.ne_nil_of_mem (h.sublist.subset hm)
    rw [firstSession_append [r] hne]
    exact h.session m hm
  · intro hopen
    obtain ⟨hs, hseen, hquiet⟩ := hgoing hopen
    obtain ⟨hused, hcur, hdef, hsessions⟩ := h.going hs
    have hcur' : t.curSeqNo = s.curSeqNo := congrArg (fun v => v.2.1) hseen
    have hsession' : t.curSessionNo = s.curSessionNo := congrArg (fun v => v.2.2.1) hseen
    have hdef' : t.curSessionNoDefined = s.curSessionNoDefined := congrArg (fun v => v.2.2.2) hseen
    rw [hcur', hsession', hdef']
    refine ⟨?_, hcur, hdef, hsessions⟩
    rw [hused]
    unfold messages
    rw [List.filterMap_append]
    simp [hquiet]

/-- **A round that is in order keeps the account.** -/
theorem receptionInv_round {rounds : List Round} {s : Receiving} {used : List Message}
    (h : ReceptionInv c rounds s used) {r : Round} (hok : RoundOk c s r) :
    ∃ used', ReceptionInv c (rounds ++ [r]) (s.round c r) used' := by
  by_cases hopen : s.ended = none
  · obtain ⟨hempty, hmessage⟩ := hok hopen
    obtain ⟨hused, hcur, hdef, hsessions⟩ := h.going hopen
    cases hdel : r.delivered c with
    | none =>
        obtain ⟨hhanded, hseen⟩ := Receiving.round_quiet hopen hdef hempty hdel
        exact ⟨used, h.keep r hhanded (fun ho => ⟨hopen, hseen ho, hdel⟩)⟩
    | some m =>
        obtain ⟨hfits, _, hle, hsession⟩ := hmessage m hdel
        rcases lt_or_eq_of_le hle with hgap | hseq
        · obtain ⟨hhanded, hend⟩ := Receiving.round_gap hopen hdef hempty (by omega) hdel hfits hgap
          exact ⟨used, h.keep r hhanded (fun ho => by rw [hend] at ho; cases ho)⟩
        · rcases Receiving.round_message hopen hdef hempty (by omega) hdel hfits hseq.symm with
            ⟨_, hhanded, hend⟩ | hseen
          · exact ⟨used, h.keep r hhanded (fun ho => by rw [hend] at ho; cases ho)⟩
          · -- the message is the next one of the session
            have hhanded : (s.round c r).handed = s.handed ++ [m.payload] := congrArg Prod.fst hseen
            have hnext : (s.round c r).curSeqNo = s.curSeqNo + 1 := congrArg (fun v => v.2.1) hseen
            have hmessages : messages c (rounds ++ [r]) = used ++ [m] := by
              unfold messages
              rw [List.filterMap_append, hused]
              simp [hdel, messages]
            have hsame : ∀ x ∈ used, x.sessionNo = m.sessionNo := by
              intro x hx
              rcases hsession with hone | heq | hcon
              · have hpos := List.length_pos_of_mem hx
                omega
              · rw [hsessions x hx, heq]
              · omega
            have hfirst : firstSession c (rounds ++ [r]) = some m.sessionNo := by
              unfold firstSession
              change ((messages c (rounds ++ [r])).head?).map _ = _
              rw [hmessages]
              cases hu : used with
              | nil => rfl
              | cons x rest =>
                  simp only [List.cons_append, List.head?_cons, Option.map_some]
                  rw [hsame x (by rw [hu]; exact List.mem_cons_self)]
            have hall : ∀ x ∈ used ++ [m], x.sessionNo = m.sessionNo := by
              intro x hx
              rcases List.mem_append.mp hx with hx | hx
              · exact hsame x hx
              · rw [List.mem_singleton.mp hx]
            refine ⟨used ++ [m], ?_, ?_, ?_, ?_, ?_⟩
            · rw [hmessages]
            · intro x hx
              rw [hfirst, hall x hx]
            · rw [List.map_append, h.numbers, List.length_append, List.length_singleton, numbersTo,
                numbersTo, List.range_succ, List.map_append]
              simp only [List.map_cons, List.map_nil]
              rw [← hseq, hcur]
            · rw [hhanded, List.map_append, h.handed]
              rfl
            · intro _
              refine ⟨hmessages.symm, ?_, congrArg (fun v => v.2.2.2) hseen, ?_⟩
              · rw [hnext, hcur, List.length_append, List.length_singleton]
                push_cast
                rfl
              · intro x hx
                rw [hall x hx]
                exact (congrArg (fun v => v.2.2.1) hseen).symm
  · rw [Receiving.round_ended hopen]
    exact ⟨used, h.keep r rfl (fun ho => absurd ho hopen)⟩

/-- The account of a whole reception. -/
theorem receptionInv_receive : ∀ (rounds : List Round), Orderly c b rounds →
    ∃ used, ReceptionInv c rounds (receiveDataObject c b rounds) used := by
  intro rounds
  induction rounds using List.reverseRecOn with
  | nil =>
      intro _
      exact ⟨[], receptionInv_start b⟩
  | append_singleton rounds r ih =>
      intro horder
      obtain ⟨used, hinv⟩ := ih horder.before
      rw [receiveDataObject_snoc]
      exact receptionInv_round hinv horder.at

/--
**Session integrity.** After every round of a reception whose rounds are all in order,
`putData` was handed the messages 1, 2, 3 and so on of one session, each once; what was
seen before changed nothing, and a gap or another session ended it with an error.
-/
theorem session_integrity (c : Receiver) (b : Before) (rounds : List Round)
    (horder : Orderly c b rounds) (pre : List Round) (hpre : pre.IsPrefix rounds) :
    SessionIntegrity c b pre := by
  obtain ⟨rest, rfl⟩ := hpre
  obtain ⟨used, hinv⟩ := receptionInv_receive pre horder.before
  refine ⟨⟨used, hinv.sublist, hinv.session, hinv.numbers, hinv.handed, ?_⟩, ?_, ?_⟩
  · intro hopen
    exact (hinv.going hopen).2.1
  · intro first r post m heq hdel _ _ hold
    rw [receiveDataObject_snoc]
    subst heq
    by_cases hopen : (receiveDataObject c b first).ended = none
    · have hok := horder.before.at hopen
      have hle := (hok.2 m hdel).2.2.1
      omega
    · exact Receiving.round_ended hopen r
  · intro first r post m heq hdel hopen hstray
    subst heq
    obtain ⟨used', hinv'⟩ := receptionInv_receive first horder.before.before
    obtain ⟨hused, hcur, hdef, hsessions⟩ := hinv'.going hopen
    obtain ⟨hempty, hmessage⟩ := horder.before.at hopen
    obtain ⟨hfits, _, hle, hsession⟩ := hmessage m hdel
    -- without a gap the message is of the session that was begun, or begins one
    have hgap : (receiveDataObject c b first).curSeqNo < m.seqNo.toInt := by
      rcases hstray with hother | hgap
      · by_contra hno
        refine hother ?_
        cases hu : used' with
        | nil =>
            unfold firstSession
            rw [List.filterMap_append]
            have hnil : first.filterMap (Round.delivered c) = [] := hused.symm.trans hu
            rw [hnil]
            simp [hdel]
        | cons x xs =>
            have hx : x ∈ used' := by
              rw [hu]
              exact List.mem_cons_self
            rw [firstSession_append _ (by rw [← hused, hu]; simp), hinv'.session x hx]
            have hlen : 0 < used'.length := List.length_pos_of_mem hx
            rcases hsession with hone | heq | hcon
            · omega
            · rw [hsessions x hx, heq]
            · exact absurd hcon hno
      · exact hgap
    rw [receiveDataObject_snoc]
    exact (Receiving.round_gap hopen hdef hempty (by omega) hdel hfits hgap).2

end

/-! ## A small reception -/

/-- A session number. -/
def sessionOne : DataObjectId := ⟨List.replicate 20 1, by decide⟩

/-- Eight bytes of buffer, and a parser that accepts nothing. -/
def smallReceiver : Receiver where
  bufferSize := 8
  srcIP := 1
  isSender := false
  peerIface := true
  parse := fun _ => none
  path := []
  has := fun _ => false
  hasFragmentationParent := fun _ => false
  hasNetworkCodingParent := fun _ => false

/-- A protocol that has not received anything. -/
def smallBefore : Before := ⟨List.replicate 8 0, sessionOne, sessionOne, 0⟩

/-- A part of a header as a message of the session. -/
def part (seqNo : Int32) (text : String) : Round :=
  ⟨.message ⟨sessionOne, seqNo, 2, lit text⟩, .other, .success⟩

/-- Two parts in order. -/
theorem session_integrity_two_parts :
    SessionIntegrity smallReceiver smallBefore [part 1 "<?xml", part 2 " >"] := by
  refine session_integrity smallReceiver smallBefore [part 1 "<?xml", part 2 " >"] ?_ _
    List.prefix_rfl
  refine ⟨fun _ => ⟨rfl, ?_⟩, ?_⟩
  · intro m hm
    injection hm with hm
    subst hm
    exact ⟨by decide, by decide, by decide, Or.inl rfl⟩
  · intro s hs
    injection hs with hs
    subst hs
    refine ⟨fun _ => ⟨by decide, ?_⟩, fun _ _ => trivial⟩
    intro m hm
    injection hm with hm
    subst hm
    exact ⟨by decide, by decide, by decide, Or.inr (Or.inl rfl)⟩

/-- A part sent twice, as with redundancy: what follows it is garbled. -/
theorem duplicate_garbles :
    ¬ SessionIntegrity smallReceiver smallBefore
      [part 1 "<?xml", part 1 "<?xml", part 2 " >"] := by
  intro h
  obtain ⟨used, hsub, _, _, hhanded, _⟩ := h.stream
  have hgarbled : (receiveDataObject smallReceiver smallBefore
      [part 1 "<?xml", part 1 "<?xml", part 2 " >"]).handed =
        [lit "<?xml", [32, 62, 0, 109, 108, 0, 0]] := by
    decide
  rw [hgarbled] at hhanded
  have hmem : [32, 62, 0, 109, 108, 0, 0] ∈ used.map (fun m => m.payload) := by
    rw [← hhanded]
    exact List.mem_cons_of_mem _ List.mem_cons_self
  obtain ⟨m, hm, hpay⟩ := List.mem_map.mp hmem
  have hin := List.mem_map_of_mem (f := fun m : Message => m.payload) (hsub.subset hm)
  rw [hpay] at hin
  exact absurd hin (by decide)

end Encoders.Protocol
