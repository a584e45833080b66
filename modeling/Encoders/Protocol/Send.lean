import Encoders.Data.Retrieve
import Encoders.Protocol.Datagram

/-!
# Sending a data object

`Protocol::sendDataObjectNow` over `ProtocolUDPGeneric`. The retriever fills the buffer with the
header and then with the payload; a chunk goes out as a message with the object's id as the
session and the next sequence number, in as many copies as the configuration asks for. After the
header the sender waits for ACCEPT or REJECT, after the payload for ACK.

A chunk that would block is tried again, under the same number. The wait for a control message
also tries again, and ignores what the socket calls an error of the sequence number.

What goes out is `sends_in_order`: whatever the socket and the peer do, the chunks are numbered
1, 2, 3 and so on, they are the object's bytes without a gap, none has both header and payload
in it, and no payload leaves before an ACCEPT of this session came in.
-/

namespace Encoders.Protocol

open Encoders.Lib Encoders.Data

/-- The errors that both loops turn into `PROT_EVENT_ERROR_FATAL`. -/
def ProtocolError.fatal : ProtocolError → Bool
  | .badHandle | .notConnected | .notASocket | .connectionReset => true
  | _ => false

/-! ## Control messages -/

/-- `ctrlmsg_type_t`, as far as a receiver sends it. -/
def ControlType.code : ControlType → UInt32
  | .ack => 5
  | .accept => 6
  | .reject => 7
  | .rejectParentDataObject => 9

/-- `CTRLMSG_TYPE_TERMINATE` -/
def terminateCode : UInt32 := 8

/-- `sizeof(struct ctrlmsg)` -/
def ctrlmsgSize : Nat := 24

/-- The type in the bytes of a `struct ctrlmsg`; its `dobj_id` is not read. -/
def typeOf (bytes : List UInt8) : UInt32 := UInt32.ofNat (littleEndian (slice bytes 0 4))

/-! ## The sender -/

/-- The object and the protocol's own data. -/
structure Sender where
  bufferSize : Nat
  srcIP : UInt64
  peerIface : Bool
  isApplication : Bool
  redundancy : Int
  maxBlockingTries : Int
  id : DataObjectId

/-- How a call of `sendData` ends. -/
inductive SendResult where
  | success
  | error
  | errorFatal
deriving DecidableEq

/-- A pass of the loop over a chunk: how each copy fares, and the error of the one that fails. -/
structure SendRound where
  results : Nat → SendResult
  error : ProtocolError

/-- A pass of the loop that waits for a control message; a message of no bytes is a failed `recv`. -/
structure ControlRound where
  arrival : Arrival
  error : ProtocolError

/-- Where `sendDataObjectNow` is: in the loop over a chunk, or waiting for one of two answers. -/
inductive Stage where
  | sending
  | answer
  | ack
deriving DecidableEq

/--
The variables of `sendDataObjectNow`: `data` is what is left of the chunk in the buffer. Beside
them are the messages that went out, the chunks that were counted as sent, and whether an ACCEPT
came in.
-/
structure Sending where
  retriever : Retriever
  data : List UInt8
  hasSentHeader : Bool
  curSeqNo : Int
  blockCount : Int
  controlBlockCount : Int
  lastReceivedSessionNo : DataObjectId
  stage : Stage
  sent : List Message
  frames : List (List UInt8)
  accepted : Bool
  ended : Option ProtocolEvent

namespace Sending

/-- The message with the chunk, after `setSessionNo` and `setSeqNo`. -/
def message (c : Sender) (s : Sending) : Message where
  sessionNo := c.id
  seqNo := Int32.ofInt s.curSeqNo
  srcIP := c.srcIP
  payload := s.data

/-- `receiveControlMessage` is called. -/
def await (s : Sending) (stage : Stage) : Sending :=
  { s with stage := stage, controlBlockCount := 0 }

/-- The top of the outer loop: another chunk, or the end of the header, or of the object. -/
def next (c : Sender) (s : Sending) : Sending :=
  let chunk := s.retriever.retrieve c.bufferSize (!s.hasSentHeader)
  let s := { s with retriever := chunk.state, data := chunk.data, stage := .sending }
  if 0 < chunk.count then s
  else if s.hasSentHeader then s.await .ack
  else if c.isApplication then { s with ended := some .success }
  else { s with hasSentHeader := true }.await .answer

/-- Before the first chunk. -/
def start (c : Sender) (r : Retriever) (lastSession : DataObjectId) : Sending :=
  next c {
    retriever := r
    data := []
    hasSentHeader := false
    curSeqNo := 1
    blockCount := 0
    controlBlockCount := 0
    lastReceivedSessionNo := lastSession
    stage := .sending
    sent := []
    frames := []
    accepted := false
    ended := none }

/-- The loop over the copies: how many went out, and what the last call of `sendData` said. -/
def sendCopies : List SendResult → Nat → ProtocolEvent → Nat × ProtocolEvent
  | [], n, e => (n, e)
  | .success :: results, n, _ => sendCopies results (n + 1) .success
  | .error :: _, n, _ => (n, .error)
  | .errorFatal :: _, n, _ => (n, .errorFatal)

/-- A pass of the loop over a chunk. -/
def sendRound (c : Sender) (s : Sending) (r : SendRound) : Sending :=
  let copies := (List.range (c.redundancy + 1).toNat).map r.results
  let (n, e) := sendCopies copies 0 .writeable
  let s := { s with sent := s.sent ++ List.replicate n (s.message c) }
  if e = .error then
    if r.error.fatal then { s with ended := some .errorFatal }
    else if r.error = .wouldBlock then
      let tried := { s with blockCount := s.blockCount + 1 }
      if c.maxBlockingTries < s.blockCount then { tried with ended := some .error } else tried
    else { s with ended := some .error }
  else
    let s := { s with blockCount := 0, curSeqNo := s.curSeqNo + 1 }
    if e = .success then { s with frames := s.frames ++ [s.data] }.next c
    else { s with ended := some e }

/-- What is done when `receiveData` fails in `receiveControlMessage`. -/
def controlFailed (c : Sender) (s : Sending) (e : ProtocolError) :
    Sending × Option (Except ProtocolEvent UInt32) :=
  if e.fatal then (s, some (.error .errorFatal))
  else if e = .seqNum then (s, none)
  else if e = .wouldBlock then
    let tried := { s with controlBlockCount := s.controlBlockCount + 1 }
    if c.maxBlockingTries < s.controlBlockCount then (tried, some (.error .error))
    else (tried, none)
  else (s, some (.error .error))

/-- A pass of the loop in `receiveControlMessage`: it tries again, fails, or has a type. -/
def receiveControlMessage (c : Sender) (s : Sending) (r : ControlRound) :
    Sending × Option (Except ProtocolEvent UInt32) :=
  match r.arrival with
  | .event e => if e = .success then (s, none) else (s, some (.error e))
  | .message m =>
      if m.payload = [] then s.controlFailed c r.error
      else
        let s := { s with lastReceivedSessionNo := m.sessionNo }
        if m.srcIP = c.srcIP ∨ c.peerIface = false then s.controlFailed c r.error
        else if m.payload.length < ctrlmsgSize then (s, some (.error .error))
        else (s, some (.ok (typeOf m.payload)))

/-- After the header: what comes in decides whether there is more to send. -/
def answerRound (c : Sender) (s : Sending) (r : ControlRound) : Sending :=
  match s.receiveControlMessage c r with
  | (s, none) => s
  | (s, some (.error e)) => { s with ended := some e }
  | (s, some (.ok type)) =>
      if s.lastReceivedSessionNo ≠ c.id then { s with ended := some .error }
      else if type = ControlType.accept.code then { s with accepted := true }.next c
      else if type = ControlType.reject.code then { s with ended := some .reject }
      else if type = terminateCode then { s with ended := some .terminate }
      else if type = ControlType.rejectParentDataObject.code then
        { s with ended := some .rejectParentDataObject }
      -- any other type: the loop ends because `len` is zero, and nothing has failed
      else s.await .ack

/-- After the payload. -/
def ackRound (c : Sender) (s : Sending) (r : ControlRound) : Sending :=
  match s.receiveControlMessage c r with
  | (s, none) => s
  | (s, some (.error e)) => { s with ended := some e }
  | (s, some (.ok type)) =>
      if s.lastReceivedSessionNo ≠ c.id then { s with ended := some .error }
      else if type = ControlType.ack.code then { s with ended := some .success }
      else { s with ended := some .error }

/-- What happens to the sender. -/
inductive Event where
  | send (r : SendRound)
  | control (r : ControlRound)

/-- One step of `sendDataObjectNow`; what it is not waiting for it does not see. -/
def step (c : Sender) (s : Sending) (e : Event) : Sending :=
  match s.ended, s.stage, e with
  | none, .sending, .send r => s.sendRound c r
  | none, .answer, .control r => s.answerRound c r
  | none, .ack, .control r => s.ackRound c r
  | _, _, _ => s

end Sending

/-- `sendDataObjectNow` after some steps. -/
def sendDataObjectNow (c : Sender) (r : Retriever) (lastSession : DataObjectId)
    (events : List Sending.Event) : Sending :=
  events.foldl (Sending.step c) (Sending.start c r lastSession)

/-! ## What goes out -/

/-- A chunk as a message, counted from zero. -/
def Sender.frame (c : Sender) (i : Nat) (chunk : List UInt8) : Message :=
  ⟨c.id, Int32.ofInt ((i : Int) + 1), c.srcIP, chunk⟩

/-- The chunks as messages, one each. -/
def Sender.numbered (c : Sender) (chunks : List (List UInt8)) : List Message :=
  chunks.mapIdx c.frame

/-- Each message so many times. -/
def copies (counts : List Nat) (ms : List Message) : List Message :=
  (List.zipWith List.replicate counts ms).flatten

/-- The chunks are a beginning of the object, and header and payload are apart. -/
def Cut (header payload : List UInt8) (chunks : List (List UInt8)) : Prop :=
  chunks.flatten <+: header ∨ ∃ before after, chunks = before ++ after ∧
    before.flatten = header ∧ after.flatten <+: payload

/--
What the sender has done. The last chunk is the one it is about to send, and some copies of it may
be out already.
-/
structure SendsInOrder (c : Sender) (header payload : List UInt8) (s : Sending) : Prop where
  sent : ∃ counts n, counts.length = s.frames.length ∧
    (∀ k : Nat, k ∈ counts → c.redundancy + 1 ≤ k) ∧
    s.sent = copies counts (c.numbered s.frames) ++
      List.replicate n (c.frame s.frames.length s.data) ∧ (s.data = [] → n = 0)
  fits : ∀ chunk ∈ s.frames, chunk ≠ [] ∧ chunk.length ≤ c.bufferSize
  cut : Cut header payload (s.frames ++ [s.data])
  gated : s.accepted = false → (s.frames ++ [s.data]).flatten <+: header
  success : s.ended = some .success → if c.isApplication then s.frames.flatten = header
    else s.frames.flatten = if s.accepted then header ++ payload else header

/-! ## The retriever under the sender -/

/-- So much of the header is left in the retriever, and the payload behind it. -/
def HeaderLeft (r : Retriever) (left payload : List UInt8) : Prop :=
  r.InHeader ∧ r.headerBytesLeft = left.length ∧ r.headerBytes left.length = left ∧
    ({ r with headerBytesLeft := 0 } : Retriever).Remaining payload

/-- A call for the header: as much as fits, and when nothing is left the payload is next. -/
theorem retrieve_headerLeft {r : Retriever} {left payload : List UInt8}
    (h : HeaderLeft r left payload) {len : Nat} (hlen : 0 < len) :
    (r.retrieve len true).data = left.take len ∧
      (r.retrieve len true).count = (left.take len).length ∧
      HeaderLeft (r.retrieve len true).state (left.drop len) payload ∧
      (left = [] → (r.retrieve len true).state.Remaining payload) := by
  obtain ⟨hin, hleft, hbytes, hremaining⟩ := h
  rw [Retriever.retrieve, if_neg (Nat.ne_of_gt hlen), hleft]
  by_cases hfull : left.length ≠ 0 ∧ len ≤ left.length
  · -- the header fills the buffer
    rw [if_pos hfull]
    have htake : r.headerBytes len = left.take len := by
      rw [← hbytes, Retriever.headerBytes, Retriever.headerBytes, slice, slice, List.take_take,
        Nat.min_eq_left hfull.2]
    refine ⟨htake, ?_, ⟨⟨?_, hin.2⟩, ?_, ?_, hremaining⟩, ?_⟩
    · rw [List.length_take, Nat.min_eq_left hfull.2]
    · exact (Nat.sub_le _ _).trans (hleft ▸ hin.1)
    · rw [List.length_drop]
    · -- what is left starts where the call ended
      have hstart : r.headerLen - (left.length - len) = r.headerLen - left.length + len := by
        have hle := hin.1
        omega
      have hslice : (r.header.drop (r.headerLen - left.length)).take left.length = left := by
        rw [← hleft] at hbytes ⊢
        exact hbytes
      have hdrop := congrArg (List.drop len) hslice
      rw [List.drop_take, List.drop_drop] at hdrop
      rw [List.length_drop, Retriever.headerBytes]
      dsimp only
      rw [hstart, slice]
      exact hdrop
    · rintro rfl
      exact absurd rfl hfull.1
  · rw [if_neg hfull, if_pos rfl]
    have hshort : left.length ≤ len := by
      by_contra hcon
      exact hfull ⟨by omega, by omega⟩
    have htake : left.take len = left := List.take_of_length_le hshort
    have hdrop : left.drop len = [] := List.drop_eq_nil_iff.mpr hshort
    refine ⟨by rw [htake]; exact hbytes, by rw [htake], ⟨⟨Nat.zero_le _, hin.2⟩, ?_, ?_, hremaining⟩,
      fun _ => hremaining⟩
    · rw [hdrop, List.length_nil]
    · rw [hdrop, List.length_nil, Retriever.headerBytes, slice, List.take_zero]

/-! ## Where the sender is -/

namespace Sending

variable {t : Sending}

/-- While the sender goes on: what is out, what is in the buffer, and what is still to come. -/
inductive Place (c : Sender) (header payload : List UInt8) (s : Sending) : Prop where
  | header (left : List UInt8) (stage : s.stage = .sending) (done : s.hasSentHeader = false)
      (accepted : s.accepted = false) (pending : s.data ≠ [])
      (object : s.frames.flatten ++ s.data ++ left = header)
      (left : HeaderLeft s.retriever left payload)
  | answer (stage : s.stage = .answer) (done : s.hasSentHeader = true)
      (accepted : s.accepted = false) (empty : s.data = []) (object : s.frames.flatten = header)
      (left : s.retriever.Remaining payload) (node : c.isApplication = false)
  | payload (before after : List (List UInt8)) (left : List UInt8) (stage : s.stage = .sending)
      (done : s.hasSentHeader = true) (accepted : s.accepted = true) (pending : s.data ≠ [])
      (frames : s.frames = before ++ after) (header : before.flatten = header)
      (object : after.flatten ++ s.data ++ left = payload) (left : s.retriever.Remaining left)
      (node : c.isApplication = false)
  | early (stage : s.stage = .ack) (accepted : s.accepted = false) (empty : s.data = [])
      (object : s.frames.flatten = header) (node : c.isApplication = false)
  | ack (before after : List (List UInt8)) (stage : s.stage = .ack) (accepted : s.accepted = true)
      (empty : s.data = []) (frames : s.frames = before ++ after) (header : before.flatten = header)
      (object : after.flatten = payload) (node : c.isApplication = false)

/-- The invariant: the account of what went out, and while the sender goes on its place. -/
structure Inv (c : Sender) (header payload : List UInt8) (s : Sending) : Prop where
  order : SendsInOrder c header payload s
  short : s.data.length ≤ c.bufferSize
  going : s.ended = none → s.curSeqNo = (s.frames.length : Int) + 1 ∧ Place c header payload s

variable {c : Sender} {header payload : List UInt8} {s : Sending}

/-- Every place says how the chunks are cut. -/
theorem Place.cut (h : Place c header payload s) : Cut header payload (s.frames ++ [s.data]) := by
  cases h with
  | header left _ _ _ _ hobject _ =>
      refine Or.inl ⟨left, ?_⟩
      rw [List.flatten_append, List.flatten_singleton, hobject]
  | answer _ _ _ hempty hobject _ _ =>
      refine Or.inl ⟨[], ?_⟩
      rw [List.append_nil, List.flatten_append, List.flatten_singleton, hempty, List.append_nil,
        hobject]
  | payload before after left _ _ _ _ hframes hheader hobject _ _ =>
      refine Or.inr ⟨before, after ++ [s.data], ?_, hheader, left, ?_⟩
      · rw [hframes, List.append_assoc]
      · rw [List.flatten_append, List.flatten_singleton, hobject]
  | early _ _ hempty hobject _ =>
      refine Or.inl ⟨[], ?_⟩
      rw [List.append_nil, List.flatten_append, List.flatten_singleton, hempty, List.append_nil,
        hobject]
  | ack before after _ _ hempty hframes hheader hobject _ =>
      refine Or.inr ⟨before, after ++ [s.data], ?_, hheader, [], ?_⟩
      · rw [hframes, List.append_assoc]
      · rw [List.append_nil, List.flatten_append, List.flatten_singleton, hempty, List.append_nil,
          hobject]

/-- And that no payload leaves before it was asked for. -/
theorem Place.gated (h : Place c header payload s) (haccepted : s.accepted = false) :
    (s.frames ++ [s.data]).flatten <+: header := by
  rw [List.flatten_append, List.flatten_singleton]
  cases h with
  | header left _ _ _ _ hobject _ => exact ⟨left, hobject⟩
  | answer _ _ _ hempty hobject _ _ =>
      exact ⟨[], by rw [hempty, List.append_nil, List.append_nil, hobject]⟩
  | payload _ _ _ _ _ hcon _ _ _ _ _ _ =>
      rw [haccepted] at hcon
      cases hcon
  | early _ _ hempty hobject _ =>
      exact ⟨[], by rw [hempty, List.append_nil, List.append_nil, hobject]⟩
  | ack _ _ _ hcon _ _ _ _ _ =>
      rw [haccepted] at hcon
      cases hcon

/-- Between two chunks: what is counted is out, and nothing else is. -/
structure Settled (c : Sender) (s : Sending) : Prop where
  open_ : s.ended = none
  sent : ∃ counts, counts.length = s.frames.length ∧
    (∀ k : Nat, k ∈ counts → c.redundancy + 1 ≤ k) ∧ s.sent = copies counts (c.numbered s.frames)
  fits : ∀ chunk ∈ s.frames, chunk ≠ [] ∧ chunk.length ≤ c.bufferSize
  number : s.curSeqNo = (s.frames.length : Int) + 1

/-- A place that nothing was sent from yet. -/
theorem Settled.inv (hs : Settled c s) (hopen : t.ended = none) (hsent : t.sent = s.sent)
    (hframes : t.frames = s.frames) (hnumber : t.curSeqNo = s.curSeqNo)
    (hshort : t.data.length ≤ c.bufferSize) (hplace : Place c header payload t) :
    Inv c header payload t := by
  obtain ⟨counts, hlength, hcounts, hcopies⟩ := hs.sent
  refine ⟨⟨⟨counts, 0, ?_, hcounts, ?_, fun _ => rfl⟩, ?_, hplace.cut, hplace.gated, ?_⟩, hshort,
    fun _ => ⟨?_, hplace⟩⟩
  · rw [hframes, hlength]
  · rw [hsent, hcopies, hframes, List.replicate_zero, List.append_nil]
  · rw [hframes]
    exact hs.fits
  · intro hend
    rw [hopen] at hend
    cases hend
  · rw [hnumber, hframes, hs.number]

/-- The next chunk of the header, or what follows the header. -/
theorem next_header (hpos : 0 < c.bufferSize) (hs : Settled c s) (hdone : s.hasSentHeader = false)
    (haccepted : s.accepted = false) {left : List UInt8} (hleft : HeaderLeft s.retriever left payload)
    (hobject : s.frames.flatten ++ left = header) : Inv c header payload (s.next c) := by
  obtain ⟨hdata, hcount, hstate, hrest⟩ := retrieve_headerLeft hleft hpos
  unfold next
  rw [hdone, Bool.not_false]
  simp only [hcount, hdata]
  have hshort : (left.take c.bufferSize).length ≤ c.bufferSize := List.length_take_le _ _
  -- the header is through: an application gets the data at once, any other peer is asked
  by_cases hempty : left = []
  · subst hempty
    rw [List.append_nil] at hobject
    rw [List.take_nil, List.length_nil, if_neg (Nat.lt_irrefl 0), if_neg Bool.false_ne_true]
    have hwhole : (s.frames ++ [[]]).flatten <+: header := by
      refine ⟨[], ?_⟩
      rw [List.flatten_append, hobject, List.flatten_singleton, List.append_nil, List.append_nil]
    cases hnode : c.isApplication with
    | true =>
        rw [if_pos rfl]
        obtain ⟨counts, hlength, hcounts, hcopies⟩ := hs.sent
        refine ⟨⟨⟨counts, 0, hlength, hcounts, ?_, fun _ => rfl⟩, hs.fits, ?_, ?_, ?_⟩,
          Nat.zero_le _, ?_⟩
        · rw [List.replicate_zero, List.append_nil]
          exact hcopies
        · exact Or.inl hwhole
        · exact fun _ => hwhole
        · intro _
          rw [if_pos hnode]
          exact hobject
        · intro hcon
          cases hcon
    | false =>
        rw [if_neg Bool.false_ne_true]
        exact hs.inv hs.open_ rfl rfl rfl (Nat.zero_le _)
          (Place.answer rfl rfl haccepted rfl hobject (hrest rfl) hnode)
  · have hsome : 0 < (left.take c.bufferSize).length := by
      have := List.length_pos_of_ne_nil hempty
      rw [List.length_take]
      omega
    rw [if_pos hsome]
    refine hs.inv hs.open_ rfl rfl rfl hshort (Place.header (left.drop c.bufferSize) rfl rfl
      haccepted (List.ne_nil_of_length_pos hsome) ?_ hstate)
    rw [List.append_assoc, List.take_append_drop]
    exact hobject

/-- The next chunk of the payload, or what follows it. -/
theorem next_payload (hpos : 0 < c.bufferSize) (hs : Settled c s) (hdone : s.hasSentHeader = true)
    (haccepted : s.accepted = true) (hnode : c.isApplication = false)
    {before after : List (List UInt8)} {left : List UInt8} (hleft : s.retriever.Remaining left)
    (hframes : s.frames = before ++ after) (hheader : before.flatten = header)
    (hobject : after.flatten ++ left = payload) : Inv c header payload (s.next c) := by
  obtain ⟨hdata, hcount, hstate⟩ := Retriever.retrieve_remaining hleft hpos
  unfold next
  rw [hdone, Bool.not_true]
  simp only [hcount, hdata]
  have hshort : (left.take c.bufferSize).length ≤ c.bufferSize := List.length_take_le _ _
  by_cases hempty : left = []
  · subst hempty
    rw [List.append_nil] at hobject
    rw [List.take_nil, List.length_nil, if_neg (Nat.lt_irrefl 0), if_pos trivial]
    exact hs.inv hs.open_ rfl rfl rfl (Nat.zero_le _)
      (Place.ack before after rfl haccepted rfl hframes hheader hobject hnode)
  · have hsome : 0 < (left.take c.bufferSize).length := by
      have := List.length_pos_of_ne_nil hempty
      rw [List.length_take]
      omega
    rw [if_pos hsome]
    refine hs.inv hs.open_ rfl rfl rfl hshort (Place.payload before after (left.drop c.bufferSize)
      rfl rfl haccepted (List.ne_nil_of_length_pos hsome) hframes hheader ?_ hstate hnode)
    rw [List.append_assoc, List.take_append_drop]
    exact hobject

/-! ## One round -/

/-- All copies are out if the last call of `sendData` succeeded. -/
theorem sendCopies_success : ∀ (results : List SendResult) (n : Nat) (e : ProtocolEvent),
    (sendCopies results n e).2 = .success → (sendCopies results n e).1 = n + results.length
  | [], _, _, _ => rfl
  | .success :: results, n, _, h => by
      rw [sendCopies] at h ⊢
      rw [sendCopies_success results (n + 1) .success h, List.length_cons]
      omega
  | .error :: _, _, _, h => by cases h
  | .errorFatal :: _, _, _, h => by cases h

/-- The copies of a round in which none failed. -/
theorem le_of_sendCopies (c : Sender) (r : SendRound) {n : Nat}
    (h : sendCopies ((List.range (c.redundancy + 1).toNat).map r.results) 0 .writeable =
      (n, .success)) : c.redundancy + 1 ≤ n := by
  have hall := sendCopies_success ((List.range (c.redundancy + 1).toNat).map r.results) 0 .writeable
    (by rw [h])
  rw [h, List.length_map, List.length_range] at hall
  omega

/-- One more message with its copies. -/
theorem copies_snoc {counts : List Nat} {ms : List Message} (h : counts.length = ms.length)
    (k : Nat) (m : Message) : copies (counts ++ [k]) (ms ++ [m]) =
      copies counts ms ++ List.replicate k m := by
  unfold copies
  rw [List.zipWith_append h, List.flatten_append]
  simp

theorem numbered_snoc (c : Sender) (chunks : List (List UInt8)) (chunk : List UInt8) :
    c.numbered (chunks ++ [chunk]) = c.numbered chunks ++ [c.frame chunks.length chunk] := by
  unfold Sender.numbered
  rw [List.mapIdx_append]
  simp

theorem length_numbered (c : Sender) (chunks : List (List UInt8)) :
    (c.numbered chunks).length = chunks.length := List.length_mapIdx

/-- More copies of the chunk in the buffer, and nothing else but counters: the account holds. -/
theorem sendsInOrder_more (h : SendsInOrder c header payload s) (n : Nat) (hn : s.data = [] → n = 0)
    (hsent : t.sent = s.sent ++ List.replicate n (c.frame s.frames.length s.data))
    (hframes : t.frames = s.frames) (hdata : t.data = s.data) (haccepted : t.accepted = s.accepted)
    (hend : t.ended ≠ some .success) : SendsInOrder c header payload t := by
  obtain ⟨counts, n', hlength, hcounts, hcopies, hn'⟩ := h.sent
  refine ⟨⟨counts, n' + n, ?_, hcounts, ?_, ?_⟩, ?_, ?_, ?_, fun hcon => absurd hcon hend⟩
  · rw [hframes, hlength]
  · rw [hsent, hcopies, hframes, hdata, List.append_assoc, List.replicate_append_replicate]
  · rw [hdata]
    intro hempty
    rw [hn' hempty, hn hempty]
  · rw [hframes]
    exact h.fits
  · rw [hframes, hdata]
    exact h.cut
  · rw [hframes, hdata, haccepted]
    exact h.gated

/-- A sender in the loop over a chunk has something to send. -/
theorem Place.pending (h : Place c header payload s) (hstage : s.stage = .sending) :
    s.data ≠ [] := by
  cases h with
  | header _ _ _ _ hpending _ _ => exact hpending
  | payload _ _ _ _ _ _ hpending _ _ _ _ _ => exact hpending
  | answer hcon _ _ _ _ _ _ | early hcon _ _ _ _ | ack _ _ hcon _ _ _ _ _ _ =>
      rw [hstage] at hcon
      cases hcon

/-- The same place, with other counters. -/
theorem Place.same (h : Place c header payload s) (hstage : t.stage = s.stage)
    (hdone : t.hasSentHeader = s.hasSentHeader) (haccepted : t.accepted = s.accepted)
    (hdata : t.data = s.data) (hframes : t.frames = s.frames)
    (hretriever : t.retriever = s.retriever) : Place c header payload t := by
  cases h with
  | header left stage done accepted pending object hleft =>
      exact .header left (hstage.trans stage) (hdone.trans done) (haccepted.trans accepted)
        (by rw [hdata]; exact pending) (by rw [hframes, hdata]; exact object)
        (by rw [hretriever]; exact hleft)
  | answer stage done accepted empty object left node =>
      exact .answer (hstage.trans stage) (hdone.trans done) (haccepted.trans accepted)
        (hdata.trans empty) (by rw [hframes]; exact object) (by rw [hretriever]; exact left) node
  | payload before after left stage done accepted pending frames header object hleft node =>
      exact .payload before after left (hstage.trans stage) (hdone.trans done)
        (haccepted.trans accepted) (by rw [hdata]; exact pending) (hframes.trans frames) header
        (by rw [hdata]; exact object) (by rw [hretriever]; exact hleft) node
  | early stage accepted empty object node =>
      exact .early (hstage.trans stage) (haccepted.trans accepted) (hdata.trans empty)
        (by rw [hframes]; exact object) node
  | ack before after stage accepted empty frames header object node =>
      exact .ack before after (hstage.trans stage) (haccepted.trans accepted) (hdata.trans empty)
        (hframes.trans frames) header object node

/-- Copies of the pending chunk go out and the sender stays or gives up. -/
theorem Inv.more {t : Sending} (h : Inv c header payload s) (n : Nat) (hn : s.data = [] → n = 0)
    (hsent : t.sent = s.sent ++ List.replicate n (c.frame s.frames.length s.data))
    (hframes : t.frames = s.frames) (hdata : t.data = s.data) (haccepted : t.accepted = s.accepted)
    (hend : t.ended ≠ some .success)
    (hgoing : t.ended = none → s.ended = none ∧ t.curSeqNo = s.curSeqNo ∧ t.stage = s.stage ∧
      t.hasSentHeader = s.hasSentHeader ∧ t.retriever = s.retriever) :
    Inv c header payload t := by
  refine ⟨sendsInOrder_more h.order n hn hsent hframes hdata haccepted hend,
    by rw [hdata]; exact h.short, ?_⟩
  intro hopen
  obtain ⟨hs, hnumber, hstage, hdone, hretriever⟩ := hgoing hopen
  obtain ⟨hcur, hplace⟩ := h.going hs
  exact ⟨by rw [hnumber, hframes, hcur],
    hplace.same hstage hdone haccepted hdata hframes hretriever⟩

/-- A round that failed: it is tried again or given up. -/
theorem inv_sendRound_failed (h : Inv c header payload s) (hopen : s.ended = none)
    (hpending : s.data ≠ []) {r : SendRound} {n : Nat}
    (hcopies : sendCopies ((List.range (c.redundancy + 1).toNat).map r.results) 0
      .writeable = (n, .error)) : Inv c header payload (s.sendRound c r) := by
  have hmessage : s.message c = c.frame s.frames.length s.data := by
    rw [message, Sender.frame, (h.going hopen).1]
  unfold sendRound
  simp only [hcopies, hmessage, if_true]
  split
  · exact h.more n (fun hempty => absurd hempty hpending) rfl rfl rfl rfl
      (fun hcon => nomatch hcon) (fun hcon => nomatch hcon)
  · split
    · split
      · exact h.more n (fun hempty => absurd hempty hpending) rfl rfl rfl rfl
          (fun hcon => nomatch hcon) (fun hcon => nomatch hcon)
      · refine h.more n (fun hempty => absurd hempty hpending) rfl rfl rfl rfl
          (fun hcon => ?_) (fun _ => ⟨hopen, rfl, rfl, rfl, rfl⟩)
        rw [show s.ended = some .success from hcon] at hopen
        cases hopen
    · exact h.more n (fun hempty => absurd hempty hpending) rfl rfl rfl rfl
        (fun hcon => nomatch hcon) (fun hcon => nomatch hcon)

/-- A round that succeeded: the chunk is counted, with all its copies. -/
theorem settled_sent (h : Inv c header payload s) (hopen : s.ended = none) (hne : s.data ≠ [])
    {n : Nat} (hn : c.redundancy + 1 ≤ n) (htopen : t.ended = none)
    (hsent : t.sent = s.sent ++ List.replicate n (s.message c))
    (hframes : t.frames = s.frames ++ [s.data]) (hnumber : t.curSeqNo = s.curSeqNo + 1) :
    Settled c t := by
  obtain ⟨counts, n', hlength, hcounts, hcopies, _⟩ := h.order.sent
  have hmessage : s.message c = c.frame s.frames.length s.data := by
    rw [message, Sender.frame, (h.going hopen).1]
  refine ⟨htopen, ⟨counts ++ [n' + n], ?_, ?_, ?_⟩, ?_, ?_⟩
  · rw [hframes, List.length_append, List.length_append, hlength]
    rfl
  · intro k hk
    rcases List.mem_append.mp hk with hk | hk
    · exact hcounts k hk
    · rw [List.mem_singleton.mp hk]
      omega
  · rw [hsent, hcopies, hframes, hmessage, numbered_snoc,
      copies_snoc (by rw [length_numbered, hlength]), List.append_assoc,
      List.replicate_append_replicate]
  · rw [hframes]
    intro chunk hchunk
    rcases List.mem_append.mp hchunk with hchunk | hchunk
    · exact h.order.fits chunk hchunk
    · rw [List.mem_singleton.mp hchunk]
      exact ⟨hne, h.short⟩
  · rw [hnumber, hframes, (h.going hopen).1, List.length_append]
    push_cast
    rfl

/-- **A pass of the loop over a chunk.** -/
theorem inv_sendRound (hpos : 0 < c.bufferSize) (h : Inv c header payload s)
    (hopen : s.ended = none) (hstage : s.stage = .sending) (r : SendRound) :
    Inv c header payload (s.sendRound c r) := by
  obtain ⟨⟨n, e⟩, hcopies⟩ : ∃ x, sendCopies ((List.range (c.redundancy + 1).toNat).map r.results) 0
    .writeable = x := ⟨_, rfl⟩
  have hplace := (h.going hopen).2
  have hpending := hplace.pending hstage
  by_cases herror : e = .error
  · subst herror
    exact inv_sendRound_failed h hopen hpending hcopies
  have hmessage : s.message c = c.frame s.frames.length s.data := by
    rw [message, Sender.frame, (h.going hopen).1]
  unfold sendRound
  simp only [hcopies, if_neg herror]
  by_cases hsuccess : e = .success
  · rw [if_pos hsuccess]
    subst hsuccess
    have hn := le_of_sendCopies c r hcopies
    -- the chunk was of the header or of the payload; the other places do not send
    cases hplace with
    | header left _ hdone haccepted hpending hobject hleft =>
        refine next_header hpos (settled_sent h hopen hpending hn hopen rfl rfl rfl) hdone haccepted
          hleft ?_
        rw [List.flatten_append, List.flatten_singleton]
        exact hobject
    | payload before after left _ hdone haccepted hpending hframes hheader hobject hleft hnode =>
        refine @next_payload c header payload _ hpos
          (settled_sent h hopen hpending hn hopen rfl rfl rfl) hdone haccepted hnode before
          (after ++ [s.data]) left hleft ?_ hheader ?_
        · show s.frames ++ [s.data] = _
          rw [hframes, List.append_assoc]
        · rw [List.flatten_append, List.flatten_singleton]
          exact hobject
    | answer hcon _ _ _ _ _ _ | early hcon _ _ _ _ | ack _ _ hcon _ _ _ _ _ _ =>
        rw [hstage] at hcon
        cases hcon
  · rw [if_neg hsuccess, hmessage]
    exact h.more n (fun hempty => absurd hempty hpending) rfl rfl rfl rfl
      (fun hcon => hsuccess (Option.some.inj hcon))
      (fun hcon => nomatch hcon)

/-- What waiting for a control message may change. -/
structure Waited (s t : Sending) : Prop where
  sent : t.sent = s.sent
  frames : t.frames = s.frames
  data : t.data = s.data
  accepted : t.accepted = s.accepted
  ended : t.ended = s.ended
  curSeqNo : t.curSeqNo = s.curSeqNo
  stage : t.stage = s.stage
  hasSentHeader : t.hasSentHeader = s.hasSentHeader
  retriever : t.retriever = s.retriever

theorem waited_refl (s : Sending) : Waited s s := ⟨rfl, rfl, rfl, rfl, rfl, rfl, rfl, rfl, rfl⟩

theorem waited_controlFailed (c : Sender) (s : Sending) (e : ProtocolError) :
    Waited s (s.controlFailed c e).1 ∧ ((s.controlFailed c e).2 = none ∨
      ∃ e', (s.controlFailed c e).2 = some (.error e') ∧ (e' = .error ∨ e' = .errorFatal)) := by
  unfold controlFailed
  split
  · exact ⟨waited_refl s, Or.inr ⟨_, rfl, by decide⟩⟩
  · split
    · exact ⟨waited_refl s, Or.inl rfl⟩
    · split
      · dsimp only
        split
        · exact ⟨⟨rfl, rfl, rfl, rfl, rfl, rfl, rfl, rfl, rfl⟩, Or.inr ⟨_, rfl, by decide⟩⟩
        · exact ⟨⟨rfl, rfl, rfl, rfl, rfl, rfl, rfl, rfl, rfl⟩, Or.inl rfl⟩
      · exact ⟨waited_refl s, Or.inr ⟨_, rfl, by decide⟩⟩

/--
What a round of waiting comes to: nothing yet, an event other than success, or the type of a
message, whose session is noted.
-/
inductive Waits (s : Sending) (r : ControlRound) :
    Sending × Option (Except ProtocolEvent UInt32) → Prop where
  | again (t : Sending) (waited : Waited s t) : Waits s r (t, none)
  | failed (t : Sending) (e : ProtocolEvent) (waited : Waited s t)
      (failed : e = .error ∨ e = .errorFatal ∨ (r.arrival = .event e ∧ e ≠ .success)) :
      Waits s r (t, some (.error e))
  | came (t : Sending) (m : Message) (waited : Waited s t) (arrival : r.arrival = .message m)
      (session : t.lastReceivedSessionNo = m.sessionNo) :
      Waits s r (t, some (.ok (typeOf m.payload)))

theorem ne_success_of_failed {r : ControlRound} {e : ProtocolEvent}
    (h : e = .error ∨ e = .errorFatal ∨ (r.arrival = .event e ∧ e ≠ .success)) : e ≠ .success := by
  rcases h with rfl | rfl | ⟨_, hne⟩
  · decide
  · decide
  · exact hne

theorem waits_of_failed {r : ControlRound} (hw : Waited s t) (e : ProtocolError) :
    Waits s r (t.controlFailed c e) := by
  obtain ⟨hwaited, houtcome⟩ := waited_controlFailed c t e
  have htrans : Waited s (t.controlFailed c e).1 :=
    ⟨hwaited.1.trans hw.1, hwaited.2.trans hw.2, hwaited.3.trans hw.3, hwaited.4.trans hw.4,
      hwaited.5.trans hw.5, hwaited.6.trans hw.6, hwaited.7.trans hw.7, hwaited.8.trans hw.8,
      hwaited.9.trans hw.9⟩
  generalize t.controlFailed c e = result at htrans houtcome
  obtain ⟨u, outcome⟩ := result
  rcases houtcome with rfl | ⟨e', rfl, he⟩
  · exact .again u htrans
  · exact .failed u e' htrans (he.elim Or.inl (fun h => Or.inr (Or.inl h)))

theorem receiveControlMessage_waits (c : Sender) (s : Sending) (r : ControlRound) :
    Waits s r (s.receiveControlMessage c r) := by
  unfold receiveControlMessage
  cases harrival : r.arrival with
  | event e =>
      dsimp only
      split
      · exact .again s (waited_refl s)
      · next he => exact .failed s e (waited_refl s) (Or.inr (Or.inr ⟨harrival, he⟩))
  | message m =>
      dsimp only
      split
      · exact waits_of_failed (waited_refl s) r.error
      · have hnoted : Waited s { s with lastReceivedSessionNo := m.sessionNo } :=
          ⟨rfl, rfl, rfl, rfl, rfl, rfl, rfl, rfl, rfl⟩
        split
        · exact waits_of_failed hnoted r.error
        · split
          · exact .failed _ .error hnoted (Or.inl rfl)
          · exact .came _ m hnoted harrival rfl

/-- The sender goes on waiting. -/
theorem Inv.waited (h : Inv c header payload s) (hopen : s.ended = none) (hw : Waited s t) :
    Inv c header payload t := by
  refine h.more 0 (fun _ => rfl) (by rw [hw.sent]; simp) hw.frames hw.data hw.accepted ?_
    (fun _ => ⟨hopen, hw.curSeqNo, hw.stage, hw.hasSentHeader, hw.retriever⟩)
  rw [hw.ended, hopen]
  simp

/-- Or it gives up. -/
theorem Inv.gaveUp (h : Inv c header payload s) (hw : Waited s t) {e : ProtocolEvent}
    (he : e ≠ .success) : Inv c header payload { t with ended := some e } :=
  h.more 0 (fun _ => rfl) (by show t.sent = _; rw [hw.sent]; simp) hw.frames hw.data hw.accepted
    (fun hcon => he (Option.some.inj hcon)) (fun hcon => nomatch hcon)

/-- While the sender waits nothing is in the buffer, and what is counted is what is out. -/
theorem Inv.settled (h : Inv c header payload s) (hopen : s.ended = none) (hempty : s.data = [])
    (hw : Waited s t) : Settled c t := by
  obtain ⟨counts, n, hlength, hcounts, hcopies, hn⟩ := h.order.sent
  refine ⟨hw.ended.trans hopen, ⟨counts, ?_, hcounts, ?_⟩, ?_, ?_⟩
  · rw [hw.frames, hlength]
  · rw [hw.sent, hcopies, hn hempty, hw.frames, List.replicate_zero, List.append_nil]
  · rw [hw.frames]
    exact h.order.fits
  · rw [hw.curSeqNo, hw.frames, (h.going hopen).1]

/-- **A pass of the loop that waits for ACCEPT or REJECT.** -/
theorem inv_answerRound (hpos : 0 < c.bufferSize) (h : Inv c header payload s)
    (hopen : s.ended = none) (hstage : s.stage = .answer) (r : ControlRound) :
    Inv c header payload (s.answerRound c r) := by
  have hwaits := receiveControlMessage_waits c s r
  unfold answerRound
  generalize s.receiveControlMessage c r = result at hwaits
  cases hwaits with
  | again t hw => exact h.waited hopen hw
  | failed t e hw he => exact h.gaveUp hw (ne_success_of_failed he)
  | came t m hw _ _ =>
      dsimp only
      cases (h.going hopen).2 with
      | answer _ hdone haccepted hempty hobject hleft hnode =>
          have hsettled := h.settled hopen hempty hw
          split
          · exact h.gaveUp hw (by decide)
          split
          · -- the payload is asked for
            refine @next_payload c header payload { t with accepted := true } hpos
              ⟨hsettled.open_, hsettled.sent, hsettled.fits, hsettled.number⟩
              (hw.hasSentHeader.trans hdone) rfl hnode s.frames [] payload
              (by rw [hw.retriever]; exact hleft) ?_ hobject (List.nil_append _)
            rw [List.append_nil]
            exact hw.frames
          split
          · exact h.gaveUp hw (by decide)
          split
          · exact h.gaveUp hw (by decide)
          split
          · exact h.gaveUp hw (by decide)
          · -- the object is taken to be sent
            exact hsettled.inv hsettled.open_ rfl rfl rfl
              (by show t.data.length ≤ _; rw [hw.data]; exact h.short)
              (Place.early rfl (hw.accepted.trans haccepted) (hw.data.trans hempty)
                (by show t.frames.flatten = _; rw [hw.frames]; exact hobject) hnode)
      | header _ hcon _ _ _ _ _ | payload _ _ _ hcon _ _ _ _ _ _ _ _ | early hcon _ _ _ _
      | ack _ _ hcon _ _ _ _ _ _ =>
          rw [hstage] at hcon
          cases hcon

/-- **A pass of the loop that waits for ACK.** -/
theorem inv_ackRound (h : Inv c header payload s) (hopen : s.ended = none) (hstage : s.stage = .ack)
    (r : ControlRound) : Inv c header payload (s.ackRound c r) := by
  have hwaits := receiveControlMessage_waits c s r
  unfold ackRound
  generalize s.receiveControlMessage c r = result at hwaits
  cases hwaits with
  | again t hw => exact h.waited hopen hw
  | failed t e hw he => exact h.gaveUp hw (ne_success_of_failed he)
  | came t m hw _ _ =>
      dsimp only
      split
      · exact h.gaveUp hw (by decide)
      split
      · obtain ⟨counts, n, hlength, hcounts, hcopies, hn⟩ := h.order.sent
        refine ⟨⟨⟨counts, n, ?_, hcounts, ?_, ?_⟩, ?_, ?_, ?_, fun _ => ?_⟩, ?_,
          fun hcon => nomatch hcon⟩
        · exact hlength.trans (congrArg List.length hw.frames.symm)
        · show t.sent = copies counts (c.numbered t.frames) ++ _
          rw [hw.sent, hw.frames, hw.data]
          exact hcopies
        · exact fun hempty => hn (hw.data.symm.trans hempty)
        · show ∀ chunk ∈ t.frames, _
          rw [hw.frames]
          exact h.order.fits
        · show Cut header payload (t.frames ++ [t.data])
          rw [hw.frames, hw.data]
          exact h.order.cut
        · show t.accepted = false → (t.frames ++ [t.data]).flatten <+: header
          rw [hw.accepted, hw.frames, hw.data]
          exact h.order.gated
        · -- all of the object is out, or nothing behind the header was asked for
          show if c.isApplication then t.frames.flatten = header
            else t.frames.flatten = if t.accepted then header ++ payload else header
          rw [hw.frames, hw.accepted]
          cases (h.going hopen).2 with
          | early _ haccepted _ hobject hnode =>
              rw [if_neg (by rw [hnode]; exact Bool.false_ne_true), haccepted]
              exact hobject
          | ack before after _ haccepted _ hframes hheader hobject hnode =>
              rw [if_neg (by rw [hnode]; exact Bool.false_ne_true), haccepted, hframes,
                List.flatten_append, hheader, hobject]
              rfl
          | header _ hcon _ _ _ _ _ | payload _ _ _ hcon _ _ _ _ _ _ _ _
          | answer hcon _ _ _ _ _ _ =>
              rw [hstage] at hcon
              cases hcon
        · show t.data.length ≤ c.bufferSize
          rw [hw.data]
          exact h.short
      · exact h.gaveUp hw (by decide)

/-- **One step keeps the account.** -/
theorem inv_step (hpos : 0 < c.bufferSize) (h : Inv c header payload s) (e : Event) :
    Inv c header payload (s.step c e) := by
  unfold step
  split
  · next hopen hstage => exact inv_sendRound hpos h hopen hstage _
  · next hopen hstage => exact inv_answerRound hpos h hopen hstage _
  · next hopen hstage => exact inv_ackRound h hopen hstage _
  · exact h

/-- Before the first step. -/
theorem inv_start (hpos : 0 < c.bufferSize) {r : Retriever} (hr : HeaderLeft r header payload)
    (lastSession : DataObjectId) : Inv c header payload (start c r lastSession) :=
  next_header hpos ⟨rfl, ⟨[], rfl, fun _ h => (nomatch h), rfl⟩, fun _ h => (nomatch h), rfl⟩ rfl
    rfl hr
    (List.nil_append _)

/-- The account of a whole run. -/
theorem inv_run (hpos : 0 < c.bufferSize) {r : Retriever} (hr : HeaderLeft r header payload)
    (lastSession : DataObjectId) (events : List Event) :
    Inv c header payload (sendDataObjectNow c r lastSession events) := by
  unfold sendDataObjectNow
  induction events using List.reverseRecOn with
  | nil => exact inv_start hpos hr lastSession
  | append_singleton events e ih =>
      rw [List.foldl_append]
      exact inv_step hpos ih e

end Sending

/--
**What goes out is the object, in order.** Whatever the socket and the peer do, the messages are
the chunks under the numbers 1, 2, 3 and so on of the object's session, each in as many copies as
the redundancy asks for or more; the chunks are the beginning of the header and the payload, none
has bytes of both, and none has payload before ACCEPT came in. If the sender succeeds, what was
asked for is out.
-/
theorem sends_in_order (c : Sender) (hpos : 0 < c.bufferSize) (o : Retrievable)
    (header payload : List UInt8) (hheader : o.HasHeader header) (hpayload : o.HasPayload payload)
    (lastSession : DataObjectId) (events : List Sending.Event) :
    ∃ r, o.getDataObjectDataRetriever = some r ∧
      SendsInOrder c header payload (sendDataObjectNow c r lastSession events) := by
  obtain ⟨r, hr, hin, hleft, hbytes, hremaining⟩ := getDataObjectDataRetriever_spec hheader hpayload
  exact ⟨r, hr, (Sending.inv_run hpos ⟨hin, hleft, hbytes, hremaining⟩ lastSession events).order⟩

/-- The object of two bytes, to be sent. -/
def twoBytesSent : Retrievable := ⟨.notNeeded, false, 2, some [7, 8], 0, none, some twoBytesHeader⟩

theorem twoBytesSent_header : twoBytesSent.HasHeader twoBytesHeader :=
  ⟨by decide, [], List.not_mem_nil, by rw [List.append_nil]; rfl⟩

theorem twoBytesSent_payload : twoBytesSent.HasPayload [7, 8] := ⟨rfl, fun _ => ⟨[], rfl⟩⟩

/-- A sender with room for twenty bytes, and one copy more than needed. -/
def smallSender : Sender := ⟨20, 1, true, false, 1, 3, sessionOne⟩

/-- Two copies of the first chunk, and one of the second before the socket blocks. -/
theorem sends_in_order_two :
    ∃ r, twoBytesSent.getDataObjectDataRetriever = some r ∧
      SendsInOrder smallSender twoBytesHeader [7, 8] (sendDataObjectNow smallSender r sessionOne
        [.send ⟨fun _ => .success, .unknown⟩,
          .send ⟨fun i => if i = 0 then .success else .error, .wouldBlock⟩]) :=
  sends_in_order smallSender (by decide) twoBytesSent twoBytesHeader [7, 8] twoBytesSent_header
    twoBytesSent_payload sessionOne _

end Encoders.Protocol
