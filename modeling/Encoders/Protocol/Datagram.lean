import Encoders.Lib.Run
import Encoders.Lib.Slice
import Encoders.Protocol.Receive

/-!
# The lengths of datagrams

`ProtocolUDPGeneric::receiveData` takes a datagram into a buffer of its own, with room for the
header in front, and hands on what is behind the header. `getData` reads as much as there is room
for and counts what was read. Lengths are 64 bits, and memory is there when it is asked for.

The length of the header is taken off before the length is looked at, and the difference has no
sign. So a datagram that is shorter than the header is not refused: its count is just below
`2 ^ 64`. A datagram of the header alone is refused, and an empty one too.

While every datagram is empty, or has a header, or is refused for another reason, the counts are
right and the buffer never holds more than its size. While every one has a header, a reception that
reads messages reads just what the protocol reads: `getData_round`.
-/

namespace Encoders.Protocol

open Encoders.Lib Encoders.Data

/-- `sizeof(udpmsg_t)`: two addresses, a session number and a sequence number. -/
def udpmsgSize : Nat := 40

/-- A datagram; its length is one that an `ssize_t` can say. -/
structure Datagram where
  bytes : List UInt8
  fits : bytes.length < 2 ^ 63

/-- `newBuff`, with room for the header and more, and zeros where nothing was received. -/
structure Packet where
  bytes : List UInt8
  header : udpmsgSize ≤ bytes.length

/-- What `recv` puts into a buffer for the header and so many bytes. -/
def Datagram.received (d : Datagram) (len : Nat) : List UInt8 := d.bytes.take (udpmsgSize + len)

/-- `newBuff` after `recv`. -/
def Datagram.newBuff (d : Datagram) (len : Nat) : List UInt8 :=
  d.received len ++ List.replicate (udpmsgSize + len - (d.received len).length) 0

theorem Datagram.length_received (d : Datagram) (len : Nat) :
    (d.received len).length = min (udpmsgSize + len) d.bytes.length := List.length_take

theorem Datagram.length_newBuff (d : Datagram) (len : Nat) :
    (d.newBuff len).length = udpmsgSize + len := by
  rw [newBuff, List.length_append, List.length_replicate, length_received]
  omega

theorem Datagram.header_newBuff (d : Datagram) (len : Nat) :
    udpmsgSize ≤ (d.newBuff len).length := by
  rw [length_newBuff]
  exact Nat.le_add_right _ _

def Datagram.packet (d : Datagram) (len : Nat) : Packet := ⟨d.newBuff len, d.header_newBuff len⟩

/-- An integer of these bytes, the first one the lowest. -/
def littleEndian : List UInt8 → Nat
  | [] => 0
  | b :: bs => b.toNat + 256 * littleEndian bs

namespace Packet

variable (m : Packet)

theorem length_sessionNo : (slice m.bytes 16 20).length = 20 := by
  have h := m.header
  rw [udpmsgSize] at h
  rw [length_slice]
  omega

def getSrcIPFromMsg : UInt64 := UInt64.ofNat (littleEndian (slice m.bytes 0 8))

def getSessionNoFromMsg : DataObjectId := ⟨slice m.bytes 16 20, m.length_sessionNo⟩

def getSeqNoFromMsg : Int32 := (UInt32.ofNat (littleEndian (slice m.bytes 36 4))).toInt32

end Packet

/-- The message in a datagram with a whole header. -/
def Datagram.message (d : Datagram) (len : Nat) : Message where
  sessionNo := (d.packet len).getSessionNoFromMsg
  seqNo := (d.packet len).getSeqNoFromMsg
  srcIP := (d.packet len).getSrcIPFromMsg
  payload := d.bytes.drop udpmsgSize

/-- `ProtocolError` -/
inductive ProtocolError where
  | wouldBlock
  | badHandle
  | connectionRefused
  | interrupted
  | invalidArgument
  | noMemory
  | notConnected
  | connectionReset
  | notASocket
  | noStorageSpace
  | seqNum
  | unknown
deriving DecidableEq

/-- The read end of the socket pair, and what `recv` gives on it. -/
inductive ReadEnd where
  | missing
  | notConnected
  | failed
  | datagram (d : Datagram)

/-- What one call of `receiveData` meets: the socket, the peer's interface, and its node. -/
structure Meeting where
  readEnd : ReadEnd
  peerIface : Bool
  /-- The node store knows a node with that interface. -/
  retrieved : Bool
  /-- `Node::create` makes one. -/
  created : Bool

/-- One turn of the loop in `getData`: the event that is waited for, the call, and `errno` after. -/
structure ReadTurn where
  event : ProtocolEvent
  meeting : Meeting
  error : ProtocolError

/-- What does not change of a protocol. Its buffer is memory. -/
structure UdpProtocol where
  bufferSize : Nat
  fits : bufferSize < 2 ^ 63
  srcIP : UInt64
  maxBlockingTries : Int

/-- What does, and the variables of the call of `getData` that is under way. -/
structure Filling where
  buffer : List UInt8
  bufferDataLen : UInt64
  lastReceivedSessionNo : DataObjectId
  lastReceivedSeqNo : Int32
  peerNode : Bool
  blockCount : Int
  bytesRead : UInt64

/-- How `receiveData` ends: the event, the count, and what it has put into the buffer. -/
structure ReceivedData where
  event : ProtocolEvent
  bytes : UInt64
  written : List UInt8

namespace UdpProtocol

variable (p : UdpProtocol)

/-- The peer's node: the stored one, the one from before, or a new one. -/
def hasPeerNode (s : Filling) (a : Meeting) : Bool := a.retrieved || s.peerNode || a.created

/-- `receiveData`, with a buffer of `len` bytes. -/
def receiveData (s : Filling) (a : Meeting) (len : Nat) : Filling × ReceivedData :=
  match a.readEnd with
  | .missing => (s, ⟨.errorFatal, 0, []⟩)
  | .notConnected | .failed => (s, ⟨.error, 0, []⟩)
  | .datagram d =>
      -- no bytes are taken for a closed connection
      if d.received len = [] then (s, ⟨.error, 0, []⟩)
      else
        let bytes := UInt64.ofNat (d.received len).length - UInt64.ofNat udpmsgSize
        if bytes ≤ 0 then (s, ⟨.error, bytes, []⟩)
        else
          let m := d.packet len
          let s := { s with
            lastReceivedSessionNo := m.getSessionNoFromMsg
            lastReceivedSeqNo := m.getSeqNoFromMsg }
          let written := slice m.bytes udpmsgSize len
          if m.getSrcIPFromMsg = p.srcIP then (s, ⟨.error, bytes, written⟩)
          else if a.peerIface = false then (s, ⟨.error, bytes, written⟩)
          else if hasPeerNode s a = false then (s, ⟨.error, bytes, written⟩)
          else ({ s with peerNode := true }, ⟨.success, bytes, written⟩)

/-- What `getData` makes of an error of `receiveData`. -/
def failed (blockCount : Int) : ProtocolError → ProtocolEvent
  | .badHandle | .notConnected | .notASocket => .errorFatal
  | .connectionReset => .peerClosed
  | .wouldBlock => if blockCount < p.maxBlockingTries then .success else .errorFatal
  | _ => .error

/-- The event after a call of `receiveData`, with `errno` looked at after an error. -/
def eventAfter (blockCount : Int) (r : ReceivedData) (error : ProtocolError) : ProtocolEvent :=
  if r.event = .error then p.failed blockCount error else r.event

/-- `readLen`, a `long`. -/
def readLen (s : Filling) : Int :=
  (UInt64.ofNat p.bufferSize - s.bufferDataLen).toInt64.toInt

/-- The end of a call of `getData`; the next one counts its tries from 0. -/
def finishGetData (s : Filling) (e : ProtocolEvent) : Filling × Option ProtocolEvent :=
  ({ s with blockCount := 0 }, some e)

/-- One turn of the loop in `getData`: the event it returns, if it returns. -/
def getData (s : Filling) (t : ReadTurn) : Filling × Option ProtocolEvent :=
  if t.event = .incomingData then
    if p.readLen s ≤ 0 then finishGetData { s with bytesRead := 0 } .error
    else
      let (s, r) := p.receiveData s t.meeting (p.readLen s).toNat
      -- to the start of the buffer, whatever there is already
      let s := { s with
        buffer := r.written ++ s.buffer.drop r.written.length
        bytesRead := r.bytes }
      let e := p.eventAfter s.blockCount r t.error
      let s := if r.event = .error ∧ t.error = .wouldBlock
        then { s with blockCount := s.blockCount + 1 } else s
      if e = .success then
        if 0 < r.bytes then
          finishGetData { s with bufferDataLen := s.bufferDataLen + r.bytes } .success
        else (s, none)
      else finishGetData s e
  else if t.event = .success then (s, none)
  else finishGetData s t.event

/-- `removeData` -/
def removeData (s : Filling) (len : UInt64) : Filling :=
  if len ≤ 0 then s
  else if s.bufferDataLen ≤ len then { s with bufferDataLen := 0 }
  else
    let left := s.bufferDataLen - len
    { s with
      buffer := slice s.buffer len.toNat left.toNat ++ s.buffer.drop left.toNat
      bufferDataLen := left }

end UdpProtocol

/-- What the protocol does with its buffer, and calls of `receiveData` into other buffers. -/
inductive UdpStep where
  | getData (t : ReadTurn)
  | removeData (len : UInt64)
  /-- `bufferDataLen = 0`, when the reception of an object begins. -/
  | clear
  | receiveData (a : Meeting) (len : Nat)

namespace UdpProtocol

variable (p : UdpProtocol)
variable {s : Filling}
variable {d : Datagram} {len : Nat} {t : ReadTurn} {f : Filling}

def step (s : Filling) : UdpStep → Filling
  | .getData t => (p.getData s t).1
  | .removeData len => removeData s len
  | .clear => { s with bufferDataLen := 0 }
  | .receiveData a len => (p.receiveData s a len).1

@[simp] theorem step_getData (s : Filling) (t : ReadTurn) :
    p.step s (.getData t) = (p.getData s t).1 := rfl

@[simp] theorem step_removeData (s : Filling) (len : UInt64) :
    p.step s (.removeData len) = removeData s len := rfl

@[simp] theorem step_clear (s : Filling) : p.step s .clear = { s with bufferDataLen := 0 } := rfl

@[simp] theorem step_receiveData (s : Filling) (a : Meeting) (len : Nat) :
    p.step s (.receiveData a len) = (p.receiveData s a len).1 := rfl

theorem length_noSessionNo : (List.replicate 20 (0 : UInt8)).length = 20 := List.length_replicate

/-- A new protocol, with what memory holds. -/
def initial (buffer : List UInt8) : Filling where
  buffer := buffer
  bufferDataLen := 0
  lastReceivedSessionNo := ⟨List.replicate 20 0, length_noSessionNo⟩
  lastReceivedSeqNo := 0
  peerNode := false
  blockCount := 0
  bytesRead := 0

def run (buffer : List UInt8) (steps : List UdpStep) : Filling :=
  steps.foldl p.step (initial buffer)

/-- The call of `receiveData` in a step, and the length of its buffer. -/
def call (s : Filling) : UdpStep → Option (Meeting × Nat)
  | .getData t =>
      if t.event = .incomingData ∧ 0 < p.readLen s then some (t.meeting, (p.readLen s).toNat)
      else none
  | .receiveData a len => some (a, len)
  | .removeData _ | .clear => none

/-! ## What should hold -/

/-- What success says: there is something behind the header, as much as fits is in the buffer, and
that is what is counted. -/
def Exact (r : ReceivedData) (a : Meeting) (len : Nat) : Prop :=
  r.event = .success → ∃ d, a.readEnd = .datagram d ∧ udpmsgSize < d.bytes.length ∧
    r.bytes.toNat = min (d.bytes.length - udpmsgSize) len ∧
    r.written.take r.bytes.toNat = (d.bytes.drop udpmsgSize).take len

/-- A step whose call of `receiveData` is exact, and that does not overfill the buffer. -/
def Accounted (s : Filling) (step : UdpStep) : Prop :=
  (∀ a len, p.call s step = some (a, len) → Exact (p.receiveData s a len).2 a len) ∧
    (p.step s step).bufferDataLen.toNat ≤ p.bufferSize

/-- In every step of a run. -/
def AlwaysAccounted (buffer : List UInt8) (steps : List UdpStep) : Prop :=
  ∀ pre step post, steps = pre ++ step :: post → p.Accounted (p.run buffer pre) step

/-! ## When it does -/

/-- The datagram is refused for what is in it or around it. -/
def Refused (s : Filling) (a : Meeting) (d : Datagram) (len : Nat) : Prop :=
  (d.packet len).getSrcIPFromMsg = p.srcIP ∨ a.peerIface = false ∨ hasPeerNode s a = false

/-- Nothing arrives, or a whole header, or what is refused anyway. -/
def HasHeader (s : Filling) (a : Meeting) (len : Nat) : Prop :=
  ∀ d, a.readEnd = .datagram d →
    d.bytes = [] ∨ udpmsgSize ≤ d.bytes.length ∨ p.Refused s a d len

/-- After an error that looks like a blocked read, the count is added all the same. What a short
datagram lacks of a header is then taken off. -/
def NotUnderfilled (s : Filling) (t : ReadTurn) : Prop :=
  t.error = .wouldBlock → s.blockCount < p.maxBlockingTries →
    ∀ d, t.meeting.readEnd = .datagram d → d.bytes ≠ [] → d.bytes.length < udpmsgSize →
      udpmsgSize - d.bytes.length ≤ s.bufferDataLen.toNat

/-- A step that does no harm. -/
def Harmless (s : Filling) (step : UdpStep) : Prop :=
  ∀ a len, p.call s step = some (a, len) →
    p.HasHeader s a len ∧ ∀ t, step = .getData t → p.NotUnderfilled s t

/-! ## One call -/

/-- The count of a datagram, with room for so many bytes. -/
def count (d : Datagram) (len : Nat) : UInt64 :=
  UInt64.ofNat (d.received len).length - UInt64.ofNat udpmsgSize

theorem toNat_count (d : Datagram) (len : Nat) :
    (count d len).toNat =
      (2 ^ 64 - udpmsgSize + min (udpmsgSize + len) d.bytes.length) % 2 ^ 64 := by
  have hfits := d.fits
  have hlen : (d.received len).length < 2 ^ 64 := by
    rw [d.length_received]
    omega
  rw [count, UInt64.toNat_sub, UInt64.toNat_ofNat_of_lt' hlen,
    UInt64.toNat_ofNat_of_lt' (by decide), d.length_received]

/-- With a header the count is that of what is behind it, as much as fits. -/
theorem toNat_count_of_header {d : Datagram} {len : Nat} (h : udpmsgSize ≤ d.bytes.length) :
    (count d len).toNat = min (d.bytes.length - udpmsgSize) len := by
  have hfits := d.fits
  rw [toNat_count]
  rw [udpmsgSize] at h ⊢
  omega

/-- Without one it is what is missing of a header, below `2 ^ 64`. -/
theorem toNat_count_of_short {d : Datagram} {len : Nat} (h : d.bytes.length < udpmsgSize) :
    (count d len).toNat = 2 ^ 64 - (udpmsgSize - d.bytes.length) := by
  rw [toNat_count]
  rw [udpmsgSize] at h ⊢
  omega

theorem received_eq_nil (d : Datagram) (len : Nat) : d.received len = [] ↔ d.bytes = [] := by
  rw [← List.length_eq_zero_iff, ← List.length_eq_zero_iff, d.length_received, udpmsgSize]
  omega

/-- What is behind the header, as far as it was received, and zeros. -/
theorem written_eq (h : udpmsgSize ≤ d.bytes.length) :
    slice (d.newBuff len) udpmsgSize len = (d.bytes.drop udpmsgSize).take len ++
      List.replicate (len - ((d.bytes.drop udpmsgSize).take len).length) 0 := by
  have hlength : udpmsgSize ≤ (d.received len).length := by
    rw [d.length_received]
    omega
  have hpayload : (d.received len).drop udpmsgSize = (d.bytes.drop udpmsgSize).take len := by
    rw [Datagram.received, List.drop_take, Nat.add_sub_cancel_left]
  have hzeros : udpmsgSize + len - (d.received len).length =
      len - ((d.bytes.drop udpmsgSize).take len).length := by
    rw [← hpayload, List.length_drop]
    omega
  rw [slice, Datagram.newBuff, List.drop_append_of_le_length hlength, hpayload, hzeros]
  refine List.take_of_length_le ?_
  rw [List.length_append, List.length_replicate, List.length_take]
  omega

/-- The bytes that are counted are the payload's. -/
theorem take_written (h : udpmsgSize ≤ d.bytes.length) :
    (slice (d.newBuff len) udpmsgSize len).take (min (d.bytes.length - udpmsgSize) len) =
      (d.bytes.drop udpmsgSize).take len := by
  have hlength : ((d.bytes.drop udpmsgSize).take len).length =
      min (d.bytes.length - udpmsgSize) len := by
    rw [List.length_take, List.length_drop, Nat.min_comm]
  rw [written_eq h, ← hlength, List.take_left]

variable {p}

/-- **What a call of `receiveData` does**: it refuses what it cannot count, or else takes the
datagram into the buffer and counts it, with an error or without. -/
theorem receiveData_cases (s : Filling) (a : Meeting) (len : Nat) :
    ((p.receiveData s a len).2.event ≠ .success ∧ (p.receiveData s a len).2.bytes = 0 ∧
      ∀ d, a.readEnd = .datagram d → d.bytes = [] ∨ count d len = 0) ∨
    ∃ d, a.readEnd = .datagram d ∧ d.bytes ≠ [] ∧ 0 < count d len ∧
      (p.receiveData s a len).2.bytes = count d len ∧
      (p.receiveData s a len).2.written = slice (d.newBuff len) udpmsgSize len ∧
      ((p.receiveData s a len).2.event = .error ∧ p.Refused s a d len ∨
        (p.receiveData s a len).2.event = .success ∧ ¬ p.Refused s a d len) := by
  rw [receiveData]
  -- one case for each answer of the socket, and then the guards in their order
  cases hread : a.readEnd with
  | missing => exact Or.inl ⟨nofun, rfl, nofun⟩
  | notConnected => exact Or.inl ⟨nofun, rfl, nofun⟩
  | failed => exact Or.inl ⟨nofun, rfl, nofun⟩
  | datagram d =>
    dsimp only
    by_cases hempty : d.received len = []
    · rw [if_pos hempty]
      refine Or.inl ⟨nofun, rfl, fun d' hd' => Or.inl ?_⟩
      obtain rfl := ReadEnd.datagram.inj hd'
      exact (received_eq_nil d len).mp hempty
    rw [if_neg hempty]
    by_cases hcount : count d len ≤ 0
    · have hzero : count d len = 0 := UInt64.le_zero_iff.mp hcount
      rw [count] at hcount hzero
      rw [if_pos hcount, hzero]
      refine Or.inl ⟨nofun, rfl, fun d' hd' => Or.inr ?_⟩
      obtain rfl := ReadEnd.datagram.inj hd'
      rw [count, hzero]
    refine Or.inr ⟨d, rfl, fun hnil => hempty ((received_eq_nil d len).mpr hnil),
      UInt64.not_le.mp hcount, ?_⟩
    rw [count] at hcount ⊢
    rw [if_neg hcount]
    by_cases hsrc : (d.packet len).getSrcIPFromMsg = p.srcIP
    · rw [if_pos hsrc]
      exact ⟨rfl, rfl, Or.inl ⟨rfl, Or.inl hsrc⟩⟩
    rw [if_neg hsrc]
    by_cases hiface : a.peerIface = false
    · rw [if_pos hiface]
      exact ⟨rfl, rfl, Or.inl ⟨rfl, Or.inr (Or.inl hiface)⟩⟩
    rw [if_neg hiface]
    by_cases hnode : hasPeerNode s a = false
    · rw [if_pos (by exact hnode)]
      exact ⟨rfl, rfl, Or.inl ⟨rfl, Or.inr (Or.inr hnode)⟩⟩
    rw [if_neg (by exact hnode)]
    refine ⟨rfl, rfl, Or.inr ⟨rfl, ?_⟩⟩
    rintro (hcon | hcon | hcon)
    · exact hsrc hcon
    · exact hiface hcon
    · exact hnode hcon

@[simp] theorem receiveData_bufferDataLen (s : Filling) (a : Meeting) (len : Nat) :
    (p.receiveData s a len).1.bufferDataLen = s.bufferDataLen := by
  unfold receiveData
  split <;> try rfl
  dsimp only
  split_ifs <;> rfl

@[simp] theorem receiveData_buffer (s : Filling) (a : Meeting) (len : Nat) :
    (p.receiveData s a len).1.buffer = s.buffer := by
  unfold receiveData
  split <;> try rfl
  dsimp only
  split_ifs <;> rfl

@[simp] theorem receiveData_blockCount (s : Filling) (a : Meeting) (len : Nat) :
    (p.receiveData s a len).1.blockCount = s.blockCount := by
  unfold receiveData
  split <;> try rfl
  dsimp only
  split_ifs <;> rfl

/-- A node for the peer stays. -/
theorem receiveData_peerNode (h : s.peerNode = true) (a : Meeting) (len : Nat) :
    (p.receiveData s a len).1.peerNode = true := by
  unfold receiveData
  split <;> try exact h
  dsimp only
  split_ifs
  all_goals first | exact h | rfl

/-- **A call is exact exactly when no short datagram gets through.** -/
theorem exact_iff (s : Filling) (a : Meeting) (len : Nat) :
    Exact (p.receiveData s a len).2 a len ↔ p.HasHeader s a len := by
  constructor
  · intro hexact d hd
    by_cases hnil : d.bytes = []
    · exact Or.inl hnil
    by_cases hshort : d.bytes.length < udpmsgSize
    · refine Or.inr (Or.inr ?_)
      -- the subtraction of the header's size wraps, and does not give zero
      have hpos : count d len ≠ 0 := by
        intro hzero
        have htoNat := @toNat_count_of_short d len hshort
        rw [hzero, UInt64.toNat_zero] at htoNat
        rw [udpmsgSize] at htoNat
        omega
      rcases receiveData_cases (p := p) s a len with
        ⟨-, -, hzero⟩ | ⟨d', hd', -, -, -, -, ⟨-, hrefused⟩ | ⟨hsuccess, -⟩⟩
      · exact absurd (hzero d hd) (not_or.mpr ⟨hnil, hpos⟩)
      · obtain rfl := ReadEnd.datagram.inj (hd.symm.trans hd')
        exact hrefused
      · obtain ⟨d'', hd'', hlong, -⟩ := hexact hsuccess
        obtain rfl := ReadEnd.datagram.inj (hd.symm.trans hd'')
        exact absurd hlong (Nat.not_lt.mpr (Nat.le_of_lt hshort))
    · exact Or.inr (Or.inl (Nat.not_lt.mp hshort))
  · intro hheader hsuccess
    rcases receiveData_cases (p := p) s a len with
      ⟨hne, -⟩ | ⟨d, hd, hnil, hpos, hbytes, hwritten, ⟨herror, -⟩ | ⟨-, hrefused⟩⟩
    · exact absurd hsuccess hne
    · exact absurd (herror.symm.trans hsuccess) nofun
    · have hlong : udpmsgSize ≤ d.bytes.length := by
        rcases hheader d hd with h | h | h
        · exact absurd h hnil
        · exact h
        · exact absurd h hrefused
      have hcount := @toNat_count_of_header d len hlong
      have hpos' : 0 < (count d len).toNat := UInt64.lt_iff_toNat_lt.mp hpos
      rw [hbytes, hwritten]
      refine ⟨d, hd, ?_, hcount, ?_⟩
      · rw [hcount] at hpos'
        omega
      · rw [hcount, take_written hlong]

/-! ## The fill level -/

theorem failed_eq_success {blockCount : Int} {e : ProtocolError} :
    p.failed blockCount e = .success ↔ e = .wouldBlock ∧ blockCount < p.maxBlockingTries := by
  cases e <;> simp [failed]

/-- There is room, as long as the buffer holds no more than its size. -/
theorem readLen_eq (h : s.bufferDataLen.toNat ≤ p.bufferSize) :
    p.readLen s = (p.bufferSize - s.bufferDataLen.toNat : Nat) := by
  have hfits := p.fits
  have hsize : (UInt64.ofNat p.bufferSize).toNat = p.bufferSize :=
    UInt64.toNat_ofNat_of_lt' (Nat.lt_trans hfits (by decide))
  have hsub : (UInt64.ofNat p.bufferSize - s.bufferDataLen).toNat =
      p.bufferSize - s.bufferDataLen.toNat := by
    rw [UInt64.toNat_sub_of_le _ _ (UInt64.le_iff_toNat_le.mpr (by rw [hsize]; exact h)), hsize]
  have hsmall : 2 * (UInt64.ofNat p.bufferSize - s.bufferDataLen).toBitVec.toNat < 2 ^ 64 := by
    rw [UInt64.toNat_toBitVec, hsub]
    omega
  rw [readLen, ← hsub]
  exact BitVec.toInt_eq_toNat_of_lt hsmall

/-- The bytes that a turn counts. -/
def counted (p : UdpProtocol) (s : Filling) (t : ReadTurn) : UInt64 :=
  let r := (p.receiveData s t.meeting (p.readLen s).toNat).2
  if p.eventAfter s.blockCount r t.error = .success then r.bytes else 0

/-- A turn without a call of `receiveData` counts nothing. -/
theorem getData_bufferDataLen_of_call_none (h : p.call s (.getData t) = none) :
    (p.getData s t).1.bufferDataLen = s.bufferDataLen := by
  rw [getData]
  by_cases hincoming : t.event = .incomingData
  · have hfull : p.readLen s ≤ 0 := by
      refine Int.not_lt.mp (fun hpos => ?_)
      rw [call, if_pos ⟨hincoming, hpos⟩] at h
      cases h
    rw [if_pos hincoming, if_pos hfull]
    rfl
  · rw [if_neg hincoming]
    split <;> rfl

/-- One with a call counts what it says. -/
theorem getData_bufferDataLen_of_call {a : Meeting} (h : p.call s (.getData t) = some (a, len)) :
    (p.getData s t).1.bufferDataLen = s.bufferDataLen + p.counted s t := by
  rw [call] at h
  split at h
  case isFalse => cases h
  case isTrue hcall =>
    rw [getData, if_pos hcall.1, if_neg (Int.not_le.mpr hcall.2), counted]
    dsimp only
    rw [receiveData_blockCount]
    by_cases hsuccess : p.eventAfter s.blockCount
        (p.receiveData s t.meeting (p.readLen s).toNat).2 t.error = .success
    · rw [if_pos hsuccess, if_pos hsuccess]
      by_cases hpos : 0 < (p.receiveData s t.meeting (p.readLen s).toNat).2.bytes
      · rw [if_pos hpos]
        dsimp only [finishGetData]
        split <;> rw [receiveData_bufferDataLen]
      · rw [if_neg hpos, UInt64.le_zero_iff.mp (UInt64.not_lt.mp hpos), UInt64.add_zero]
        split <;> exact receiveData_bufferDataLen _ _ _
    · rw [if_neg hsuccess, if_neg hsuccess, UInt64.add_zero]
      dsimp only [finishGetData]
      split <;> rw [receiveData_bufferDataLen]

/-- What a short datagram adds, with a carry out of the 64 bits or without. -/
theorem add_short_le {size : Nat} {level : UInt64} (hfits : size < 2 ^ 63)
    (hlevel : level.toNat ≤ size) (hnil : d.bytes ≠ []) (hshort : d.bytes.length < udpmsgSize) :
    (level + count d len).toNat ≤ size ↔ udpmsgSize - d.bytes.length ≤ level.toNat := by
  have hpos := List.length_pos_of_ne_nil hnil
  rw [UInt64.toNat_add, toNat_count_of_short hshort]
  rw [udpmsgSize] at hshort ⊢
  omega

/-- What a datagram with a header adds is what there is room for. -/
theorem add_header_le {size : Nat} {level : UInt64} (hfits : size < 2 ^ 63)
    (hlevel : level.toNat ≤ size) (hlen : len ≤ size - level.toNat)
    (hlong : udpmsgSize ≤ d.bytes.length) : (level + count d len).toNat ≤ size := by
  rw [UInt64.toNat_add, toNat_count_of_header hlong]
  omega

/-- **The fill level after a turn**, if no short datagram gets through. -/
theorem counted_le_iff (hlevel : s.bufferDataLen.toNat ≤ p.bufferSize)
    (hheader : p.HasHeader s t.meeting (p.readLen s).toNat) :
    (s.bufferDataLen + p.counted s t).toNat ≤ p.bufferSize ↔ p.NotUnderfilled s t := by
  have hlen : (p.readLen s).toNat ≤ p.bufferSize - s.bufferDataLen.toNat := by
    rw [readLen_eq hlevel]
    exact Nat.le_refl _
  have hnothing : (s.bufferDataLen + 0).toNat ≤ p.bufferSize := by
    rw [UInt64.add_zero]
    exact hlevel
  rw [counted]
  rcases receiveData_cases (p := p) s t.meeting (p.readLen s).toNat with
    ⟨-, hbytes, hzero⟩ | ⟨d, hd, hnil, -, hbytes, -, hend⟩
  · -- a call that takes nothing leaves the level as it was
    rw [hbytes, ite_self]
    refine ⟨fun _ _ _ d hd hnil hshort => ?_, fun _ => hnothing⟩
    have hcount : count d (p.readLen s).toNat = 0 := (hzero d hd).resolve_left hnil
    have htoNat := @toNat_count_of_short d (p.readLen s).toNat hshort
    rw [hcount, UInt64.toNat_zero, udpmsgSize] at htoNat
    omega
  · rw [hbytes]
    -- a short datagram adds more than it brings, unless its error lets nothing be counted
    by_cases hshort : d.bytes.length < udpmsgSize
    · have hrefused : p.Refused s t.meeting d (p.readLen s).toNat := by
        rcases hheader d hd with h | h | h
        · exact absurd h hnil
        · exact absurd hshort (Nat.not_lt.mpr h)
        · exact h
      have herror : (p.receiveData s t.meeting (p.readLen s).toNat).2.event = .error := by
        rcases hend with ⟨h, -⟩ | ⟨-, h⟩
        · exact h
        · exact absurd hrefused h
      rw [eventAfter, if_pos herror]
      by_cases hblocked : t.error = .wouldBlock ∧ s.blockCount < p.maxBlockingTries
      · rw [if_pos (failed_eq_success.mpr hblocked), add_short_le p.fits hlevel hnil hshort]
        refine ⟨fun h _ _ d' hd' _ _ => ?_, fun h => h hblocked.1 hblocked.2 d hd hnil hshort⟩
        obtain rfl := ReadEnd.datagram.inj (hd.symm.trans hd')
        exact h
      · rw [if_neg (fun hcon => hblocked (failed_eq_success.mp hcon))]
        exact ⟨fun _ h1 h2 => absurd ⟨h1, h2⟩ hblocked, fun _ => hnothing⟩
    · have hlong := Nat.not_lt.mp hshort
      refine ⟨fun _ _ _ d' hd' _ h => ?_, fun _ => ?_⟩
      · obtain rfl := ReadEnd.datagram.inj (hd.symm.trans hd')
        exact absurd h hshort
      · split
        · exact add_header_le p.fits hlevel hlen hlong
        · exact hnothing

/-- What is removed makes the level lower. -/
theorem removeData_le (s : Filling) (len : UInt64) :
    (removeData s len).bufferDataLen.toNat ≤ s.bufferDataLen.toNat := by
  rw [removeData]
  split
  · exact Nat.le_refl _
  · split
    · exact Nat.zero_le _
    · next hlt =>
      dsimp only
      rw [UInt64.toNat_sub_of_le _ _ (UInt64.le_of_lt (UInt64.not_le.mp hlt))]
      exact Nat.sub_le _ _

/-! ## Messages -/

/-- The error after a failed call, with so many tries made. -/
def failure (p : UdpProtocol) (blockCount : Int) : ProtocolError → Failure
  | .badHandle | .notConnected | .notASocket => .fatal
  | .connectionReset => .connectionReset
  | .wouldBlock => if blockCount < p.maxBlockingTries then .wouldBlock else .fatal
  | _ => .other

theorem failed_eq (blockCount : Int) (e : ProtocolError) :
    p.failed blockCount e = ((p.failure blockCount e).event).getD .success := by
  cases e with
  | wouldBlock =>
      by_cases h : blockCount < p.maxBlockingTries <;> simp [failed, failure, h, Failure.event]
  | _ => rfl

theorem event_failure (blockCount : Int) (e : ProtocolError) :
    (p.failure blockCount e).event = if p.failed blockCount e = .success then none
      else some (p.failed blockCount e) := by
  rw [failed_eq]
  cases p.failure blockCount e <;> rfl

/-- What a turn of `getData` brings, as a round of a reception. -/
def round (p : UdpProtocol) (f : Filling) (t : ReadTurn) (control : ProtocolEvent) : Round where
  arrival :=
    if t.event = .incomingData then
      if p.readLen f ≤ 0 then .event .error
      else
        match t.meeting.readEnd with
        | .missing => .event .errorFatal
        | .notConnected | .failed => .event (p.failed f.blockCount t.error)
        | .datagram d => .message (d.message (p.readLen f).toNat)
    else .event t.event
  failure := p.failure f.blockCount t.error
  control := control

/-- A reception has the members of the protocol. -/
structure Has (s : Receiving) (f : Filling) : Prop where
  buffer : s.buffer = f.buffer
  bufferDataLen : s.bufferDataLen = f.bufferDataLen.toNat
  session : s.lastReceivedSessionNo = f.lastReceivedSessionNo
  number : s.lastReceivedSeqNo = f.lastReceivedSeqNo.toInt

/-- The reception is one of this protocol, and there is a node for a peer with an interface. -/
structure Serves (p : UdpProtocol) (c : Receiver) (f : Filling) (a : Meeting) : Prop where
  bufferSize : c.bufferSize = p.bufferSize
  srcIP : c.srcIP = p.srcIP
  peerIface : c.peerIface = a.peerIface
  peerNode : a.peerIface = true → hasPeerNode f a = true

/-- A turn with a call of `receiveData`: what was counted, and whether it goes on. -/
theorem getData_call (hincoming : t.event = .incomingData) (hroom : ¬ p.readLen f ≤ 0) :
    ∃ n, p.getData f t =
      let result := p.receiveData f t.meeting (p.readLen f).toNat
      let e := p.eventAfter f.blockCount result.2 t.error
      ({ result.1 with
          buffer := result.2.written ++ f.buffer.drop result.2.written.length
          bufferDataLen := f.bufferDataLen + if e = .success then result.2.bytes else 0
          bytesRead := result.2.bytes
          blockCount := n },
        if e = .success ∧ result.2.bytes = 0 then none else some e) := by
  rw [getData, if_pos hincoming, if_neg hroom]
  dsimp only
  rw [receiveData_blockCount]
  generalize hevent : p.eventAfter f.blockCount
    (p.receiveData f t.meeting (p.readLen f).toNat).2 t.error = e
  by_cases hsuccess : e = .success
  · by_cases hbytes : (p.receiveData f t.meeting (p.readLen f).toNat).2.bytes = 0
    · simp only [hsuccess, hbytes, UInt64.lt_irrefl, if_true, if_false, UInt64.add_zero, and_self]
      split
      · exact ⟨_, by rw [receiveData_buffer, receiveData_bufferDataLen]⟩
      · exact ⟨_, by rw [receiveData_buffer, receiveData_bufferDataLen]⟩
    · have hpos : 0 < (p.receiveData f t.meeting (p.readLen f).toNat).2.bytes :=
        UInt64.pos_iff_ne_zero.mpr hbytes
      simp only [hsuccess, hbytes, hpos, if_true, if_false, and_false, finishGetData]
      refine ⟨0, ?_⟩
      split <;> rw [receiveData_buffer, receiveData_bufferDataLen]
  · simp only [hsuccess, if_false, false_and, finishGetData, UInt64.add_zero]
    refine ⟨0, ?_⟩
    split <;> rw [receiveData_buffer, receiveData_bufferDataLen]

/-- A datagram with nothing behind its header is refused before it is looked at. -/
theorem receiveData_empty {a : Meeting} (hread : a.readEnd = .datagram d)
    (hheader : d.bytes = [] ∨ udpmsgSize ≤ d.bytes.length) (hpayload : d.bytes.drop udpmsgSize = [])
    : p.receiveData f a len = (f, ⟨.error, 0, []⟩) := by
  rw [receiveData, hread]
  dsimp only
  by_cases hnil : d.received len = []
  · rw [if_pos hnil]
  · have hlong := hheader.resolve_left (fun hcon => hnil ((received_eq_nil d len).mpr hcon))
    have hcount : count d len = 0 := by
      rw [← UInt64.toNat_inj, toNat_count_of_header hlong, UInt64.toNat_zero]
      have := List.drop_eq_nil_iff.mp hpayload
      omega
    rw [count] at hcount
    rw [if_neg hnil, hcount, if_pos (UInt64.le_refl 0)]

/-- Of one with a payload something is counted, if there is room. -/
theorem count_pos {d : Datagram} {len : Nat} (hlong : udpmsgSize ≤ d.bytes.length)
    (hpayload : d.bytes.drop udpmsgSize ≠ []) (hlen : 0 < len) : 0 < count d len := by
  rw [UInt64.lt_iff_toNat_lt, toNat_count_of_header hlong, UInt64.toNat_zero]
  have := List.length_pos_iff.mpr hpayload
  rw [List.length_drop] at this
  omega

/-- One of which something is counted is taken in, whether it is refused then or not. -/
theorem receiveData_message {f : Filling} {a : Meeting} {d : Datagram} {len : Nat}
    (hread : a.readEnd = .datagram d) (hbytes : d.bytes ≠ []) (hpos : 0 < count d len) :
    ∃ node, (f.peerNode = true → node = true) ∧ p.receiveData f a len =
      ({ f with
          lastReceivedSessionNo := (d.message len).sessionNo
          lastReceivedSeqNo := (d.message len).seqNo
          peerNode := node },
        ⟨if (d.message len).srcIP = p.srcIP ∨ a.peerIface = false ∨ hasPeerNode f a = false
            then .error else .success,
          count d len, slice (d.newBuff len) udpmsgSize len⟩) := by
  have hnil : ¬ d.received len = [] := fun hcon => hbytes ((received_eq_nil d len).mp hcon)
  rw [receiveData, hread]
  dsimp only
  rw [if_neg hnil, if_neg (by rw [count] at hpos; exact UInt64.not_le.mpr hpos)]
  by_cases hsrc : (d.packet len).getSrcIPFromMsg = p.srcIP
  · rw [if_pos hsrc, if_pos (by exact Or.inl hsrc)]
    exact ⟨_, id, rfl⟩
  rw [if_neg hsrc]
  by_cases hiface : a.peerIface = false
  · rw [if_pos hiface, if_pos (Or.inr (Or.inl hiface))]
    exact ⟨_, id, rfl⟩
  rw [if_neg hiface]
  by_cases hnode : hasPeerNode f a = false
  · rw [if_pos (by exact hnode), if_pos (Or.inr (Or.inr hnode))]
    exact ⟨_, id, rfl⟩
  rw [if_neg (by exact hnode), if_neg]
  · exact ⟨true, fun _ => rfl, rfl⟩
  · rintro (hcon | hcon | hcon)
    · exact hsrc hcon
    · exact hiface hcon
    · exact hnode hcon

/--
**A reception reads what the protocol reads.** As long as every datagram has a whole header,
`getData` on messages is `getData` on datagrams.
-/
theorem getData_round {c : Receiver} {s : Receiving} (hserves : p.Serves c f t.meeting)
    (h : Has s f) (hlevel : f.bufferDataLen.toNat ≤ p.bufferSize)
    (hheader : ∀ d, t.meeting.readEnd = .datagram d →
      d.bytes = [] ∨ udpmsgSize ≤ d.bytes.length) (control : ProtocolEvent) :
    (s.getData c (p.round f t control)).2 = (p.getData f t).2 ∧
      Has (s.getData c (p.round f t control)).1 (p.getData f t).1 := by
  have hroom : (p.readLen f).toNat = c.bufferSize - s.bufferDataLen := by
    rw [readLen_eq hlevel, hserves.bufferSize, h.bufferDataLen, Int.toNat_natCast]
  -- without a message, an event is what the loop ends with
  have hevent : ∀ e, s.getData c ⟨.event e, p.failure f.blockCount t.error, control⟩ =
      (s, if e = .success then none else some e) := by
    intro e
    unfold Receiving.getData
    dsimp only
    split <;> rfl
  by_cases hincoming : t.event = .incomingData
  swap
  · unfold round getData
    rw [if_neg hincoming, if_neg hincoming, hevent]
    by_cases hsuccess : t.event = .success
    · rw [if_pos hsuccess, if_pos hsuccess]
      exact ⟨rfl, h⟩
    · rw [if_neg hsuccess, if_neg hsuccess]
      exact ⟨rfl, h.buffer, h.bufferDataLen, h.session, h.number⟩
  by_cases hfull : p.readLen f ≤ 0
  · unfold round getData
    rw [if_pos hincoming, if_pos hincoming, if_pos hfull, if_pos hfull, hevent]
    exact ⟨rfl, h.buffer, h.bufferDataLen, h.session, h.number⟩
  obtain ⟨n, hcall⟩ := getData_call (p := p) hincoming hfull
  -- a call that takes nothing in leaves the event to the error
  have hquiet : ∀ e, p.receiveData f t.meeting (p.readLen f).toNat = (f, ⟨e, 0, []⟩) →
      p.getData f t = ({ f with bytesRead := 0, blockCount := n },
        if p.eventAfter f.blockCount ⟨e, 0, []⟩ t.error = .success then none
        else some (p.eventAfter f.blockCount ⟨e, 0, []⟩ t.error)) := by
    intro e he
    rw [hcall, he]
    simp
  rw [round, if_pos hincoming, if_neg hfull]
  cases hread : t.meeting.readEnd with
  | missing =>
      rw [hquiet .errorFatal (by rw [receiveData, hread]), hevent]
      exact ⟨rfl, h.buffer, h.bufferDataLen, h.session, h.number⟩
  | notConnected =>
      rw [hquiet .error (by rw [receiveData, hread]), hevent]
      exact ⟨rfl, h.buffer, h.bufferDataLen, h.session, h.number⟩
  | failed =>
      rw [hquiet .error (by rw [receiveData, hread]), hevent]
      exact ⟨rfl, h.buffer, h.bufferDataLen, h.session, h.number⟩
  | datagram d =>
      have hpositive : c.bufferSize - s.bufferDataLen ≠ 0 := by omega
      unfold Receiving.getData
      dsimp only
      rw [if_neg hpositive]
      by_cases hpayload : (d.message (p.readLen f).toNat).payload = []
      · rw [if_pos hpayload, hquiet .error (receiveData_empty hread (hheader d hread) hpayload)]
        exact ⟨event_failure _ _, h.buffer, h.bufferDataLen, h.session, h.number⟩
      · rw [if_neg hpayload]
        have hlong : udpmsgSize ≤ d.bytes.length :=
          (hheader d hread).resolve_left (fun hnil => hpayload (by simp [Datagram.message, hnil]))
        have hpos := @count_pos d (p.readLen f).toNat hlong hpayload (by omega)
        have hbytes : d.bytes ≠ [] := by
          intro hnil
          rw [hnil] at hlong
          exact absurd hlong (by decide)
        obtain ⟨node, -, hcalled⟩ := @receiveData_message p f _ d _ hread hbytes hpos
        have hrefused : ((d.message (p.readLen f).toNat).srcIP = c.srcIP ∨ c.peerIface = false) ↔
            ((d.message (p.readLen f).toNat).srcIP = p.srcIP ∨ t.meeting.peerIface = false ∨
              hasPeerNode f t.meeting = false) := by
          rw [hserves.srcIP, hserves.peerIface]
          refine or_congr_right ⟨Or.inl, fun hcon => hcon.elim id (fun hnode => ?_)⟩
          by_contra hiface
          rw [hserves.peerNode (by simpa using hiface)] at hnode
          cases hnode
        -- what is in the buffer is the same, and so is what was added to its level
        have hbuffer : (d.message (p.readLen f).toNat).payload.take (c.bufferSize - s.bufferDataLen) ++
            List.replicate (c.bufferSize - s.bufferDataLen -
              ((d.message (p.readLen f).toNat).payload.take
                (c.bufferSize - s.bufferDataLen)).length) 0 ++
            s.buffer.drop (c.bufferSize - s.bufferDataLen) =
            slice (d.newBuff (p.readLen f).toNat) udpmsgSize (p.readLen f).toNat ++
              f.buffer.drop (slice (d.newBuff (p.readLen f).toNat) udpmsgSize
                (p.readLen f).toNat).length := by
          rw [written_eq hlong, ← hroom, h.buffer, List.length_append, List.length_replicate]
          congr 2
          rw [Nat.add_sub_cancel' (by rw [List.length_take]; exact Nat.min_le_left _ _)]
        have hlength : s.bufferDataLen + ((d.message (p.readLen f).toNat).payload.take
            (c.bufferSize - s.bufferDataLen)).length =
            (f.bufferDataLen + count d (p.readLen f).toNat).toNat := by
          have hfits := p.fits
          have hsize := hserves.bufferSize
          have hlevel' := h.bufferDataLen
          have hdrop : (d.message (p.readLen f).toNat).payload.length = d.bytes.length - udpmsgSize :=
            List.length_drop
          rw [UInt64.toNat_add, toNat_count_of_header hlong, List.length_take, hdrop, hroom]
          omega
        have hne : count d (p.readLen f).toNat ≠ 0 := UInt64.pos_iff_ne_zero.mp hpos
        rw [hcall, hcalled]
        generalize d.message (p.readLen f).toNat = m at hrefused hbuffer hlength ⊢
        generalize slice (d.newBuff (p.readLen f).toNat) udpmsgSize (p.readLen f).toNat = written
          at hbuffer ⊢
        by_cases hown : m.srcIP = c.srcIP ∨ c.peerIface = false
        · simp only [if_pos (hrefused.mp hown), eventAfter, if_true]
          by_cases hblock : p.failure f.blockCount t.error = .wouldBlock
          · -- refused, and counted all the same
            have hsuccess : p.failed f.blockCount t.error = .success := by
              rw [failed_eq, hblock]
              rfl
            rw [if_neg (fun hcon => hcon.2 hblock)]
            simp only [hsuccess, hne, and_false, if_false, if_true]
            exact ⟨trivial, hbuffer, hlength, rfl, rfl⟩
          · have hfailed : p.failed f.blockCount t.error ≠ .success := by
              rw [failed_eq]
              cases hfailure : p.failure f.blockCount t.error with
              | wouldBlock => exact absurd hfailure hblock
              | _ => simp [Failure.event]
            rw [if_pos ⟨hown, hblock⟩, event_failure]
            simp only [hfailed, false_and, if_false, UInt64.add_zero]
            exact ⟨trivial, hbuffer, h.bufferDataLen, rfl, rfl⟩
        · rw [if_neg (fun hcon => hown hcon.1)]
          simp only [if_neg (fun hcon => hown (hrefused.mpr hcon)), eventAfter, hne, reduceCtorEq,
            and_false, if_false, if_true]
          exact ⟨trivial, hbuffer, hlength, rfl, rfl⟩

/-- And it takes out what the protocol takes out. -/
theorem removeData_has {s : Receiving} (h : Has s f) (len : UInt64) :
    Has (s.removeData len.toNat) (removeData f len) := by
  have hzero : len.toNat = 0 ↔ len ≤ 0 := by
    rw [UInt64.le_iff_toNat_le, UInt64.toNat_zero, Nat.le_zero]
  have hall : s.bufferDataLen ≤ len.toNat ↔ f.bufferDataLen ≤ len := by
    rw [h.bufferDataLen, UInt64.le_iff_toNat_le]
  unfold Receiving.removeData removeData
  rw [if_congr hzero rfl rfl, if_congr hall rfl rfl]
  split
  · exact h
  · split
    · exact ⟨h.buffer, rfl, h.session, h.number⟩
    · next hleft =>
        have hsub : (f.bufferDataLen - len).toNat = s.bufferDataLen - len.toNat := by
          rw [h.bufferDataLen,
            UInt64.toNat_sub_of_le _ _ (UInt64.le_of_lt (UInt64.not_le.mp hleft))]
        refine ⟨?_, hsub.symm, h.session, h.number⟩
        dsimp only
        rw [hsub, h.buffer]

/-! ## A run -/

/-- **One step.** -/
theorem accounted_iff (hlevel : s.bufferDataLen.toNat ≤ p.bufferSize) (step : UdpStep) :
    p.Accounted s step ↔ p.Harmless s step := by
  have hexact : (∀ a len, p.call s step = some (a, len) →
      Exact (p.receiveData s a len).2 a len) ↔
      ∀ a len, p.call s step = some (a, len) → p.HasHeader s a len :=
    forall_congr' (fun a => forall_congr' (fun len => imp_congr_right (fun _ => exact_iff s a len)))
  rw [Accounted, hexact]
  -- only `getData` raises the level
  have hother : (p.step s step).bufferDataLen.toNat ≤ p.bufferSize → (∀ t, step ≠ .getData t) →
      ((∀ a len, p.call s step = some (a, len) → p.HasHeader s a len) ∧
        (p.step s step).bufferDataLen.toNat ≤ p.bufferSize ↔ p.Harmless s step) := fun hle hne =>
    ⟨fun h a len hcall => ⟨h.1 a len hcall, fun t ht => absurd ht (hne t)⟩,
      fun h => ⟨fun a len hcall => (h a len hcall).1, hle⟩⟩
  cases step with
  | getData t =>
    rw [step_getData]
    cases hcall : p.call s (.getData t) with
    | none =>
      rw [getData_bufferDataLen_of_call_none hcall]
      exact ⟨fun _ a len hcon => absurd (hcall.symm.trans hcon) nofun, fun _ => ⟨nofun, hlevel⟩⟩
    | some call =>
      obtain ⟨a, len⟩ := call
      rw [getData_bufferDataLen_of_call hcall]
      obtain ⟨rfl, rfl⟩ : t.meeting = a ∧ (p.readLen s).toNat = len := by
        rw [UdpProtocol.call] at hcall
        split at hcall
        · exact Prod.mk.inj (Option.some.inj hcall)
        · cases hcall
      constructor
      · rintro ⟨hheader, hle⟩ a len hcall'
        obtain ⟨rfl, rfl⟩ := Prod.mk.inj (Option.some.inj (hcall.symm.trans hcall'))
        refine ⟨hheader _ _ rfl, fun t' ht' => ?_⟩
        obtain rfl := UdpStep.getData.inj ht'
        exact (counted_le_iff hlevel (hheader _ _ rfl)).mp hle
      · intro h
        refine ⟨fun a len hcall' => (h a len (hcall.trans hcall')).1, ?_⟩
        obtain ⟨hheader, hunder⟩ := h _ _ hcall
        exact (counted_le_iff hlevel hheader).mpr (hunder t rfl)
  | removeData len =>
    refine hother ?_ (fun t ht => UdpStep.noConfusion ht)
    rw [step_removeData]
    exact (removeData_le s len).trans hlevel
  | clear =>
    refine hother ?_ (fun t ht => UdpStep.noConfusion ht)
    rw [step_clear]
    exact Nat.zero_le _
  | receiveData a len =>
    refine hother ?_ (fun t ht => UdpStep.noConfusion ht)
    rw [step_receiveData, receiveData_bufferDataLen]
    exact hlevel

end UdpProtocol

/--
**The lengths of datagrams are accounted for exactly when every step of a run is harmless**: in each
call of `receiveData` nothing arrives, or a datagram with a whole header, or one that is refused for
its source or for its peer; and after such an error, if it is taken for a blocked read, the buffer
holds at least what the datagram lacks of a header.
-/
theorem datagrams_accounted_iff (p : UdpProtocol) (buffer : List UInt8) (steps : List UdpStep) :
    p.AlwaysAccounted buffer steps ↔
      ∀ pre step post, steps = pre ++ step :: post → p.Harmless (p.run buffer pre) step := by
  have hguard :
      Guarded (fun s op => some (p.step s op)) p.Accounted (UdpProtocol.initial buffer) steps ↔
      Guarded (fun s op => some (p.step s op)) p.Harmless (UdpProtocol.initial buffer) steps :=
    guarded_congr (P := fun s => s.bufferDataLen.toNat ≤ p.bufferSize)
      (fun s op h => UdpProtocol.accounted_iff h op)
      (fun s op s' _ hok hs' => Option.some.inj hs' ▸ hok.2) steps _ (Nat.zero_le _)
  rw [guarded_foldl_iff, guarded_foldl_iff] at hguard
  exact hguard

theorem oneByte_fits : [(60 : UInt8)].length < 2 ^ 63 := by decide

theorem udpBufsiz_fits : 4096 * 16 < 2 ^ 63 := by decide

/-- One byte from a peer that is known. -/
def runt : ReadTurn where
  event := .incomingData
  meeting := ⟨.datagram ⟨[60], oneByte_fits⟩, true, true, true⟩
  error := .unknown

/-- A protocol with the buffer that it is made with. -/
def udpUnicast : UdpProtocol := ⟨4096 * 16, udpBufsiz_fits, 16777343, 5⟩

/-- The buffer holds all but `2 ^ 64` bytes. -/
theorem datagrams_accounted_fails : ¬ udpUnicast.AlwaysAccounted [] [.getData runt] := by
  intro h
  have hle := (h [] _ [] rfl).2
  revert hle
  decide

end Encoders.Protocol
