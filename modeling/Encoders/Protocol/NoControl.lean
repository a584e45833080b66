import Encoders.Bloom.Plain
import Encoders.Protocol.Datagram

/-!
# Receiving an object in one datagram

`ProtocolUDPGeneric::receiveDataObjectNoControl`. A datagram holds a whole object, and its session
number is the object's id. A node that has the id in its filter ignores the datagram. Otherwise it
puts the id into the filter first, so that other protocols do not take in the same object beside
this one, and then makes an object of the bytes.

What follows can fail, and every failure returns an error and leaves the id where it is. Nothing was
received, but the node says it has the object, and an intact copy of it is ignored. So a failure is
harmless exactly when it comes before the filter is asked. A datagram that is shorter than the
header gets that far too: the id is then made of what there is and zeros.
-/

namespace Encoders.Protocol

open Encoders.Lib Encoders.Data Encoders.Bloom

/-- What does not change: the protocol's configuration, the parser, and what other objects say. -/
structure UdpReceiver where
  protocol : UdpProtocol
  /-- there is a buffer -/
  pos : 0 < protocol.bufferSize
  sha1 : Digest
  parse : CString → Option DataObject
  path : CString
  /-- The objects that this one is a block or a fragment of, if coding or fragmentation is on. -/
  parentIds : DataObject → List Key
  /-- `Node::create(dObj)` is a node, and this one. -/
  isThisNode : DataObject → Bool

/-- Whether there is memory for the object and a file for its payload. -/
structure Resources where
  created : Bool
  written : Bool

/-- The members of the protocol that a reception uses, the node's filter, and the events so far. -/
structure UdpState where
  filling : Filling
  filter : NodeFilter
  lastValidReceivedSessionNo : DataObjectId
  lastValidReceivedSeqNo : Int32
  events : List KernelEvent

/-- `lastReceivedSessionNo == lastValidReceivedSessionNo`: where two arrays are, not what they
hold. -/
def sameSessionNo : Bool := false

namespace UdpReceiver

variable (c : UdpReceiver)

/-- The call of `receiveData`, into the protocol's buffer. -/
def receiveData (s : UdpState) (a : Meeting) : UdpState × ReceivedData :=
  let (f, r) := c.protocol.receiveData s.filling a c.protocol.bufferSize
  ({ s with filling := { f with buffer := r.written ++ f.buffer.drop r.written.length } }, r)

/-- The buffer with its last byte made zero. -/
def terminated (buffer : List UInt8) : List UInt8 := buffer.set (c.protocol.bufferSize - 1) 0

/-- `hasParentDataObject` -/
def hasParentDataObject (f : NodeFilter) (d : DataObject) : Bool :=
  (c.parentIds d).any (fun id => f.has c.sha1 id)

/-- The second call of `putData`, for the payload: whether it fails. -/
def payloadFails (r : Resources) (header : PutResult) (data : List UInt8) : Bool :=
  if 0 < header.remaining then
    let payload := putData c.parse c.path false header.state (data.drop header.putLen.toNat)
      header.remaining
    !r.written || payload.putLen < 0 || payload.remaining ≠ 0
  else false

/-- The first call of `putData`, for the metadata. It looks at the length before it looks at a byte:
one that is too large is refused, whatever the buffer holds. -/
def putHeader (len : UInt64) (buffer : List UInt8) : PutResult :=
  if maxMetadataSize ≤ len.toNat then ⟨createForPutting, -1, metadataPending⟩
  else putData c.parse c.path true createForPutting (buffer.take len.toNat) metadataPending

/-- What is done with the object whose metadata are there. -/
def acceptObject (r : Resources) (s : UdpState) (header : PutResult) (data : List UInt8)
    (d : DataObject) : UdpState × ProtocolEvent :=
  if c.hasParentDataObject s.filter d then (s, .success)
  else if c.isThisNode d then (s, .success)
  else if c.payloadFails r header data then (s, .error)
  else ({ s with events := s.events ++ [.incoming, .received] }, .success)

/-- What follows the entry in the filter, with so many bytes of the buffer. -/
def makeObject (r : Resources) (s : UdpState) (len : UInt64) (buffer : List UInt8) :
    UdpState × ProtocolEvent :=
  if r.created = false then (s, .error)
  else
    let header := c.putHeader len buffer
    if header.putLen < 0 then (s, .error)
    else if header.remaining ≠ len.toNat - header.putLen.toNat then (s, .error)
    else
      match header.state.object with
      -- there are metadata, or else they are pending and the counts differ
      | none => (s, .error)
      | some d => c.acceptObject r s header (buffer.take len.toNat) d

/-- `receiveDataObjectNoControl` -/
def receiveDataObjectNoControl (r : Resources) (s : UdpState) (a : Meeting) :
    UdpState × ProtocolEvent :=
  let (s, received) := c.receiveData s a
  if received.event ≠ .success then (s, received.event)
  else
    let buffer := c.terminated s.filling.buffer
    let s := { s with filling := { s.filling with buffer := buffer } }
    if received.bytes = 0 then (s, .error)
    else if sameSessionNo && s.filling.lastReceivedSeqNo = s.lastValidReceivedSeqNo then
      (s, .success)
    else
      let s := { s with
        lastValidReceivedSessionNo := s.filling.lastReceivedSessionNo
        lastValidReceivedSeqNo := s.filling.lastReceivedSeqNo }
      let session : Key := s.lastValidReceivedSessionNo.val
      if s.filter.has c.sha1 session then (s, .success)
      else
        c.makeObject r { s with filter := s.filter.add c.sha1 session } received.bytes buffer

/-! ## Whole objects -/

/-- The bytes are an object: metadata that can be parsed, and as much payload as they announce. -/
def Whole (data : List UInt8) (d : DataObject) : Prop :=
  data.length < maxMetadataSize ∧ recognized (data.take 7) = true ∧
    ∃ p, FirstClose data p ∧ c.parse (data.take p) = some d ∧
      (data.drop p).length = d.dataLen.toNat

end UdpReceiver

/-- With header only, `putData` reports the whole payload as remaining. -/
theorem putPayload_header (path : CString) {st : Putting} (hst : st.fp = false) (d : DataObject)
    (rest : List UInt8) (putLen : Nat) :
    ∃ st', putPayload path true st d rest putLen = ⟨st', putLen, d.dataLen.toNat⟩ ∧
      st'.object = st.object ∧ st'.fp = false ∧
      (st.finished = false → d.dataLen.toNat ≠ 0 → st'.finished = false) := by
  unfold putPayload
  by_cases hlen : d.dataLen.toNat = 0
  · simp [hst, hlen]
  · simp [hst, hlen]

/-- The payload goes into the file if it is as long as announced. -/
theorem putPayload_all (path : CString) {st : Putting} (hst : st.fp = false) (d : DataObject)
    {data : List UInt8} (hlen : data.length = d.dataLen.toNat) (hpos : 0 < d.dataLen.toNat) :
    ∃ st', putPayload path false st d data 0 = ⟨st', d.dataLen.toNat, 0⟩ := by
  have hne : data ≠ [] := by
    intro h
    rw [h, List.length_nil] at hlen
    omega
  unfold putPayload
  simp only [hst, Bool.false_eq_true, not_false_eq_true, true_and, if_false]
  rw [if_neg (by omega), if_neg hne, if_neg (by omega), if_pos hpos]
  exact ⟨_, rfl⟩

namespace UdpReceiver

variable (c : UdpReceiver)
variable {data : List UInt8} {s : UdpState} {a : Meeting}
variable {len : UInt64} {buffer : List UInt8} {d : Datagram}

theorem headerLoop_fresh (data : List UInt8) :
    LoopSpec c.parse data [] 0 (headerLoop c.parse data [] 0) := by
  refine headerLoop_spec c.parse data [] 0 ?_ (fun h => absurd h (by simp))
  intro p _
  rw [List.take_nil]
  rfl

/-- The loop finds metadata up to the first closing tag. -/
theorem headerLoop_parsed {rest : List UInt8} {d : DataObject} {n : Nat}
    (h : headerLoop c.parse data [] 0 = .parsed d rest n) :
    FirstClose data n ∧ rest = data.drop n ∧ c.parse (data.take n) = some d ∧
      recognized (data.take 7) = true := by
  have hspec := c.headerLoop_fresh data
  rw [h] at hspec
  obtain ⟨p, hfirst, -, hrest, hn, hparse, hrec⟩ := hspec
  rw [List.nil_append] at hfirst hrest hparse hrec
  simp only [List.length_nil, Nat.add_zero, Nat.zero_add] at hn
  rw [hn]
  exact ⟨hfirst, hrest, hparse, hrec⟩

/-- Of a whole object it does find them. -/
theorem headerLoop_of_whole {d : DataObject} (h : c.Whole data d) :
    ∃ n, headerLoop c.parse data [] 0 = .parsed d (data.drop n) n ∧
      (data.drop n).length = d.dataLen.toNat := by
  obtain ⟨-, hrec, p, hfirst, hparse, hlen⟩ := h
  have hspec := c.headerLoop_fresh data
  cases hloop : headerLoop c.parse data [] 0 with
  | error =>
      rw [hloop] at hspec
      rcases hspec with hpass | ⟨q, hq, hnone⟩
      · exact absurd (fun _ => hrec) hpass
      · rw [List.nil_append] at hq hnone
        rw [hfirst.unique hq, hnone] at hparse
        exact nomatch hparse
  | more header n =>
      rw [hloop] at hspec
      have hnone : NoClose data := hspec.2.2.1
      exact absurd hfirst.here (by rw [hnone p hfirst.le]; exact Bool.false_ne_true)
  | parsed d' rest n =>
      obtain ⟨hn, hrest, hparsen, -⟩ := c.headerLoop_parsed hloop
      obtain rfl := hfirst.unique hn
      obtain rfl := Option.some.inj (hparse.symm.trans hparsen)
      exact ⟨p, by rw [hrest], hlen⟩

/-- The first call of `putData`, by the loop. -/
theorem putData_fresh (hne : data ≠ []) (hlt : data.length < maxMetadataSize) :
    putData c.parse c.path true createForPutting data metadataPending =
      match headerLoop c.parse data [] 0 with
      | .error => ⟨createForPutting, -1, metadataPending⟩
      | .more header n => ⟨{ createForPutting with header := header }, n, metadataPending⟩
      | .parsed d rest n =>
          putPayload c.path true { createForPutting with object := some d } d rest n := by
  have hsize : ¬ maxMetadataSize ≤ createForPutting.header.length + data.length := by
    show ¬ maxMetadataSize ≤ 0 + data.length
    omega
  unfold putData
  rw [if_neg hne, if_neg (show ¬ createForPutting.finished = true from Bool.false_ne_true)]
  show (if maxMetadataSize ≤ createForPutting.header.length + data.length then _ else _) = _
  rw [if_neg hsize]
  rfl

/-- `putData` on the bytes of a whole object. -/
theorem putData_of_whole {d : DataObject} (h : c.Whole data d) :
    ∃ st n, putData c.parse c.path true createForPutting data metadataPending =
        ⟨st, (n : Nat), d.dataLen.toNat⟩ ∧ (data.drop n).length = d.dataLen.toNat ∧
      st.object = some d ∧ st.fp = false ∧ (d.dataLen.toNat ≠ 0 → st.finished = false) := by
  obtain ⟨n, hloop, hlen⟩ := c.headerLoop_of_whole h
  have hne : data ≠ [] := by
    rintro rfl
    obtain ⟨-, -, p, hfirst, -⟩ := h
    exact absurd (Nat.le_trans hfirst.nine_le hfirst.le) (by simp)
  obtain ⟨st, hput, hobject, hfp, hfinished⟩ := @putPayload_header c.path
    { createForPutting with object := some d } rfl d (data.drop n) n
  refine ⟨st, n, ?_, hlen, hobject, hfp, hfinished rfl⟩
  rw [c.putData_fresh hne h.1, hloop]
  exact hput

/-- On other bytes it fails, or leaves counts that do not fit. -/
theorem putData_of_not_whole (hne : data ≠ []) (h : ∀ d, ¬ c.Whole data d) :
    ∃ result, putData c.parse c.path true createForPutting data metadataPending = result ∧
      (result.putLen < 0 ∨ result.remaining ≠ data.length - result.putLen.toNat) := by
  by_cases hlt : data.length < maxMetadataSize
  · rw [c.putData_fresh hne hlt]
    cases hloop : headerLoop c.parse data [] 0 with
    | error => exact ⟨_, rfl, Or.inl (show (-1 : Int) < 0 by decide)⟩
    | more header n =>
        refine ⟨_, rfl, Or.inr ?_⟩
        show metadataPending ≠ data.length - (n : Int).toNat
        unfold maxMetadataSize at hlt
        unfold metadataPending
        omega
    | parsed d rest n =>
        obtain ⟨hfirst, hrest, hparse, hrec⟩ := c.headerLoop_parsed hloop
        obtain ⟨st, hput, -⟩ := @putPayload_header c.path
          { createForPutting with object := some d } rfl d rest n
        refine ⟨_, hput, Or.inr (fun hcounts => h d ⟨hlt, hrec, n, hfirst, hparse, ?_⟩)⟩
        rw [List.length_drop]
        exact hcounts.symm
  · refine ⟨⟨createForPutting, -1, metadataPending⟩, ?_, Or.inl (show (-1 : Int) < 0 by decide)⟩
    unfold putData
    rw [if_neg hne, if_neg (show ¬ createForPutting.finished = true from Bool.false_ne_true)]
    exact if_pos (show maxMetadataSize ≤ 0 + data.length by omega)

/-- The payload of a whole object is put if there is a file for it. -/
theorem payloadFails_of_whole {d : DataObject} (r : Resources) {st : Putting} {n : Nat}
    (hlen : (data.drop n).length = d.dataLen.toNat) (hobject : st.object = some d)
    (hfp : st.fp = false) (hfinished : d.dataLen.toNat ≠ 0 → st.finished = false) :
    c.payloadFails r ⟨st, (n : Nat), d.dataLen.toNat⟩ data =
      (decide (0 < d.dataLen.toNat) && !r.written) := by
  unfold payloadFails
  by_cases hpos : 0 < d.dataLen.toNat
  · rw [if_pos hpos, decide_eq_true hpos, Bool.true_and]
    obtain ⟨st', hput⟩ := putPayload_all c.path hfp d hlen hpos
    have hne : data.drop n ≠ [] := by
      intro h
      rw [h, List.length_nil] at hlen
      omega
    have hcall : putData c.parse c.path false st (data.drop (n : Int).toNat) d.dataLen.toNat =
        ⟨st', d.dataLen.toNat, 0⟩ := by
      unfold putData
      rw [Int.toNat_natCast, if_neg hne,
        if_neg (by rw [hfinished (by omega)]; exact Bool.false_ne_true),
        hobject]
      exact hput
    simp only [hcall]
    simp
  · rw [if_neg hpos, decide_eq_false hpos, Bool.false_and]

/-- There is something to make an object of, and it is made or need not be. -/
def Makes (r : Resources) (f : NodeFilter) (data : List UInt8) : Prop :=
  r.created = true ∧ ∃ d, c.Whole data d ∧
    (c.hasParentDataObject f d = true ∨ c.isThisNode d = true ∨ d.dataLen.toNat = 0 ∨
      r.written = true)

/-- Whatever comes of it, the filter stays as it is. -/
theorem makeObject_filter (r : Resources) (s : UdpState) (len : UInt64) (buffer : List UInt8) :
    (c.makeObject r s len buffer).1.filter = s.filter := by
  unfold makeObject acceptObject
  dsimp only
  split
  · rfl
  · split
    · rfl
    · split
      · rfl
      · split
        · rfl
        · split
          · rfl
          · split
            · rfl
            · split <;> rfl

/-- A length that is too large is an error, whatever the buffer holds. -/
theorem makeObject_of_large (r : Resources) (s : UdpState) (h : maxMetadataSize ≤ len.toNat)
    (buffer : List UInt8) : c.makeObject r s len buffer = (s, .error) := by
  have hheader : c.putHeader len buffer = ⟨createForPutting, -1, metadataPending⟩ := by
    unfold putHeader
    exact if_pos h
  unfold makeObject
  simp only [hheader]
  split <;> rfl

/-- Otherwise it is about the bytes that were received. -/
theorem putHeader_eq (hdata : buffer.take len.toNat = data) (hlen : data.length = len.toNat)
    (hne : data ≠ []) :
    c.putHeader len buffer = putData c.parse c.path true createForPutting data metadataPending := by
  unfold putHeader
  by_cases hlarge : maxMetadataSize ≤ len.toNat
  · rw [if_pos hlarge]
    unfold putData
    rw [if_neg hne, if_neg (show ¬ createForPutting.finished = true from Bool.false_ne_true)]
    exact (if_pos (show maxMetadataSize ≤ 0 + data.length by omega)).symm
  · rw [if_neg hlarge, hdata]

/-- Making the object fails exactly if there is none to make. -/
theorem makeObject_error_iff (r : Resources) (s : UdpState) (hdata : buffer.take len.toNat = data)
    (hlen : data.length = len.toNat) (hne : data ≠ []) :
    (c.makeObject r s len buffer).2 = .error ↔ ¬ c.Makes r s.filter data := by
  unfold makeObject Makes
  by_cases hcreated : r.created = false
  · rw [if_pos hcreated]
    exact iff_of_true rfl (fun h => absurd h.1 (by rw [hcreated]; exact Bool.false_ne_true))
  rw [if_neg hcreated, and_iff_right (Bool.not_eq_false _ ▸ hcreated),
    c.putHeader_eq hdata hlen hne, hdata]
  by_cases hwhole : ∃ d, c.Whole data d
  · obtain ⟨d, hd⟩ := hwhole
    obtain ⟨st, n, hput, hrest, hobject, hfp, hfinished⟩ := c.putData_of_whole hd
    have hcounts : ¬ d.dataLen.toNat ≠ len.toNat - (n : Int).toNat := by
      rw [List.length_drop, hlen] at hrest
      rw [Int.toNat_natCast, hrest]
      exact not_not_intro rfl
    -- the header can be cut off in one way only, and so gives one object
    have hunique : ∀ d', c.Whole data d' → d' = d := by
      rintro d' ⟨-, -, q, hq, hparse', -⟩
      obtain ⟨-, -, p, hp, hparse, -⟩ := hd
      rw [hq.unique hp, hparse] at hparse'
      exact (Option.some.inj hparse').symm
    simp only [hput, hobject]
    rw [if_neg (by omega), if_neg hcounts]
    have hmade : (∃ d', c.Whole data d' ∧ (c.hasParentDataObject s.filter d' = true ∨
          c.isThisNode d' = true ∨ d'.dataLen.toNat = 0 ∨ r.written = true)) ↔
        (c.hasParentDataObject s.filter d = true ∨ c.isThisNode d = true ∨ d.dataLen.toNat = 0 ∨
          r.written = true) :=
      ⟨fun ⟨d', hd', h⟩ => hunique d' hd' ▸ h, fun h => ⟨d, hd, h⟩⟩
    rw [hmade, acceptObject, c.payloadFails_of_whole r hrest hobject hfp hfinished]
    by_cases hparent : c.hasParentDataObject s.filter d = true
    · rw [if_pos hparent]
      exact iff_of_false ProtocolEvent.noConfusion (not_not_intro (Or.inl hparent))
    -- the checks in the order of the source
    rw [if_neg hparent]
    by_cases hthis : c.isThisNode d = true
    · rw [if_pos hthis]
      exact iff_of_false ProtocolEvent.noConfusion (not_not_intro (Or.inr (Or.inl hthis)))
    rw [if_neg hthis]
    by_cases hput : d.dataLen.toNat = 0 ∨ r.written = true
    · rw [if_neg (by rcases hput with h | h <;> simp [h])]
      exact iff_of_false ProtocolEvent.noConfusion (not_not_intro (Or.inr (Or.inr hput)))
    · rw [if_pos (by simp only [not_or] at hput; simp [hput, Nat.pos_iff_ne_zero])]
      exact iff_of_true rfl (by tauto)
  · obtain ⟨result, hput, hbad⟩ := c.putData_of_not_whole hne (fun d hd => hwhole ⟨d, hd⟩)
    refine iff_of_true ?_ (fun ⟨d, hd, _⟩ => hwhole ⟨d, hd⟩)
    rw [hlen] at hbad
    simp only [hput]
    by_cases hneg : result.putLen < 0
    · rw [if_pos hneg]
    · rw [if_neg hneg, if_pos (hbad.resolve_left hneg)]

/-- It fails with an error and in no other way. -/
theorem makeObject_event (r : Resources) (s : UdpState) (len : UInt64) (buffer : List UInt8) :
    (c.makeObject r s len buffer).2 = .error ∨ (c.makeObject r s len buffer).2 = .success := by
  unfold makeObject acceptObject
  dsimp only
  split
  · exact Or.inl rfl
  · split
    · exact Or.inl rfl
    · split
      · exact Or.inl rfl
      · split
        · exact Or.inl rfl
        · split
          · exact Or.inr rfl
          · split
            · exact Or.inr rfl
            · split
              · exact Or.inl rfl
              · exact Or.inr rfl

/-! ## What a reception depends on -/

/-- What making an object adds to the events depends on the filter only. -/
theorem makeObject_events (r : Resources) (f : NodeFilter) (len : UInt64) (buffer : List UInt8) :
    ∃ raised, ∀ s : UdpState, s.filter = f →
      (c.makeObject r s len buffer).1.events = s.events ++ raised := by
  have hquiet : ∀ s : UdpState, s.events = s.events ++ [] := fun s => (List.append_nil _).symm
  unfold makeObject acceptObject
  dsimp only
  split
  · exact ⟨[], fun s _ => hquiet s⟩
  · split
    · exact ⟨[], fun s _ => hquiet s⟩
    · split
      · exact ⟨[], fun s _ => hquiet s⟩
      · split
        · exact ⟨[], fun s _ => hquiet s⟩
        · next d _ =>
          by_cases hknown : c.hasParentDataObject f d = true
          · exact ⟨[], fun s hs => by rw [hs, if_pos hknown]; exact hquiet s⟩
          · split
            · refine ⟨[], fun s hs => ?_⟩
              rw [hs, if_neg hknown]
              exact hquiet s
            · split
              · refine ⟨[], fun s hs => ?_⟩
                rw [hs, if_neg hknown]
                exact hquiet s
              · refine ⟨[.incoming, .received], fun s hs => ?_⟩
                rw [hs, if_neg hknown]

/-- The datagram gets to the filter: something is counted of it, and it is not refused. -/
def Delivered (s : UdpState) (a : Meeting) (d : Datagram) : Prop :=
  a.readEnd = .datagram d ∧ d.bytes ≠ [] ∧ 0 < UdpProtocol.count d c.protocol.bufferSize ∧
    ¬ c.protocol.Refused s.filling a d c.protocol.bufferSize

/-- The session that its header names. -/
def session (d : Datagram) : Key := (d.message c.protocol.bufferSize).sessionNo.val

/-- What the buffer holds of a payload; its last byte is made zero. -/
def buffered (d : Datagram) : List UInt8 :=
  c.terminated ((d.bytes.drop udpmsgSize).take c.protocol.bufferSize)

/-- **Nothing is delivered**: an error, and all that it leaves behind is in the protocol. -/
theorem receive_of_none (r : Resources) (h : ∀ d, ¬ c.Delivered s a d) :
    ∃ f e, c.receiveDataObjectNoControl r s a = ({ s with filling := f }, e) ∧ e ≠ .success ∧
      (s.filling.peerNode = true → f.peerNode = true) := by
  have hfailed : (c.protocol.receiveData s.filling a c.protocol.bufferSize).2.event ≠ .success := by
    rcases UdpProtocol.receiveData_cases (p := c.protocol) s.filling a c.protocol.bufferSize with
      ⟨hne, -⟩ | ⟨d, hread, hbytes, hpos, -, -, ⟨herror, -⟩ | ⟨-, hrefused⟩⟩
    · exact hne
    · rw [herror]
      exact nofun
    · exact absurd ⟨hread, hbytes, hpos, hrefused⟩ (h d)
  unfold receiveDataObjectNoControl receiveData
  dsimp only
  rw [if_pos hfailed]
  exact ⟨_, _, rfl, hfailed, fun hnode => UdpProtocol.receiveData_peerNode hnode _ _⟩

/-- **A datagram is delivered**: the filter is asked for its session. -/
theorem receive_of_delivered (r : Resources) (h : c.Delivered s a d) :
    ∃ f seqNo buffer, (s.filling.peerNode = true → f.peerNode = true) ∧
      (udpmsgSize ≤ d.bytes.length →
        buffer.take (UdpProtocol.count d c.protocol.bufferSize).toNat = c.buffered d) ∧
      c.receiveDataObjectNoControl r s a =
        let t := { s with
          filling := f
          lastValidReceivedSessionNo := (d.message c.protocol.bufferSize).sessionNo
          lastValidReceivedSeqNo := seqNo }
        if s.filter.has c.sha1 (c.session d) then (t, .success)
        else
          c.makeObject r { t with filter := s.filter.add c.sha1 (c.session d) }
            (UdpProtocol.count d c.protocol.bufferSize) buffer := by
  obtain ⟨hread, hbytes, hpos, hrefused⟩ := h
  -- what comes before the session is looked at is `receiveData` and its guards
  obtain ⟨node, hnode, hcalled⟩ :=
    @UdpProtocol.receiveData_message c.protocol s.filling a d _ hread hbytes hpos
  have hevent : ¬ ((d.message c.protocol.bufferSize).srcIP = c.protocol.srcIP ∨
      a.peerIface = false ∨ UdpProtocol.hasPeerNode s.filling a = false) := hrefused
  have hcount := UInt64.pos_iff_ne_zero.mp hpos
  obtain ⟨written, hwritten⟩ :
      ∃ w, w = slice (d.newBuff c.protocol.bufferSize) udpmsgSize c.protocol.bufferSize := ⟨_, rfl⟩
  rw [← hwritten] at hcalled
  refine ⟨{ s.filling with
    buffer := c.terminated (written ++ s.filling.buffer.drop written.length)
    lastReceivedSessionNo := (d.message c.protocol.bufferSize).sessionNo
    lastReceivedSeqNo := (d.message c.protocol.bufferSize).seqNo
    peerNode := node }, (d.message c.protocol.bufferSize).seqNo,
    c.terminated (written ++ s.filling.buffer.drop written.length), hnode, ?_, ?_⟩
  · intro hlong
    have hlen := @UdpProtocol.toNat_count_of_header d c.protocol.bufferSize hlong
    have hlength : written.length = c.protocol.bufferSize := by
      rw [hwritten, length_slice, d.length_newBuff]
      omega
    unfold buffered terminated
    rw [hlen, List.take_set, List.take_append_of_le_length (by rw [hlength]; omega), hwritten,
      UdpProtocol.take_written hlong]
  · unfold receiveDataObjectNoControl receiveData
    simp only [hcalled, if_neg hevent, ne_eq, not_true_eq_false, if_false, hcount, sameSessionNo,
      Bool.false_and, Bool.false_eq_true]
    rfl

/-- Whether a datagram is delivered depends on the peer's node only. -/
theorem Delivered.mono {c : UdpReceiver} {t : UdpState} (h : c.Delivered s a d)
    (hnode : s.filling.peerNode = true → t.filling.peerNode = true) : c.Delivered t a d := by
  obtain ⟨hread, hbytes, hpos, hrefused⟩ := h
  refine ⟨hread, hbytes, hpos, fun hcon => hrefused ?_⟩
  rcases hcon with hsrc | hiface | hnone
  · exact Or.inl hsrc
  · exact Or.inr (Or.inl hiface)
  · refine Or.inr (Or.inr ?_)
    unfold UdpProtocol.hasPeerNode at hnone ⊢
    cases hs : s.filling.peerNode with
    | true => simp [hnode hs] at hnone
    | false =>
        rw [Bool.or_eq_false_iff, Bool.or_eq_false_iff] at hnone
        simp [hnone.1.1, hnone.2]

/-- A datagram that is shorter than the header has a length that no object has. -/
theorem count_large {len : Nat} (h : d.bytes.length < udpmsgSize) :
    maxMetadataSize ≤ (UdpProtocol.count d len).toNat := by
  rw [UdpProtocol.toNat_count_of_short h, maxMetadataSize]
  rw [udpmsgSize] at h ⊢
  omega

/-- Making an object of the buffer is making one of the bytes that were received. -/
theorem makeObject_congr (r : Resources) (s : UdpState) {buffer' : List UInt8}
    (h : buffer.take len.toNat = buffer'.take len.toNat) :
    c.makeObject r s len buffer = c.makeObject r s len buffer' := by
  unfold makeObject putHeader
  rw [h]

/-! ## Failures that can be made good -/

/-- The object is announced and received. -/
def Accepted (r : Resources) (s : UdpState) (a : Meeting) : Prop :=
  (c.receiveDataObjectNoControl r s a).1.events = s.events ++ [.incoming, .received]

/-- What is accepted depends on the filter, and on the peer's node. -/
theorem Accepted.congr {c : UdpReceiver} {r : Resources} {t : UdpState} (h : c.Accepted r s a)
    (hfilter : t.filter = s.filter) (hnode : s.filling.peerNode = true → t.filling.peerNode = true)
    : c.Accepted r t a := by
  unfold Accepted at h ⊢
  by_cases hsome : ∃ d, c.Delivered s a d
  · obtain ⟨d, hd⟩ := hsome
    obtain ⟨f, n, buffer, -, hbuffer, hs⟩ := c.receive_of_delivered r hd
    obtain ⟨f', n', buffer', -, hbuffer', ht⟩ := c.receive_of_delivered r (hd.mono hnode)
    rw [hs] at h
    rw [ht]
    simp only [hfilter] at h ⊢
    by_cases hhas : s.filter.has c.sha1 (c.session d) = true
    · rw [if_pos hhas] at h
      simp at h
    rw [if_neg hhas] at h ⊢
    have hsame : ∀ u : UdpState,
        c.makeObject r u (UdpProtocol.count d c.protocol.bufferSize) buffer' =
          c.makeObject r u (UdpProtocol.count d c.protocol.bufferSize) buffer := by
      intro u
      rcases Nat.lt_or_ge d.bytes.length udpmsgSize with hshort | hlong
      · rw [c.makeObject_of_large r u (count_large hshort),
          c.makeObject_of_large r u (count_large hshort)]
      · exact c.makeObject_congr r u ((hbuffer' hlong).trans (hbuffer hlong).symm)
    obtain ⟨raised, hraised⟩ := c.makeObject_events r (s.filter.add c.sha1 (c.session d))
      (UdpProtocol.count d c.protocol.bufferSize) buffer
    rw [hraised _ rfl, List.append_cancel_left_eq] at h
    rw [hsame, hraised _ rfl, h]
  · obtain ⟨f, e, hs, -⟩ := c.receive_of_none r (fun d hd => hsome ⟨d, hd⟩)
    rw [hs] at h
    simp at h

/--
A reception that fails leaves the filter reporting what it did, and whatever would have been
accepted before is accepted after.
-/
def Retryable (r : Resources) (s : UdpState) (a : Meeting) : Prop :=
  (c.receiveDataObjectNoControl r s a).2 ≠ .success →
    (∀ key, (c.receiveDataObjectNoControl r s a).1.filter.has c.sha1 key =
      s.filter.has c.sha1 key) ∧
    ∀ r' a', c.Accepted r' s a' → c.Accepted r' (c.receiveDataObjectNoControl r s a).1 a'

/--
The datagram is not delivered, or is of a session the filter reports, or it has a whole header and
there is something to make of it.
-/
def Kept (r : Resources) (s : UdpState) (a : Meeting) : Prop :=
  ∀ d, c.Delivered s a d → s.filter.has c.sha1 (c.session d) = false →
    udpmsgSize ≤ d.bytes.length ∧
      c.Makes r (s.filter.add c.sha1 (c.session d)) (c.buffered d)

/-- A datagram of a new session enters it, and fails exactly if there is no object to make of it. -/
theorem receive_new (r : Resources) (hd : c.Delivered s a d)
    (hnew : s.filter.has c.sha1 (c.session d) = false) :
    (c.receiveDataObjectNoControl r s a).1.filter = s.filter.add c.sha1 (c.session d) ∧
      ((c.receiveDataObjectNoControl r s a).2 ≠ .success ↔
        ¬ (udpmsgSize ≤ d.bytes.length ∧
          c.Makes r (s.filter.add c.sha1 (c.session d)) (c.buffered d))) := by
  obtain ⟨f, n, buffer, -, hbuffer, hs⟩ := c.receive_of_delivered r hd
  rw [hs]
  simp only [hnew, Bool.false_eq_true, if_false]
  generalize hstate : ({ s with
    filling := f
    filter := s.filter.add c.sha1 (c.session d)
    lastValidReceivedSessionNo := (d.message c.protocol.bufferSize).sessionNo
    lastValidReceivedSeqNo := n } : UdpState) = t
  have hfilter : t.filter = s.filter.add c.sha1 (c.session d) := by rw [← hstate]
  refine ⟨(c.makeObject_filter r t _ buffer).trans hfilter, ?_⟩
  have hevent : (c.makeObject r t (UdpProtocol.count d c.protocol.bufferSize) buffer).2 ≠ .success ↔
      (c.makeObject r t (UdpProtocol.count d c.protocol.bufferSize) buffer).2 = .error := by
    rcases c.makeObject_event r t (UdpProtocol.count d c.protocol.bufferSize) buffer with h | h
    · rw [h]
      decide
    · rw [h]
      decide
  rw [hevent]
  rcases Nat.lt_or_ge d.bytes.length udpmsgSize with hshort | hlong
  · -- the length wraps around, and `putData` does not take it
    rw [c.makeObject_of_large r t (count_large hshort)]
    exact iff_of_true rfl (fun hcon => absurd hcon.1 (Nat.not_le.mpr hshort))
  · have hlength : (c.buffered d).length = (UdpProtocol.count d c.protocol.bufferSize).toNat := by
      rw [UdpProtocol.toNat_count_of_header hlong, buffered, terminated, List.length_set,
        List.length_take, List.length_drop, Nat.min_comm]
    have hne : c.buffered d ≠ [] := by
      intro hnil
      have hpos := UInt64.lt_iff_toNat_lt.mp hd.2.2.1
      rw [← hlength, hnil, UInt64.toNat_zero] at hpos
      exact absurd hpos (Nat.lt_irrefl 0)
    rw [c.makeObject_error_iff r t (hbuffer hlong) hlength hne, hfilter, and_iff_right hlong]

/-- If there is none, the filter reports what was not received. -/
theorem not_retryable (r : Resources) (hd : c.Delivered s a d)
    (hnew : s.filter.has c.sha1 (c.session d) = false) (hlost : ¬ (udpmsgSize ≤ d.bytes.length ∧
      c.Makes r (s.filter.add c.sha1 (c.session d)) (c.buffered d))) : ¬ c.Retryable r s a := by
  intro h
  obtain ⟨hfilter, hfails⟩ := c.receive_new r hd hnew
  have hkey := (h (hfails.mpr hlost)).1 (c.session d)
  rw [hfilter, NodeFilter.has_add_self, hnew] at hkey
  cases hkey

/--
**A failed reception can be made good exactly if it fails before the filter is asked.** For every
datagram, in every state of the node: the node's filter is the same after an error, and a later
intact copy is accepted, exactly if the datagram does not get to the filter, the filter knows its
session, or it has a whole header and an object can be made of it.
-/
theorem retryable_iff (r : Resources) (s : UdpState) (a : Meeting) :
    c.Retryable r s a ↔ c.Kept r s a := by
  by_cases hsome : ∃ d, c.Delivered s a d
  swap
  · -- nothing gets to the filter
    obtain ⟨f, e, hs, -, hnode⟩ := c.receive_of_none r (fun d hd => hsome ⟨d, hd⟩)
    refine iff_of_true (fun _ => ?_) (fun d hd => absurd ⟨d, hd⟩ hsome)
    rw [hs]
    exact ⟨fun _ => rfl, fun r' a' h => h.congr rfl hnode⟩
  obtain ⟨d, hd⟩ := hsome
  have honly : ∀ d', c.Delivered s a d' → d' = d := fun d' hd' =>
    ReadEnd.datagram.inj (hd'.1.symm.trans hd.1)
  have hkept : c.Kept r s a ↔ (s.filter.has c.sha1 (c.session d) = false →
      udpmsgSize ≤ d.bytes.length ∧
        c.Makes r (s.filter.add c.sha1 (c.session d)) (c.buffered d)) :=
    ⟨fun h => h d hd, fun h d' hd' => honly d' hd' ▸ h⟩
  rw [hkept]
  cases hnew : s.filter.has c.sha1 (c.session d) with
  | true =>
      -- the filter knows the session, and there is no error
      obtain ⟨f, n, buffer, -, -, hs⟩ := c.receive_of_delivered r hd
      refine iff_of_true (fun hfails => absurd ?_ hfails) nofun
      rw [hs]
      simp only [hnew, if_true]
  | false =>
      rw [forall_prop_of_true rfl]
      constructor
      · intro h
        by_contra hlost
        exact c.not_retryable r hd hnew hlost h
      · exact fun hmakes hfails => absurd hmakes ((c.receive_new r hd hnew).2.mp hfails)

end UdpReceiver

/-- A protocol on a node with the address 127.0.0.1, with a digest that is always zero. -/
def plainReceiver : UdpReceiver where
  protocol := udpUnicast
  pos := by decide
  sha1 := fun _ => Vector.replicate 5 0
  parse := fun _ => none
  path := []
  parentIds := fun _ => []
  isThisNode := fun _ => false

theorem geometry_eight : Geometry 8 := ⟨by decide, by decide, by decide⟩

/-- A node that has nothing, with a filter of eight bins. -/
def emptyState : UdpState where
  filling := UdpProtocol.initial []
  filter := ⟨⟨1, 8, 0, Vector.replicate _ 0, Vector.replicate _ 0⟩, geometry_eight⟩
  lastValidReceivedSessionNo := ⟨List.replicate 20 0, UdpProtocol.length_noSessionNo⟩
  lastValidReceivedSeqNo := -1
  events := []

/-- A header, and the first byte of an object. -/
def cutOffBytes : List UInt8 := List.replicate 16 2 ++ List.replicate 20 7 ++ [0, 0, 0, 0, 60]

theorem cutOff_fits : cutOffBytes.length < 2 ^ 63 := by decide

/-- It comes from a peer that is known. -/
def cutOff : Meeting := ⟨.datagram ⟨cutOffBytes, cutOff_fits⟩, true, true, true⟩

/--
The reception of the cut-off object fails, and the filter reports the object after it. So does that
of a single byte, and the filter reports an id of zeros.
-/
theorem cutOff_not_retryable :
    ¬ plainReceiver.Retryable ⟨true, true⟩ emptyState cutOff ∧
      ¬ plainReceiver.Retryable ⟨true, true⟩ emptyState runt.meeting := by
  constructor
  · refine plainReceiver.not_retryable _ (d := ⟨cutOffBytes, cutOff_fits⟩)
      ⟨rfl, by decide, by decide +kernel, ?_⟩ (by decide +kernel) ?_
    · rintro (hsrc | hiface | hnode)
      · exact absurd hsrc (by decide +kernel)
      · cases hiface
      · cases hnode
    · rintro ⟨-, -, d, ⟨-, -, p, -, hparse, -⟩, -⟩
      cases hparse
  · refine plainReceiver.not_retryable _ (d := ⟨[60], oneByte_fits⟩)
      ⟨rfl, by decide, by decide +kernel, ?_⟩ (by decide +kernel) ?_
    · rintro (hsrc | hiface | hnode)
      · exact absurd hsrc (by decide +kernel)
      · cases hiface
      · cases hnode
    · exact fun hcon => absurd hcon.1 (by decide)

end Encoders.Protocol
