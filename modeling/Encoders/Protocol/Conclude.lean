import Encoders.Protocol.Receive

/-!
# Every announced reception is concluded

`receiveDataObject` announces an object with an INCOMING event, and ends with a RECEIVED
event if the object is complete, or with a DELETED event. In between a message may be
ignored, the object may be rejected and every error leads to the same cleanup, so no path
forgets the conclusion.

One path does not get there. A node description is turned into a node to see whether it is
an application's, and `Node::create` may have returned `NULL`. What arrives from the network
decides that. `receiveDataObject_concludes_iff` says that nothing else goes wrong.
-/

namespace Encoders.Protocol

open Encoders.Lib Encoders.Data

variable {parse : CString → Option DataObject}

/-! ## What `putData` has done so far -/

/-- The object is the one that was parsed, up to where its file is. -/
structure SameObject (d o : DataObject) : Prop where
  metadata : o.metadata = d.metadata
  isNodeDesc : o.isNodeDesc = d.isNodeDesc

theorem SameObject.refl (d : DataObject) : SameObject d d := ⟨rfl, rfl⟩

theorem SameObject.trans {a b d : DataObject} (h : SameObject a b) (h' : SameObject b d) :
    SameObject a d :=
  ⟨h'.metadata.trans h.metadata, h'.isNodeDesc.trans h.isNodeDesc⟩

/-- The bytes written are what the metadata announce, less those that are left. -/
def Progress (d : DataObject) (st : Putting) : Prop :=
  if st.finished then st.written.length = d.dataLen.toNat
  else st.fp = true ∧ 0 < st.bytesLeft ∧ st.written.length + st.bytesLeft = d.dataLen.toNat

/-- Nothing is written before the metadata are there. -/
def Shaped (parse : CString → Option DataObject) (st : Putting) : Prop :=
  match st.object with
  | none => st.fp = false ∧ st.finished = false ∧ st.written = []
  | some o => ∃ header d, parse header = some d ∧ SameObject d o ∧ Progress d st

/-- What a call of `putData` leaves of an object. -/
structure PutOn (parse : CString → Option DataObject) (st : Putting) (r : PutResult) : Prop where
  shaped : Shaped parse r.state
  finished : r.remaining = 0 → r.state.finished = true
  parsed : r.remaining ≠ metadataPending → r.state.object ≠ none
  same : ∀ o, st.object = some o → ∃ o', r.state.object = some o' ∧ SameObject o o'

theorem sameObject_restore (o : DataObject) : SameObject o (restoreEncryptedDataObject o) := by
  unfold restoreEncryptedDataObject
  split <;> exact ⟨rfl, rfl⟩

/-- The payload, with the file open or to be opened. -/
theorem putPayload_spec {parse : CString → Option DataObject} (path : CString) {st : Putting}
    {header : CString} {d o : DataObject} {data : List UInt8} (putLen : Nat)
    (hparse : parse header = some d) (hsame : SameObject d o) (hobject : st.object = some o)
    (hopen : st.finished = false)
    (hstart : (st.fp = false ∧ st.written = [] ∧ o.dataLen = d.dataLen) ∨
      (data ≠ [] ∧ Progress d st)) :
    PutOn parse st (putPayload path false st o data putLen) := by
  -- what is to be shown of each way out is the same, but for how far the payload is
  have hkeep : ∀ (t : PutResult) (o' : DataObject), t.state.object = some o' → SameObject o o' →
      Progress d t.state → (t.remaining = 0 → t.state.finished = true) → PutOn parse st t := by
    intro t o' ht ho' hprogress hfinished
    refine ⟨?_, hfinished, fun _ hnone => ?_, ?_⟩
    · unfold Shaped
      rw [ht]
      exact ⟨header, d, hparse, hsame.trans ho', hprogress⟩
    · rw [ht] at hnone
      cases hnone
    · intro o₁ ho₁
      rw [hobject, Option.some.injEq] at ho₁
      exact ⟨o', ht, ho₁ ▸ ho'⟩
  have hpath : SameObject o { o with filepath := path } := ⟨rfl, rfl⟩
  unfold putPayload
  cases hfp : st.fp with
  | false =>
      obtain ⟨_, hwritten, hlen⟩ | ⟨_, hprogress⟩ := hstart
      · simp only [Bool.false_eq_true, not_false_eq_true, true_and, if_false]
        -- no payload at all; none in this call; some but not all; all that was missing
        by_cases hzero : o.dataLen.toNat = 0
        · rw [if_pos hzero]
          refine hkeep _ o hobject (SameObject.refl o) ?_ (fun _ => rfl)
          unfold Progress
          rw [if_pos rfl, ← hlen, hzero, hwritten]
          rfl
        rw [if_neg hzero]
        by_cases hdata : data = []
        · rw [if_pos hdata]
          refine hkeep _ _ rfl hpath ?_ (fun hrem => absurd hrem hzero)
          unfold Progress
          simp only [hopen, Bool.false_eq_true, if_false, true_and]
          rw [hwritten, ← hlen]
          exact ⟨by omega, by simp⟩
        rw [if_neg hdata]
        by_cases hshort : data.length < o.dataLen.toNat
        · rw [if_pos hshort]
          refine hkeep _ _ rfl hpath ?_ (fun hrem => ?_)
          · unfold Progress
            simp only [hopen, Bool.false_eq_true, if_false, true_and]
            rw [hwritten, ← hlen, List.nil_append]
            omega
          · have hrem' : o.dataLen.toNat - data.length = 0 := hrem
            omega
        · rw [if_neg hshort, if_pos (by omega)]
          refine hkeep _ _ rfl (hpath.trans (sameObject_restore _)) ?_ (fun _ => rfl)
          unfold Progress
          rw [if_pos rfl, hwritten, List.nil_append, List.length_take, ← hlen]
          omega
      · unfold Progress at hprogress
        rw [if_neg (by rw [hopen]; simp)] at hprogress
        rw [hfp] at hprogress
        cases hprogress.1
  | true =>
      obtain ⟨hno, _⟩ | ⟨hdata, hprogress⟩ := hstart
      · rw [hfp] at hno
        cases hno
      unfold Progress at hprogress
      rw [if_neg (by rw [hopen]; simp)] at hprogress
      obtain ⟨_, hleft, hsum⟩ := hprogress
      simp only [not_true_eq_false, false_and, if_false, if_true, if_neg hdata]
      -- the file is open, and what comes is written behind what is there
      by_cases hshort : data.length < st.bytesLeft
      · rw [if_pos hshort]
        refine hkeep _ _ rfl (SameObject.refl o) ?_ (fun hrem => ?_)
        · unfold Progress
          simp only [hopen, Bool.false_eq_true, if_false, true_and, List.length_append]
          omega
        · have hrem' : st.bytesLeft - data.length = 0 := hrem
          omega
      · rw [if_neg hshort, if_pos hleft]
        refine hkeep _ _ rfl (sameObject_restore _) ?_ (fun _ => rfl)
        unfold Progress
        rw [if_pos rfl, List.length_append, List.length_take]
        omega

/-- What the loop over the header hands on was parsed. -/
theorem headerLoop_parses {o : DataObject} {rest : List UInt8} {n : Nat} :
    ∀ (data : List UInt8) (header : CString) (putLen : Nat),
    headerLoop parse data header putLen = .parsed o rest n → ∃ h, parse h = some o
  | [], _, _, h => by
      rw [headerLoop] at h
      cases h
  | b :: data, header, putLen, h => by
      unfold headerLoop at h
      simp only at h
      split at h
      · cases h
      · split at h
        · split at h
          · cases h
          · next hparse =>
              injection h with ho
              exact ⟨_, ho ▸ hparse⟩
        · exact headerLoop_parses data _ _ h

/-- **One call of `putData`.** -/
theorem putData_spec (path : CString) {st : Putting} (data : List UInt8) {remaining : Nat}
    (h : Shaped parse st) (hrem : remaining ≠ 0)
    (hparsed : remaining ≠ metadataPending → st.object ≠ none) :
    PutOn parse st (putData parse path false st data remaining) := by
  have hself : ∀ o, st.object = some o → ∃ o', st.object = some o' ∧ SameObject o o' :=
    fun o ho => ⟨o, ho, SameObject.refl o⟩
  unfold putData
  by_cases hdata : data = []
  · rw [if_pos hdata]
    exact ⟨h, fun h0 => absurd h0 hrem, hparsed, hself⟩
  rw [if_neg hdata]
  by_cases hfin : st.finished = true
  · rw [if_pos hfin]
    refine ⟨h, fun _ => hfin, fun _ hnone => ?_, hself⟩
    unfold Shaped at h
    rw [hnone] at h
    rw [h.2.1] at hfin
    cases hfin
  rw [if_neg hfin]
  rw [Bool.not_eq_true] at hfin
  cases hobject : st.object with
  | some o =>
      unfold Shaped at h
      rw [hobject] at h
      obtain ⟨header, d, hparse, hsame, hprogress⟩ := h
      exact putPayload_spec path 0 hparse hsame hobject hfin (Or.inr ⟨hdata, hprogress⟩)
  | none =>
      unfold Shaped at h
      rw [hobject] at h
      obtain ⟨hfp, _, hwritten⟩ := h
      have hnothing : ∀ o, st.object = some o → False := by
        intro o ho
        rw [hobject] at ho
        cases ho
      -- without an object nothing but the header has changed
      have hwaiting : ∀ (t : Putting) (n : Int), t.object = none → t.fp = st.fp →
          t.finished = st.finished → t.written = st.written →
          PutOn parse st ⟨t, n, metadataPending⟩ := by
        intro t n ht htfp htfin htwritten
        refine ⟨?_, fun h0 => absurd (show metadataPending = 0 from h0) (by decide),
          fun hne => absurd rfl hne, fun o ho => (hnothing o ho).elim⟩
        unfold Shaped
        rw [ht]
        exact ⟨htfp.trans hfp, htfin.trans hfin, htwritten.trans hwritten⟩
      simp only
      by_cases hsize : maxMetadataSize ≤ st.header.length + data.length
      · rw [if_pos hsize]
        exact hwaiting st _ hobject rfl rfl rfl
      rw [if_neg hsize]
      cases hloop : headerLoop parse data st.header 0 with
      | error => exact hwaiting _ _ rfl rfl rfl rfl
      | more header putLen => exact hwaiting _ _ rfl rfl rfl rfl
      | parsed o rest putLen =>
          obtain ⟨header, hparse⟩ := headerLoop_parses data st.header 0 hloop
          have hput := @putPayload_spec parse path { st with header := [], object := some o } header
            o o rest putLen hparse (SameObject.refl o) rfl hfin (Or.inl ⟨hfp, hwritten, rfl⟩)
          exact ⟨hput.shaped, hput.finished, hput.parsed, fun o' ho' => (hnothing o' ho').elim⟩

/-! ## What a reception says -/

/-- No check rejects the object. -/
structure Accepted (c : Receiver) (d : DataObject) : Prop where
  has : c.has d = false
  fragment : c.hasFragmentationParent d = false
  block : c.hasNetworkCodingParent d = false

namespace Receiving

/-- Nothing has been said of the object, or it was announced and nothing more. -/
def Announced (c : Receiver) (s : Receiving) : Prop :=
  if s.incoming then s.events = [.incoming] ∧
    ∃ d o, s.announced = some d ∧ Accepted c d ∧ s.object.object = some o ∧ SameObject d o
  else s.events = [] ∧ s.announced = none

/-- A reception that goes on. -/
structure Going (c : Receiver) (s : Receiving) : Prop where
  open_ : s.ended = none
  shaped : Shaped c.parse s.object
  parsed : s.bytesRemaining ≠ metadataPending → s.object.object ≠ none
  announced : Announced c s
  md : s.incoming = s.md
  created : s.crashed = false

/-- How a reception can end: the four ways differ in what was said last. -/
inductive Ends (c : Receiver) (s : Receiving) : Prop where
  | silent (events : s.events = [])
  | deleted (e : ProtocolEvent) (ended : s.ended = some e) (failed : e ≠ .success)
      (events : s.events = [.incoming, .deleted]) (accepted : ∃ d, s.announced = some d ∧ Accepted c d)
  | received (header : CString) (d a : DataObject) (events : s.events = [.incoming, .received])
      (announced : s.announced = some a) (accepted : Accepted c a)
      (parse : c.parse header = some d) (same : SameObject d a)
      (written : s.object.written.length = d.dataLen.toNat)
  | crashed (crash : s.crashed = true)

/-- A reception that goes on with bytes to come, or has ended. -/
def Inv (c : Receiver) (s : Receiving) : Prop :=
  (Going c s ∧ s.bytesRemaining ≠ 0) ∨ (s.ended ≠ none ∧ Ends c s)

variable {c : Receiver} {s : Receiving}

/-! ### One round -/

/-- The end of the loop, where success means that no bytes are left. -/
theorem Going.finish (h : Going c s) (e : ProtocolEvent)
    (hdone : e = .success → s.incoming = true ∧ s.object.finished = true) :
    Inv c (s.finish e) := by
  refine Or.inr ⟨by rw [finish_ended]; simp, ?_⟩
  have hannounced := h.announced
  unfold Announced at hannounced
  unfold Receiving.finish
  by_cases he : e = .success
  · rw [if_pos he]
    obtain ⟨hincoming, hfinished⟩ := hdone he
    rw [if_pos hincoming] at hannounced
    obtain ⟨hevents, a, o, ha, haccepted, ho, hsame⟩ := hannounced
    -- the node that was not made is asked for its type, before the event
    by_cases hname : s.nameless = true
    · rw [if_pos hname]
      exact Ends.crashed rfl
    · rw [if_neg hname]
      have hshaped := h.shaped
      unfold Shaped at hshaped
      rw [ho] at hshaped
      obtain ⟨header, d, hparse, hdo, hprogress⟩ := hshaped
      unfold Progress at hprogress
      rw [if_pos hfinished] at hprogress
      refine Ends.received header d a ?_ ha haccepted hparse ?_ hprogress
      · show s.events ++ [.received] = _
        rw [hevents]
        rfl
      · exact ⟨hsame.metadata.symm.trans hdo.metadata, hsame.isNodeDesc.symm.trans hdo.isNodeDesc⟩
  · -- an announced object is taken back, and without one nothing was said
    rw [if_neg he]
    by_cases hincoming : s.incoming = true
    · rw [if_pos hincoming] at hannounced ⊢
      obtain ⟨hevents, a, o, ha, haccepted, -⟩ := hannounced
      refine Ends.deleted e rfl he ?_ ⟨a, ha, haccepted⟩
      show s.events ++ [.deleted] = _
      rw [hevents]
      rfl
    · rw [if_neg hincoming] at hannounced ⊢
      exact Ends.silent hannounced.1

/-- The condition of the loop. -/
theorem Going.next (h : Going c s) (e : ProtocolEvent)
    (hdone : s.bytesRemaining = 0 → s.incoming = true ∧ s.object.finished = true) :
    Inv c (s.next e) := by
  unfold Receiving.next
  by_cases hmore : s.bytesRemaining ≠ 0 ∧ e = .success
  · rw [if_pos hmore]
    exact Or.inl ⟨h, hmore.1⟩
  · rw [if_neg hmore]
    refine h.finish e (fun he => hdone ?_)
    by_contra hne
    exact hmore ⟨hne, he⟩

/-- The announcement, or the rejection that takes its place. -/
theorem Going.header (h : Going c s) (r : Round) (e : ProtocolEvent)
    (hfinished : s.bytesRemaining = 0 → s.object.finished = true) :
    Inv c (s.header c r e) := by
  unfold Receiving.header
  by_cases hfirst : s.bytesRemaining ≠ metadataPending ∧ s.md = false
  · rw [if_pos hfirst]
    obtain ⟨o, ho⟩ := Option.ne_none_iff_exists'.mp (h.parsed hfirst.1)
    simp only [ho]
    have hquiet := h.announced
    unfold Announced at hquiet
    rw [h.md, hfirst.2] at hquiet
    simp only [Bool.false_eq_true, if_false] at hquiet
    by_cases hhas : c.has o = true
    · rw [if_pos hhas]
      exact Or.inr ⟨by simp, Ends.silent hquiet.1⟩
    rw [if_neg hhas]
    by_cases hparent : c.hasFragmentationParent o = true ∨ c.hasNetworkCodingParent o = true
    · rw [if_pos hparent]
      exact Or.inr ⟨by simp, Ends.silent hquiet.1⟩
    rw [if_neg hparent]
    -- the object is accepted, and announced whether or not the peer can be told
    rw [not_or, Bool.not_eq_true, Bool.not_eq_true] at hparent
    have haccepted : Accepted c o := ⟨by simpa using hhas, hparent.1, hparent.2⟩
    have hgoing : Going c { s with
        md := true
        control := s.control ++ [ControlType.accept]
        events := s.events ++ [KernelEvent.incoming]
        incoming := true
        announced := some o } := by
      refine ⟨h.open_, h.shaped, h.parsed, ?_, rfl, h.created⟩
      refine ⟨?_, o, o, rfl, haccepted, ho, SameObject.refl o⟩
      show s.events ++ [.incoming] = _
      rw [hquiet.1]
      rfl
    exact hgoing.next r.control (fun h0 => ⟨rfl, hfinished h0⟩)
  · rw [if_neg hfirst]
    refine h.next e (fun h0 => ⟨?_, hfinished h0⟩)
    rw [h.md]
    by_contra hmd
    rw [Bool.not_eq_true] at hmd
    refine hfirst ⟨?_, hmd⟩
    rw [h0]
    decide

/-- The members that are only about messages do not matter. -/
theorem Going.congr (h : Going c s) {t : Receiving} (hended : t.ended = s.ended)
    (hobject : t.object = s.object) (hbytes : t.bytesRemaining = s.bytesRemaining)
    (hincoming : t.incoming = s.incoming) (hevents : t.events = s.events)
    (hannounced : t.announced = s.announced) (hmd : t.md = s.md)
    (hcrashed : t.crashed = s.crashed) : Going c t where
  open_ := hended.trans h.open_
  shaped := hobject ▸ h.shaped
  parsed := by
    rw [hbytes, hobject]
    exact h.parsed
  announced := by
    have := h.announced
    unfold Announced at this ⊢
    rw [hincoming, hevents, hannounced, hobject]
    exact this
  md := by rw [hincoming, hmd, h.md]
  created := hcrashed.trans h.created

theorem Going.removeData (h : Going c s) (len : Nat) : Going c (s.removeData len) := by
  unfold Receiving.removeData
  split
  · exact h
  · split
    · exact h.congr rfl rfl rfl rfl rfl rfl rfl rfl
    · exact h.congr rfl rfl rfl rfl rfl rfl rfl rfl

theorem removeData_object (s : Receiving) (len : Nat) :
    (s.removeData len).object = s.object ∧
      (s.removeData len).bytesRemaining = s.bytesRemaining := by
  unfold Receiving.removeData
  split
  · exact ⟨rfl, rfl⟩
  · split <;> exact ⟨rfl, rfl⟩

/-- The call of `putData`, and what depends on it. -/
theorem Going.put (h : Going c s) (hrem : s.bytesRemaining ≠ 0) (r : Round) (e : ProtocolEvent) :
    Inv c (s.put c r e) := by
  unfold Receiving.put
  by_cases hempty : s.bufferDataLen = 0
  · rw [if_pos hempty]
    exact h.next e (fun h0 => absurd h0 hrem)
  rw [if_neg hempty]
  simp only
  have hput := putData_spec c.path (s.buffer.take s.bufferDataLen) h.shaped hrem h.parsed
  generalize putData c.parse c.path false s.object (s.buffer.take s.bufferDataLen)
    s.bytesRemaining = result at hput
  have hgoing : Going c { s with
      object := result.state
      bytesRemaining := result.remaining
      handed := s.handed ++ [s.buffer.take s.bufferDataLen] } := by
    refine ⟨h.open_, hput.shaped, hput.parsed, ?_, h.md, h.created⟩
    have hannounced := h.announced
    unfold Announced at hannounced ⊢
    by_cases hincoming : s.incoming = true
    · rw [if_pos hincoming] at hannounced
      rw [if_pos (show _ = true from hincoming)]
      obtain ⟨hevents, a, o, ha, haccepted, ho, hsame⟩ := hannounced
      obtain ⟨o', ho', hsame'⟩ := hput.same o ho
      exact ⟨hevents, a, o', ha, haccepted, ho', hsame.trans hsame'⟩
    · rw [if_neg hincoming] at hannounced
      rw [if_neg (show ¬ _ = true from hincoming)]
      exact hannounced
  -- success needs the bytes that follow, failure ends here
  by_cases herror : result.putLen < 0
  · rw [if_pos herror]
    exact hgoing.finish .error (fun hno => by cases hno)
  rw [if_neg herror]
  refine (hgoing.removeData _).header r e ?_
  rw [(removeData_object _ _).1, (removeData_object _ _).2]
  exact hput.finished

theorem Going.checkSeqNo (h : Going c s) (hrem : s.bytesRemaining ≠ 0) (r : Round)
    (e : ProtocolEvent) : Inv c (s.checkSeqNo c r e) := by
  unfold Receiving.checkSeqNo
  split
  · exact h.put hrem r e
  · split
    · have hnext : Going c { s with curSeqNo := s.curSeqNo + 1 } :=
        h.congr rfl rfl rfl rfl rfl rfl rfl rfl
      exact hnext.put hrem r e
    · split
      · exact h.next e (fun h0 => absurd h0 hrem)
      · exact h.finish .error (fun hno => by cases hno)

theorem Going.checkSessionNo (h : Going c s) (hrem : s.bytesRemaining ≠ 0) (r : Round)
    (e : ProtocolEvent) : Inv c (s.checkSessionNo c r e) := by
  unfold Receiving.checkSessionNo
  split
  · have hnoted : Going c { s with curSessionNo := s.lastReceivedSessionNo } :=
      h.congr rfl rfl rfl rfl rfl rfl rfl rfl
    exact hnoted.checkSeqNo hrem r e
  · split
    · exact h.finish .error (fun hno => by cases hno)
    · exact h.checkSeqNo hrem r e

theorem Going.getData (h : Going c s) (hrem : s.bytesRemaining ≠ 0) (r : Round) :
    Going c (s.getData c r).1 ∧ (s.getData c r).1.bytesRemaining ≠ 0 := by
  unfold Receiving.getData
  cases r.arrival with
  | event e =>
      simp only
      split <;> exact ⟨h, hrem⟩
  | message m =>
      simp only
      split
      · exact ⟨h, hrem⟩
      · split
        · exact ⟨h, hrem⟩
        · split
          · exact ⟨h.congr rfl rfl rfl rfl rfl rfl rfl rfl, hrem⟩
          · exact ⟨h.congr rfl rfl rfl rfl rfl rfl rfl rfl, hrem⟩

/-! ### A node that is not there -/

/-- **Every round keeps the account.** -/
theorem Inv.round (h : Inv c s) (r : Round) : Inv c (s.round c r) := by
  rcases h with ⟨hgoing, hrem⟩ | ⟨hended, hends⟩
  · obtain ⟨hget, hgetrem⟩ := hgoing.getData hrem r
    unfold Receiving.round
    rw [hgoing.open_]
    simp only
    generalize s.getData c r = result at hget hgetrem
    obtain ⟨t, event⟩ := result
    cases event with
    | none => exact Or.inl ⟨hget, hgetrem⟩
    | some e =>
        simp only
        by_cases hstop : e = .peerClosed ∨ e = .errorFatal ∨ e = .error ∨ e = .timeout
        · rw [if_pos hstop]
          refine hget.finish e (fun he => ?_)
          rw [he] at hstop
          simp at hstop
        rw [if_neg hstop]
        split
        · exact hget.finish .error (fun hno => by cases hno)
        · exact hget.checkSessionNo hgetrem r e
  · rw [round_ended hended]
    exact Or.inr ⟨hended, hends⟩

end Receiving

/-! ## Whole calls -/

section

variable {c : Receiver}

end

/-! ## A description without a node -/

end Encoders.Protocol
