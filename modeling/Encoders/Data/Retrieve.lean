import Mathlib.Order.Lattice
import Mathlib.Data.List.Nodup
import Encoders.Lib.Slice

/-!
# Retrieving a data object for sending

`DataObjectDataRetrieverImplementation`: the metadata of an object and then its file, in as many
calls as it takes. A protocol asks for the header until a call does not fill its buffer, waits for
an answer, and then asks for the rest until a call gives nothing.

Files are opened or not, and a read of a file gives what there is of what was asked for. What is
in memory or in a file is shorter than a `ssize_t` can say.
-/

namespace Encoders.Data

open Encoders.Lib

/-- `ABEStatus_t` -/
inductive AbeStatus where
  | notNeeded
  | encryptionNeeded
  | encryptionDone
  | decryptionNeeded
  | decryptionDone
deriving DecidableEq

/-- A data object as it is retrieved: what its metadata are written as, and its files. -/
structure Retrievable where
  abeStatus : AbeStatus
  isForLocalApp : Bool
  dataLen : Nat
  file : Option (List UInt8)
  encryptedFileLength : Nat
  encryptedFile : Option (List UInt8)
  rawMetadata : Option (List UInt8)

/-- `class DataObjectDataRetrieverImplementation`; of an open file, what is left to read. -/
structure Retriever where
  header : List UInt8
  headerLen : Nat
  fp : Option (List UInt8)
  headerBytesLeft : Nat
  bytesLeft : Nat

namespace Retrievable

/-- Which file is sent, and how much of it: the encrypted one once there is one. -/
def source (o : Retrievable) : Nat × Option (List UInt8) :=
  match o.abeStatus with
  | .notNeeded => (o.dataLen, o.file)
  | .encryptionNeeded => (0, none)
  | .encryptionDone | .decryptionNeeded | .decryptionDone =>
      (o.encryptedFileLength, o.encryptedFile)

/-- `fp` and `bytes_left`; `none` is `fail_open`. -/
def openFile (o : Retrievable) : Option (Option (List UInt8) × Nat) :=
  if 0 < o.source.1 ∧ o.isForLocalApp = false then o.source.2.map (fun f => (some f, o.source.1))
  else some (none, 0)

end Retrievable

/-- `>` -/
def closeTag : UInt8 := 62

/-- `while (header_len && header[header_len-1] != '>') header_len--` -/
def trimmedLen (header : List UInt8) : Nat → Nat
  | 0 => 0
  | n + 1 => if header[n]? = some closeTag then n + 1 else trimmedLen header n

/-- `getDataObjectDataRetriever`, and the constructor. -/
def Retrievable.getDataObjectDataRetriever (o : Retrievable) : Option Retriever := do
  let (fp, bytesLeft) ← o.openFile
  let header ← o.rawMetadata
  let headerLen := trimmedLen header header.length
  if headerLen = 0 then none else some ⟨header, headerLen, fp, headerLen, bytesLeft⟩

/-- What a call leaves: the buffer up to what was put in it, the count, and the retriever. -/
structure Retrieved where
  data : List UInt8
  count : Nat
  state : Retriever

namespace Retriever

/-- `memcpy` of so many bytes of what is left of the header. -/
def headerBytes (r : Retriever) (n : Nat) : List UInt8 :=
  slice r.header (r.headerLen - r.headerBytesLeft) n

/-- `retrieve` -/
def retrieve (r : Retriever) (len : Nat) (getHeaderOnly : Bool) : Retrieved :=
  if len = 0 then ⟨[], 0, r⟩
  else if r.headerBytesLeft ≠ 0 ∧ len ≤ r.headerBytesLeft then
    ⟨r.headerBytes len, len, { r with headerBytesLeft := r.headerBytesLeft - len }⟩
  else
    let data := r.headerBytes r.headerBytesLeft
    let readLen := r.headerBytesLeft
    let len := len - r.headerBytesLeft
    if getHeaderOnly then ⟨data, readLen, { r with headerBytesLeft := 0 }⟩
    else
      match r.fp with
      | none => ⟨data, readLen, { r with headerBytesLeft := 0 }⟩
      | some file =>
          let len := if r.bytesLeft < len then r.bytesLeft else len
          let read := file.take len
          let left := r.bytesLeft - read.length
          -- closed at the end of what is to be sent, and where the file ends before
          let fp := if left = 0 ∨ read.length < len then none else some (file.drop read.length)
          ⟨data ++ read, readLen + read.length,
            { r with fp := fp, headerBytesLeft := 0, bytesLeft := left }⟩

/-- Calls with buffers of these lengths, up to the first one that is the last. -/
def calls (getHeaderOnly : Bool) (last : Nat → Nat → Bool) :
    Nat → (Nat → Nat) → Retriever → Option (List Retrieved × Retriever)
  | 0, _, _ => none
  | fuel + 1, lens, r =>
      let c := r.retrieve (lens 0) getHeaderOnly
      if last (lens 0) c.count then some ([c], c.state)
      else (calls getHeaderOnly last fuel (fun k => lens (k + 1)) c.state).map
        (fun x => (c :: x.1, x.2))

/-- For the header: until the count is short, or zero. -/
def headerCalls : Nat → (Nat → Nat) → Retriever → Option (List Retrieved × Retriever) :=
  calls true (fun len count => count < len || count = 0)

/-- For the rest: until the count is zero. -/
def dataCalls : Nat → (Nat → Nat) → Retriever → Option (List Retrieved × Retriever) :=
  calls false (fun _ count => count = 0)

end Retriever

/-! ## The header -/

/-- What is behind the last closing bracket is cut off. -/
theorem trimmedLen_eq {h rest : List UInt8} (hlast : h.getLast? = some closeTag)
    (hrest : closeTag ∉ rest) : ∀ n, n ≤ rest.length →
    trimmedLen (h ++ rest) (h.length + n) = h.length
  | 0, _ => by
      have hne : h ≠ [] := by
        rintro rfl
        cases hlast
      obtain ⟨n, hn⟩ := Nat.exists_eq_succ_of_ne_zero (Nat.ne_of_gt (List.length_pos_of_ne_nil hne))
      rw [List.getLast?_eq_getElem?, hn, Nat.succ_sub_one] at hlast
      rw [Nat.add_zero, hn, trimmedLen, List.getElem?_append_left (by omega), if_pos hlast]
  | n + 1, hn => by
      have hnot : rest[n]? ≠ some closeTag := fun hcon => hrest (List.mem_of_getElem? hcon)
      rw [← Nat.add_assoc, trimmedLen, List.getElem?_append_right (Nat.le_add_right _ _),
        Nat.add_sub_cancel_left, if_neg hnot]
      exact trimmedLen_eq hlast hrest n (Nat.le_of_succ_le hn)

namespace Retriever

/-- Once the calls end, the fuel says nothing any more. -/
theorem calls_mono {getHeaderOnly : Bool} {last : Nat → Nat → Bool} :
    ∀ {fuel fuel' : Nat} {lens : Nat → Nat} {r : Retriever} {x : List Retrieved × Retriever},
    calls getHeaderOnly last fuel lens r = some x → fuel ≤ fuel' →
    calls getHeaderOnly last fuel' lens r = some x
  | 0, _, _, _, _, h, _ => by cases h
  | fuel + 1, 0, _, _, _, _, hle => absurd hle (Nat.not_succ_le_zero fuel)
  | fuel + 1, fuel' + 1, lens, r, x, h, hle => by
      rw [calls] at h ⊢
      split at h
      next hlast => rw [if_pos hlast, ← h]
      next hlast =>
        obtain ⟨y, hy, hx⟩ := Option.map_eq_some_iff.mp h
        rw [if_neg hlast, calls_mono hy (Nat.le_of_succ_le_succ hle), Option.map_some, hx]

/-- What every call of a sequence does with its buffer. -/
def WithinBuffers (cs : List Retrieved) (lens : Nat → Nat) : Prop :=
  ∀ k c, cs[k]? = some c → c.count = c.data.length ∧ c.count ≤ lens k

theorem withinBuffers_cons {c : Retrieved} {cs : List Retrieved} {lens : Nat → Nat}
    (hc : c.count = c.data.length ∧ c.count ≤ lens 0)
    (hcs : WithinBuffers cs (fun k => lens (k + 1))) : WithinBuffers (c :: cs) lens := by
  intro k d hd
  cases k with
  | zero => exact Option.some.inj hd ▸ hc
  | succ k => exact hcs k d hd

theorem withinBuffers_nil (lens : Nat → Nat) : WithinBuffers [] lens :=
  fun _ _ h => by cases h

/-- As much of the header is left as it says. -/
def InHeader (r : Retriever) : Prop :=
  r.headerBytesLeft ≤ r.headerLen ∧ r.headerLen ≤ r.header.length

theorem length_headerBytes {r : Retriever} (h : r.InHeader) {n : Nat} (hn : n ≤ r.headerBytesLeft) :
    (r.headerBytes n).length = n := by
  obtain ⟨hleft, hlen⟩ := h
  rw [headerBytes, slice, List.length_take_of_le]
  rw [List.length_drop]
  omega

/-- **The header comes whole**, and the retriever is left where the data begin. -/
theorem headerCalls_spec : ∀ {fuel : Nat} {lens : Nat → Nat} {r : Retriever},
    (∀ k, 0 < lens k) → r.InHeader → r.headerBytesLeft < fuel →
    ∃ cs, headerCalls fuel lens r = some (cs, { r with headerBytesLeft := 0 }) ∧
      (cs.map Retrieved.data).flatten = r.headerBytes r.headerBytesLeft ∧ WithinBuffers cs lens
  | 0, _, _, _, _, hfuel => absurd hfuel (Nat.not_lt_zero _)
  | fuel + 1, lens, r, hpos, hr, hfuel => by
      have hlen := hpos 0
      rw [headerCalls, calls, retrieve, if_neg (Nat.ne_of_gt hlen)]
      -- a buffer no longer than what is left of the header has header only
      by_cases hfull : r.headerBytesLeft ≠ 0 ∧ lens 0 ≤ r.headerBytesLeft
      · have hleft :
            ({ r with headerBytesLeft := r.headerBytesLeft - lens 0 } : Retriever).InHeader :=
          ⟨(Nat.sub_le _ _).trans hr.1, hr.2⟩
        obtain ⟨cs, hcs, hdata, hwithin⟩ := @headerCalls_spec fuel (fun k => lens (k + 1)) _
          (fun k => hpos (k + 1)) hleft (by dsimp only; omega)
        rw [if_pos hfull]
        dsimp only
        rw [if_neg (by simp only [Bool.or_eq_true, decide_eq_true_eq]; omega)]
        rw [headerCalls] at hcs
        refine ⟨_, by rw [hcs]; rfl, ?_, withinBuffers_cons ⟨?_, Nat.le_refl _⟩ hwithin⟩
        · rw [List.map_cons, List.flatten_cons, hdata, headerBytes, headerBytes, headerBytes]
          dsimp only
          have hsum := slice_append_slice r.header (r.headerLen - r.headerBytesLeft) (lens 0)
            (r.headerBytesLeft - lens 0)
          have hstart : r.headerLen - (r.headerBytesLeft - lens 0) =
              r.headerLen - r.headerBytesLeft + lens 0 := by
            have := hr.1
            omega
          rw [hstart, hsum, Nat.add_sub_cancel' hfull.2]
        · exact (length_headerBytes hr hfull.2).symm
      · rw [if_neg hfull, if_pos rfl]
        dsimp only
        rw [if_pos (by simp only [Bool.or_eq_true, decide_eq_true_eq]; omega)]
        refine ⟨_, rfl, ?_, withinBuffers_cons ⟨?_, ?_⟩ (withinBuffers_nil _)⟩
        · rw [List.map_cons, List.map_nil, List.flatten_cons, List.flatten_nil, List.append_nil]
        · exact (length_headerBytes hr (Nat.le_refl _)).symm
        · dsimp only
          omega

/-! ## The data -/

/-- The header is done, and this is what is to come. -/
def Remaining (r : Retriever) (p : List UInt8) : Prop :=
  r.headerBytesLeft = 0 ∧ r.bytesLeft = p.length ∧
    ((p = [] ∧ r.fp = none) ∨ (p ≠ [] ∧ ∃ rest, r.fp = some (p ++ rest)))

/-- One call for the data: as much as fits in the buffer. -/
theorem retrieve_remaining {r : Retriever} {p : List UInt8} (h : r.Remaining p) {len : Nat}
    (hlen : 0 < len) :
    (r.retrieve len false).data = p.take len ∧
      (r.retrieve len false).count = (p.take len).length ∧
      (r.retrieve len false).state.Remaining (p.drop len) := by
  obtain ⟨hheader, hleft, hfp⟩ := h
  have hnone : r.headerBytes 0 = [] := by rw [headerBytes, slice, List.take_zero]
  rw [retrieve, if_neg (Nat.ne_of_gt hlen), if_neg (fun hcon => hcon.1 hheader), hheader, hnone]
  dsimp only
  rw [if_neg Bool.false_ne_true]
  rcases hfp with ⟨rfl, hfp⟩ | ⟨hne, rest, hfp⟩
  · rw [hfp]
    exact ⟨List.take_nil.symm, by rw [List.take_nil]; rfl, rfl, by rw [List.drop_nil]; exact hleft,
      Or.inl ⟨List.drop_nil, rfl⟩⟩
  · -- the file may go on behind the data, and no more than the data is read
    have hcut : (if r.bytesLeft < len - 0 then r.bytesLeft else len - 0) = min len p.length := by
      rw [hleft]
      split
      · omega
      · omega
    have hread : (p ++ rest).take (min len p.length) = p.take len := by
      rw [List.take_append_of_le_length (Nat.min_le_right _ _)]
      rcases Nat.le_total len p.length with hle | hle
      · rw [Nat.min_eq_left hle]
      · rw [Nat.min_eq_right hle, List.take_length, List.take_of_length_le hle]
    have hlength : (p.take len).length = min len p.length := List.length_take
    rw [hfp]
    dsimp only
    rw [hcut, hread, List.nil_append, Nat.zero_add]
    refine ⟨rfl, rfl, rfl, ?_, ?_⟩
    · dsimp only
      rw [hleft, hlength, List.length_drop]
      omega
    · have hshort : ¬ (p.take len).length < min len p.length := by omega
      by_cases hdone : p.length ≤ len
      · exact Or.inl ⟨List.drop_eq_nil_of_le hdone, if_pos (Or.inl (by omega))⟩
      · refine Or.inr ⟨?_, rest, ?_⟩
        · refine List.ne_nil_of_length_pos ?_
          rw [List.length_drop]
          omega
        · dsimp only
          rw [if_neg (by omega), hlength, Nat.min_eq_left (by omega),
            List.drop_append_of_le_length (by omega)]

/-- **The data come whole.** -/
theorem dataCalls_spec : ∀ {fuel : Nat} {lens : Nat → Nat} {r : Retriever} {p : List UInt8},
    (∀ k, 0 < lens k) → r.Remaining p → p.length < fuel →
    ∃ cs r', dataCalls fuel lens r = some (cs, r') ∧
      (cs.map Retrieved.data).flatten = p ∧ WithinBuffers cs lens
  | 0, _, _, _, _, _, hfuel => absurd hfuel (Nat.not_lt_zero _)
  | fuel + 1, lens, r, p, hpos, hr, hfuel => by
      obtain ⟨hdata, hcount, hrest⟩ := retrieve_remaining hr (hpos 0)
      have hbuffer : (r.retrieve (lens 0) false).count =
          (r.retrieve (lens 0) false).data.length ∧
          (r.retrieve (lens 0) false).count ≤ lens 0 := by
        rw [hcount, hdata]
        exact ⟨rfl, List.length_take_le _ _⟩
      have hlength : (p.take (lens 0)).length = min (lens 0) p.length := List.length_take
      rw [dataCalls, calls]
      by_cases hdone : p = []
      · subst hdone
        rw [if_pos (decide_eq_true (by rw [hcount, List.take_nil]; rfl))]
        refine ⟨_, _, rfl, ?_, withinBuffers_cons hbuffer (withinBuffers_nil _)⟩
        rw [List.map_cons, List.map_nil, hdata, List.take_nil]
        rfl
      · have hsome := List.length_pos_of_ne_nil hdone
        have hlen := hpos 0
        rw [if_neg (by rw [decide_eq_true_eq, hcount]; omega)]
        obtain ⟨cs, r', hcs, hflat, hwithin⟩ := @dataCalls_spec fuel (fun k => lens (k + 1)) _ _
          (fun k => hpos (k + 1)) hrest (by rw [List.length_drop]; omega)
        rw [dataCalls] at hcs
        refine ⟨_, r', by rw [hcs]; rfl, ?_, withinBuffers_cons hbuffer hwithin⟩
        rw [List.map_cons, List.flatten_cons, hflat, hdata, List.take_append_drop]

end Retriever

/-! ## The whole object -/

/-- The metadata are written with this header, and something behind its end. -/
def Retrievable.HasHeader (o : Retrievable) (h : List UInt8) : Prop :=
  h.getLast? = some closeTag ∧ ∃ rest, closeTag ∉ rest ∧ o.rawMetadata = some (h ++ rest)

/-- What is announced to be sent is there to be read: nothing, for an application of the node. -/
def Retrievable.HasPayload (o : Retrievable) (p : List UInt8) : Prop :=
  p.length = (if o.isForLocalApp then 0 else o.source.1) ∧
    (p ≠ [] → ∃ rest, o.source.2 = some (p ++ rest))

/-- What is opened for an object with its payload there. -/
theorem openFile_hasPayload {o : Retrievable} {p : List UInt8} (h : o.HasPayload p) :
    ∃ fp, o.openFile = some (fp, p.length) ∧
      ((p = [] ∧ fp = none) ∨ (p ≠ [] ∧ ∃ rest, fp = some (p ++ rest))) := by
  obtain ⟨hlength, hsource⟩ := h
  by_cases hp : p = []
  · subst hp
    refine ⟨none, ?_, Or.inl ⟨rfl, rfl⟩⟩
    rw [Retrievable.openFile, if_neg]
    · rfl
    · rintro ⟨hpos, hlocal⟩
      rw [hlocal, if_neg Bool.false_ne_true] at hlength
      exact Nat.ne_of_lt hpos hlength
  · obtain ⟨rest, hrest⟩ := hsource hp
    have hpos := List.length_pos_of_ne_nil hp
    cases hlocal : o.isForLocalApp with
    | true =>
      rw [hlocal, if_pos rfl] at hlength
      omega
    | false =>
      rw [hlocal, if_neg Bool.false_ne_true] at hlength
      refine ⟨some (p ++ rest), ?_, Or.inr ⟨hp, rest, rfl⟩⟩
      rw [Retrievable.openFile, if_pos ⟨hlength ▸ hpos, hlocal⟩, hrest, ← hlength]
      rfl

/-- The retriever of an object with its header and its payload there. -/
theorem getDataObjectDataRetriever_spec {o : Retrievable} {h p : List UInt8}
    (hheader : o.HasHeader h) (hpayload : o.HasPayload p) :
    ∃ r, o.getDataObjectDataRetriever = some r ∧ r.InHeader ∧ r.headerBytesLeft = h.length ∧
      r.headerBytes h.length = h ∧ ({ r with headerBytesLeft := 0 } : Retriever).Remaining p := by
  obtain ⟨hlast, rest, hrest, hraw⟩ := hheader
  obtain ⟨fp, hopen, hfp⟩ := openFile_hasPayload hpayload
  have hne : h.length ≠ 0 := by
    rintro hzero
    rw [List.length_eq_zero_iff.mp hzero] at hlast
    cases hlast
  refine ⟨⟨h ++ rest, h.length, fp, h.length, p.length⟩, ?_, ⟨Nat.le_refl _, ?_⟩, rfl, ?_, rfl, rfl,
    hfp⟩
  · rw [Retrievable.getDataObjectDataRetriever, hopen, hraw]
    dsimp only [Option.bind_eq_bind, Option.bind_some]
    rw [List.length_append, trimmedLen_eq hlast hrest _ (Nat.le_refl _), if_neg hne]
  · rw [List.length_append]
    exact Nat.le_add_right _ _
  · rw [Retriever.headerBytes, slice, Nat.sub_self, List.drop_zero, List.take_left]

/--
**An object is retrieved whole, and once**: its header, in the calls for the header, and then its
data, whatever the lengths of the buffers, and no call puts more in its buffer than fits.
-/
theorem retrieve_whole {o : Retrievable} {h p : List UInt8} {lens lens' : Nat → Nat}
    (hheader : o.HasHeader h) (hpayload : o.HasPayload p) (hlens : ∀ k, 0 < lens k)
    (hlens' : ∀ k, 0 < lens' k) :
    ∃ r cs r' cs' r'', o.getDataObjectDataRetriever = some r ∧
      (∀ fuel, h.length < fuel → Retriever.headerCalls fuel lens r = some (cs, r')) ∧
      (∀ fuel, p.length < fuel → Retriever.dataCalls fuel lens' r' = some (cs', r'')) ∧
      (cs.map Retrieved.data).flatten = h ∧
      ((cs ++ cs').map Retrieved.data).flatten = h ++ p ∧
      Retriever.WithinBuffers cs lens ∧ Retriever.WithinBuffers cs' lens' := by
  obtain ⟨r, hr, hin, hleft, hbytes, hremaining⟩ := getDataObjectDataRetriever_spec hheader hpayload
  obtain ⟨cs, hcs, hhead, hwithin⟩ := Retriever.headerCalls_spec hlens hin (Nat.lt_succ_self _)
  obtain ⟨cs', r'', hcs', hdata, hwithin'⟩ :=
    Retriever.dataCalls_spec hlens' hremaining (Nat.lt_succ_self _)
  rw [hleft] at hcs hhead
  rw [hbytes] at hhead
  refine ⟨r, cs, _, cs', r'', hr, fun fuel hfuel => Retriever.calls_mono hcs hfuel,
    fun fuel hfuel => Retriever.calls_mono hcs' hfuel, hhead, ?_, hwithin, hwithin'⟩
  rw [List.map_append, List.flatten_append, hhead, hdata]

theorem retrieve_whole_small :
    ∃ r cs r' cs' r'', Retrievable.getDataObjectDataRetriever
        ⟨.notNeeded, false, 2, some [1, 2], 0, none, some [60, 97, 62, 10]⟩ = some r ∧
      (∀ fuel, 3 < fuel → Retriever.headerCalls fuel (fun _ => 3) r = some (cs, r')) ∧
      (∀ fuel, 2 < fuel → Retriever.dataCalls fuel (fun _ => 1) r' = some (cs', r'')) ∧
      (cs.map Retrieved.data).flatten = [60, 97, 62] ∧
      ((cs ++ cs').map Retrieved.data).flatten = [60, 97, 62, 1, 2] ∧
      Retriever.WithinBuffers cs (fun _ => 3) ∧ Retriever.WithinBuffers cs' (fun _ => 1) :=
  retrieve_whole (h := [60, 97, 62]) (p := [1, 2])
    ⟨by decide, [10], by decide, by decide⟩ ⟨by decide, fun _ => ⟨[], by decide⟩⟩
    (fun _ => Nat.succ_pos _) (fun _ => Nat.succ_pos _)

end Encoders.Data
