import Encoders.Lib.Run
import Encoders.Lib.Slice
import Encoders.Data.Object

/-!
# Putting a data object together from a byte stream

`DataObject::putData`. Bytes go into a header buffer, one after the other, until the
closing tag of the metadata is found in it; what follows goes into a file, as many
bytes as the metadata announce. The caller is told how many of its bytes were taken
and gives the others again.

The count is the weak point. A call that finds the end of the header goes on with the
payload in the same buffer, and then returns the payload bytes only. The header bytes
of that call are given again, and end up in the file.

The XML parser is a parameter: what it makes of the header, as far as the rest of the
code accepts it. Memory and files are there when they are asked for.
-/

namespace Encoders.Data

open Encoders.Lib DataObject

variable {before : List (List UInt8)} {chunk : List UInt8}
variable {s : CString} {p : Nat} {f : Feeding}

/-! ## Recognising the header -/

/-- Bytes against a tag, in capitals and in small letters. -/
def fits : List (Char × Char) → CString → Bool
  | [], _ => true
  | _ :: _, [] => false
  | (u, l) :: tag, b :: bytes =>
      (b = UInt8.ofNat u.toNat || b = UInt8.ofNat l.toNat) && fits tag bytes

/-- `<?xml` -/
def xmlTag : List (Char × Char) := [('<', '<'), ('?', '?'), ('X', 'x'), ('M', 'm'), ('L', 'l')]

/-- `<haggle` -/
def haggleTag : List (Char × Char) :=
  [('<', '<'), ('H', 'h'), ('A', 'a'), ('G', 'g'), ('G', 'g'), ('L', 'l'), ('E', 'e')]

/-- `</haggle>` -/
def closingTag : List (Char × Char) :=
  [('<', '<'), ('/', '/'), ('H', 'h'), ('A', 'a'), ('G', 'g'), ('G', 'g'), ('L', 'l'), ('E', 'e'),
    ('>', '>')]

/-- The test made when the header has seven bytes. -/
def recognized (header : CString) : Bool := fits xmlTag header || fits haggleTag header

/-- The test made at every byte: do the last nine close the header? -/
def closes (header : CString) : Bool :=
  9 ≤ header.length && fits closingTag (header.drop (header.length - 9))

/-! ## `putData` -/

/-- `DATAOBJECT_METADATA_PENDING` -/
def metadataPending : Nat := 2147483647

/-- `DATAOBJECT_MAX_METADATA_SIZE` -/
def maxMetadataSize : Nat := 65536

/--
The object under construction, with its `pDd_s`: no object before the metadata are
parsed, no file before it is opened, and the file's bytes so far. `finished` is a
`putData_data` of `NULL`.
-/
structure Putting where
  header : CString
  object : Option DataObject
  fp : Bool
  written : List UInt8
  bytesLeft : Nat
  finished : Bool

/-- `create_for_putting` -/
def createForPutting : Putting := ⟨[], none, false, [], 0, false⟩

/-- What a call leaves behind: the object, the return value, and `*remaining`. -/
structure PutResult where
  state : Putting
  putLen : Int
  remaining : Nat

/-- How the loop over the bytes of a call ends. -/
inductive HeaderResult where
  | error
  | more (header : CString) (putLen : Nat)
  | parsed (object : DataObject) (rest : List UInt8) (putLen : Nat)

/-- The loop over the bytes of a call, while there are no metadata. -/
def headerLoop (parse : CString → Option DataObject) :
    List UInt8 → CString → Nat → HeaderResult
  | [], header, putLen => .more header putLen
  | b :: data, header, putLen =>
      let header := header ++ [b]
      if header.length = 7 ∧ recognized header = false then .error
      else if closes header then
        match parse header with
        | none => .error
        | some object => .parsed object data (putLen + 1)
      else headerLoop parse data header (putLen + 1)

/-- `hasABEAttribute` -/
def hasABEAttribute (d : DataObject) : Bool :=
  d.hasAttribute ⟨lit "_ABE_", wildcard, 0⟩ &&
    !d.hasAttribute ⟨lit "_NC_BLOCK_", lit "TRUE", 1⟩ &&
    !d.hasAttribute ⟨lit "_FR_FRAGMENT_", lit "TRUE", 1⟩

/-- `restoreEncryptedDataObject` -/
def restoreEncryptedDataObject (d : DataObject) : DataObject :=
  if hasABEAttribute d ∧ d.encryptedFilePath.length = 0 ∧ 0 < d.filepath.length then
    { d with
      encryptedFilePath := d.filepath
      encryptedFileHash := d.dataHash
      encryptedFileLength := d.dataLen
      filepath := []
      dataLen := 0
      dataHash := zeroHash }
  else d

/--
The part of `putData` behind the header. The file's name is made of the time and given
here; `putLen` is set, not added to, when payload is written.
-/
def putPayload (path : CString) (putHeaderOnly : Bool) (st : Putting) (object : DataObject)
    (data : List UInt8) (putLen : Nat) : PutResult :=
  let bytesLeft := if st.fp then st.bytesLeft else object.dataLen.toNat
  if ¬ st.fp ∧ bytesLeft = 0 then
    ⟨{ st with bytesLeft := 0, finished := true }, putLen, 0⟩
  else if ¬ st.fp ∧ putHeaderOnly then ⟨{ st with bytesLeft := bytesLeft }, putLen, bytesLeft⟩
  else
    let opened := if st.fp then object else { object with filepath := path }
    let remaining := if st.fp then metadataPending else bytesLeft
    let st := { st with object := some opened, fp := true, bytesLeft := bytesLeft }
    if data = [] then ⟨st, putLen, remaining⟩
    else if data.length < bytesLeft then
      ⟨{ st with written := st.written ++ data, bytesLeft := bytesLeft - data.length },
        data.length, bytesLeft - data.length⟩
    else if 0 < bytesLeft then
      ⟨{ st with
          object := some (restoreEncryptedDataObject opened)
          fp := false
          written := st.written ++ data.take bytesLeft
          bytesLeft := 0
          finished := true }, bytesLeft, 0⟩
    else ⟨st, putLen, remaining⟩

/-- `putData` -/
def putData (parse : CString → Option DataObject) (path : CString) (putHeaderOnly : Bool)
    (st : Putting) (data : List UInt8) (remaining : Nat) : PutResult :=
  if data = [] then ⟨st, 0, remaining⟩
  else if st.finished then ⟨st, 0, 0⟩
  else
    match st.object with
    | some object => putPayload path putHeaderOnly st object data 0
    | none =>
        if maxMetadataSize ≤ st.header.length + data.length then ⟨st, -1, metadataPending⟩
        else
          match headerLoop parse data st.header 0 with
          | .error => ⟨{ st with header := [] }, -1, metadataPending⟩
          | .more header putLen => ⟨{ st with header := header }, putLen, metadataPending⟩
          | .parsed object rest putLen =>
              putPayload path putHeaderOnly { st with header := [], object := some object } object
                rest putLen

/-! ## Feeding chunks -/

/-- The receiving loop: the object, the bytes to give again, what was counted, and `remaining`. -/
structure Feeding where
  state : Putting
  buffer : List UInt8
  totBytesPut : Nat
  bytesRemaining : Nat

/-- Before the first chunk. -/
def startFeeding : Feeding := ⟨createForPutting, [], 0, metadataPending⟩

/-- One chunk, behind the bytes that were not taken: `none` on an error. -/
def feedChunk (parse : CString → Option DataObject) (path : CString) (f : Feeding)
    (chunk : List UInt8) : Option Feeding :=
  let result := putData parse path false f.state (f.buffer ++ chunk) f.bytesRemaining
  if result.putLen < 0 then none
  else some ⟨result.state, (f.buffer ++ chunk).drop result.putLen.toNat,
    f.totBytesPut + result.putLen.toNat, result.remaining⟩

/-- All chunks. -/
def feed (parse : CString → Option DataObject) (path : CString) (chunks : List (List UInt8)) :
    Option Feeding :=
  run (feedChunk parse path) startFeeding chunks

/-- The object as it is when all of its payload is there. -/
def completed (path : CString) (d : DataObject) (payload : List UInt8) : DataObject :=
  if payload = [] then d else restoreEncryptedDataObject { d with filepath := path }

/--
The chunks put the object together: the metadata are the header's, the file has the
payload in it, every byte was counted, and `remaining` is zero after the last chunk and
not before.
-/
def PutsTogether (parse : CString → Option DataObject) (path : CString) (d : DataObject)
    (header payload : List UInt8) (chunks : List (List UInt8)) : Prop :=
  ∃ f, feed parse path chunks = some f ∧
    f.state.object = some (completed path d payload) ∧ f.state.written = payload ∧
    f.totBytesPut = header.length + payload.length ∧
    ∀ before after g, chunks = before ++ after → before ≠ [] →
      feed parse path before = some g → (g.bytesRemaining = 0 ↔ after = [])

/-! ## The loop over the header -/

/-- No closing tag has been seen. -/
def NoClose (s : CString) : Prop := ∀ p ≤ s.length, closes (s.take p) = false

/-- The first closing tag of a stream ends at `p`. -/
structure FirstClose (s : CString) (p : Nat) : Prop where
  le : p ≤ s.length
  here : closes (s.take p) = true
  before : ∀ q < p, closes (s.take q) = false

/-- The test at the seventh byte was passed, if it was made. -/
def Passed (s : CString) : Prop := 7 ≤ s.length → recognized (s.take 7) = true

/-- What the loop makes of a header so far and more bytes. -/
def LoopSpec (parse : CString → Option DataObject) (data : List UInt8) (header : CString)
    (putLen : Nat) : HeaderResult → Prop
  | .more h n => h = header ++ data ∧ n = putLen + data.length ∧ NoClose (header ++ data) ∧
      Passed (header ++ data)
  | .parsed d rest n => ∃ p, FirstClose (header ++ data) p ∧ header.length < p ∧
      rest = (header ++ data).drop p ∧ n + header.length = putLen + p ∧
      parse ((header ++ data).take p) = some d ∧ recognized ((header ++ data).take 7) = true
  | .error => ¬ Passed (header ++ data) ∨
      ∃ p, FirstClose (header ++ data) p ∧ parse ((header ++ data).take p) = none

theorem nine_le_of_closes (h : closes s = true) : 9 ≤ s.length := by
  unfold closes at h
  simp only [Bool.and_eq_true, decide_eq_true_eq] at h
  exact h.1

theorem noClose_snoc {b : UInt8} (h : NoClose s) (hb : closes (s ++ [b]) = false) :
    NoClose (s ++ [b]) := by
  intro p hp
  rw [List.length_append, List.length_singleton] at hp
  rcases Nat.lt_or_ge s.length p with hlong | hshort
  · rw [List.take_of_length_le (by rw [List.length_append, List.length_singleton]; omega)]
    exact hb
  · rw [List.take_append_of_le_length hshort]
    exact h p hshort

/-- **The loop stops at the first closing tag** and at nothing else it can parse. -/
theorem headerLoop_spec (parse : CString → Option DataObject) :
    ∀ (data : List UInt8) (header : CString) (putLen : Nat), NoClose header → Passed header →
      LoopSpec parse data header putLen (headerLoop parse data header putLen)
  | [], header, putLen, hno, hpassed => by
      simp only [headerLoop, LoopSpec, List.append_nil, List.length_nil, Nat.add_zero, true_and]
      exact ⟨hno, hpassed⟩
  | b :: data, header, putLen, hno, hpassed => by
      have hstream : header ++ b :: data = (header ++ [b]) ++ data := by simp
      have hlen : (header ++ [b]).length = header.length + 1 := by simp
      have htake7 : 7 ≤ (header ++ [b]).length →
          (header ++ b :: data).take 7 = (header ++ [b]).take 7 := by
        intro h7
        rw [hstream, List.take_append_of_le_length h7]
      unfold headerLoop
      simp only
      by_cases hseven : (header ++ [b]).length = 7 ∧ recognized (header ++ [b]) = false
      · rw [if_pos hseven]
        refine Or.inl ?_
        intro hpass
        have hrec := hpass (by rw [hstream, List.length_append]; omega)
        rw [htake7 (by omega), List.take_of_length_le (by omega), hseven.2] at hrec
        cases hrec
      · rw [if_neg hseven]
        have hpassed' : Passed (header ++ [b]) := by
          intro h7
          rcases Nat.lt_or_ge header.length 7 with hshort | hlong
          · have h7' : (header ++ [b]).length = 7 := by omega
            rw [List.take_of_length_le (by omega)]
            cases hrec : recognized (header ++ [b]) with
            | true => rfl
            | false => exact absurd ⟨h7', hrec⟩ hseven
          · rw [List.take_append_of_le_length hlong]
            exact hpassed hlong
        cases hcloses : closes (header ++ [b]) with
        | true =>
            -- the closing tag ends with this byte
            have hnine := nine_le_of_closes hcloses
            have hfirst : FirstClose (header ++ b :: data) (header.length + 1) := by
              refine ⟨by rw [hstream, List.length_append]; omega, ?_, ?_⟩
              · rw [hstream, ← hlen, List.take_left]
                exact hcloses
              · intro q hq
                rw [List.take_append_of_le_length (by omega)]
                exact hno q (by omega)
            have htake : (header ++ b :: data).take (header.length + 1) = header ++ [b] := by
              rw [hstream, ← hlen, List.take_left]
            simp only [if_true]
            cases hparse : parse (header ++ [b]) with
            | none => exact Or.inr ⟨header.length + 1, hfirst, by rw [htake]; exact hparse⟩
            | some d =>
                refine ⟨header.length + 1, hfirst, by omega, ?_, by omega, ?_, ?_⟩
                · rw [hstream, ← hlen, List.drop_left]
                · rw [htake]
                  exact hparse
                · rw [htake7 (by omega)]
                  exact hpassed' (by omega)
        | false =>
            simp only [Bool.false_eq_true, if_false]
            have ih := headerLoop_spec parse data (header ++ [b]) (putLen + 1)
              (noClose_snoc hno hcloses) hpassed'
            generalize headerLoop parse data (header ++ [b]) (putLen + 1) = result at ih
            cases result with
            | error =>
                simp only [LoopSpec, ← hstream] at ih ⊢
                exact ih
            | more h n =>
                simp only [LoopSpec, ← hstream, List.length_cons] at ih ⊢
                refine ⟨ih.1, by omega, ih.2.2⟩
            | parsed d rest n =>
                simp only [LoopSpec, ← hstream] at ih ⊢
                obtain ⟨p, hfirst, hp, hrest, hn, hparse⟩ := ih
                exact ⟨p, hfirst, by omega, hrest, by omega, hparse⟩

/-! ## Accounting -/

/-- Before the closing tag every byte is in the header buffer, and counted. -/
structure HeaderPhase (chunks : List (List UInt8)) (f : Feeding) : Prop where
  state : f.state = { createForPutting with header := chunks.flatten }
  noClose : NoClose chunks.flatten
  passed : Passed chunks.flatten
  buffer : f.buffer = []
  total : f.totBytesPut = chunks.flatten.length
  remaining : f.bytesRemaining = metadataPending

/--
After it, what was counted is the header up to its closing tag and the bytes in the file,
less `lost`. Nothing is lost only if there was nothing to put into a file or a chunk
ended with the header.
-/
structure PayloadPhase (chunks : List (List UInt8)) (f : Feeding) (p lost : Nat) : Prop where
  first : FirstClose chunks.flatten p
  recognizes : recognized (chunks.flatten.take 7) = true
  size : p < maxMetadataSize
  object : f.state.object ≠ none
  opened : f.state.fp = true ∨ f.state.finished = true
  total : f.totBytesPut + lost = p + f.state.written.length
  aligned : lost = 0 → f.state.finished = true ∧ f.state.written = [] ∨
    ∃ before after, chunks = before ++ after ∧ before.flatten.length = p

theorem FirstClose.append (h : FirstClose s p) (t : CString) : FirstClose (s ++ t) p := by
  refine ⟨?_, ?_, ?_⟩
  · rw [List.length_append]
    have := h.le
    omega
  · rw [List.take_append_of_le_length h.le]
    exact h.here
  · intro q hq
    rw [List.take_append_of_le_length (by have := h.le; omega)]
    exact h.before q hq

theorem FirstClose.nine_le (h : FirstClose s p) : 9 ≤ p := by
  have hnine := nine_le_of_closes h.here
  rw [List.length_take] at hnine
  omega

/-- A stream has one first closing tag. -/
theorem FirstClose.unique {q : Nat} (h : FirstClose s p) (h' : FirstClose s q) : p = q := by
  rcases Nat.lt_trichotomy p q with hlt | heq | hgt
  · have := h'.before p hlt
    rw [h.here] at this
    cases this
  · exact heq
  · have := h.before q hgt
    rw [h'.here] at this
    cases this

/-- The object when its file was just opened. -/
def atHeader (d : DataObject) : Putting := ⟨[], some d, false, [], 0, false⟩

/-- Behind the header, in the call that ended it: the four things that can happen. -/
theorem putPayload_first (path : CString) (d : DataObject) (rest : List UInt8) (n : Nat) :
    putPayload path false (atHeader d) d rest n =
      if d.dataLen.toNat = 0 then ⟨{ atHeader d with finished := true }, n, 0⟩
      else if rest = [] then
        ⟨⟨[], some { d with filepath := path }, true, [], d.dataLen.toNat, false⟩, n,
          d.dataLen.toNat⟩
      else if rest.length < d.dataLen.toNat then
        ⟨⟨[], some { d with filepath := path }, true, rest, d.dataLen.toNat - rest.length, false⟩,
          rest.length, d.dataLen.toNat - rest.length⟩
      else
        ⟨⟨[], some (restoreEncryptedDataObject { d with filepath := path }), false,
            rest.take d.dataLen.toNat, 0, true⟩, d.dataLen.toNat, 0⟩ := by
  unfold putPayload atHeader
  by_cases hzero : d.dataLen.toNat = 0
  · simp [hzero]
  · have hpos : 0 < d.dataLen.toNat := by omega
    simp [hzero, hpos]

/-- Later calls, while the file is open. -/
theorem putPayload_open {path : CString} {st : Putting} (hfp : st.fp = true) (d : DataObject)
    {data : List UInt8} (hdata : data ≠ []) :
    putPayload path false st d data 0 =
      if data.length < st.bytesLeft then
        ⟨{ st with object := some d, written := st.written ++ data,
                   bytesLeft := st.bytesLeft - data.length },
          data.length, st.bytesLeft - data.length⟩
      else if 0 < st.bytesLeft then
        ⟨{ st with object := some (restoreEncryptedDataObject d), fp := false,
                   written := st.written ++ data.take st.bytesLeft, bytesLeft := 0,
                   finished := true }, st.bytesLeft, 0⟩
      else ⟨{ st with object := some d }, 0, metadataPending⟩ := by
  unfold putPayload
  simp only [hfp, if_true, not_true, false_and, if_false, hdata]
  rfl

/-- One chunk while the header is not closed. -/
theorem feedChunk_header {parse : CString → Option DataObject} {path : CString}
    (h : HeaderPhase before f) (hne : chunk ≠ []) :
    feedChunk parse path f chunk =
      if maxMetadataSize ≤ before.flatten.length + chunk.length then none
      else
        match headerLoop parse chunk before.flatten 0 with
        | .error => none
        | .more header n =>
            some ⟨{ createForPutting with header := header }, chunk.drop n,
              before.flatten.length + n, metadataPending⟩
        | .parsed d rest n =>
            let result := putPayload path false (atHeader d) d rest n
            if result.putLen < 0 then none
            else some ⟨result.state, chunk.drop result.putLen.toNat,
              before.flatten.length + result.putLen.toNat, result.remaining⟩ := by
  unfold feedChunk putData
  rw [h.state, h.buffer, h.total, List.nil_append]
  simp only [hne, if_false, createForPutting, Bool.false_eq_true]
  by_cases hsize : maxMetadataSize ≤ before.flatten.length + chunk.length
  · rw [if_pos hsize, if_pos hsize]
    rfl
  · rw [if_neg hsize, if_neg hsize]
    cases headerLoop parse chunk before.flatten 0 with
    | error => rfl
    | more header n => rfl
    | parsed d rest n => rfl

/-- What a chunk does to an unclosed header. -/
theorem headerPhase_step {parse : CString → Option DataObject} {path : CString} {g : Feeding}
    (h : HeaderPhase before f) (hne : chunk ≠ []) (hfeed : feedChunk parse path f chunk = some g) :
    HeaderPhase (before ++ [chunk]) g ∨ ∃ p lost, PayloadPhase (before ++ [chunk]) g p lost := by
  have hflat : (before ++ [chunk]).flatten = before.flatten ++ chunk := by simp
  have hspec := headerLoop_spec parse chunk before.flatten 0 h.noClose h.passed
  rw [feedChunk_header h hne] at hfeed
  split at hfeed
  · cases hfeed
  · next hsize =>
      generalize headerLoop parse chunk before.flatten 0 = result at hspec hfeed
      cases result with
      | error => cases hfeed
      | more header n =>
          obtain ⟨rfl, hn, hno, hpassed⟩ := hspec
          rw [Nat.zero_add] at hn
          subst hn
          simp only [Option.some.injEq] at hfeed
          subst hfeed
          refine Or.inl ⟨by rw [hflat], by rw [hflat]; exact hno, by rw [hflat]; exact hpassed,
            by simp, by rw [hflat, List.length_append], rfl⟩
      | parsed d rest n =>
          obtain ⟨p, hfirst, hp, hrest, hn, _, hrec⟩ := hspec
          rw [← hflat] at hfirst hrest hrec
          have hple := hfirst.le
          have hlen : (before ++ [chunk]).flatten.length = before.flatten.length + chunk.length := by
            rw [hflat, List.length_append]
          have hrestlen : rest.length = before.flatten.length + chunk.length - p := by
            rw [hrest, List.length_drop, hlen]
          have hpsize : p < maxMetadataSize := by omega
          simp only [putPayload_first] at hfeed
          -- the call counts its header bytes or its payload bytes, never both
          refine Or.inr ?_
          by_cases hzero : d.dataLen.toNat = 0
          · simp only [hzero, if_true] at hfeed
            rw [if_neg (by omega)] at hfeed
            injection hfeed with hfeed
            subst hfeed
            refine ⟨p, 0, hfirst, hrec, hpsize, by simp [atHeader], Or.inr rfl, ?_,
              fun _ => Or.inl ⟨rfl, rfl⟩⟩
            simp only [atHeader, List.length_nil, Int.toNat_natCast]
            omega
          · simp only [hzero, if_false] at hfeed
            by_cases hnil : rest = []
            · simp only [hnil, if_true] at hfeed
              rw [if_neg (by omega)] at hfeed
              injection hfeed with hfeed
              subst hfeed
              rw [hnil, List.length_nil] at hrestlen
              refine ⟨p, 0, hfirst, hrec, hpsize, by simp, Or.inl rfl, ?_,
                fun _ => Or.inr ⟨before ++ [chunk], [], by simp, by omega⟩⟩
              simp only [List.length_nil, Int.toNat_natCast]
              omega
            · simp only [hnil, if_false] at hfeed
              by_cases hshort : rest.length < d.dataLen.toNat
              · simp only [hshort, if_true] at hfeed
                rw [if_neg (by omega)] at hfeed
                injection hfeed with hfeed
                subst hfeed
                refine ⟨p, p - before.flatten.length, hfirst, hrec, hpsize, by simp, Or.inl rfl,
                  ?_, fun hlost => by omega⟩
                simp only [Int.toNat_natCast]
                omega
              · simp only [hshort, if_false] at hfeed
                rw [if_neg (by omega)] at hfeed
                injection hfeed with hfeed
                subst hfeed
                refine ⟨p, p - before.flatten.length, hfirst, hrec, hpsize, by simp, Or.inr rfl,
                  ?_, fun hlost => by omega⟩
                simp only [Int.toNat_natCast, List.length_take]
                omega

/-- What a chunk does behind the header. -/
theorem payloadPhase_step {parse : CString → Option DataObject} {path : CString} {g : Feeding}
    {lost : Nat} (h : PayloadPhase before f p lost) (hne : chunk ≠ [])
    (hfeed : feedChunk parse path f chunk = some g) :
    PayloadPhase (before ++ [chunk]) g p lost := by
  have hflat : (before ++ [chunk]).flatten = before.flatten ++ chunk := by simp
  have hdata : f.buffer ++ chunk ≠ [] := by simp [hne]
  have h7 : 7 ≤ before.flatten.length := by
    have := h.first.nine_le
    have := h.first.le
    omega
  have hrec : recognized ((before ++ [chunk]).flatten.take 7) = true := by
    rw [hflat, List.take_append_of_le_length h7]
    exact h.recognizes
  have hfirst : FirstClose (before ++ [chunk]).flatten p := by
    rw [hflat]
    exact h.first.append chunk
  -- chunks behind the header move neither its end nor what was lost with it
  have haligned : ∀ g' : Feeding, (f.state.finished = true → g'.state = f.state) → lost = 0 →
      g'.state.finished = true ∧ g'.state.written = [] ∨
        ∃ b a, before ++ [chunk] = b ++ a ∧ b.flatten.length = p := by
    intro g' hsame hlost
    rcases h.aligned hlost with ⟨hfin, hw⟩ | ⟨b, a, rfl, hb⟩
    · rw [hsame hfin]
      exact Or.inl ⟨hfin, hw⟩
    · exact Or.inr ⟨b, a ++ [chunk], by rw [List.append_assoc], hb⟩
  unfold feedChunk putData at hfeed
  rw [if_neg hdata] at hfeed
  cases hfin : f.state.finished with
  | true =>
      simp only [hfin, if_true] at hfeed
      rw [if_neg (by omega), Option.some.injEq] at hfeed
      subst hfeed
      exact ⟨hfirst, hrec, h.size, h.object, h.opened, h.total, haligned _ (fun _ => rfl)⟩
  | false =>
      have hnotfin : ∀ g' : Feeding, f.state.finished = true → g'.state = f.state := by
        intro g' hcon
        rw [hfin] at hcon
        cases hcon
      have hopen : f.state.fp = true := by
        rcases h.opened with hfp | hcon
        · exact hfp
        · rw [hfin] at hcon
          cases hcon
      have htotal := h.total
      simp only [hfin, Bool.false_eq_true, if_false] at hfeed
      cases hobj : f.state.object with
      | none => exact absurd hobj h.object
      | some d =>
          simp only [hobj, putPayload_open hopen d hdata] at hfeed
          -- less than is missing; all of it, and a surplus stays; or nothing is missing any more
          by_cases hshort : (f.buffer ++ chunk).length < f.state.bytesLeft
          · simp only [hshort, if_true] at hfeed
            rw [if_neg (by omega), Option.some.injEq] at hfeed
            subst hfeed
            refine ⟨hfirst, hrec, h.size, by simp, Or.inl hopen, ?_, haligned _ (hnotfin _)⟩
            simp only [Int.toNat_natCast, List.length_append]
            omega
          · simp only [hshort, if_false] at hfeed
            by_cases hleft : 0 < f.state.bytesLeft
            · simp only [hleft, if_true] at hfeed
              rw [if_neg (by omega), Option.some.injEq] at hfeed
              subst hfeed
              refine ⟨hfirst, hrec, h.size, by simp, Or.inr rfl, ?_, haligned _ (hnotfin _)⟩
              simp only [Int.toNat_natCast, List.length_append, List.length_take] at hshort ⊢
              omega
            · simp only [hleft, if_false] at hfeed
              rw [if_neg (by omega), Option.some.injEq] at hfeed
              subst hfeed
              exact ⟨hfirst, hrec, h.size, by simp, Or.inl hopen, htotal, haligned _ (hnotfin _)⟩

/-- **The account holds after any chunks** that were taken without an error. -/
theorem feed_phases {parse : CString → Option DataObject} {path : CString} :
    ∀ (chunks : List (List UInt8)) (f : Feeding), (∀ c ∈ chunks, c ≠ []) →
      feed parse path chunks = some f →
      HeaderPhase chunks f ∨ ∃ p lost, PayloadPhase chunks f p lost := by
  intro chunks
  induction chunks using List.reverseRecOn with
  | nil =>
      intro f _ hfeed
      injection hfeed with hfeed
      subst hfeed
      refine Or.inl ⟨rfl, ?_, ?_, rfl, rfl, rfl⟩
      · intro p _
        rw [List.flatten_nil, List.take_nil]
        rfl
      · intro h7
        simp at h7
  | append_singleton chunks chunk ih =>
      intro f hne hfeed
      unfold feed at hfeed
      rw [run_append, Option.bind_eq_some_iff] at hfeed
      obtain ⟨g, hg, hlast⟩ := hfeed
      rw [run, Option.bind_eq_some_iff] at hlast
      obtain ⟨f', hchunk, hf'⟩ := hlast
      injection hf' with hf'
      subst hf'
      have hc : chunk ≠ [] := hne chunk (by simp)
      rcases ih g (fun c hcmem => hne c (List.mem_append_left _ hcmem)) hg with hheader | hpayload
      · exact headerPhase_step hheader hc hchunk
      · obtain ⟨p, lost, hpayload⟩ := hpayload
        exact Or.inr ⟨p, lost, payloadPhase_step hpayload hc hchunk⟩

/-! ## The chunks that put the object together -/

/--
Behind a header that a chunk ended with, every byte fed is in the file and counted, and
the file is open until the last one.
-/
structure ExactPhase (path : CString) (d : DataObject) (header payload : List UInt8) (len : Nat)
    (f : Feeding) : Prop where
  buffer : f.buffer = []
  total : f.totBytesPut = len
  written : f.state.written = payload.take (len - header.length)
  remaining : f.bytesRemaining = header.length + payload.length - len
  state : (len < header.length + payload.length ∧ f.state.fp = true ∧
      f.state.finished = false ∧ f.state.object = some { d with filepath := path } ∧
      f.state.bytesLeft = f.bytesRemaining) ∨
    (len = header.length + payload.length ∧
      f.state.object = some (completed path d payload))

/-- The chunk that ends with the header. -/
theorem exactPhase_start {parse : CString → Option DataObject} {path : CString} {d : DataObject}
    {header payload : List UInt8} (h : HeaderPhase before f) (hne : chunk ≠ [])
    (hend : before.flatten ++ chunk = header) (hfirst : FirstClose header header.length)
    (hsize : header.length < maxMetadataSize) (hrec : recognized (header.take 7) = true)
    (hparse : parse header = some d) (hlen : d.dataLen.toNat = payload.length) :
    ∃ g, feedChunk parse path f chunk = some g ∧
      ExactPhase path d header payload header.length g := by
  have hlength : before.flatten.length + chunk.length = header.length := by
    rw [← hend, List.length_append]
  have hspec := headerLoop_spec parse chunk before.flatten 0 h.noClose h.passed
  rw [feedChunk_header h hne, if_neg (by omega)]
  generalize headerLoop parse chunk before.flatten 0 = result at hspec
  -- the header closes here and nowhere before, so the loop neither fails nor asks for more
  cases result with
  | error =>
      simp only [LoopSpec, hend] at hspec
      rcases hspec with hcon | ⟨p, hp, hnone⟩
      · exact absurd (fun _ => hrec) hcon
      · rw [hp.unique hfirst, List.take_length, hparse] at hnone
        cases hnone
  | more s n =>
      simp only [LoopSpec, hend] at hspec
      have hcon := hspec.2.2.1 header.length (Nat.le_refl _)
      rw [hfirst.here] at hcon
      cases hcon
  | parsed d' rest n =>
      simp only [LoopSpec, hend] at hspec
      obtain ⟨p, hp, _, hrest, hn, hparse', _⟩ := hspec
      have hpe : p = header.length := hp.unique hfirst
      subst hpe
      rw [List.take_length, hparse] at hparse'
      injection hparse' with hparse'
      subst hparse'
      rw [List.drop_length] at hrest
      subst hrest
      have hnc : n = chunk.length := by omega
      subst hnc
      simp only [putPayload_first, if_true]
      -- with no payload the object is done with its header
      by_cases hzero : d.dataLen.toNat = 0
      · have hnil : payload = [] := List.eq_nil_of_length_eq_zero (by omega)
        simp only [hzero, if_true]
        rw [if_neg (by omega)]
        refine ⟨_, rfl, ?_, ?_, ?_, ?_, Or.inr ⟨?_, ?_⟩⟩
        · simp only [Int.toNat_natCast, List.drop_length]
        · simp only [Int.toNat_natCast]
          exact hlength
        · rw [hnil, List.take_nil]
          rfl
        · simp only [hnil, List.length_nil, Nat.add_zero, Nat.sub_self]
        · rw [hnil, List.length_nil, Nat.add_zero]
        · rw [completed, if_pos hnil]
          rfl
      · simp only [hzero, if_false]
        rw [if_neg (by omega)]
        refine ⟨_, rfl, ?_, ?_, ?_, ?_, Or.inl ⟨by omega, rfl, rfl, rfl, rfl⟩⟩
        · simp only [Int.toNat_natCast, List.drop_length]
        · simp only [Int.toNat_natCast]
          exact hlength
        · rw [Nat.sub_self, List.take_zero]
        · simp only
          omega

/-- The chunks behind the header. -/
theorem exactPhase_step {parse : CString → Option DataObject} {path : CString} {d : DataObject}
    {header payload : List UInt8} {len : Nat} (h : ExactPhase path d header payload len f)
    (hne : chunk ≠ []) (hge : header.length ≤ len)
    (hchunk : chunk = slice payload (len - header.length) chunk.length) :
    ∃ g, feedChunk parse path f chunk = some g ∧
      ExactPhase path d header payload (len + chunk.length) g := by
  have hpos : 0 < chunk.length := List.length_pos_iff.mpr hne
  have hle : len - header.length + chunk.length ≤ payload.length := by
    have := congrArg List.length hchunk
    rw [length_slice] at this
    omega
  -- what was written and the chunk are together a beginning of the payload
  have hwritten : payload.take (len - header.length) ++ chunk =
      payload.take (len + chunk.length - header.length) := by
    rw [show len + chunk.length - header.length = (len - header.length) + chunk.length by omega,
      List.take_add]
    exact congrArg _ hchunk
  rcases h.state with ⟨hlt, hfp, hfin, hobj, hleft⟩ | ⟨hlen, _⟩
  · have hrem := h.remaining
    have htot := h.total
    unfold feedChunk putData
    rw [h.buffer, List.nil_append, if_neg hne, hfin]
    simp only [Bool.false_eq_true, if_false, hobj, putPayload_open hfp _ hne]
    by_cases hshort : chunk.length < f.state.bytesLeft
    · simp only [hshort, if_true]
      rw [if_neg (by omega)]
      refine ⟨_, rfl, ?_, ?_, ?_, ?_, Or.inl ⟨by omega, hfp, hfin, rfl, rfl⟩⟩
      · simp only [Int.toNat_natCast, List.drop_length]
      · simp only [Int.toNat_natCast, htot]
      · simp only [h.written]
        exact hwritten
      · simp only
        omega
    · have hall : f.state.bytesLeft = chunk.length := by omega
      have hsome : 0 < f.state.bytesLeft := by omega
      simp only [hshort, if_false, hsome, if_true]
      rw [if_neg (by omega)]
      refine ⟨_, rfl, ?_, ?_, ?_, ?_, Or.inr ⟨by omega, ?_⟩⟩
      · simp only [Int.toNat_natCast, hall, List.drop_length]
      · simp only [Int.toNat_natCast, htot, hall]
      · simp only [h.written, hall, List.take_length]
        exact hwritten
      · simp only
        omega
      · have hpay : payload ≠ [] := by
          intro hnil
          rw [hnil, List.length_nil] at hle
          omega
        rw [completed, if_neg hpay]
  · omega

/-- A cut inside or behind a chunk is behind it, if it is not before. -/
theorem chunk_le_of_cut {pre post after : List (List UInt8)}
    (hcut : pre ++ chunk :: post = before ++ after)
    (hlt : pre.flatten.length < before.flatten.length) :
    pre.flatten.length + chunk.length ≤ before.flatten.length := by
  rcases List.append_eq_append_iff.mp hcut with ⟨mid, rfl, hmid⟩ | ⟨mid, rfl, _⟩
  · cases mid with
    | nil => simp at hlt
    | cons c mid =>
        injection hmid with hc _
        subst hc
        simp only [List.flatten_append, List.flatten_cons, List.length_append]
        omega
  · rw [List.flatten_append, List.length_append] at hlt
    omega

section Exact

variable {parse : CString → Option DataObject} {path : CString} {d : DataObject}
  {header payload : List UInt8} {chunks : List (List UInt8)}

/-- What the stream must be for the chunks to put the object together. -/
structure Separate (header payload : List UInt8) (chunks : List (List UInt8)) : Prop where
  size : header.length < maxMetadataSize
  recognizes : recognized (header.take 7) = true
  before : ∀ p < header.length, closes (header.take p) = false
  cut : payload = [] ∨ ∃ before after, chunks = before ++ after ∧ before.flatten = header

/-- Before the header is full. -/
theorem headerPhase_extend {before : List (List UInt8)} {f : Feeding} {chunk rest : List UInt8}
    (h : HeaderPhase before f) (hne : chunk ≠ []) (hpre : before.flatten ++ chunk ++ rest = header)
    (hrest : rest ≠ []) (hsep : Separate header payload chunks) :
    ∃ g, feedChunk parse path f chunk = some g ∧ HeaderPhase (before ++ [chunk]) g := by
  have hrestlen : 0 < rest.length := List.length_pos_iff.mpr hrest
  have hlen : before.flatten.length + chunk.length + rest.length = header.length := by
    rw [← hpre, List.length_append, List.length_append]
  have htake : ∀ p ≤ (before.flatten ++ chunk).length,
      (before.flatten ++ chunk).take p = header.take p := by
    intro p hp
    rw [← hpre, List.take_append_of_le_length hp]
  -- the header closes at its end only, which has not come yet
  have hno : ∀ p, ¬ FirstClose (before.flatten ++ chunk) p := by
    intro p hp
    have hle := hp.le
    have hhere := hp.here
    rw [htake p hle, hsep.before p (by rw [List.length_append] at hle; omega)] at hhere
    cases hhere
  have hpassed : Passed (before.flatten ++ chunk) := by
    intro h7
    rw [htake 7 h7]
    exact hsep.recognizes
  have hspec := headerLoop_spec parse chunk before.flatten 0 h.noClose h.passed
  have hsize := hsep.size
  have hflat : (before ++ [chunk]).flatten = before.flatten ++ chunk := by simp
  rw [feedChunk_header h hne, if_neg (by omega)]
  generalize headerLoop parse chunk before.flatten 0 = result at hspec
  cases result with
  | error =>
      rcases hspec with hcon | ⟨p, hp, _⟩
      · exact absurd hpassed hcon
      · exact absurd hp (hno p)
  | parsed d' rest' n =>
      obtain ⟨p, hp, _⟩ := hspec
      exact absurd hp (hno p)
  | more s n =>
      obtain ⟨rfl, hn, hnoClose, _⟩ := hspec
      rw [Nat.zero_add] at hn
      subst hn
      refine ⟨_, rfl, ⟨by rw [hflat], by rw [hflat]; exact hnoClose, by rw [hflat]; exact hpassed,
        by simp, by rw [hflat, List.length_append], rfl⟩⟩

/-- **While the header is cut off from the payload, every byte is accounted for.** -/
theorem feed_exact (hclose : closes header = true) (hparse : parse header = some d)
    (hlen : d.dataLen.toNat = payload.length) (hne : ∀ c ∈ chunks, c ≠ [])
    (hstream : chunks.flatten = header ++ payload) (hsep : Separate header payload chunks) :
    ∀ pre post, chunks = pre ++ post → ∃ f, feed parse path pre = some f ∧
      ((pre.flatten.length < header.length ∧ HeaderPhase pre f) ∨
        (header.length ≤ pre.flatten.length ∧
          ExactPhase path d header payload pre.flatten.length f)) := by
  have hfirst : FirstClose header header.length :=
    ⟨Nat.le_refl _, by rw [List.take_length]; exact hclose, hsep.before⟩
  have hnine := hfirst.nine_le
  intro pre
  induction pre using List.reverseRecOn with
  | nil =>
      intro post _
      refine ⟨startFeeding, rfl, Or.inl ⟨by simp; omega, rfl, ?_, ?_, rfl, rfl, rfl⟩⟩
      · intro p _
        rw [List.flatten_nil, List.take_nil]
        rfl
      · intro h7
        simp at h7
  | append_singleton pre chunk ih =>
      intro post hchunks
      rw [List.append_assoc, List.singleton_append] at hchunks
      have hc : chunk ≠ [] := hne chunk (by rw [hchunks]; simp)
      have hpos : 0 < chunk.length := List.length_pos_iff.mpr hc
      have hflat : (pre ++ [chunk]).flatten = pre.flatten ++ chunk := by simp
      have hall : pre.flatten ++ chunk ++ post.flatten = header ++ payload := by
        rw [← hstream, hchunks]
        simp
      have hsum : (pre.flatten ++ chunk).length = pre.flatten.length + chunk.length :=
        List.length_append
      have hbegin : pre.flatten ++ chunk =
          (header ++ payload).take (pre.flatten ++ chunk).length := by
        rw [← hall, List.take_left]
      obtain ⟨f, hf, hphase⟩ := ih (chunk :: post) hchunks
      have hstep : ∀ g, feedChunk parse path f chunk = some g →
          feed parse path (pre ++ [chunk]) = some g := by
        intro g hg
        unfold feed at hf ⊢
        rw [run_append, hf]
        simp only [Option.bind_some, run, hg]
      rcases hphase with ⟨hshort, hheader⟩ | ⟨hlong, hexact⟩
      · rcases Nat.lt_or_ge (pre.flatten.length + chunk.length) header.length with hmore | hfull
        · have hpre : pre.flatten ++ chunk ++ header.drop (pre.flatten ++ chunk).length = header := by
            nth_rewrite 1 [hbegin]
            rw [List.take_append_of_le_length (by omega), List.take_append_drop]
          have hrest : header.drop (pre.flatten ++ chunk).length ≠ [] := by
            rw [Ne, List.drop_eq_nil_iff]
            omega
          obtain ⟨g, hg, hnext⟩ := headerPhase_extend hheader hc hpre hrest hsep
          exact ⟨g, hstep g hg, Or.inl ⟨by rw [hflat]; omega, hnext⟩⟩
        · -- this chunk has the header's last byte in it, and nothing behind
          have hexactly : (pre.flatten ++ chunk).length = header.length := by
            rcases hsep.cut with hnil | ⟨before, after, hcut, hbefore⟩
            · have := congrArg List.length hall
              rw [hnil, List.append_nil, List.length_append, List.length_append] at this
              omega
            · have := chunk_le_of_cut (hchunks.symm.trans hcut) (by rw [hbefore]; exact hshort)
              rw [hbefore] at this
              omega
          have hend : pre.flatten ++ chunk = header := by
            rw [hbegin, hexactly, List.take_left]
          obtain ⟨g, hg, hnext⟩ := exactPhase_start hheader hc hend hfirst hsep.size hsep.recognizes
            hparse hlen
          refine ⟨g, hstep g hg, Or.inr ?_⟩
          rw [hflat, hexactly]
          exact ⟨Nat.le_refl _, hnext⟩
      · have hchunk : chunk = slice payload (pre.flatten.length - header.length) chunk.length := by
          have hslice : chunk = slice (header ++ payload) pre.flatten.length chunk.length := by
            unfold slice
            rw [← hall, List.append_assoc, List.drop_left, List.take_left]
          rw [slice, List.drop_append, List.drop_eq_nil_iff.mpr hlong, List.nil_append] at hslice
          exact hslice
        obtain ⟨g, hg, hnext⟩ := exactPhase_step hexact hc hlong hchunk
        refine ⟨g, hstep g hg, Or.inr ?_⟩
        rw [hflat, List.length_append]
        exact ⟨by omega, hnext⟩

/-- Separate chunks put the object together. -/
theorem putsTogether_of_separate (hclose : closes header = true) (hparse : parse header = some d)
    (hlen : d.dataLen.toNat = payload.length) (hne : ∀ c ∈ chunks, c ≠ [])
    (hstream : chunks.flatten = header ++ payload) (hsep : Separate header payload chunks) :
    PutsTogether parse path d header payload chunks := by
  have hexact := @feed_exact parse path d header payload chunks hclose hparse hlen hne hstream hsep
  have hall : chunks.flatten.length = header.length + payload.length := by
    rw [hstream, List.length_append]
  obtain ⟨f, hf, hphase⟩ := hexact chunks [] (List.append_nil _).symm
  have hend : ExactPhase path d header payload chunks.flatten.length f := by
    rcases hphase with ⟨hshort, _⟩ | ⟨_, hend⟩
    · omega
    · exact hend
  refine ⟨f, hf, ?_, ?_, by rw [hend.total, hall], ?_⟩
  · rcases hend.state with ⟨hlt, _⟩ | ⟨_, hobj⟩
    · omega
    · exact hobj
  · rw [hend.written, List.take_of_length_le (by omega)]
  · intro before after g hcut _ hg
    -- whatever has come so far, what remains is zero only when nothing is to come
    obtain ⟨g', hg', hphase'⟩ := hexact before after hcut
    rw [hg] at hg'
    injection hg' with hg'
    subst hg'
    have hsum : before.flatten.length + after.flatten.length = header.length + payload.length := by
      rw [← hall, hcut, List.flatten_append, List.length_append]
    have hafter : after.flatten.length = 0 ↔ after = [] := by
      constructor
      · intro hzero
        cases after with
        | nil => rfl
        | cons c rest =>
            have hc : 0 < c.length := List.length_pos_iff.mpr (hne c (by rw [hcut]; simp))
            rw [List.flatten_cons, List.length_append] at hzero
            omega
      · rintro rfl
        rfl
    rw [← hafter]
    rcases hphase' with ⟨hshort, hheader⟩ | ⟨hlong, hnext⟩
    · rw [hheader.remaining, metadataPending]
      omega
    · rw [hnext.remaining]
      omega

/-- Chunks that put the object together are separate. -/
theorem separate_of_putsTogether (hclose : closes header = true) (hne : ∀ c ∈ chunks, c ≠ [])
    (hstream : chunks.flatten = header ++ payload)
    (h : PutsTogether parse path d header payload chunks) : Separate header payload chunks := by
  obtain ⟨f, hf, hobj, hwritten, htotal, _⟩ := h
  have hnine := nine_le_of_closes hclose
  rcases feed_phases chunks f hne hf with hheader | ⟨p, lost, hphase⟩
  · rw [hheader.state] at hobj
    cases hobj
  · have hple : p ≤ header.length := by
      by_contra hlt
      have hcon := hphase.first.before header.length (by omega)
      rw [hstream, List.take_left, hclose] at hcon
      cases hcon
    have hsum := hphase.total
    rw [htotal, hwritten] at hsum
    -- the bytes counted leave no room for a loss
    have hlost : lost = 0 := by omega
    have hp : p = header.length := by omega
    subst hp
    refine ⟨hphase.size, ?_, ?_, ?_⟩
    · have hrec := hphase.recognizes
      rw [hstream, List.take_append_of_le_length (by omega)] at hrec
      exact hrec
    · intro q hq
      have hbefore := hphase.first.before q hq
      rw [hstream, List.take_append_of_le_length (by omega)] at hbefore
      exact hbefore
    · rcases hphase.aligned hlost with ⟨_, hnil⟩ | ⟨before, after, hcut, hb⟩
      · exact Or.inl (hwritten.symm.trans hnil)
      · refine Or.inr ⟨before, after, hcut, ?_⟩
        rw [hcut, List.flatten_append] at hstream
        exact (List.append_inj hstream hb).1

end Exact

/--
**`putData` puts an object together from chunks exactly if they keep header and payload
apart**: no chunk has bytes of both in it. The header must be one that the code lets pass
to the parser: smaller than the limit, with a known beginning, and with no closing tag
before its end.
-/
theorem puts_together_iff (parse : CString → Option DataObject) (path : CString) (d : DataObject)
    (header payload : List UInt8) (chunks : List (List UInt8)) (hclose : closes header = true)
    (hparse : parse header = some d) (hlen : d.dataLen.toNat = payload.length)
    (hne : ∀ c ∈ chunks, c ≠ []) (hstream : chunks.flatten = header ++ payload) :
    PutsTogether parse path d header payload chunks ↔
      header.length < maxMetadataSize ∧ recognized (header.take 7) = true ∧
        (∀ p < header.length, closes (header.take p) = false) ∧
        (payload = [] ∨ ∃ before after, chunks = before ++ after ∧ before.flatten = header) := by
  constructor
  · intro h
    have hsep := separate_of_putsTogether hclose hne hstream h
    exact ⟨hsep.size, hsep.recognizes, hsep.before, hsep.cut⟩
  · rintro ⟨hsize, hrec, hbefore, hcut⟩
    exact putsTogether_of_separate hclose hparse hlen hne hstream ⟨hsize, hrec, hbefore, hcut⟩

/-- The smallest header that announces two bytes. -/
def twoBytesHeader : CString := lit "<Haggle><Data data_len=\"2\"/></Haggle>"

/-- Its tree. -/
def twoBytesTree : Metadata :=
  (Metadata.leaf []).addMetadata (lit "Data")
    ((Metadata.leaf []).setParameter (lit "data_len") (lit "2"))

/-- A parser that knows this header. -/
def twoBytesParse (header : CString) : Option DataObject :=
  if header = twoBytesHeader then receive twoBytesTree else none

/-- What `parseMetadata` makes of the tree. -/
def twoBytes : DataObject := (receive twoBytesTree).getD (fresh twoBytesTree)

theorem twoBytes_parse : twoBytesParse twoBytesHeader = some twoBytes := by
  unfold twoBytesParse
  rw [if_pos rfl]
  rfl

theorem twoBytes_closes : closes twoBytesHeader = true := by decide

theorem twoBytes_dataLen : twoBytes.dataLen.toNat = [7, 8].length := by decide

/-- Header and payload in two chunks. -/
theorem puts_together_two :
    PutsTogether twoBytesParse (lit "/tmp/f") twoBytes twoBytesHeader [7, 8]
      [twoBytesHeader, [7, 8]] := by
  refine (puts_together_iff twoBytesParse (lit "/tmp/f") twoBytes twoBytesHeader [7, 8]
    [twoBytesHeader, [7, 8]] twoBytes_closes twoBytes_parse twoBytes_dataLen (by decide)
    (by decide)).mpr ?_
  exact ⟨by decide, by decide, by decide, Or.inr ⟨[twoBytesHeader], [[7, 8]], rfl, by decide⟩⟩

/-- Header and payload in one chunk: the header is counted out again. -/
theorem one_chunk_not_together :
    closes twoBytesHeader = true ∧ twoBytesParse twoBytesHeader = some twoBytes ∧
      twoBytes.dataLen.toNat = [7, 8].length ∧
      ¬ PutsTogether twoBytesParse (lit "/tmp/f") twoBytes twoBytesHeader [7, 8]
        [twoBytesHeader ++ [7, 8]] := by
  refine ⟨twoBytes_closes, twoBytes_parse, twoBytes_dataLen, ?_⟩
  intro h
  have hsep := separate_of_putsTogether twoBytes_closes (by decide) (by decide) h
  rcases hsep.cut with hnil | ⟨before, after, hcut, hbefore⟩
  · cases hnil
  · -- a part of a single chunk is nothing or all of it
    cases before with
    | nil => exact absurd hbefore (by decide)
    | cons c rest =>
        injection hcut with hc _
        subst hc
        have hlen := congrArg List.length hbefore
        rw [List.flatten_cons, List.length_append, List.length_append] at hlen
        simp only [List.length_cons, List.length_nil] at hlen
        omega

end Encoders.Data
