import Encoders.Data.PutData
import Encoders.Data.Retrieve
import Encoders.Data.Wire

/-!
# Creating a data object from its metadata

`DataObject::create(raw, ...)` and `parseMetadata` as it is called there. Objects of the data store,
and those that come in one piece from an application, are made of the bytes of their metadata and of
values beside them. What goes wrong on the way should leave no object.

`parseMetadata` returns an `int`, negative for an error. The exit of a file path that cannot be set
returns `false`, which is 0, and the caller takes it for success: the identifier is the one the
constructor wrote. A length, a weight or a time that is no number and a hash that cannot be decoded
are not noticed at all. Only a signature that cannot be decoded is refused.

Memory is there when it is asked for. The XML parser and the files are parameters.
-/

namespace Encoders.Data

open Encoders.Lib DataObject

/-- The size of a file that can be opened, if `ftell` gives one. -/
inductive FileSize where
  | unknown
  | bytes (n : UInt64)

/-- What is asked for outside: the digest, the XML parser, the files that can be opened, the clock,
and what is in the variables of a time that cannot be read. -/
structure Surroundings where
  sha1 : List UInt8 → List UInt8
  initFromRaw : CString → Option (CString × Metadata)
  files : CString → Option FileSize
  now : Timeval
  uninitialised : CString → Timeval

/-- The arguments of `create`; a signature without bytes is none. -/
structure CreateArgs where
  raw : Option CString
  filepath : CString
  encfilepath : CString
  filename : CString
  sigStatus : SignatureStatus
  signee : CString
  signature : Option (List UInt8)
  createTime : Timeval
  datalen : UInt64
  encdatalen : UInt64
  datastate : DataState
  datahash : Option DataHash
  encdatahash : Option DataHash
  fromNetwork : Bool

/-- An object, its identifier, and whether it is encrypted. -/
structure Identified where
  object : DataObject
  id : List UInt8
  abeStatus : AbeStatus

namespace Surroundings

variable (w : Surroundings)

/-- The length of a file, if it is the one that is known or none is known; `none` is an error. -/
def fileLength (path : CString) (len : UInt64) : Option UInt64 :=
  match w.files path with
  | none => none
  | some .unknown => none
  | some (.bytes size) => if len = 0 then some size else if size ≠ len then none else some len

/-- `setFilePath` -/
def setFilePath (d : DataObject) (path : CString) (len : UInt64) (fromNetwork : Bool) :
    Bool × DataObject :=
  let d := { d with filepath := path, dataLen := len, origDataLen := len }
  if fromNetwork then (true, d)
  else
    match w.fileLength path len with
    | none => (false, d)
    | some n => (true, { d with dataLen := n, origDataLen := n })

/-- `setEncryptedFilePath` -/
def setEncryptedFilePath (d : DataObject) (path : CString) (len : UInt64) (fromNetwork : Bool) :
    Bool × DataObject :=
  let d := { d with encryptedFilePath := path, encryptedFileLength := len }
  if fromNetwork then (true, d)
  else
    match w.fileLength path len with
    | none => (false, d)
    | some n => (true, { d with encryptedFileLength := n })

/-- `calcId`, which writes the identifier. -/
def calcId (o : Identified) : Identified := { o with id := o.object.calcId w.sha1 }

/-! ## `parseMetadata` -/

/-- A time parameter. -/
def readTime (m : Metadata) (name : CString) (t : Timeval) : Timeval :=
  match m.getParameter name with
  | none => t
  | some str => (Timeval.ofString str).getD (w.uninitialised str)

/-- The length that the `Data` node announces. -/
def parseLength (d : DataObject) (dm : Metadata) : DataObject :=
  match dm.getParameter (lit "data_len") with
  | some str =>
      let len := UInt64.ofNat (strtoul (chars str))
      { d with dataLen := len, origDataLen := len }
  | none => d

/-- The file name. -/
def parseFileName (d : DataObject) (dm : Metadata) : DataObject :=
  match dm.getMetadata (lit "FileName") with
  | some m => { d with filename := m.getContent }
  | none => d

/-- The file path: `false` when it cannot be set. -/
def parseFilePath (fromNetwork : Bool) (d : DataObject) (dm : Metadata) :
    Bool × DataObject × Metadata :=
  match dm.getMetadata (lit "FilePath") with
  | none => (true, d, dm)
  | some m =>
      match w.setFilePath d m.getContent d.dataLen fromNetwork with
      | (false, d) => (false, d, dm)
      | (true, d) =>
          if d.filename.length = 0 then
            let name := (d.filepath.reverse.takeWhile (fun c => c ≠ 47)).reverse
            (true, { d with filename := name },
              (dm.addMetadata (lit "FileName") (Metadata.leaf name)).removeMetadata
                (lit "FilePath"))
          else (true, d, dm.removeMetadata (lit "FilePath"))

/-- The hash: left alone if it cannot be decoded. -/
def parseHash (d : DataObject) (dm : Metadata) : DataObject :=
  if d.dataState = .unknown then
    match dm.getMetadata (lit "FileHash") with
    | some m =>
        match decodeHash m.getContent d.dataHash with
        | some hash => { d with dataHash := hash, dataState := .notVerified }
        | none => d
    | none => d
  else d

/-- The `Data` node. -/
def parseData (fromNetwork : Bool) (d : DataObject) (dm : Metadata) :
    Bool × DataObject × Metadata :=
  match w.parseFilePath fromNetwork (parseFileName (parseLength d dm) dm) dm with
  | (false, d, dm) => (false, d, dm)
  | (true, d, dm) => (true, parseHash d dm, dm)

/-- The `Data` node, if there is one. -/
def parseDataNode (fromNetwork : Bool) (d : DataObject) : Bool × DataObject :=
  match d.metadata.getAll (lit "Data") with
  | [] => (true, d)
  | dm :: rest =>
      let (ok, d, dm) := w.parseData fromNetwork d dm
      (ok, { d with metadata := d.metadata.setAll (lit "Data") (dm :: rest) })

/-- What is read before the `Data` node. -/
def parseStart (d : DataObject) : DataObject :=
  let m := d.metadata
  let d := { d with
    persistent := parsePersistent m d.persistent
    createTime := w.readTime m (lit "create_time") d.createTime
    updateTime := w.readTime m (lit "update_time") d.updateTime }
  (m.getAll (lit "Attr")).foldl parseAttr (d.parseKind m)

/-- `parseMetadata`: what it returns, and the object. -/
def parseMetadata (fromNetwork : Bool) (o : Identified) : Int × Identified :=
  match w.parseDataNode fromNetwork (w.parseStart o.object) with
  -- `return false`
  | (false, d) => (0, { o with object := d })
  | (true, d) =>
      match d.parseSignature with
      | none => (-1, { o with object := d })
      | some d => (0, w.calcId { o with object := d })

end Surroundings

namespace CreateArgs

variable (a : CreateArgs)

/-- The paths; `none` when one of them cannot be set. -/
def setPaths (w : Surroundings) : Option DataObject :=
  let d := { fresh (Metadata.leaf []) with
    filepath := a.filepath
    encryptedFilePath := a.encfilepath
    filename := a.filename }
  let (ok, d) :=
    if a.filepath.length ≠ 0 then w.setFilePath d a.filepath a.datalen a.fromNetwork else (true, d)
  let (ok', d) :=
    if a.encfilepath.length ≠ 0 then w.setEncryptedFilePath d a.encfilepath a.encdatalen false
    else (true, d)
  if ok && ok' then some d else none

/-- The signature, and the status that it brings. -/
def setSignature (d : DataObject) : DataObject :=
  match a.signature with
  | none => { d with signatureStatus := a.sigStatus }
  | some bytes =>
      { d with signee := a.signee, signature := some bytes, signatureStatus := .unverified }

/-- The values that are given beside the metadata. -/
def setValues (d : DataObject) : DataObject :=
  let d := { a.setSignature d with
    createTime := a.createTime
    dataLen := a.datalen
    origDataLen := a.datalen
    dataState := a.datastate }
  if d.dataIsVerifiable then { d with dataHash := a.datahash.getD d.dataHash } else d

/-- What `create` does before it looks at the metadata. -/
def construct (w : Surroundings) : Option DataObject := (a.setPaths w).map a.setValues

/-- The fields of an encrypted object are those of the data store. -/
def encryptedFields (d : DataObject) : DataObject :=
  let d := { d with
    dataLen := a.datalen
    encryptedFileLength := a.encdatalen
    origDataLen := a.encdatalen
    dataState := a.datastate }
  if d.dataIsVerifiable then
    { d with
      dataHash := a.datahash.getD d.dataHash
      encryptedFileHash := a.encdatahash.getD d.encryptedFileHash }
  else d

/-- What `create` does last. -/
def finish (w : Surroundings) (o : Identified) : Identified :=
  if hasABEAttribute o.object then
    let o := w.calcId { o with object := a.encryptedFields o.object }
    if 0 < o.object.filepath.length then { o with abeStatus := .decryptionDone }
    else if 0 < o.object.encryptedFilePath.length then { o with abeStatus := .encryptionDone }
    else o
  else o

/-- An object with these metadata; its identifier is all zeros. -/
def unidentified (d : DataObject) (m : Metadata) : Identified :=
  ⟨{ d with metadata := m }, List.replicate 20 0, .notNeeded⟩

end CreateArgs

/-- `create` -/
def create (w : Surroundings) (a : CreateArgs) : Option Identified :=
  match a.construct w with
  | none => none
  | some d =>
      match a.raw with
      | none =>
          let o := CreateArgs.unidentified d (Metadata.leaf [])
          some (a.finish w (w.calcId { o with object := o.object.setCreateTime w.now }))
      | some raw =>
          match w.initFromRaw raw with
          | none => none
          | some (name, m) =>
              if name ≠ lit "Haggle" then none
              else
                let (value, o) := w.parseMetadata false (CreateArgs.unidentified d m)
                if value < 0 then none else some (a.finish w o)

/-! ## The steps that can fail -/

/-- A number as an object writes it: digits, and not more than 64 bits. -/
def IsNumber (str : CString) : Prop :=
  str ≠ [] ∧ (∀ c ∈ chars str, c.isDigit = true) ∧
    Nat.ofDigitChars 10 (chars str) 0 < 18446744073709551616

/-- A parameter that is there, and is not what it should be. -/
def BadParameter (ok : CString → Prop) (m : Metadata) (name : CString) : Prop :=
  ∃ str, m.getParameter name = some str ∧ ¬ ok str

/-- A time that `sscanf` cannot read. -/
def TimeFails (m : Metadata) : Prop :=
  BadParameter (fun str => Timeval.ofString str ≠ none) m (lit "create_time") ∨
    BadParameter (fun str => Timeval.ofString str ≠ none) m (lit "update_time")

/-- An attribute without a name, or with a weight that is no number. -/
def AttributeFails (m : Metadata) : Prop :=
  ∃ mattr ∈ m.getAll (lit "Attr"), mattr.getParameter (lit "name") = none ∨
    BadParameter IsNumber mattr (lit "weight")

/-- The length of the file is no number. -/
def LengthFails (m : Metadata) : Prop :=
  ∃ dm, m.getMetadata (lit "Data") = some dm ∧ BadParameter IsNumber dm (lit "data_len")

/-- The hash is looked at, and is not one. -/
def HashFails (a : CreateArgs) (m : Metadata) : Prop :=
  a.datastate = .unknown ∧ ∃ dm, m.getMetadata (lit "Data") = some dm ∧
    ∃ hash, dm.getMetadata (lit "FileHash") = some hash ∧
      (Codec.decode hash.getContent).map List.length ≠ some 20

/-- The length that is known when the file path is set. -/
def announced (a : CreateArgs) (dm : Metadata) : UInt64 :=
  match dm.getParameter (lit "data_len") with
  | some str => UInt64.ofNat (strtoul (chars str))
  | none => a.datalen

/-- The file of the path cannot be opened, or has another length. -/
def PathFails (w : Surroundings) (a : CreateArgs) (m : Metadata) : Prop :=
  ∃ dm, m.getMetadata (lit "Data") = some dm ∧ ∃ path, dm.getMetadata (lit "FilePath") = some path ∧
    w.fileLength path.getContent (announced a dm) = none

/-- The status of the signature when the metadata are parsed. -/
def signatureGiven (a : CreateArgs) : SignatureStatus :=
  match a.signature with
  | none => a.sigStatus
  | some _ => .unverified

/-- The signature is looked at, and cannot be decoded. -/
def SignatureFails (a : CreateArgs) (m : Metadata) : Prop :=
  signatureGiven a = .missing ∧ ∃ sm, m.getMetadata (lit "Signature") = some sm ∧
    Codec.decode sm.getContent = none

/-- What fails without a word. -/
def FailsSilently (a : CreateArgs) (m : Metadata) : Prop :=
  TimeFails m ∨ AttributeFails m ∨ LengthFails m ∨ HashFails a m

/-- A step of `parseMetadata` fails. -/
def ParseFails (w : Surroundings) (a : CreateArgs) (m : Metadata) : Prop :=
  FailsSilently a m ∨ PathFails w a m ∨ SignatureFails a m

/-- The arguments of a call that comes to parse these metadata. -/
def Parses (w : Surroundings) (a : CreateArgs) (m : Metadata) : Prop :=
  (a.construct w).isSome ∧ ∃ raw, a.raw = some raw ∧ w.initFromRaw raw = some (lit "Haggle", m)

/-- What is created has the identifier of its fields, and what cannot be parsed is not created. -/
def Consistent (w : Surroundings) (a : CreateArgs) : Prop :=
  (∀ o, create w a = some o → o.id = o.object.calcId w.sha1) ∧
    ∀ m, Parses w a m → ParseFails w a m → create w a = none

/-! ## The identifier -/

/-- What `create` does last keeps an identifier right. -/
theorem finish_id {w : Surroundings} {a : CreateArgs} {o : Identified}
    (h : o.id = o.object.calcId w.sha1) :
    (a.finish w o).id = (a.finish w o).object.calcId w.sha1 := by
  unfold CreateArgs.finish
  split
  · dsimp only
    split
    · rfl
    · split <;> rfl
  · exact h

/-! ## What the steps keep -/

/-- What the paths, the hash and the signature depend on. -/
def kept (d : DataObject) : Metadata × UInt64 × DataState × SignatureStatus :=
  (d.metadata, d.dataLen, d.dataState, d.signatureStatus)

theorem kept_parseAttr (d : DataObject) (m : Metadata) : kept (d.parseAttr m) = kept d := by
  unfold parseAttr
  dsimp only
  split <;> split <;> split <;> rfl

theorem kept_foldl_parseAttr : ∀ (ms : List Metadata) (d : DataObject),
    kept (ms.foldl parseAttr d) = kept d
  | [], _ => rfl
  | m :: ms, d => by rw [List.foldl_cons, kept_foldl_parseAttr ms, kept_parseAttr]

theorem kept_parseKind (d : DataObject) (m : Metadata) : kept (d.parseKind m) = kept d := by
  unfold parseKind
  dsimp only
  split <;> split <;> (try split) <;> rfl

namespace Surroundings

variable {w : Surroundings}

theorem kept_parseStart (d : DataObject) : kept (w.parseStart d) = kept d := by
  unfold parseStart
  rw [kept_foldl_parseAttr, kept_parseKind]
  rfl

theorem metadata_parseStart (d : DataObject) : (w.parseStart d).metadata = d.metadata :=
  congrArg Prod.fst (kept_parseStart d)

theorem dataLen_parseStart (d : DataObject) : (w.parseStart d).dataLen = d.dataLen :=
  congrArg (fun k => k.2.1) (kept_parseStart d)

theorem signatureStatus_parseStart (d : DataObject) :
    (w.parseStart d).signatureStatus = d.signatureStatus :=
  congrArg (fun k => k.2.2.2) (kept_parseStart d)

/-! ## The file path -/

/-- The length a `Data` node leaves an object with. -/
def lengthAfter (d : DataObject) (dm : Metadata) : UInt64 := (parseLength d dm).dataLen

theorem dataLen_parseFileName (d : DataObject) (dm : Metadata) :
    (parseFileName d dm).dataLen = d.dataLen := by
  unfold parseFileName
  split <;> rfl

theorem setFilePath_fst (d : DataObject) (path : CString) (len : UInt64) :
    (w.setFilePath d path len false).1 = (w.fileLength path len).isSome := by
  unfold setFilePath
  dsimp only
  rw [if_neg Bool.false_ne_true]
  split
  · next h => rw [h]; rfl
  · next h => rw [h]; rfl

/-- The path is set, if there is one, exactly when its file has the right length. -/
theorem parseFilePath_fst (d : DataObject) (dm : Metadata) :
    (w.parseFilePath false d dm).1 = false ↔
      ∃ path, dm.getMetadata (lit "FilePath") = some path ∧
        w.fileLength path.getContent d.dataLen = none := by
  unfold parseFilePath
  cases hpath : dm.getMetadata (lit "FilePath") with
  | none => simp
  | some path =>
    have hset := setFilePath_fst (w := w) d path.getContent d.dataLen
    dsimp only
    generalize w.setFilePath d path.getContent d.dataLen false = r at hset
    obtain ⟨ok, d'⟩ := r
    cases ok with
    | false =>
      refine iff_of_true rfl ⟨path, rfl, ?_⟩
      exact Option.not_isSome_iff_eq_none.mp (fun h => by rw [← hset] at h; cases h)
    | true =>
      refine iff_of_false ?_ ?_
      · dsimp only
        split <;> exact Bool.noConfusion
      rintro ⟨path', hpath', hnone⟩
      obtain rfl := Option.some.inj hpath'
      rw [hnone] at hset
      cases hset

/-- What the signature depends on. -/
def signing (d : DataObject) : Metadata × SignatureStatus := (d.metadata, d.signatureStatus)

theorem signing_parseFilePath (fromNetwork : Bool) (d : DataObject) (dm : Metadata) :
    signing (w.parseFilePath fromNetwork d dm).2.1 = signing d := by
  have hset : ∀ path len, signing (w.setFilePath d path len fromNetwork).2 = signing d := by
    intro path len
    unfold setFilePath
    dsimp only
    split
    · rfl
    · split <;> rfl
  unfold parseFilePath
  split
  · rfl
  · next m _ =>
    have hthis := hset m.getContent d.dataLen
    generalize w.setFilePath d m.getContent d.dataLen fromNetwork = r at hthis
    obtain ⟨ok, d'⟩ := r
    cases ok with
    | false => exact hthis
    | true =>
      dsimp only
      split <;> exact hthis

theorem signing_parseData (fromNetwork : Bool) (d : DataObject) (dm : Metadata) :
    signing (w.parseData fromNetwork d dm).2.1 = signing d := by
  have hfields : signing (parseFileName (parseLength d dm) dm) = signing d := by
    unfold parseFileName parseLength
    split <;> split <;> rfl
  have hhash : ∀ (d' : DataObject) (dm' : Metadata), signing (parseHash d' dm') = signing d' := by
    intro d' dm'
    unfold parseHash
    split
    · split
      · split <;> rfl
      · rfl
    · rfl
  have hpath := signing_parseFilePath (w := w) fromNetwork (parseFileName (parseLength d dm) dm) dm
  rw [hfields] at hpath
  unfold parseData
  generalize w.parseFilePath fromNetwork (parseFileName (parseLength d dm) dm) dm = r at hpath
  obtain ⟨ok, d', dm'⟩ := r
  cases ok with
  | false => exact hpath
  | true => exact (hhash d' dm').trans hpath

/-- **The `Data` node is read to its end, unless there is a path that cannot be set.** -/
theorem parseDataNode_fst (d : DataObject) :
    (w.parseDataNode false d).1 = false ↔
      ∃ dm, d.metadata.getMetadata (lit "Data") = some dm ∧
        ∃ path, dm.getMetadata (lit "FilePath") = some path ∧
          w.fileLength path.getContent (lengthAfter d dm) = none := by
  have hdata : ∀ dm, (w.parseData false d dm).1 = false ↔
      ∃ path, dm.getMetadata (lit "FilePath") = some path ∧
        w.fileLength path.getContent (lengthAfter d dm) = none := by
    intro dm
    have hpath := parseFilePath_fst (w := w) (parseFileName (parseLength d dm) dm) dm
    rw [dataLen_parseFileName] at hpath
    rw [lengthAfter, ← hpath, parseData]
    generalize w.parseFilePath false (parseFileName (parseLength d dm) dm) dm = r
    obtain ⟨ok, d', dm'⟩ := r
    cases ok <;> rfl
  unfold parseDataNode Metadata.getMetadata
  cases d.metadata.getAll (lit "Data") with
  | nil => simp
  | cons dm rest =>
    refine (hdata dm).trans ⟨fun h => ⟨dm, rfl, h⟩, ?_⟩
    rintro ⟨dm', hdm', h⟩
    obtain rfl := Option.some.inj hdm'
    exact h

/-- It leaves the signature alone. -/
theorem signature_parseDataNode (fromNetwork : Bool) (d : DataObject) :
    (w.parseDataNode fromNetwork d).2.signatureStatus = d.signatureStatus ∧
      (w.parseDataNode fromNetwork d).2.metadata.getMetadata (lit "Signature") =
        d.metadata.getMetadata (lit "Signature") := by
  unfold parseDataNode
  split
  · exact ⟨rfl, rfl⟩
  · next dm rest _ =>
    have hsigning := signing_parseData (w := w) fromNetwork d dm
    generalize w.parseData fromNetwork d dm = r at hsigning
    obtain ⟨ok, d', dm'⟩ := r
    obtain ⟨hmetadata, hstatus⟩ := Prod.mk.inj hsigning
    refine ⟨hstatus, ?_⟩
    dsimp only
    rw [Metadata.getMetadata, Metadata.getAll_setAll, if_neg (by decide), hmetadata]
    rfl

/-! ## The signature -/

theorem parseSignature_eq_none (d : DataObject) :
    d.parseSignature = none ↔ d.signatureStatus = .missing ∧
      ∃ sm, d.metadata.getMetadata (lit "Signature") = some sm ∧
        Codec.decode sm.getContent = none := by
  unfold parseSignature
  by_cases hmissing : d.signatureStatus = .missing
  · rw [if_pos hmissing]
    cases d.metadata.getMetadata (lit "Signature") with
    | none => simp
    | some sm =>
      cases hdecode : Codec.decode sm.getContent with
      | none =>
        dsimp only
        rw [hdecode]
        exact iff_of_true rfl ⟨hmissing, sm, rfl, hdecode⟩
      | some bytes => simp [hdecode]
  · rw [if_neg hmissing]
    exact iff_of_false nofun (fun h => hmissing h.1)

/-! ## The three exits -/

/-- The exit of a path that cannot be set. -/
theorem parseMetadata_of_path {o : Identified} {fromNetwork : Bool}
    (h : (w.parseDataNode fromNetwork (w.parseStart o.object)).1 = false) :
    (w.parseMetadata fromNetwork o).1 = 0 := by
  unfold parseMetadata
  generalize w.parseDataNode fromNetwork (w.parseStart o.object) = r at h
  obtain ⟨ok, d⟩ := r
  subst h
  rfl

/-- The exits behind the `Data` node. -/
theorem parseMetadata_of_data {o : Identified} {fromNetwork : Bool}
    (h : (w.parseDataNode fromNetwork (w.parseStart o.object)).1 = true) :
    w.parseMetadata fromNetwork o =
      match (w.parseDataNode fromNetwork (w.parseStart o.object)).2.parseSignature with
      | none => (-1, { o with object := (w.parseDataNode fromNetwork (w.parseStart o.object)).2 })
      | some d => (0, w.calcId { o with object := d }) := by
  unfold parseMetadata
  generalize w.parseDataNode fromNetwork (w.parseStart o.object) = r at h
  obtain ⟨ok, d⟩ := r
  subst h
  rfl

end Surroundings

/-! ## What is created -/

/-- What the metadata find in the object. -/
theorem construct_spec {w : Surroundings} {a : CreateArgs} {d : DataObject}
    (h : a.construct w = some d) :
    d.dataLen = a.datalen ∧ d.signatureStatus = signatureGiven a := by
  obtain ⟨d', -, rfl⟩ := Option.map_eq_some_iff.mp h
  unfold CreateArgs.setValues CreateArgs.setSignature signatureGiven
  cases a.signature <;> dsimp only <;> split <;> exact ⟨rfl, rfl⟩

section

variable {w : Surroundings} {a : CreateArgs} {d : DataObject}

/-- The path that `parseMetadata` finds is the one of the metadata. -/
theorem pathFails_iff (h : a.construct w = some d) (m : Metadata) :
    (w.parseDataNode false (w.parseStart (CreateArgs.unidentified d m).object)).1 = false ↔
      PathFails w a m := by
  have hlength : ∀ dm, Surroundings.lengthAfter
      (w.parseStart (CreateArgs.unidentified d m).object) dm = announced a dm := by
    intro dm
    unfold Surroundings.lengthAfter Surroundings.parseLength announced
    split
    · rfl
    · exact (Surroundings.dataLen_parseStart _).trans (construct_spec h).1
  rw [Surroundings.parseDataNode_fst, Surroundings.metadata_parseStart, PathFails]
  simp only [hlength]
  rfl

/-- And so is the signature. -/
theorem signatureFails_iff (h : a.construct w = some d) (m : Metadata) :
    (w.parseDataNode false
      (w.parseStart (CreateArgs.unidentified d m).object)).2.parseSignature = none ↔
      SignatureFails a m := by
  obtain ⟨hstatus, hsignature⟩ := Surroundings.signature_parseDataNode (w := w) false
    (w.parseStart (CreateArgs.unidentified d m).object)
  rw [Surroundings.parseSignature_eq_none, hstatus, hsignature,
    Surroundings.signatureStatus_parseStart, Surroundings.metadata_parseStart, SignatureFails,
    ← (construct_spec h).2]
  rfl

/-- A call that comes to the metadata creates what `parseMetadata` does not refuse. -/
theorem create_of_raw {raw : CString} {m : Metadata} (h : a.construct w = some d)
    (hraw : a.raw = some raw) (hinit : w.initFromRaw raw = some (lit "Haggle", m)) :
    create w a =
      if (w.parseMetadata false (CreateArgs.unidentified d m)).1 < 0 then none
      else some (a.finish w (w.parseMetadata false (CreateArgs.unidentified d m)).2) := by
  rw [create, h, hraw]
  dsimp only
  rw [hinit]
  dsimp only
  rw [if_neg (not_not_intro rfl)]

/-- **The exits of `create`**, where there are metadata: an object from a path that cannot be set,
no object from a signature that cannot be decoded, and else an object with its identifier. -/
theorem create_exits {raw : CString} {m : Metadata} (h : a.construct w = some d)
    (hraw : a.raw = some raw) (hinit : w.initFromRaw raw = some (lit "Haggle", m)) :
    (PathFails w a m → create w a ≠ none) ∧
    (¬ PathFails w a m → SignatureFails a m → create w a = none) ∧
    (¬ PathFails w a m → ¬ SignatureFails a m →
      ∃ o, create w a = some o ∧ o.id = o.object.calcId w.sha1) := by
  rw [create_of_raw h hraw hinit, ← pathFails_iff h m, ← signatureFails_iff h m]
  refine ⟨fun hpath => ?_, fun hpath hsig => ?_, fun hpath hsig => ?_⟩
  · rw [Surroundings.parseMetadata_of_path hpath, if_neg (by decide)]
    exact nofun
  · rw [Surroundings.parseMetadata_of_data (Bool.eq_true_of_not_eq_false hpath), hsig]
    rfl
  · obtain ⟨d', hd'⟩ := Option.ne_none_iff_exists'.mp hsig
    rw [Surroundings.parseMetadata_of_data (Bool.eq_true_of_not_eq_false hpath), hd']
    exact ⟨_, rfl, finish_id rfl⟩

end

/-- Whatever is created of something else than metadata has its identifier. -/
theorem create_without_metadata {w : Surroundings} {a : CreateArgs} {o : Identified}
    (h : create w a = some o) (hparses : ∀ m, ¬ Parses w a m) : o.id = o.object.calcId w.sha1 := by
  unfold create at h
  cases hconstruct : a.construct w with
  | none => rw [hconstruct] at h; cases h
  | some d =>
    rw [hconstruct] at h
    cases hraw : a.raw with
    | none =>
      rw [hraw] at h
      obtain rfl := Option.some.inj h
      exact finish_id rfl
    | some raw =>
      rw [hraw] at h
      dsimp only at h
      cases hinit : w.initFromRaw raw with
      | none => rw [hinit] at h; cases h
      | some tree =>
        obtain ⟨name, m⟩ := tree
        rw [hinit] at h
        dsimp only at h
        by_cases hname : name = lit "Haggle"
        · subst hname
          exact absurd ⟨by rw [hconstruct]; rfl, raw, hraw, hinit⟩ (hparses m)
        · rw [if_pos hname] at h
          cases h

/--
**What is created is consistent exactly when no failure goes unnoticed**: wherever metadata are
parsed, the file path in them can be set, and if a time, an attribute, the length or the hash is not
one, the signature cannot be decoded either.
-/
theorem create_consistent_iff (w : Surroundings) (a : CreateArgs) :
    Consistent w a ↔ ∀ m, Parses w a m →
      ¬ PathFails w a m ∧ (FailsSilently a m → SignatureFails a m) := by
  constructor
  · rintro ⟨-, hrefuses⟩ m hm
    obtain ⟨hconstruct, raw, hraw, hinit⟩ := id hm
    obtain ⟨d, hd⟩ := Option.isSome_iff_exists.mp hconstruct
    obtain ⟨hpath, -, hobject⟩ := create_exits hd hraw hinit
    have hset : ¬ PathFails w a m := fun hfails =>
      hpath hfails (hrefuses m hm (Or.inr (Or.inl hfails)))
    refine ⟨hset, fun hsilent => by_contra (fun hsig => ?_)⟩
    obtain ⟨o, ho, -⟩ := hobject hset hsig
    exact absurd (ho.symm.trans (hrefuses m hm (Or.inl hsilent))) nofun
  · intro hcond
    -- once metadata are parsed, either nothing is created or nothing has failed
    have hexits : ∀ m, Parses w a m → (SignatureFails a m ∧ create w a = none) ∨
        (¬ ParseFails w a m ∧ ∃ o, create w a = some o ∧ o.id = o.object.calcId w.sha1) := by
      intro m hm
      obtain ⟨hset, hsilent⟩ := hcond m hm
      obtain ⟨hconstruct, raw, hraw, hinit⟩ := hm
      obtain ⟨d, hd⟩ := Option.isSome_iff_exists.mp hconstruct
      obtain ⟨-, hnone, hobject⟩ := create_exits hd hraw hinit
      by_cases hsig : SignatureFails a m
      · exact Or.inl ⟨hsig, hnone hset hsig⟩
      · refine Or.inr ⟨?_, hobject hset hsig⟩
        rintro (h | h | h)
        · exact hsig (hsilent h)
        · exact hset h
        · exact hsig h
    refine ⟨fun o ho => ?_, fun m hm hfails => ?_⟩
    · by_cases hparses : ∃ m, Parses w a m
      · obtain ⟨m, hm⟩ := hparses
        rcases hexits m hm with ⟨-, hnone⟩ | ⟨-, o', ho', hid⟩
        · exact absurd (ho.symm.trans hnone) nofun
        · obtain rfl := Option.some.inj (ho.symm.trans ho')
          exact hid
      · exact create_without_metadata ho (fun m hm => hparses ⟨m, hm⟩)
    · rcases hexits m hm with ⟨-, hnone⟩ | ⟨hnot, -⟩
      · exact hnone
      · exact absurd hfails hnot

/-- Metadata with the path of a file that is not there. -/
def missingFileTree : Metadata :=
  (Metadata.leaf []).addMetadata (lit "Data")
    ((Metadata.leaf []).addMetadata (lit "FilePath") (Metadata.leaf (lit "/none")))

/-- No files, and a digest that gives what SHA-1 gives of nothing. -/
def noFiles : Surroundings where
  sha1 := fun _ =>
    [218, 57, 163, 238, 94, 107, 75, 13, 50, 85, 191, 239, 149, 96, 24, 144, 175, 216, 7, 9]
  initFromRaw := fun _ => some (lit "Haggle", missingFileTree)
  files := fun _ => none
  now := noTime
  uninitialised := fun _ => noTime

/-- The metadata alone. -/
def fromApplication : CreateArgs where
  raw := some (lit "<Haggle><Data><FilePath>/none</FilePath></Data></Haggle>")
  filepath := []
  encfilepath := []
  filename := []
  sigStatus := .missing
  signee := []
  signature := none
  createTime := noTime
  datalen := 0
  encdatalen := 0
  datastate := .unknown
  datahash := none
  encdatahash := none
  fromNetwork := false

/-- An object is created, and its identifier is all zeros. -/
theorem create_consistent_fails : ¬ Consistent noFiles fromApplication := by
  intro h
  have hid := h.1 _ rfl
  revert hid
  decide

end Encoders.Data
