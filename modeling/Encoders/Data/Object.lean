import Mathlib.Logic.Function.Basic
import Encoders.Codec.Base64
import Encoders.Data.Timeval

/-!
# Data objects

`DataObject.cpp`, `Attribute.cpp` and `Metadata.cpp`. A data object has attributes,
a create time and perhaps a file, and keeps a tree of metadata that is what goes over
the wire. `toMetadata` writes the fields into the tree, `parseMetadata` reads them
back on the other side, and `calcId` hashes some of them.

The attributes are a `BasicMap` filled by `insert_sorted`, so a list in which names
come in order. A metadata node keeps its children in a multimap of names: children
of one name in the order they were added. What `parseMetadata` is given here comes
from the network. The XML in between returns parameters and contents as they were.

Strings are bytes, `unsigned long` and `size_t` have 64 bits, and the machine is
little-endian.
-/

namespace Encoders.Data

open Encoders.Lib

/-- A string literal of the source. -/
def lit (s : String) : CString := ascii s.toList

/-! ## Attributes -/

/-- `class Attribute` -/
structure Attribute where
  name : CString
  value : CString
  weight : UInt64
deriving DecidableEq

/-- `ATTR_WILDCARD` -/
def wildcard : CString := [42]

/-- `operator==`: the value `*` is equal to every value, and weights do not count. -/
def Attribute.eq (a b : Attribute) : Bool :=
  a.name = b.name && (a.value = wildcard || b.value = wildcard || a.value = b.value)

/-- `operator<` -/
def Attribute.lt (a b : Attribute) : Bool :=
  if a.name ≠ b.name then a.name < b.name
  else if a.value ≠ b.value then a.value < b.value
  else a.weight < b.weight

/-- `Attributes::add`: `insert_sorted` goes past smaller names and, in the name, smaller attributes. -/
def add (a : Attribute) : List Attribute → List Attribute
  | [] => [a]
  | b :: bs =>
      if b.name < a.name ∨ (b.name = a.name ∧ b.lt a = true) then b :: add a bs
      else a :: b :: bs

/-- `Attributes::find` -/
def find (attrs : List Attribute) (a : Attribute) : Option Attribute :=
  attrs.find? (fun b => a.eq b)

/-! ## Metadata -/

/-- `class Metadata`: a node's content, parameters and children. -/
inductive Metadata where
  | node (content : CString) (params : CString → Option CString)
      (registry : CString → List Metadata)

namespace Metadata

/-- A node with a content and nothing else. -/
def leaf (content : CString) : Metadata := .node content (fun _ => none) (fun _ => [])

/-- `getContent` -/
def getContent : Metadata → CString
  | .node content _ _ => content

/-- `getParameter` -/
def getParameter : Metadata → CString → Option CString
  | .node _ params _, name => params name

/-- The children of a name, as `getMetadata` and `getNextMetadata` run through them. -/
def getAll : Metadata → CString → List Metadata
  | .node _ _ registry, name => registry name

/-- `getMetadata` -/
def getMetadata (m : Metadata) (name : CString) : Option Metadata := (m.getAll name).head?

/-- `setContent` -/
def setContent : Metadata → CString → Metadata
  | .node _ params registry, content => .node content params registry

/-- `setParameter` -/
def setParameter : Metadata → CString → CString → Metadata
  | .node content params registry, name, value =>
      .node content (Function.update params name (some value)) registry

/-- All children of a name replaced. -/
def setAll : Metadata → CString → List Metadata → Metadata
  | .node content params registry, name, children =>
      .node content params (Function.update registry name children)

/-- `addMetadata` -/
def addMetadata (m : Metadata) (name : CString) (child : Metadata) : Metadata :=
  m.setAll name (m.getAll name ++ [child])

/-- `removeMetadata` -/
def removeMetadata (m : Metadata) (name : CString) : Metadata := m.setAll name []

/-- Set the content of the child of a name, which is made if there is none. -/
def putContent (m : Metadata) (name content : CString) : Metadata :=
  match m.getAll name with
  | [] => m.setAll name [leaf content]
  | child :: children => m.setAll name (child.setContent content :: children)

/-- Change the child of a name, which is made if there is none. -/
def modify (m : Metadata) (name : CString) (f : Metadata → Metadata) : Metadata :=
  match m.getAll name with
  | [] => m.setAll name [f (leaf [])]
  | child :: children => m.setAll name (f child :: children)

end Metadata

/-! ## Objects -/

/-- `DataState_t` -/
inductive DataState where
  | unknown
  | noData
  | notVerified
  | verifiedOk
  | verifiedBad
deriving DecidableEq

/-- `SignatureStatus_t` -/
inductive SignatureStatus where
  | missing
  | unverified
  | valid
  | invalid
deriving DecidableEq

/-- `DataHash_t` -/
abbrev DataHash := { bytes : List UInt8 // bytes.length = 20 }

/-- `memset(hash, 0, sizeof(DataHash_t))` -/
def zeroHash : DataHash := ⟨List.replicate 20 0, List.length_replicate⟩

/-- The members of `DataObject` that the functions below read or write. -/
structure DataObject where
  metadata : Metadata
  attrs : List Attribute
  persistent : Bool
  createTime : Timeval
  updateTime : Timeval
  isNodeDesc : Bool
  controlMessage : Bool
  isForLocalApp : Bool
  filename : CString
  filepath : CString
  dataLen : UInt64
  origDataLen : UInt64
  dataState : DataState
  dataHash : DataHash
  encryptedFilePath : CString
  encryptedFileLength : UInt64
  encryptedFileHash : DataHash
  signatureStatus : SignatureStatus
  signee : CString
  signature : Option (List UInt8)

/-- The time `-1` that members start with. -/
def noTime : Timeval := ⟨-1, 0, by decide, by decide, by decide⟩

namespace DataObject

/-- The constructor, with the metadata it is given later. -/
def fresh (metadata : Metadata) : DataObject where
  metadata := metadata
  attrs := []
  persistent := true
  createTime := noTime
  updateTime := noTime
  isNodeDesc := false
  controlMessage := false
  isForLocalApp := false
  filename := []
  filepath := []
  dataLen := 0
  origDataLen := 0
  dataState := .unknown
  dataHash := zeroHash
  encryptedFilePath := []
  encryptedFileLength := 0
  encryptedFileHash := zeroHash
  signatureStatus := .missing
  signee := []
  signature := none

/-- `dataIsVerifiable` -/
def dataIsVerifiable (d : DataObject) : Bool :=
  match d.dataState with
  | .unknown => false
  | .noData => false
  | .notVerified => true
  | .verifiedOk => true
  | .verifiedBad => true

/-- `hasAttribute` -/
def hasAttribute (d : DataObject) (a : Attribute) : Bool := (find d.attrs a).isSome

/-! ### The identifier -/

/-- `htonl(weight)`: the low 32 bits, most significant byte first. -/
def weightBytes (weight : UInt64) : List UInt8 :=
  [UInt8.ofNat (weight.toNat / 16777216), UInt8.ofNat (weight.toNat / 65536),
    UInt8.ofNat (weight.toNat / 256), UInt8.ofNat weight.toNat]

/-- The bytes of a `size_t`, as they lie in memory. -/
def sizeBytes (n : UInt64) : List UInt8 :=
  (List.range 8).map (fun i => (n >>> UInt64.ofNat (8 * i)).toUInt8)

/-- What `calcId` feeds to SHA-1, update by update. -/
def idFields (d : DataObject) : List (List UInt8) :=
  d.attrs.flatMap (fun a => [a.name, a.value, weightBytes a.weight]) ++
    (if d.createTime.isValid then [d.createTime.getAsString] else []) ++
    (if d.dataIsVerifiable then
      [if d.encryptedFilePath.length = 0 then d.dataHash.1 else d.encryptedFileHash.1]
    else if 0 < d.filename.length ∧ 0 < d.dataLen then [d.filename, sizeBytes d.dataLen]
    else [])

/-- The whole input of the hash. -/
def idInput (d : DataObject) : List UInt8 := d.idFields.flatten

/-- `calcId`, for the digest the hash function computes. -/
def calcId (sha1 : List UInt8 → List UInt8) (d : DataObject) : List UInt8 := sha1 d.idInput

/-! ### Building -/

/-- `removeSignature` -/
def removeSignature (d : DataObject) : DataObject :=
  if d.signatureStatus = .missing then d
  else { d with signee := [], signature := none, signatureStatus := .missing }

/-- `addAttribute` -/
def addAttribute (d : DataObject) (a : Attribute) : DataObject :=
  if d.hasAttribute a then d
  else { d with attrs := add a d.attrs }.removeSignature

/-- `setCreateTime` -/
def setCreateTime (d : DataObject) (t : Timeval) : DataObject :=
  let metadata :=
    if t.isValid then d.metadata.setParameter (lit "create_time") t.getAsString else d.metadata
  { d with createTime := t, metadata := metadata }.removeSignature

/-! ### To the wire -/

/-- `snprintf(buf, 20, "%lu", n)` -/
def printUlong (n : UInt64) : CString := ascii (snprintf 20 (Nat.toDigits 10 n.toNat))

/-- Whether what is sent is the plain file and not the encrypted one. -/
def sendsPlainFile (d : DataObject) : Bool :=
  (d.isForLocalApp && d.filepath.length ≠ 0 &&
    (find d.attrs ⟨lit "_ABE_", wildcard, 0⟩).isNone) || d.encryptedFilePath.length = 0

/-- The length and names of the file, in the `Data` node. -/
def putFile (d : DataObject) (md : Metadata) : Metadata :=
  let md := md.setParameter (lit "data_len")
    (printUlong (if d.sendsPlainFile then d.dataLen else d.encryptedFileLength))
  let md :=
    if d.isForLocalApp then
      if d.filepath.length ≠ 0 ∧ (find d.attrs ⟨lit "_ABE_", wildcard, 0⟩).isNone then
        md.putContent (lit "FilePath") d.filepath
      else if d.encryptedFilePath.length ≠ 0 then
        md.putContent (lit "FilePath") d.encryptedFilePath
      else md
    else md
  md.putContent (lit "FileName") d.filename

/-- The hash of the file, in the `Data` node. -/
def putHash (d : DataObject) (md : Metadata) : Metadata :=
  md.putContent (lit "FileHash")
    (Codec.encode (if d.sendsPlainFile then d.dataHash.1 else d.encryptedFileHash.1))

/-- The node of an attribute: a weight of zero is left out. -/
def attrNode (a : Attribute) : Metadata :=
  let m := (Metadata.leaf a.value).setParameter (lit "name") a.name
  if a.weight ≠ 0 then m.setParameter (lit "weight") (printUlong a.weight) else m

/-- The signature, in a node of its own. -/
def putSignature (d : DataObject) (m : Metadata) : Metadata :=
  match d.signature with
  | none => m
  | some bytes =>
      if bytes = [] then m
      else
        (m.putContent (lit "Signature") (Codec.encode bytes)).modify (lit "Signature")
          (fun ms => ms.setParameter (lit "signee") d.signee)

/-- `toMetadata`: the metadata brought up to date. -/
def toMetadata (d : DataObject) : DataObject :=
  let m := d.metadata.setParameter (lit "persistent") (lit (if d.persistent then "yes" else "no"))
  let m :=
    if (d.dataLen ≠ 0 ∧ d.filename.length ≠ 0) ∨
        (d.encryptedFileLength ≠ 0 ∧ d.encryptedFilePath.length ≠ 0) then
      m.modify (lit "Data") d.putFile
    else m
  let m := if d.dataIsVerifiable then m.modify (lit "Data") d.putHash else m
  let m := d.putSignature m
  let m := m.removeMetadata (lit "Attr")
  { d with metadata := d.attrs.foldl (fun m a => m.addMetadata (lit "Attr") (attrNode a)) m }

/-! ### From the wire -/

/-- `base64_decode` into a hash: as many bytes as came out, over the ones that were there. -/
def decodeHash (input : List UInt8) (old : DataHash) : Option DataHash :=
  match Codec.decodeLoop input.isEmpty (input.length + 1) [] input ⟨[], 20⟩ with
  | some (true, out) =>
      some ⟨(out.bytes ++ old.1.drop out.bytes.length).take 20, by
        have := old.2
        simp only [List.length_take, List.length_append, List.length_drop]
        omega⟩
  | _ => none

/-- A time parameter: left alone if it is missing. -/
def readTime (m : Metadata) (name : CString) (t : Timeval) : Option Timeval :=
  match m.getParameter name with
  | none => some t
  | some str => Timeval.ofString str

/-- One round of the loop over the attribute nodes. -/
def parseAttr (d : DataObject) (mattr : Metadata) : DataObject :=
  let weight :=
    match mattr.getParameter (lit "weight") with
    | some str => UInt64.ofNat (strtoul (chars str))
    | none => 0
  let a : Attribute := ⟨(mattr.getParameter (lit "name")).getD [], mattr.getContent, weight⟩
  let d := if a.name = lit "NodeDescription" then { d with isNodeDesc := true } else d
  if d.hasAttribute a then d else { d with attrs := add a d.attrs }

/-- The file path in the `Data` node: used, and then taken out of the metadata. -/
def parseFilePath (d : DataObject) (dm : Metadata) : DataObject × Metadata :=
  match dm.getMetadata (lit "FilePath") with
  | none => (d, dm)
  | some m =>
      let d := { d with filepath := m.getContent, origDataLen := d.dataLen }
      if d.filename.length = 0 then
        let name := (d.filepath.reverse.takeWhile (fun c => c ≠ 47)).reverse
        ({ d with filename := name },
          (dm.addMetadata (lit "FileName") (Metadata.leaf name)).removeMetadata (lit "FilePath"))
      else (d, dm.removeMetadata (lit "FilePath"))

/-- The `Data` node. -/
def parseData (d : DataObject) (dm : Metadata) : DataObject × Metadata :=
  let d :=
    match dm.getParameter (lit "data_len") with
    | some str =>
        let len := UInt64.ofNat (strtoul (chars str))
        { d with dataLen := len, origDataLen := len }
    | none => d
  let d :=
    match dm.getMetadata (lit "FileName") with
    | some m => { d with filename := m.getContent }
    | none => d
  let (d, dm) := d.parseFilePath dm
  if d.dataState = .unknown then
    match dm.getMetadata (lit "FileHash") with
    | some m =>
        match decodeHash m.getContent d.dataHash with
        | some hash => ({ d with dataHash := hash, dataState := .notVerified }, dm)
        | none => (d, dm)
    | none => (d, dm)
  else (d, dm)

/-- The signature node: `none` when it cannot be decoded. -/
def parseSignature (d : DataObject) : Option DataObject :=
  if d.signatureStatus = .missing then
    match d.metadata.getMetadata (lit "Signature") with
    | none => some d
    | some sm =>
        match Codec.decode sm.getContent with
        | none => none
        | some bytes =>
            some { d with
              signee := (sm.getParameter (lit "signee")).getD []
              signature := some bytes
              signatureStatus := .unverified }
  else some d

/-- The `persistent` parameter. -/
def parsePersistent (m : Metadata) (old : Bool) : Bool :=
  match m.getParameter (lit "persistent") with
  | none => old
  | some pval =>
      if pval = lit "no" ∨ pval = lit "false" then false
      else if pval = lit "yes" ∨ pval = lit "true" then true
      else old

/-- Whether the object is a node description or a control message. -/
def parseKind (d : DataObject) (m : Metadata) : DataObject :=
  let d := if (m.getMetadata (lit "Node")).isSome then { d with isNodeDesc := true } else d
  match m.getMetadata (lit "Application") with
  | some app =>
      if (app.getMetadata (lit "Control")).isSome then { d with controlMessage := true } else d
  | none => d

/-- The `Data` node, if there is one. -/
def parseDataNode (d : DataObject) : DataObject :=
  match d.metadata.getAll (lit "Data") with
  | [] => d
  | dm :: rest =>
      let (d, dm) := d.parseData dm
      { d with metadata := d.metadata.setAll (lit "Data") (dm :: rest) }

/--
`parseMetadata(true)`: `none` when it returns an error, and when a time is not the text
of a time.
-/
def parseMetadata (d : DataObject) : Option DataObject := do
  let m := d.metadata
  let createTime ← readTime m (lit "create_time") d.createTime
  let updateTime ← readTime m (lit "update_time") d.updateTime
  let d := { d with
    persistent := parsePersistent m d.persistent
    createTime := createTime
    updateTime := updateTime }
  let d := d.parseKind m
  let d := (m.getAll (lit "Attr")).foldl parseAttr d
  d.parseDataNode.parseSignature

/-- What the receiver makes of a metadata tree. -/
def receive (m : Metadata) : Option DataObject := (fresh m).parseMetadata

end DataObject

end Encoders.Data
