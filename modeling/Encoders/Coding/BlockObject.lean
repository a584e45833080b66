import Encoders.Interest.Aggregate

/-!
# Coded blocks and fragments as data objects

A coded block is a data object of its own. It carries the attributes of the object it is a
block of, and what that object is put together from again: its id, its length and name, its
create time and signature, each as one more attribute with a reserved name. A fragment does the
same under names of its own, and a fragment can be turned into a coded block.

`copyAttributesToDataObject` takes the attributes apart again, by their names.

The objects are not encrypted. Files appear as what they hold; where a file cannot be
written or read, there is none. A time that cannot be read leaves variables without a value,
and then a call has no meaning.
-/

namespace Encoders.Coding

open Encoders.Lib Encoders.Data Encoders.Interest

/-! ## Reserved names -/

def attrNetworkcodingName : CString := lit "_NC_BLOCK_"
def attrParentDataobjectId : CString := lit "_NC_ORIG_ID_"
def attrNetworkcodingParentOrigLen : CString := lit "_NC_ORIG_DATA_LEN_"
def attrNetworkcodingParentOrigName : CString := lit "_NC_ORIG_FILE_NAME_"
def attrNetworkcodingParentCreationTime : CString := lit "_NC_ORIG_CREATE_TIME_"
def attrNetworkcodingParentOrigSignee : CString := lit "_NC_ORIG_SIGNEE_"
def attrNetworkcodingParentOrigSignature : CString := lit "_NC_ORIG_SIGNATURE_"

def attrFragmentationName : CString := lit "_FR_FRAGMENT_"
def attrFragmentationParentDataobjectId : CString := lit "_FR_ORIG_ID_"
def attrFragmentationSequenceNumber : CString := lit "_FR_SEQ_NUM_"
def attrFragmentationParentOrigLen : CString := lit "_FR_ORIG_DATA_LEN_"
def attrFragmentationParentOrigName : CString := lit "_FR_ORIG_FILE_NAME_"
def attrFragmentationParentCreationTime : CString := lit "_FR_ORIG_CREATE_TIME_"
def attrFragmentationParentOrigSignee : CString := lit "_FR_ORIG_SIGNEE_"
def attrFragmentationParentOrigSignature : CString := lit "_FR_ORIG_SIGNATURE_"

/-- The names that blocks use for themselves. -/
def networkcodingNames : List CString :=
  [attrNetworkcodingName, attrParentDataobjectId, attrNetworkcodingParentOrigLen,
    attrNetworkcodingParentOrigName, attrNetworkcodingParentCreationTime,
    attrNetworkcodingParentOrigSignee, attrNetworkcodingParentOrigSignature]

/-- The names that fragments use for themselves. -/
def fragmentationNames : List CString :=
  [attrFragmentationName, attrFragmentationParentDataobjectId, attrFragmentationSequenceNumber,
    attrFragmentationParentOrigLen, attrFragmentationParentOrigName,
    attrFragmentationParentCreationTime, attrFragmentationParentOrigSignee,
    attrFragmentationParentOrigSignature]

/-! ## Data objects -/

/-- `SHA1_Final` -/
abbrev Digest := List UInt8 → DataHash

/-- `getIdStr` -/
def getIdStr (sha1 : Digest) (d : DataObject) : CString :=
  idString (d.calcId (fun input => (sha1 input).1))

/-- `DataObject::create(filepath, filename)`, for what the file holds. -/
def create (sha1 : Digest) (filepath filename : CString) (contents : Option (List UInt8))
    (now : Timeval) : Option DataObject :=
  if filepath.length = 0 then none
  else
    contents.map (fun bytes =>
      DataObject.setCreateTime { DataObject.fresh (Metadata.leaf []) with
        filepath := filepath
        filename :=
          if filename.length = 0 then (filepath.reverse.takeWhile (fun c => c ≠ 47)).reverse
          else filename
        dataLen := UInt64.ofNat bytes.length
        origDataLen := UInt64.ofNat bytes.length
        dataHash := sha1 bytes
        dataState := .verifiedOk } now)

/-- `addAttribute`, where it returns true. -/
def tryAddAttribute (d : DataObject) (a : Attribute) : Option DataObject :=
  if d.hasAttribute a then none else some (d.addAttribute a)

/-- `setSignature` -/
def setSignature (d : DataObject) (signee : CString) (signature : List UInt8) : DataObject :=
  { d with signee := signee, signature := some signature, signatureStatus := .unverified }

/-- `getAttribute(name, "*")`: the value. -/
def getAttributeValue (d : DataObject) (name : CString) : Option CString :=
  (find d.attrs ⟨name, wildcard, 1⟩).map Attribute.value

/-- `hasABEAttribute` -/
def hasABEAttribute (d : DataObject) : Bool :=
  (getAttributeValue d (lit "_ABE_")).isSome &&
    !d.hasAttribute ⟨attrNetworkcodingName, lit "TRUE", 1⟩ &&
    !d.hasAttribute ⟨attrFragmentationName, lit "TRUE", 1⟩

/-- `restoreEncryptedDataObject` -/
def restoreEncryptedDataObject (d : DataObject) : DataObject :=
  if hasABEAttribute d then
    if d.encryptedFilePath.length = 0 ∧ 0 < d.filepath.length then
      { d with
        encryptedFilePath := d.filepath
        encryptedFileHash := d.dataHash
        encryptedFileLength := d.dataLen
        filepath := []
        dataLen := 0
        dataHash := zeroHash }
    else d
  else d

/-! ## Making blocks and fragments -/

/-- `int len = getFileLength(...)` -/
def fileLengthInt (n : Nat) : Int := (n : Int).bmod 4294967296

/-- Signee and signature of an object, as two more attributes of a block or a fragment. -/
def addSignature (signeeName signatureName : CString) (source block : DataObject) :
    Option DataObject :=
  match source.signature with
  | none => some block
  | some signature => do
      let block ← tryAddAttribute block ⟨signeeName, source.signee, 0⟩
      -- `base64_encode_alloc` returns no length
      if signature.length = 0 then none
      else tryAddAttribute block ⟨signatureName, Codec.encode signature, 0⟩

/-- The attributes of an object, one after the other. -/
def addAll (attrs : List Attribute) (block : DataObject) : Option DataObject :=
  attrs.foldlM tryAddAttribute block

/-- The end of both kinds of `addAttributes` of the network coding encoder. -/
def addParentAttributes (len : Int) (originalId originalName originalCreateTime : CString)
    (block : DataObject) : Option DataObject := do
  let block ← tryAddAttribute block ⟨attrNetworkcodingName, lit "TRUE", 0⟩
  if len = 0 then none
  else do
    let block ← tryAddAttribute block ⟨attrNetworkcodingParentOrigLen, ascii (sprintfD len), 0⟩
    let block ← tryAddAttribute block ⟨attrParentDataobjectId, originalId, 0⟩
    let block ← tryAddAttribute block ⟨attrNetworkcodingParentOrigName, originalName, 0⟩
    tryAddAttribute block ⟨attrNetworkcodingParentCreationTime, originalCreateTime, 0⟩

/-- `NetworkCodingEncoderService::addAttributes` -/
def NetworkCodingEncoderService.addAttributes (sha1 : Digest)
    (originalDataObject networkCodedDataObject : DataObject) : Option DataObject := do
  let block ← addAll originalDataObject.attrs networkCodedDataObject
  let block ← addParentAttributes (fileLengthInt originalDataObject.dataLen.toNat)
    (getIdStr sha1 originalDataObject) originalDataObject.filename
    originalDataObject.createTime.getAsString block
  addSignature attrNetworkcodingParentOrigSignee attrNetworkcodingParentOrigSignature
    originalDataObject block

/-- `FragmentationEncoderService::addAttributes` -/
def FragmentationEncoderService.addAttributes (sha1 : Digest)
    (originalDataObject fragmentDataObject : DataObject) (sequenceNumberListCsv : CString) :
    Option DataObject := do
  let fragment ← addAll originalDataObject.attrs fragmentDataObject
  let fragment ← tryAddAttribute fragment
    ⟨attrFragmentationSequenceNumber, sequenceNumberListCsv, 0⟩
  let fragment ← tryAddAttribute fragment ⟨attrFragmentationName, lit "TRUE", 0⟩
  let len := fileLengthInt originalDataObject.dataLen.toNat
  if len = 0 then none
  else do
    let fragment ← tryAddAttribute fragment
      ⟨attrFragmentationParentOrigLen, ascii (sprintfD len), 0⟩
    let fragment ← tryAddAttribute fragment
      ⟨attrFragmentationParentDataobjectId, getIdStr sha1 originalDataObject, 0⟩
    let fragment ← tryAddAttribute fragment
      ⟨attrFragmentationParentOrigName, originalDataObject.filename, 0⟩
    let originalCreateTime := originalDataObject.createTime.getAsString
    let fragment ← tryAddAttribute fragment
      ⟨attrFragmentationParentCreationTime, originalCreateTime, 0⟩
    let createTime ← Timeval.ofString originalCreateTime
    addSignature attrFragmentationParentOrigSignee attrFragmentationParentOrigSignature
      originalDataObject (fragment.setCreateTime createTime)

namespace FragmentationDataObjectUtility

/-- `struct FragmentParentDataObjectInfo`, as far as blocks are made from it. -/
structure ParentInfo where
  fileSize : Nat
  fileName : CString
  createTime : CString

/-- `getFragmentParentDataObjectInfo`: without id or length the size has no value. -/
def getFragmentParentDataObjectInfo (fragment : DataObject) : Option ParentInfo := do
  let _ ← getAttributeValue fragment attrFragmentationParentDataobjectId
  let dataLen ← getAttributeValue fragment attrFragmentationParentOrigLen
  let fileSize := (strtol (chars dataLen) % 18446744073709551616).toNat
  if fileSize = 0 then some ⟨0, [], []⟩
  else
    match getAttributeValue fragment attrFragmentationSequenceNumber with
    | none => some ⟨fileSize, [], []⟩
    | some _ =>
        match getAttributeValue fragment attrFragmentationParentOrigName with
        | none => some ⟨fileSize, [], []⟩
        | some fileName =>
            some ⟨fileSize, fileName,
              (getAttributeValue fragment attrFragmentationParentCreationTime).getD []⟩

/-- `getOriginalDataObjectId` of a fragment: a string cannot be made from a null pointer. -/
def getOriginalDataObjectId (fragment : DataObject) : Option CString :=
  match getAttributeValue fragment attrFragmentationParentDataobjectId with
  | none => none
  | some originalDataObjectId =>
      if originalDataObjectId.length = 0 then none else some originalDataObjectId

end FragmentationDataObjectUtility

/-- `addAttributesFromFragDataObject` -/
def NetworkCodingEncoderService.addAttributesFromFragDataObject
    (fragDataObject networkCodedDataObject : DataObject) : Option DataObject := do
  let block ← addAll fragDataObject.attrs networkCodedDataObject
  let info ← FragmentationDataObjectUtility.getFragmentParentDataObjectInfo fragDataObject
  let originalId ← FragmentationDataObjectUtility.getOriginalDataObjectId fragDataObject
  let block ← addParentAttributes (fileLengthInt info.fileSize) originalId info.fileName
    info.createTime block
  addSignature attrNetworkcodingParentOrigSignee attrNetworkcodingParentOrigSignature
    fragDataObject block

/-- A file that was written for a new object, and the time. -/
structure Written where
  path : CString
  contents : List UInt8
  now : Timeval

/-- `encodeDataObject` of the network coding encoder, for the coded block it wrote. -/
def NetworkCodingEncoderService.encodeDataObject (sha1 : Digest) (written : Written)
    (originalDataObject : DataObject) : Option DataObject := do
  let block ← create sha1 written.path originalDataObject.filename (some written.contents)
    written.now
  addAttributes sha1 originalDataObject block

/-- `encodeDataObject` of the fragmentation encoder, for the pieces it wrote. -/
def FragmentationEncoderService.encodeDataObject (sha1 : Digest) (written : Written)
    (sequenceNumberListCsv : CString) (originalDataObject : DataObject) : Option DataObject := do
  let fragment ← create sha1 written.path originalDataObject.filename (some written.contents)
    written.now
  addAttributes sha1 originalDataObject fragment sequenceNumberListCsv

/-- `encodeFragment`: a block from a fragment, for the coded block it wrote. -/
def NetworkCodingEncoderService.encodeFragment (sha1 : Digest) (written : Written)
    (fragDataObject : DataObject) : Option DataObject := do
  let _ ← getAttributeValue fragDataObject attrFragmentationSequenceNumber
  let info ← FragmentationDataObjectUtility.getFragmentParentDataObjectInfo fragDataObject
  let block ← create sha1 written.path info.fileName (some written.contents) written.now
  addAttributesFromFragDataObject fragDataObject block

/-! ## Taking blocks apart -/

namespace NetworkCodingDataObjectUtility

/-- The object that is put together, and the texts found so far. -/
structure Copied where
  object : DataObject
  parentSignature : CString
  parentSignee : CString

/-- One round of the loop of `copyAttributesToDataObject`. -/
def copyAttribute (c : Copied) (attr : Attribute) : Option (Option Copied) :=
  if attr.name = attrNetworkcodingParentCreationTime then
    (Timeval.ofString attr.value).map (fun t =>
      some { c with object := c.object.setCreateTime t })
  else if attr.name = attrNetworkcodingParentOrigSignature then
    some (some { c with parentSignature := attr.value })
  else if attr.name = attrNetworkcodingParentOrigSignee then
    some (some { c with parentSignee := attr.value })
  else if attr.name ≠ attrNetworkcodingName ∧
      attr.name ≠ attrNetworkcodingParentOrigName ∧
      attr.name ≠ attrParentDataobjectId ∧
      attr.name ≠ attrNetworkcodingParentOrigLen then
    some ((tryAddAttribute c.object attr).map (fun d => { c with object := d }))
  else some (some c)

/-- The loop of `copyAttributesToDataObject`; the inner `none` is the return value `false`. -/
def copyLoop : Copied → List Attribute → Option (Option Copied)
  | c, [] => some (some c)
  | c, attr :: attrs =>
      match copyAttribute c attr with
      | none => none
      | some none => some none
      | some (some c) => copyLoop c attrs

/-- Signee and signature, unless one of them is missing. -/
def copySignature (c : Copied) : Option DataObject :=
  if c.parentSignee.length = 0 ∨ c.parentSignature.length = 0 then some c.object
  else
    (Codec.decode c.parentSignature).map (fun signature =>
      setSignature { c.object with signee := c.parentSignee } c.parentSignee signature)

/-- `copyAttributesToDataObject` -/
def copyAttributesToDataObject (dataObjectOriginal networkCodedBlock : DataObject) :
    Option (Option DataObject) :=
  (copyLoop ⟨dataObjectOriginal, [], []⟩ networkCodedBlock.attrs).map
    (fun copied => copied.bind copySignature)

end NetworkCodingDataObjectUtility

end Encoders.Coding
