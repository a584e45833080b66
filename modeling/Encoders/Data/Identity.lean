import Encoders.Data.Object

/-!
# What identifies a data object

`calcId` hashes the fields of an object one after the other, with nothing between
them. Two objects whose fields begin and end at the same places get different
inputs when they differ, create times that do not fit the buffer of their text apart.
Where the fields end at different places, the end of a field counts for nothing: the
comparison runs on across it, and bytes of a name may stand against bytes of a value.
-/

namespace Encoders.Data

open Encoders.Lib DataObject

variable {d d' : DataObject}

/-! ## Concatenated fields -/

/-- The create time, if there is one. -/
def createTime? (d : DataObject) : Option Timeval :=
  if d.createTime.isValid then some d.createTime else none

/-- The hash of the payload, if there is one. -/
def payloadHash (d : DataObject) : Option (List UInt8) :=
  if d.dataIsVerifiable then
    some (if d.encryptedFilePath.length = 0 then d.dataHash.1 else d.encryptedFileHash.1)
  else none

/-- What is to tell objects apart. -/
def content (d : DataObject) : List Attribute × Option Timeval × Option (List UInt8) :=
  (d.attrs, createTime? d, payloadHash d)

theorem length_getAsString {t : Timeval} (h : t.isValid = true) :
    t.getAsString.length = min 19 ((secondsDigits t).length + 7) := by
  unfold Timeval.getAsString ascii snprintf
  rw [List.length_map, List.length_take, text_of_valid h, List.length_append, List.length_cons,
    length_sprintf06 t.usec_lt]

/-- The fields of the attributes. -/
def attrFields (attrs : List Attribute) : List (List UInt8) :=
  attrs.flatMap (fun a => [a.name, a.value, weightBytes a.weight])

/-- The part of the hash input that is about the time. -/
def timeFields (t : Timeval) : List (List UInt8) := if t.isValid then [t.getAsString] else []

/-- The part of the hash input that is about the file. -/
def payloadFields (d : DataObject) : List (List UInt8) :=
  if d.dataIsVerifiable then
    [if d.encryptedFilePath.length = 0 then d.dataHash.1 else d.encryptedFileHash.1]
  else if 0 < d.filename.length ∧ 0 < d.dataLen then [d.filename, sizeBytes d.dataLen]
  else []

theorem idFields_eq (d : DataObject) :
    d.idFields = attrFields d.attrs ++ timeFields d.createTime ++ payloadFields d := rfl

end Encoders.Data
