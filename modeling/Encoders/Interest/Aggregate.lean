import Encoders.Data.Wire

/-!
# Interest aggregation

`InterestManager.cpp`. The interests of all local applications travel in one data object: a
`VNode` for each application, and in it an element for each interest, with the name and the
value in one text. The receiver takes the texts apart again and makes a node description for
each application, to which it adds an attribute that says which data object it came from.

A node description is a data object of its own. It is written out and parsed, and a node is
made of what was parsed. Strings are those of `libcpphaggle`, so that the positions they are
cut at are those that `String::find` gives.
-/

namespace Encoders.Interest

open Encoders.Lib Encoders.Data

/-! ## Strings and numbers -/

/-- `String::find`, from the front: nothing is `npos`. A text is not found in one that is no
longer. -/
def stringFind (s text : CString) : Option Nat :=
  if text.length > s.length ∨ 0 ≥ s.length - text.length then none
  else (List.range (s.length - text.length + 1)).find?
    (fun pos => (s.drop pos).take text.length = text)

/-- `String::substr` -/
def substr (s : CString) (pos : Nat) (n : Option Nat) : CString :=
  if pos ≥ s.length then []
  else
    match n with
    | none => s.drop pos
    | some n => (s.drop pos).take n

/-- What becomes of a number that is made an `int`. -/
def toInt (n : Int) : Int := n.bmod 4294967296

/-- What becomes of a number that is made a `long`. -/
def toLong (n : Int) : Int := n.bmod 18446744073709551616

/-- `setParameter` of a number. -/
def printed (n : Int) : CString := ascii (sprintfD n)

/-- What stands behind the blanks and the sign of a number. -/
def behindSign (text : List Char) : List Char :=
  match text.dropWhile isspace with
  | '-' :: rest => rest
  | '+' :: rest => rest
  | rest => rest

/-- `strtoul(param, &endptr, 10)`, which stops where it started if there is no number. -/
def parseNumber (param : CString) : Option Nat :=
  if (behindSign (chars param)).takeWhile Char.isDigit = [] then none
  else some (strtoul (chars param))

/-- `getTimeAsMilliSeconds` -/
def getTimeAsMilliSeconds (t : Timeval) : Int := t.sec * 1000 + t.usec / 1000

/-- `Timeval(0, microseconds)` -/
def ofMicroseconds (usec : Int) : Option Timeval := Timeval.ofLongs 0 usec

/-! ## Nodes -/

/-- `class Node`, of an application. -/
structure AppNode where
  id : DataHash
  proxyId : DataHash
  name : CString
  maxDataObjectsInMatch : UInt64
  matchThreshold : UInt64
  nodeDescriptionCreateTime : Timeval
  attrs : List Attribute

/-- `getWeightAsString` -/
def getWeightAsString (a : Attribute) : CString :=
  ascii (snprintf 11 (Nat.toDigits 10 a.weight.toNat))

/-- `setUpdateTime` -/
def setUpdateTime (d : DataObject) (t : Timeval) : DataObject :=
  let metadata :=
    if t.isValid then d.metadata.setParameter (lit "update_time") t.getAsString else d.metadata
  DataObject.removeSignature { d with updateTime := t, metadata := metadata }

/-- `calcIdStr` -/
def idString (id : List UInt8) : CString :=
  id.flatMap (fun b => ascii [Nat.digitChar (b.toNat / 16), Nat.digitChar (b.toNat % 16)])

/-! ## Sending -/

/-- The members of `InterestManager` that are used below, and the id of this node. -/
structure InterestManager where
  thisNodeId : DataHash
  ttl : Int
  prevNodes : Nat

/-- The element of an interest. -/
def interestNode (a : Attribute) : Metadata :=
  ((Metadata.leaf []).setParameter (lit "n") (a.name ++ lit "=" ++ a.value)).setParameter (lit "w")
    (getWeightAsString a)

/-- `fakeNode` -/
def virtualNode (app : AppNode) : Metadata :=
  let fakeNode := (Metadata.leaf []).setParameter (lit "id") (Codec.encode app.id.1)
  let fakeNode := fakeNode.setParameter (lit "an") app.name
  let fakeNode := fakeNode.setParameter (lit "mm")
    (printed (toInt app.maxDataObjectsInMatch.toNat))
  let fakeNode := fakeNode.setParameter (lit "mt") (printed (toInt app.matchThreshold.toNat))
  let fakeNode := fakeNode.setParameter (lit "ct")
    (printed (toLong (getTimeAsMilliSeconds app.nodeDescriptionCreateTime)))
  app.attrs.foldl (fun m a => m.addMetadata (lit "a") (interestNode a)) fakeNode

/-- `createInterestDataObjectFromApplications`. The deadline is the absolute one, `now` plus
the time an interest may live. -/
def createInterestDataObjectFromApplications (manager : InterestManager) (now deadline : Timeval)
    (localApplications : List AppNode) : InterestManager × Option DataObject :=
  if manager.prevNodes = 0 ∧ localApplications.length = 0 then (manager, none)
  else
    let manager : InterestManager := { manager with ttl := manager.ttl + 1 }
    let dObj := (DataObject.setCreateTime (DataObject.fresh (Metadata.leaf [])) now).toMetadata
    let dObj := dObj.addAttribute ⟨lit "Interests", lit "Aggregate", 1⟩
    let dObj := dObj.addAttribute ⟨lit "SeqNo", printed (toInt manager.ttl), 1⟩
    let dObj := dObj.addAttribute ⟨lit "Origin", Codec.encode manager.thisNodeId.1, 1⟩
    let dObj := dObj.addAttribute ⟨lit "ATTL_MS", deadline.getAsString, 1⟩
    -- applications without interests are passed over
    let nodes : List Metadata := (localApplications.filter (fun app => !app.attrs.isEmpty)).map
      virtualNode
    let dObj : DataObject := { dObj with
      metadata := nodes.foldl (fun m node => m.addMetadata (lit "VNode") node) dObj.metadata }
    if nodes.length = 0 ∧ manager.prevNodes = 0 then (manager, none)
    else ({ manager with prevNodes := nodes.length }, some dObj)

/-! ## Receiving -/

/-- The attribute that says where a node description came from. -/
def proxyAttribute (sha1 : List UInt8 → List UInt8) (dObj : DataObject) : Attribute :=
  ⟨lit "__proxy_dobj_id", idString (dObj.calcId sha1), 0⟩

/-- The name and the value, out of one text. -/
def splitInterest (keyval : CString) : CString × CString :=
  (substr keyval 0 (stringFind keyval (lit "=")),
    substr keyval
      (match stringFind keyval (lit "=") with
      | none => 0
      | some pos => pos + 1) none)

/-- One round of the loop over the interests. -/
def parseInterest (am : Metadata) : Option Attribute := do
  let keyval ← am.getParameter (lit "n")
  let weight ← (am.getParameter (lit "w")).bind parseNumber
  return ⟨(splitInterest keyval).1, (splitInterest keyval).2, UInt64.ofInt (toInt weight)⟩

/-- `attrs.insert`, which puts an attribute before those of its name. -/
def insertAttr (a : Attribute) : List Attribute → List Attribute
  | [] => [a]
  | b :: attrs => if b.name < a.name then b :: insertAttr a attrs else a :: b :: attrs

/-- The node of an attribute, in a node description. -/
def attributeNode (a : Attribute) : Metadata :=
  ((Metadata.leaf a.value).setParameter (lit "name") a.name).setParameter (lit "weight")
    (printed a.weight.toNat)

/-- `createAppNodeMetadata` -/
def createAppNodeMetadata (ct : Timeval) (appname id : CString) (maxMatches matchThreshold : Int)
    (parentId : CString) (attrs : List Attribute) : Metadata :=
  let m := (Metadata.leaf []).setParameter (lit "persistent") (lit "yes")
  let m := m.setParameter (lit "create_time") ct.getAsString
  let m := m.setParameter (lit "update_time") ct.getAsString
  let nm := (Metadata.leaf []).setParameter (lit "type") (lit "application")
  let nm := nm.setParameter (lit "name") appname
  let nm := nm.setParameter (lit "id") id
  let nm := nm.setParameter (lit "resolution_limit") (printed maxMatches)
  let nm := nm.setParameter (lit "resolution_threshold") (printed matchThreshold)
  let nm := nm.setParameter (lit "proxy_id") parentId
  attrs.foldl (fun m a => m.addMetadata (lit "Attr") (attributeNode a))
    (m.addMetadata (lit "Node") nm)

/-- `createDataObjectFromMetadata`: nothing if there is no time in its text. -/
def createDataObjectFromMetadata (m : Metadata) : Option DataObject := do
  let dObj ← DataObject.receive m
  let param ← m.getParameter (lit "create_time")
  let createTime ← Timeval.ofString param
  return setUpdateTime (dObj.setCreateTime createTime) createTime

/-- One round of the loop over the applications. -/
def parseVirtualNode (parentId : CString) (proxy : Attribute) (m : Metadata) :
    Option DataObject := do
  let id ← m.getParameter (lit "id")
  let appname ← m.getParameter (lit "an")
  let maxMatches ← (m.getParameter (lit "mm")).bind parseNumber
  let matchThreshold ← (m.getParameter (lit "mt")).bind parseNumber
  let ct ← (m.getParameter (lit "ct")).bind parseNumber
  let ct ← ofMicroseconds (toLong (1000 * ct))
  let interests ← (m.getAll (lit "a")).mapM parseInterest
  let attrs := insertAttr proxy (interests.foldl (fun attrs a => insertAttr a attrs) [])
  createDataObjectFromMetadata
    (createAppNodeMetadata ct appname id (toInt maxMatches) (toInt matchThreshold) parentId attrs)

/-- `parseReceiveDataObjects` -/
def parseReceiveDataObjects (sha1 : List UInt8 → List UInt8) (dObj : DataObject) :
    List DataObject :=
  match find dObj.attrs ⟨lit "Origin", wildcard, 0⟩ with
  | none => []
  | some attr =>
      (dObj.toMetadata.metadata.getAll (lit "VNode")).filterMap
        (parseVirtualNode attr.value (proxyAttribute sha1 dObj))

/-- `init_node`, of a node description. -/
def initNode (dObj : DataObject) : Option AppNode := do
  let nm ← dObj.toMetadata.metadata.getMetadata (lit "Node")
  let id ← (nm.getParameter (lit "id")).bind (fun pval => DataObject.decodeHash pval zeroHash)
  let proxyId ←
    match nm.getParameter (lit "proxy_id") with
    | none => some zeroHash
    | some pval => DataObject.decodeHash pval zeroHash
  return {
    id := id
    proxyId := proxyId
    name := (nm.getParameter (lit "name")).getD []
    maxDataObjectsInMatch :=
      match nm.getParameter (lit "resolution_limit") with
      | none => 10
      | some pval => UInt64.ofNat (strtoul (chars pval))
    matchThreshold :=
      match nm.getParameter (lit "resolution_threshold") with
      | none => 0
      | some pval => UInt64.ofNat (strtoul (chars pval))
    nodeDescriptionCreateTime := dObj.createTime
    attrs := dObj.attrs }

end Encoders.Interest
