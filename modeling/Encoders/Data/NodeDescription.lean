import Encoders.Data.Object

/-!
# Whether a description gives a node

`Node::create` makes a node from the metadata of a data object, or returns `NULL`: there may
be no `Node` element, no type or an unknown one, no readable id, a proxy id or a Bloom filter
that cannot be read, or, for anything but an application, no interface. Whether it returns a
node is all that is said here.
-/

namespace Encoders.Data

open Encoders.Lib

/-- `Node::typestr`; the first is `TYPE_UNDEFINED`. -/
def typestr : List CString :=
  [lit "undefined", lit "local_device", lit "application", lit "peer", lit "gateway"]

/-- `Node::strToType` -/
def strToType (type : CString) : Nat := (typestr.findIdx? (fun str => str = type)).getD 0

/-- `Bloomfilter::fromMetadata` returns a filter. -/
def createsFilter (m : Metadata) : Bool :=
  match m.getParameter (lit "type") with
  | none => false
  | some param =>
      (param = lit "normal" || param = lit "counting") && (Codec.decode m.getContent).isSome

/-- `init_node` accepts the `Node` element of a description. -/
def initsNode (type : Nat) (nm : Metadata) : Bool :=
  (nm.getParameter (lit "id")).any (fun pval => (DataObject.decodeHash pval zeroHash).isSome) &&
    (nm.getParameter (lit "proxy_id")).all
      (fun pval => (DataObject.decodeHash pval zeroHash).isSome) &&
    (nm.getMetadata (lit "Bloomfilter")).all createsFilter &&
    (type = 2 || (nm.getMetadata (lit "Interface")).isSome)

/-- `Node::create` returns a node. -/
def createsNode (d : DataObject) : Bool :=
  match d.metadata.getMetadata (lit "Node") with
  | none => false
  | some nm =>
      match nm.getParameter (lit "type") with
      | none => false
      | some str => strToType str ≠ 0 && initsNode (strToType str) nm

end Encoders.Data
