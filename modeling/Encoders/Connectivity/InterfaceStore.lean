import Encoders.Lib.Run
import Encoders.Lib.Acyclic
import Encoders.Data.Timeval

/-!
# The interface store

`InterfaceStore.cpp`. A record holds an interface, the interface it was found on, and a
policy that says how long it lives without being seen again. When an interface goes,
everything found on it goes with it: the records are meant to be a forest.

There are three ways in. Two of them refuse an interface whose parent is not in the store.
The third, which takes a bare interface and a reference to its parent, looks the parent up
and forgets to ask whether it was found: it stores the interface with no parent at all. All
three give an interface that so far was only overheard a new parent when it is announced,
and none asks whether that parent was itself found through the interface.
-/

namespace Encoders.Connectivity

open Encoders.Lib Encoders.Data Relation

/-! ## Interfaces -/

/-- `Interface::Type_t` -/
inductive InterfaceType where
  | undefined
  | applicationPort
  | applicationLocal
  | ethernet
  | wifi
  | bluetooth
  | media
deriving DecidableEq

/-- What `operator==` compares: the type and the raw identifier. -/
structure InterfaceKey where
  type : InterfaceType
  identifier : List UInt8
deriving DecidableEq

/-- `Interface`, with the flags the store reads or writes. -/
structure Interface where
  key : InterfaceKey
  name : CString
  isLocal : Bool
  isSnooped : Bool
  isStored : Bool
deriving DecidableEq

namespace Interface

/-- `equal(type, identifier)`, for the bytes one reads from the pointer on. -/
def equal (i : Interface) (type : InterfaceType) (identifier : Nat → UInt8) : Bool :=
  i.key.type = type ∧
    i.key.identifier = (List.range i.key.identifier.length).map identifier

/-- `copy`: every flag but `IFFLAG_STORED` is taken over. -/
def copy (i : Interface) : Interface := { i with isStored := false }

/-- `setFlag(IFFLAG_STORED)` -/
def setStored (i : Interface) : Interface := { i with isStored := true }

/-- `resetFlag(IFFLAG_STORED)` -/
def resetStored (i : Interface) : Interface := { i with isStored := false }

/-- `resetFlag(IFFLAG_SNOOPED)` -/
def resetSnooped (i : Interface) : Interface := { i with isSnooped := false }

end Interface

/-! ## Policies -/

/-- `ConnectivityInterfacePolicy` and what is derived from it. -/
inductive Policy where
  | ttl (current base : Int)
  | ageless
  | time (expiry : Timeval)
deriving DecidableEq

namespace Policy

/-- `update` -/
def update : Policy → Policy
  | ttl _ base => ttl base base
  | ageless => ageless
  | time expiry => time expiry

/-- `age` -/
def age : Policy → Policy
  | ttl current base => ttl (if current > 0 then current - 1 else current) base
  | ageless => ageless
  | time expiry => time expiry

/-- `isDead`, by the clock. -/
def isDead (now : Timeval) : Policy → Bool
  | ttl current _ => current = 0
  | ageless => false
  | time expiry => expiry.lt now

/-- `lifetime` -/
def lifetime : Policy → Timeval
  | ttl _ _ => Timeval.invalid
  | ageless => Timeval.invalid
  | time expiry => expiry

end Policy

/-! ## The store -/

/-- `InterfaceRecord`. The parent is an interface of the store, so its key says which. -/
structure InterfaceRecord where
  iface : Interface
  parent : Option InterfaceKey
  cip : Option Policy
deriving DecidableEq

abbrev InterfaceStore := List InterfaceRecord

namespace InterfaceStore

/-- What `operator==` compares in the interface of a record. -/
def key (r : InterfaceRecord) : InterfaceKey := r.iface.key

/-- `retrieve`, of an interface or a reference to one. -/
def retrieve (s : InterfaceStore) (iface : Interface) : Option Interface :=
  (s.find? (fun r => key r = iface.key)).map InterfaceRecord.iface

/-- What an `addupdate` leaves: the store, the reference it returns, and what it writes to
`*was_added`. -/
structure Added where
  store : InterfaceStore
  ret : Option Interface
  wasAdded : Option Bool
deriving DecidableEq

/-- What the loop of `addupdate` does with the record it finds. -/
def refresh (parent : Option InterfaceKey) (policy : Option Policy) (r : InterfaceRecord) :
    InterfaceRecord where
  iface := if r.iface.isSnooped then r.iface.resetSnooped else r.iface
  parent := if r.iface.isSnooped then parent else r.parent
  cip := policy.map Policy.update

/-- The loop of `addupdate`: the store with the first record of the interface refreshed, and
that interface. -/
def updateFirst (iface : InterfaceKey) (parent : Option InterfaceKey) (policy : Option Policy) :
    InterfaceStore → Option (InterfaceStore × Interface)
  | [] => none
  | r :: s =>
      if key r = iface then some (refresh parent policy r :: s, (refresh parent policy r).iface)
      else (updateFirst iface parent policy s).map (fun u => (r :: u.1, u.2))

/-- From the loop of `addupdate` on; `fresh` is what goes into a new record. `asked` says
whether there is a `was_added` to write to. -/
def addLoop (s : InterfaceStore) (iface fresh : Interface) (parent : Option InterfaceKey)
    (policy : Option Policy) (asked : Bool) : Added :=
  match updateFirst iface.key parent policy s with
  | some u => ⟨u.1, some u.2, if asked then some false else none⟩
  | none => ⟨s ++ [⟨fresh, parent, policy⟩], some fresh, if asked then some true else none⟩

/-- `addupdate` that gives up on a parent that is not stored. -/
def addKnown (s : InterfaceStore) (iface fresh : Interface) (parent : Option Interface)
    (policy : Option Policy) (asked : Bool) : Added :=
  match parent with
  | none => addLoop s iface fresh none policy asked
  | some p =>
      match retrieve s p with
      | none => ⟨s, none, if asked then some false else none⟩
      | some stored => addLoop s iface fresh (some stored.key) policy asked

/-- `addupdate(InterfaceRef&, const InterfaceRef&, ...)`: the reference itself is stored. -/
def addupdateRef (s : InterfaceStore) (iface parent : Option Interface) (policy : Option Policy)
    (asked : Bool) : Added :=
  match iface with
  | none => ⟨s, none, none⟩
  | some i => addKnown s i (if asked then i.setStored else i) parent policy asked

/-- `addupdate(Interface *, const InterfaceRef&, ...)`: a parent that is not stored is taken
for none. -/
def addupdateFound (s : InterfaceStore) (iface parent : Option Interface)
    (policy : Option Policy) (asked : Bool) : Added :=
  match iface with
  | none => ⟨s, none, none⟩
  | some i =>
      addLoop s i i.copy.setStored ((parent.bind (retrieve s)).map Interface.key) policy asked

/-- `addupdate(Interface *, const Interface *, ...)` -/
def addupdatePtr (s : InterfaceStore) (iface parent : Option Interface) (policy : Option Policy)
    (asked : Bool) : Added :=
  match iface with
  | none => ⟨s, none, none⟩
  | some i => addKnown s i (if asked then i.copy.setStored else i.copy) parent policy asked

/-! ### Removing -/

/-- What a removal leaves: the store, what it adds to the list it was given, and how many
records went. -/
structure Removed where
  store : InterfaceStore
  ifl : List Interface
  removed : Nat
deriving DecidableEq

/-- `ir->parent && ir->parent == parent`, for a parent that may be a null reference. -/
def hasParent (parent : Option InterfaceKey) (r : InterfaceRecord) : Bool :=
  r.parent.isSome && r.parent = parent

/-- The loop that pops what was collected and removes its children with `remove`. -/
def popChildren (remove : InterfaceStore → Option InterfaceKey → Removed) :
    Removed → List Interface → Removed
  | t, [] => t
  | t, child :: children =>
      let u := remove t.store (some child.key)
      popChildren remove ⟨u.store, t.ifl ++ u.ifl, t.removed + u.removed⟩ children

/-- `remove_children`, to a depth. The children are collected from the front and popped from
the back. -/
def removeChildrenTo : Nat → InterfaceStore → Option InterfaceKey → Removed
  | 0, s, _ => ⟨s, [], 0⟩
  | depth + 1, s, parent =>
      let children := (s.filter (hasParent parent)).map (fun r => r.iface.resetStored)
      popChildren (removeChildrenTo depth)
        ⟨s.filter (fun r => !hasParent parent r), children, children.length⟩ children.reverse

/-- `remove_children`. Each level of calls has taken a record out, so there are no more levels
than records, and one. -/
def removeChildren (s : InterfaceStore) (parent : Option InterfaceKey) : Removed :=
  removeChildrenTo (s.length + 1) s parent

/-- The loop of `remove`: the first record that matches goes, and its children with it. -/
def removeFirst (hit : InterfaceRecord → Bool) (s : InterfaceStore) : Removed :=
  match s.find? hit with
  | none => ⟨s, [], 0⟩
  | some r =>
      let t := removeChildren (s.eraseP hit) (some (key r))
      ⟨t.store, r.iface.resetStored :: t.ifl, t.removed + 1⟩

/-- `remove(name)` -/
def removeName (s : InterfaceStore) (name : CString) : Removed :=
  removeFirst (fun r => r.iface.name = name) s

/-- `remove(const Interface *)` -/
def removePtr (s : InterfaceStore) (iface : Option Interface) : Removed :=
  match iface with
  | none => removeChildren s none
  | some i => removeFirst (fun r => key r = i.key) s

/-- `remove(const InterfaceRef&)` -/
def removeRef (s : InterfaceStore) (iface : Option Interface) : Removed :=
  match iface with
  | none => removeChildren s none
  | some i => removeFirst (fun r => key r = i.key) s

/-- `remove(type, identifier)`: the interface is listed after its children. -/
def removeId (s : InterfaceStore) (type : InterfaceType) (identifier : Option (Nat → UInt8)) :
    Removed :=
  match identifier with
  | none => removeChildren s none
  | some bytes =>
      match s.find? (fun r => r.iface.equal type bytes) with
      | none => ⟨s, [], 0⟩
      | some r =>
          let t := removeChildren (s.eraseP (fun r => r.iface.equal type bytes)) (some (key r))
          ⟨t.store, t.ifl ++ [r.iface.resetStored], t.removed + 1⟩

/-! ### Ageing -/

/-- What the loop of `age` leaves: the records that stay, the interfaces of those that died,
and the lifetime. -/
structure Aged where
  kept : InterfaceStore
  dead : List Interface
  lifetime : Timeval
deriving DecidableEq

/-- `*lifetime` after a policy was looked at. -/
def shorter (lifetime other : Timeval) : Timeval :=
  if other.isValid && (!lifetime.isValid || other.lt lifetime) then other else lifetime

/-- The loop of `age` over the records it is for. A record with no policy has none to ask.
`clock` is what each policy reads on the clock. -/
def ageLoop (due : InterfaceRecord → Bool) (clock : InterfaceKey → Timeval) :
    Timeval → InterfaceStore → Option Aged
  | lifetime, [] => some ⟨[], [], lifetime⟩
  | lifetime, r :: s =>
      if due r then
        match r.cip with
        | none => none
        | some cip =>
            if cip.isDead (clock (key r)) then
              (ageLoop due clock lifetime s).map
                (fun a => ⟨a.kept, r.iface.resetStored :: a.dead, a.lifetime⟩)
            else
              (ageLoop due clock (shorter lifetime cip.age.lifetime) s).map
                (fun a => ⟨{ r with cip := some cip.age } :: a.kept, a.dead, a.lifetime⟩)
      else (ageLoop due clock lifetime s).map (fun a => ⟨r :: a.kept, a.dead, a.lifetime⟩)

/-- `age`, for the records it is for: the removal, and the lifetime. -/
def ageWith (due : InterfaceRecord → Bool) (clock : InterfaceKey → Timeval)
    (s : InterfaceStore) : Option (Removed × Timeval) :=
  (ageLoop due clock Timeval.invalid s).map (fun a =>
    (popChildren removeChildren ⟨a.kept, a.dead, a.dead.length⟩ a.dead.reverse, a.lifetime))

/-- `age(const Interface *, ...)` -/
def agePtr (s : InterfaceStore) (parent : Option Interface) (clock : InterfaceKey → Timeval) :
    Option (Removed × Timeval) :=
  ageWith (fun r => (r.iface.isLocal && parent.isNone) ||
    hasParent (parent.map Interface.key) r) clock s

/-- `age(const InterfaceRef&, ...)`, the one that leaves out what was only overheard. -/
def ageRef (s : InterfaceStore) (parent : Option Interface) (clock : InterfaceKey → Timeval) :
    Option (Removed × Timeval) :=
  ageWith (fun r => (r.iface.isLocal && parent.isNone) ||
    (hasParent (parent.map Interface.key) r && !r.iface.isSnooped)) clock s

/-- `equal(type, identifier)` of a parent. -/
def parentEqual (type : InterfaceType) (identifier : Nat → UInt8) (r : InterfaceRecord) : Bool :=
  r.parent.any (fun p => p.type = type ∧
    p.identifier = (List.range p.identifier.length).map identifier)

/-- `age(type, identifier, ...)` -/
def ageId (s : InterfaceStore) (type : InterfaceType) (identifier : Option (Nat → UInt8))
    (clock : InterfaceKey → Timeval) : Option (Removed × Timeval) :=
  ageWith (fun r => (r.iface.isLocal && identifier.isNone) ||
    identifier.any (fun bytes => parentEqual type bytes r)) clock s

/-! ### Runs -/

end InterfaceStore

/-- The calls on the store. -/
inductive StoreOp where
  | addupdateRef (iface parent : Option Interface) (policy : Option Policy) (asked : Bool)
  | addupdateFound (iface parent : Option Interface) (policy : Option Policy) (asked : Bool)
  | addupdatePtr (iface parent : Option Interface) (policy : Option Policy) (asked : Bool)
  | removeName (name : CString)
  | removePtr (iface : Option Interface)
  | removeRef (iface : Option Interface)
  | removeId (type : InterfaceType) (identifier : Option (Nat → UInt8))
  | agePtr (parent : Option Interface) (clock : InterfaceKey → Timeval)
  | ageRef (parent : Option Interface) (clock : InterfaceKey → Timeval)
  | ageId (type : InterfaceType) (identifier : Option (Nat → UInt8))
      (clock : InterfaceKey → Timeval)

namespace InterfaceStore

/-- What a call leaves in the store. -/
def step (s : InterfaceStore) : StoreOp → Option InterfaceStore
  | .addupdateRef iface parent policy asked => some (addupdateRef s iface parent policy asked).store
  | .addupdateFound iface parent policy asked =>
      some (addupdateFound s iface parent policy asked).store
  | .addupdatePtr iface parent policy asked => some (addupdatePtr s iface parent policy asked).store
  | .removeName name => some (removeName s name).store
  | .removePtr iface => some (removePtr s iface).store
  | .removeRef iface => some (removeRef s iface).store
  | .removeId type identifier => some (removeId s type identifier).store
  | .agePtr parent clock => (agePtr s parent clock).map (fun t => t.1.store)
  | .ageRef parent clock => (ageRef s parent clock).map (fun t => t.1.store)
  | .ageId type identifier clock => (ageId s type identifier clock).map (fun t => t.1.store)

end InterfaceStore

end Encoders.Connectivity
