import Encoders.Bloom.Exact
import Encoders.Data.Object

/-!
# The filter of the data manager

`DataManager` keeps `localBF`, a counting filter of the ids of what the node holds. An
INCOMING event adds the id unless it is there, and calls the object a duplicate if it is.
A VERIFIED event takes the id out if the signature is invalid or the data are bad, a
DELETED event if the event does not say to keep it, and `removeFromLocalBF` always.

An id is in the filter once, however many copies of its object were received, and each
handler takes it out for one of them. Two of them do not even look whether it is there.
Next to the manager we keep the accepted receptions that still stand, and say in which
runs the filter contains them all: `filter_tracks_receptions_iff`.
-/

namespace Encoders.Kernel

open Encoders.Lib Encoders.Bloom Encoders.Data

/-- `ABEStatus_t` -/
inductive ABEStatus where
  | notNeeded
  | encryptionNeeded
  | encryptionDone
  | decryptionNeeded
  | decryptionDone
deriving DecidableEq

/--
One copy of a data object, as the data manager asks about it. The node can have several
copies of one id; `num` tells them apart.
-/
structure Copy where
  num : Nat
  id : Key
  isControlMessage : Bool
  isNodeDescription : Bool
  signatureStatus : SignatureStatus
  dataState : DataState
  abeStatus : ABEStatus
  isDuplicate : Bool
  isPersistent : Bool
deriving DecidableEq

namespace Copy

/-- `dataIsVerifiable` -/
def dataIsVerifiable (d : Copy) : Bool :=
  d.dataState = .notVerified || d.dataState = .verifiedOk || d.dataState = .verifiedBad

/-- `hasValidSignature` -/
def hasValidSignature (d : Copy) : Bool := d.signatureStatus = .valid

end Copy

/-- What the manager finds around it when an event comes, and what it is configured to do. -/
structure Surroundings where
  /-- The node the copy came from, if it is known and neither undefined nor an application. -/
  peer : Copy → Option Nat
  updateIsScheduled : Bool
  nodeDescUpdateOnReception : Bool
  helper : Bool
  /-- Network coding is on for the copy, its blocks are not forwarded, and it is a block. -/
  keptAsBlock : Copy → Bool
  /-- The same of fragments. -/
  keptAsFragment : Copy → Bool
  /-- There is a cache strategy, not done yet and responsible for the copy. -/
  cacheStrategy : Copy → Bool

/-- What the manager does besides. -/
inductive Reaction where
  | addToPeer (peer : Nat) (id : Key)
  | setDuplicate (d : Copy)
  | addToThisNode (id : Key)
  | setBloomfilter (bf : CountingBloomfilter)
  | nodeDescriptionSend
  | dataObjectNew (d : Copy)
  | verifyData (d : Copy)
  | handleNewDataObject (d : Copy)
  | insertDataObject (d : Copy) (callback : Bool)
  | handleDeletedDataObject (d : Copy)
  | cancelSendEvents (d : Copy)

/-- The data manager: its filter, with a log of what was done to it, and the ids it lists. -/
structure DataManager where
  localBF : CountingBloomfilter
  log : List FilterOp
  dataObjectsReceived : List Key

namespace DataManager

/-- `localBF->has` -/
def has (sha1 : Digest) (m : DataManager) (id : Key) : Option Bool :=
  (countingCheck sha1 m.localBF id).map (fun res => res = 1)

/-- `localBF->add` and `localBF->remove` -/
def apply (sha1 : Digest) (m : DataManager) (op : FilterOp) : Option DataManager :=
  (m.localBF.step sha1 op).map (fun bf => { m with localBF := bf, log := m.log ++ [op] })

/-- `localBF->add` if it is not there, with what else is done then and otherwise. -/
def addUnless (sha1 : Digest) (m : DataManager) (id : Key) (known : List Reaction)
    (added : DataManager → List Reaction) : Option (DataManager × List Reaction) :=
  (m.has sha1 id).bind (fun found =>
    if found then some (m, known)
    else (m.apply sha1 (.add id)).map (fun t => (t, added t)))

/-- `localBF->remove` if it is there, with what else is done then. -/
def removeIf (sha1 : Digest) (m : DataManager) (id : Key)
    (removed : DataManager → List Reaction) : Option (DataManager × List Reaction) :=
  (m.has sha1 id).bind (fun found =>
    if found then (m.apply sha1 (.remove id)).map (fun t => (t, removed t))
    else some (m, []))

/-- `kernel->getThisNode()->setBloomfilter(*localBF, ...)` -/
def publish (m : DataManager) : List Reaction := [.setBloomfilter m.localBF]

/-! ## The handlers -/

/-- The filter of the node that sent the copy. -/
def tellPeer (env : Surroundings) (d : Copy) : List Reaction :=
  match env.peer d with
  | none => []
  | some peer => [.addToPeer peer d.id]

/-- The periodic update publishes the filter; without it each event does. -/
def publishNow (env : Surroundings) (m : DataManager) : List Reaction :=
  if env.updateIsScheduled then [] else m.publish

/-- `onIncomingDataObject` -/
def onIncomingDataObject (sha1 : Digest) (env : Surroundings) (m : DataManager) (d : Copy) :
    Option (DataManager × List Reaction) :=
  if d.isControlMessage then some (m, [])
  else if d.isNodeDescription then
    (m.has sha1 d.id).map (fun found =>
      (m, tellPeer env d ++ if found then [.setDuplicate d] else m.publishNow env))
  else
    m.addUnless sha1 d.id (tellPeer env d ++ [.setDuplicate d]) (fun t =>
      tellPeer env d ++ .addToThisNode d.id ::
        (if env.nodeDescUpdateOnReception then [.nodeDescriptionSend] else []) ++
          t.publishNow env)

/-- `insertDataObjectIntoDataStore`, unless the cache strategy does it. -/
def store (env : Surroundings) (d : Copy) : List Reaction :=
  if env.cacheStrategy d then [.handleNewDataObject d] else [.insertDataObject d d.isPersistent]

/-- `handleVerifiedDataObject` -/
def handleVerifiedDataObject (sha1 : Digest) (env : Surroundings) (m : DataManager) (d : Copy) :
    Option (DataManager × List Reaction) :=
  if (env.keptAsBlock d || env.keptAsFragment d) && !d.isDuplicate then
    some (m, [.dataObjectNew d])
  else if d.abeStatus = .notNeeded then some (m, store env d)
  else
    -- an object of a local application is encrypted without an INCOMING event
    m.addUnless sha1 d.id (store env d) (fun _ => .addToThisNode d.id :: store env d)

/-- `dataObjectsReceived`, of which ten are kept. -/
def listReceived (m : DataManager) (id : Key) : DataManager :=
  { m with
    dataObjectsReceived :=
      (if 10 ≤ m.dataObjectsReceived.length then m.dataObjectsReceived.tail
       else m.dataObjectsReceived) ++ [id] }

/-- `onVerifiedDataObject` -/
def onVerifiedDataObject (sha1 : Digest) (env : Surroundings) (m : DataManager) (d : Copy) :
    Option (DataManager × List Reaction) :=
  let m := m.listReceived d.id
  if d.signatureStatus = .invalid then
    (m.apply sha1 (.remove d.id)).map (fun t => (t, t.publish))
  else if d.dataState = .verifiedBad then m.removeIf sha1 d.id publish
  else if d.dataState = .notVerified ∧ env.helper = true ∧ d.dataIsVerifiable = true then
    some (m, [.verifyData d])
  else m.handleVerifiedDataObject sha1 env d

/-- `onDataTaskComplete` -/
def onDataTaskComplete (sha1 : Digest) (env : Surroundings) (m : DataManager) (d : Copy)
    (completed : Bool) : Option (DataManager × List Reaction) :=
  if completed then m.handleVerifiedDataObject sha1 env d else some (m, [])

/-- `removeFromLocalBF` -/
def removeFromLocalBF (sha1 : Digest) (m : DataManager) (id : Key) :
    Option (DataManager × List Reaction) :=
  (m.apply sha1 (.remove id)).map (fun t => (t, t.publish))

/-- The rest of the loop of `onDeletedDataObject`: how many were removed, and what was done. -/
def deletedLoop (sha1 : Digest) (env : Surroundings) (keep : Bool) :
    DataManager → Nat → List Reaction → List Copy → Option (DataManager × Nat × List Reaction)
  | m, removed, done, [] => some (m, removed, done)
  | m, removed, done, d :: ds =>
      let done := done ++ (if env.cacheStrategy d then [.handleDeletedDataObject d] else []) ++
        [.cancelSendEvents d]
      if d.isNodeDescription || keep then deletedLoop sha1 env keep m removed done ds
      else
        (m.has sha1 d.id).bind (fun found =>
          if found then
            (m.apply sha1 (.remove d.id)).bind (fun t =>
              deletedLoop sha1 env keep t (removed + 1) done ds)
          else deletedLoop sha1 env keep m removed done ds)

/-- `onDeletedDataObject` -/
def onDeletedDataObject (sha1 : Digest) (env : Surroundings) (m : DataManager) (ds : List Copy)
    (keep : Bool) : Option (DataManager × List Reaction) :=
  (deletedLoop sha1 env keep m 0 [] ds).map (fun r =>
    if 0 < r.2.1 ∨ ds.any (fun d => !d.hasValidSignature) = true then
      (r.1, r.2.2 ++ r.1.publish)
    else (r.1, r.2.2))

end DataManager

/-- What reaches the manager. -/
inductive DataEvent where
  | incoming (d : Copy)
  | verified (d : Copy)
  | taskComplete (d : Copy) (completed : Bool)
  | deleted (ds : List Copy) (keep : Bool)
  | removed (id : Key)

/-- The handler of an event. -/
def DataManager.handle (sha1 : Digest) (env : Surroundings) (m : DataManager) :
    DataEvent → Option (DataManager × List Reaction)
  | .incoming d => m.onIncomingDataObject sha1 env d
  | .verified d => m.onVerifiedDataObject sha1 env d
  | .taskComplete d completed => m.onDataTaskComplete sha1 env d completed
  | .deleted ds keep => m.onDeletedDataObject sha1 env ds keep
  | .removed id => m.removeFromLocalBF sha1 id

/-! ## Receptions -/

/-- An accepted reception of a copy, which may have passed verification. -/
structure Reception where
  num : Nat
  id : Key
  verified : Bool
deriving DecidableEq

namespace Reception

/-- It is the reception of this copy. -/
def isOf (d : Copy) (r : Reception) : Bool := r.num = d.num && r.id = d.id

/-- Verification of a copy. -/
def pass (d : Copy) (r : Reception) : Reception :=
  if r.isOf d then { r with verified := true } else r

/-- Rejection of a copy. -/
def reject (d : Copy) (rs : List Reception) : List Reception := rs.filter (fun r => !r.isOf d)

/-- Deletion of the object that is stored under an id, for which verified copies stand. -/
def forget (id : Key) (rs : List Reception) : List Reception :=
  rs.filter (fun r => !(r.id = id && r.verified))

/-- Deletion of a copy: one still on its way, or else the stored object. -/
def delete (rs : List Reception) (d : Copy) : List Reception :=
  if rs.any (fun r => r.isOf d && !r.verified) then reject d rs else forget d.id rs

end Reception

/-- Verification rejects the copy. -/
def Copy.rejected (d : Copy) : Bool := d.signatureStatus = .invalid || d.dataState = .verifiedBad

/-- The accepted receptions neither rejected nor deleted without the flag to keep the id. -/
def standingAfter (env : Surroundings) (rs : List Reception) : DataEvent → List Reception
  | .incoming d =>
      if d.isControlMessage || d.isNodeDescription then rs else rs ++ [⟨d.num, d.id, false⟩]
  | .verified d =>
      if d.rejected then Reception.reject d rs
      else if d.dataState = .notVerified ∧ env.helper = true then rs
      else rs.map (Reception.pass d)
  | .taskComplete d completed => if completed then rs.map (Reception.pass d) else rs
  | .deleted ds keep => if keep then rs else ds.foldl Reception.delete rs
  | .removed id => Reception.forget id rs

/-- The manager, and the receptions that stand. -/
structure Tracked where
  manager : DataManager
  standing : List Reception

/-- One event, in the surroundings it finds. -/
def Tracked.step (sha1 : Digest) (w : Tracked) (op : Surroundings × DataEvent) : Option Tracked :=
  (w.manager.handle sha1 op.1 op.2).map (fun r =>
    ⟨r.1, standingAfter op.1 w.standing op.2⟩)

/-- A manager as it starts. -/
def Tracked.start (bf : CountingBloomfilter) : Tracked := ⟨⟨bf, [], []⟩, []⟩

/-- Every id was removed at most as often as added, and what stands is in the filter. -/
structure Tracked.Sound (sha1 : Digest) (w : Tracked) : Prop where
  ledger : ∀ id, w.manager.log.count (.remove id) ≤ w.manager.log.count (.add id)
  held : ∀ r ∈ w.standing, w.manager.has sha1 r.id = some true

/-! ## When they agree -/

namespace DataEvent

/-- The ids an event is about. -/
def ids : DataEvent → List Key
  | .incoming d => [d.id]
  | .verified d => [d.id]
  | .taskComplete d _ => [d.id]
  | .deleted ds _ => ds.map (fun d => d.id)
  | .removed id => [id]

/-- The ids that the manager takes out of the filter. -/
def takesOut : DataEvent → List Key
  | .incoming _ => []
  | .verified d => if d.rejected then [d.id] else []
  | .taskComplete _ _ => []
  | .deleted ds keep =>
      if keep then [] else (ds.filter (fun d => !d.isNodeDescription)).map (fun d => d.id)
  | .removed id => [id]

/-- Those it takes out without a look. -/
def blind : DataEvent → List Key
  | .verified d => if d.signatureStatus = .invalid then [d.id] else []
  | .removed id => [id]
  | _ => []

/-- The ids that are in the filter afterwards in any case. -/
def putsIn : DataEvent → List Key
  | .incoming d => if d.isControlMessage || d.isNodeDescription then [] else [d.id]
  | _ => []

theorem blind_mem {e : DataEvent} {id : Key} (h : id ∈ e.blind) : id ∈ e.ids := by
  cases e with
  | verified d =>
      rw [blind] at h
      split at h
      · exact h
      · exact absurd h List.not_mem_nil
  | removed other => exact h
  | incoming d => exact absurd h List.not_mem_nil
  | taskComplete d completed => exact absurd h List.not_mem_nil
  | deleted ds keep => exact absurd h List.not_mem_nil

theorem putsIn_mem {e : DataEvent} {id : Key} (h : id ∈ e.putsIn) : id ∈ e.ids := by
  cases e with
  | incoming d =>
      rw [putsIn] at h
      split at h
      · exact absurd h List.not_mem_nil
      · exact h
  | verified d => exact absurd h List.not_mem_nil
  | taskComplete d completed => exact absurd h List.not_mem_nil
  | deleted ds keep => exact absurd h List.not_mem_nil
  | removed other => exact absurd h List.not_mem_nil

end DataEvent

/--
An id that is taken out without a look is there, and an id that is taken out belongs to no
reception that still stands after the event.
-/
def Tracked.Fits (sha1 : Digest) (w : Tracked) (op : Surroundings × DataEvent) : Prop :=
  (∀ id ∈ op.2.blind, w.manager.has sha1 id = some true) ∧
    ∀ id ∈ op.2.takesOut, ∀ r ∈ standingAfter op.1 w.standing op.2, r.id ≠ id

/-! ## The handlers on an exact filter -/

namespace DataManager

/-- The filter of the manager is exact. -/
def Exactly (sha1 : Digest) (ids : List Key) (m : DataManager) : Prop :=
  Exact sha1 ids m.localBF m.log

/-- What is left when some ids are taken out. -/
structure Leaves (sha1 : Digest) (ids : List Key) (m : DataManager) (out : List Key)
    (t : DataManager) : Prop where
  exactly : t.Exactly sha1 ids
  kept : ∀ id ∈ contents m.log, id ∉ out → id ∈ contents t.log
  gone : ∀ id ∈ out, id ∉ contents t.log

variable {sha1 : Digest} {ids : List Key} {m : DataManager} {id : Key}

theorem Exactly.leaves (h : m.Exactly sha1 ids) : m.Leaves sha1 ids [] m :=
  ⟨h, fun _ hin _ => hin, fun _ hout => absurd hout List.not_mem_nil⟩

theorem Exactly.has (h : m.Exactly sha1 ids) (hid : id ∈ ids) :
    m.has sha1 id = some (decide (id ∈ contents m.log)) := by
  unfold DataManager.has
  rw [h.check hid, Option.map_some]
  by_cases hin : id ∈ contents m.log
  · rw [if_pos hin]
    simp [hin]
  · rw [if_neg hin]
    simp [hin]

theorem addUnless_spec (h : m.Exactly sha1 ids) (hid : id ∈ ids) (known : List Reaction)
    (added : DataManager → List Reaction) :
    ∃ r, m.addUnless sha1 id known added = some r ∧ m.Leaves sha1 ids [] r.1 ∧
      id ∈ contents r.1.log := by
  unfold addUnless
  rw [h.has hid, Option.bind_some]
  by_cases hin : id ∈ contents m.log
  · rw [if_pos (decide_eq_true hin)]
    exact ⟨_, rfl, h.leaves, hin⟩
  · rw [if_neg (by simpa using hin)]
    obtain ⟨bf', hstep, hexact⟩ := Exact.add h hid hin
    unfold apply
    rw [hstep]
    refine ⟨_, rfl, ⟨hexact, ?_, ?_⟩, mem_contents_add.mpr (Or.inl rfl)⟩
    · exact fun other hother _ => mem_contents_add.mpr (Or.inr hother)
    · exact fun other hout => absurd hout List.not_mem_nil

theorem apply_remove_spec (h : m.Exactly sha1 ids) (hin : id ∈ contents m.log) :
    ∃ t, m.apply sha1 (.remove id) = some t ∧ m.Leaves sha1 ids [id] t := by
  obtain ⟨bf', hstep, hexact⟩ := Exact.remove h hin
  unfold apply
  rw [hstep]
  refine ⟨_, rfl, hexact, ?_, ?_⟩
  · intro other hother hout
    exact (mem_contents_remove h.nodup).mpr ⟨List.ne_of_not_mem_cons hout, hother⟩
  · intro other hout hother
    exact ((mem_contents_remove h.nodup).mp hother).1 (List.mem_singleton.mp hout)

theorem removeIf_spec (h : m.Exactly sha1 ids) (hid : id ∈ ids)
    (removed : DataManager → List Reaction) :
    ∃ r, m.removeIf sha1 id removed = some r ∧ m.Leaves sha1 ids [id] r.1 := by
  unfold removeIf
  rw [h.has hid, Option.bind_some]
  by_cases hin : id ∈ contents m.log
  · rw [if_pos (decide_eq_true hin)]
    obtain ⟨t, ht, hleaves⟩ := apply_remove_spec h hin
    rw [ht]
    exact ⟨_, rfl, hleaves⟩
  · rw [if_neg (by simpa using hin)]
    refine ⟨_, rfl, h, fun _ hother _ => hother, ?_⟩
    intro other hout
    rw [List.mem_singleton.mp hout]
    exact hin

/-- What is taken out in two steps. -/
theorem Leaves.trans {t u : DataManager} {out : List Key} (h : m.Leaves sha1 ids [id] t)
    (hu : t.Leaves sha1 ids out u) (hsame : ∀ other ∈ contents u.log, other ∈ contents t.log) :
    m.Leaves sha1 ids (id :: out) u where
  exactly := hu.exactly
  kept := by
    intro other hother hout
    rw [List.mem_cons, not_or] at hout
    exact hu.kept other (h.kept other hother (by simpa using hout.1)) hout.2
  gone := by
    intro other hout hother
    rcases List.mem_cons.mp hout with rfl | hout
    · exact h.gone other (List.mem_singleton.mpr rfl) (hsame other hother)
    · exact hu.gone other hout hother

/-- The loop takes out what is no node description. -/
theorem deletedLoop_spec (env : Surroundings) : ∀ (ds : List Copy) (m : DataManager) (removed : Nat)
    (done : List Reaction), m.Exactly sha1 ids → (∀ d ∈ ds, d.id ∈ ids) →
    ∃ r, deletedLoop sha1 env false m removed done ds = some r ∧
      m.Leaves sha1 ids ((ds.filter (fun d => !d.isNodeDescription)).map (fun d => d.id)) r.1 ∧
      ∀ other ∈ contents r.1.log, other ∈ contents m.log
  | [], m, removed, done, h, _ => ⟨_, rfl, h.leaves, fun _ hother => hother⟩
  | d :: ds, m, removed, done, h, hids => by
      have hrest : ∀ c ∈ ds, c.id ∈ ids := fun c hc => hids c (List.mem_cons_of_mem _ hc)
      rw [deletedLoop, Bool.or_false]
      by_cases hnode : d.isNodeDescription = true
      · rw [if_pos hnode, List.filter_cons_of_neg (by simpa using hnode)]
        exact deletedLoop_spec env ds m removed _ h hrest
      rw [if_neg hnode, List.filter_cons_of_pos (by simpa using hnode), List.map_cons,
        h.has (hids d List.mem_cons_self), Option.bind_some]
      by_cases hin : d.id ∈ contents m.log
      · rw [if_pos (decide_eq_true hin)]
        obtain ⟨t, ht, hleaves⟩ := apply_remove_spec h hin
        have hless : ∀ other ∈ contents t.log, other ∈ contents m.log := by
          unfold apply at ht
          obtain ⟨bf', -, rfl⟩ := Option.map_eq_some_iff.mp ht
          exact fun other hother => ((mem_contents_remove h.nodup).mp hother).2
        obtain ⟨r, hr, hrleaves, hrless⟩ :=
          deletedLoop_spec env ds t (removed + 1) _ hleaves.exactly hrest
        rw [ht, Option.bind_some]
        exact ⟨r, hr, hleaves.trans hrleaves hrless, fun other ho => hless other (hrless other ho)⟩
      · -- gone already, with an earlier copy of the same object
        rw [if_neg (by simpa using hin)]
        obtain ⟨r, hr, hrleaves, hrless⟩ := deletedLoop_spec env ds m removed _ h hrest
        refine ⟨r, hr, ⟨hrleaves.exactly, ?_, ?_⟩, hrless⟩
        · exact fun other hother hout =>
            hrleaves.kept other hother (fun ho => hout (List.mem_cons_of_mem _ ho))
        · intro other hout hother
          rcases List.mem_cons.mp hout with rfl | hout
          · exact hin (hrless _ hother)
          · exact hrleaves.gone other hout hother

theorem deletedLoop_keep (sha1 : Digest) (env : Surroundings) :
    ∀ (ds : List Copy) (m : DataManager) (removed : Nat) (done : List Reaction),
      ∃ r, deletedLoop sha1 env true m removed done ds = some r ∧ r.1 = m
  | [], m, _, _ => ⟨_, rfl, rfl⟩
  | d :: ds, m, removed, done => by
      rw [deletedLoop, Bool.or_true, if_pos rfl]
      exact deletedLoop_keep sha1 env ds m removed _

theorem handleVerifiedDataObject_spec (env : Surroundings) (h : m.Exactly sha1 ids)
    {d : Copy} (hid : d.id ∈ ids) :
    ∃ r, m.handleVerifiedDataObject sha1 env d = some r ∧ m.Leaves sha1 ids [] r.1 := by
  unfold handleVerifiedDataObject
  split
  · exact ⟨_, rfl, h.leaves⟩
  · split
    · exact ⟨_, rfl, h.leaves⟩
    · obtain ⟨r, hr, hleaves, -⟩ := addUnless_spec h hid (store env d)
        (fun _ => .addToThisNode d.id :: store env d)
      exact ⟨r, hr, hleaves⟩

theorem onIncomingDataObject_spec (env : Surroundings) (h : m.Exactly sha1 ids) {d : Copy}
    (hid : d.id ∈ ids) :
    ∃ r, m.onIncomingDataObject sha1 env d = some r ∧ m.Leaves sha1 ids [] r.1 ∧
      ∀ id ∈ (DataEvent.incoming d).putsIn, id ∈ contents r.1.log := by
  unfold onIncomingDataObject
  by_cases hcontrol : d.isControlMessage = true
  · rw [if_pos hcontrol]
    refine ⟨_, rfl, h.leaves, ?_⟩
    simp [DataEvent.putsIn, hcontrol]
  rw [if_neg hcontrol]
  by_cases hnode : d.isNodeDescription = true
  · rw [if_pos hnode, h.has hid, Option.map_some]
    refine ⟨_, rfl, h.leaves, ?_⟩
    simp [DataEvent.putsIn, hnode]
  rw [if_neg hnode]
  obtain ⟨r, hr, hleaves, hin⟩ := addUnless_spec h hid (tellPeer env d ++ [.setDuplicate d])
    (fun t => tellPeer env d ++ .addToThisNode d.id ::
      (if env.nodeDescUpdateOnReception then [.nodeDescriptionSend] else []) ++ t.publishNow env)
  refine ⟨r, hr, hleaves, ?_⟩
  simp [DataEvent.putsIn, hcontrol, hnode, hin]

theorem onVerifiedDataObject_spec (env : Surroundings) (h : m.Exactly sha1 ids) {d : Copy}
    (hid : d.id ∈ ids)
    (hblind : d.signatureStatus = .invalid → d.id ∈ contents m.log) :
    ∃ r, m.onVerifiedDataObject sha1 env d = some r ∧
      m.Leaves sha1 ids (DataEvent.verified d).takesOut r.1 := by
  have hlisted : (m.listReceived d.id).Exactly sha1 ids := h
  unfold onVerifiedDataObject DataEvent.takesOut Copy.rejected
  by_cases hsig : d.signatureStatus = .invalid
  · obtain ⟨t, ht, hleaves⟩ := apply_remove_spec hlisted (hblind hsig)
    simp only [hsig, if_true, decide_true, Bool.true_or]
    rw [ht]
    exact ⟨_, rfl, hleaves.exactly, hleaves.kept, hleaves.gone⟩
  by_cases hbad : d.dataState = .verifiedBad
  · obtain ⟨r, hr, hleaves⟩ := removeIf_spec hlisted hid publish
    simp only [hsig, hbad, if_false, if_true, decide_true, Bool.or_true]
    exact ⟨r, hr, hleaves.exactly, hleaves.kept, hleaves.gone⟩
  simp only [hsig, hbad, if_false, decide_false, Bool.or_false, Bool.false_eq_true]
  by_cases hwait : d.dataState = .notVerified ∧ env.helper = true ∧ d.dataIsVerifiable = true
  · rw [if_pos hwait]
    exact ⟨_, rfl, hlisted.leaves.exactly, hlisted.leaves.kept, hlisted.leaves.gone⟩
  · rw [if_neg hwait]
    obtain ⟨r, hr, hleaves⟩ := handleVerifiedDataObject_spec env hlisted hid
    exact ⟨r, hr, hleaves.exactly, hleaves.kept, hleaves.gone⟩

/-- **What an event does to an exact filter**, if what it takes out without a look is there. -/
theorem handle_spec (env : Surroundings) (h : m.Exactly sha1 ids) (e : DataEvent)
    (hids : ∀ id ∈ e.ids, id ∈ ids)
    (hblind : ∀ id ∈ e.blind, id ∈ contents m.log) :
    ∃ r, m.handle sha1 env e = some r ∧ m.Leaves sha1 ids e.takesOut r.1 ∧
      ∀ id ∈ e.putsIn, id ∈ contents r.1.log := by
  -- only an incoming object puts an id in
  have hnone : ∀ t : DataManager, ∀ id ∈ ([] : List Key), id ∈ contents t.log :=
    fun _ _ hid => absurd hid List.not_mem_nil
  cases e with
  | incoming d => exact onIncomingDataObject_spec env h (hids _ (List.mem_singleton.mpr rfl))
  | verified d =>
      obtain ⟨r, hr, hleaves⟩ := onVerifiedDataObject_spec env h
        (hids _ (List.mem_singleton.mpr rfl))
        (fun hsig => hblind d.id (by simp [DataEvent.blind, hsig]))
      exact ⟨r, hr, hleaves, hnone _⟩
  | taskComplete d completed =>
      rw [handle, onDataTaskComplete]
      cases completed with
      | false => exact ⟨_, rfl, h.leaves, hnone _⟩
      | true =>
          obtain ⟨r, hr, hleaves⟩ := handleVerifiedDataObject_spec env h
            (hids _ (List.mem_singleton.mpr rfl))
          exact ⟨r, hr, hleaves, hnone _⟩
  | deleted ds keep =>
      rw [handle, onDeletedDataObject]
      cases keep with
      | true =>
          obtain ⟨r, hr, hsame⟩ := deletedLoop_keep sha1 env ds m 0 []
          rw [hr, Option.map_some]
          refine ⟨_, rfl, ?_, hnone _⟩
          split
          · exact hsame.symm ▸ h.leaves
          · exact hsame.symm ▸ h.leaves
      | false =>
          obtain ⟨r, hr, hleaves, -⟩ := deletedLoop_spec env ds m 0 [] h
            (fun d hd => hids _ (List.mem_map_of_mem hd))
          rw [hr, Option.map_some]
          refine ⟨_, rfl, ?_, hnone _⟩
          split
          · exact hleaves
          · exact hleaves
  | removed id =>
      obtain ⟨t, ht, hleaves⟩ := apply_remove_spec h (hblind id (List.mem_singleton.mpr rfl))
      rw [handle, removeFromLocalBF, ht]
      exact ⟨_, rfl, hleaves, hnone _⟩

/-- An id taken out without a look is logged as removed. -/
theorem handle_blind {env : Surroundings} {e : DataEvent} {r : DataManager × List Reaction}
    (hr : m.handle sha1 env e = some r) (hid : id ∈ e.blind) :
    r.1.log = m.log ++ [.remove id] := by
  cases e with
  | incoming d => exact absurd hid List.not_mem_nil
  | taskComplete d completed => exact absurd hid List.not_mem_nil
  | deleted ds keep => exact absurd hid List.not_mem_nil
  | verified d =>
      rw [DataEvent.blind] at hid
      by_cases hsig : d.signatureStatus = .invalid
      · rw [if_pos hsig, List.mem_singleton] at hid
        rw [handle, onVerifiedDataObject] at hr
        simp only [hsig, if_true, apply, Option.map_map] at hr
        obtain ⟨bf', -, rfl⟩ := Option.map_eq_some_iff.mp hr
        rw [hid]
        rfl
      · rw [if_neg hsig] at hid
        exact absurd hid List.not_mem_nil
  | removed other =>
      rw [handle, removeFromLocalBF, apply, Option.map_map] at hr
      obtain ⟨bf', -, rfl⟩ := Option.map_eq_some_iff.mp hr
      rw [List.mem_singleton.mp hid]
      rfl

end DataManager

/-! ## One event and whole runs -/

/-- The receptions that stand after an event stood before, or the event puts their id in. -/
theorem standingAfter_mem {env : Surroundings} {rs : List Reception} {e : DataEvent}
    {r : Reception} (hr : r ∈ standingAfter env rs e) :
    (∃ old ∈ rs, old.id = r.id) ∨ r.id ∈ e.putsIn := by
  -- no reception changes its id, so whatever filters or marks them brings in none
  have hpass : ∀ d : Copy, r ∈ rs.map (Reception.pass d) → ∃ old ∈ rs, old.id = r.id := by
    intro d hmem
    obtain ⟨old, hold, rfl⟩ := List.mem_map.mp hmem
    refine ⟨old, hold, ?_⟩
    unfold Reception.pass
    split <;> rfl
  have hforget : ∀ (ds : List Copy) (rs : List Reception), r ∈ ds.foldl Reception.delete rs →
      r ∈ rs := by
    intro ds
    induction ds with
    | nil => exact fun rs h => h
    | cons d ds ih =>
        intro rs h
        have hstep := ih _ h
        unfold Reception.delete Reception.reject Reception.forget at hstep
        split at hstep
        · exact List.mem_of_mem_filter hstep
        · exact List.mem_of_mem_filter hstep
  cases e with
  | incoming d =>
      rw [standingAfter] at hr
      rw [DataEvent.putsIn]
      split at hr
      · exact Or.inl ⟨r, hr, rfl⟩
      · next hmeant =>
          rw [if_neg hmeant]
          rcases List.mem_append.mp hr with hr | hr
          · exact Or.inl ⟨r, hr, rfl⟩
          · exact Or.inr (List.mem_singleton.mpr (congrArg Reception.id (List.mem_singleton.mp hr)))
  | verified d =>
      rw [standingAfter] at hr
      left
      split at hr
      · exact ⟨r, List.mem_of_mem_filter hr, rfl⟩
      · split at hr
        · exact ⟨r, hr, rfl⟩
        · exact hpass d hr
  | taskComplete d completed =>
      cases completed with
      | false => exact Or.inl ⟨r, hr, rfl⟩
      | true => exact Or.inl (hpass d hr)
  | deleted ds keep =>
      cases keep with
      | true => exact Or.inl ⟨r, hr, rfl⟩
      | false => exact Or.inl ⟨r, hforget ds rs hr, rfl⟩
  | removed id => exact Or.inl ⟨r, List.mem_of_mem_filter hr, rfl⟩

namespace Tracked

/-- The filter is exact, and what stands is in it. -/
structure Inv (sha1 : Digest) (ids : List Key) (w : Tracked) : Prop where
  exactly : w.manager.Exactly sha1 ids
  held : ∀ r ∈ w.standing, r.id ∈ contents w.manager.log

variable {sha1 : Digest} {ids : List Key} {w : Tracked} {op : Surroundings × DataEvent}

theorem Inv.sound (h : w.Inv sha1 ids) : w.Sound sha1 where
  ledger := h.exactly.count_le
  held := by
    intro r hr
    have hin := h.held r hr
    rw [h.exactly.has (h.exactly.known _ hin)]
    exact congrArg some (decide_eq_true hin)

/-- With an exact filter soundness is what the invariant says. -/
theorem Sound.inv (h : w.Sound sha1) (hexact : w.manager.Exactly sha1 ids)
    (hids : ∀ r ∈ w.standing, r.id ∈ ids) : w.Inv sha1 ids where
  exactly := hexact
  held := by
    intro r hr
    have hhas := h.held r hr
    rw [hexact.has (hids r hr), Option.some.injEq] at hhas
    exact of_decide_eq_true hhas

/-- A fitting event is handled, and the invariant is kept. -/
theorem Inv.fitting (h : w.Inv sha1 ids) (hids : ∀ id ∈ op.2.ids, id ∈ ids)
    (hfits : w.Fits sha1 op) : ∃ w', w.step sha1 op = some w' ∧ w'.Inv sha1 ids := by
  have hblind : ∀ id ∈ op.2.blind, id ∈ contents w.manager.log := by
    intro id hid
    have hhas := hfits.1 id hid
    by_cases hknown : id ∈ ids
    · rw [h.exactly.has hknown, Option.some.injEq] at hhas
      exact of_decide_eq_true hhas
    · exact absurd (hids id (DataEvent.blind_mem hid)) hknown
  obtain ⟨r, hr, hleaves, hputs⟩ := DataManager.handle_spec op.1 h.exactly op.2 hids hblind
  refine ⟨_, by rw [step, hr]; rfl, hleaves.exactly, ?_⟩
  intro rec hrec
  rcases standingAfter_mem hrec with ⟨old, hold, hsame⟩ | hput
  · refine hleaves.kept rec.id (hsame ▸ h.held old hold) ?_
    exact fun hout => hfits.2 rec.id hout rec hrec rfl
  · exact hputs rec.id hput

/-- An event that leaves a sound state was fitting. -/
theorem Inv.fits_of_sound (h : w.Inv sha1 ids) (hids : ∀ id ∈ op.2.ids, id ∈ ids) {w' : Tracked}
    (hstep : w.step sha1 op = some w') (hsound : w'.Sound sha1) : w.Fits sha1 op := by
  obtain ⟨r, hr, rfl⟩ := Option.map_eq_some_iff.mp hstep
  -- removing an id that is not there makes its removals outnumber its insertions
  have hblind : ∀ id ∈ op.2.blind, id ∈ contents w.manager.log := by
    intro id hid
    by_contra hout
    have hmore := h.exactly.count_lt hout
    have hle := hsound.ledger id
    rw [← DataManager.handle_blind hr hid] at hmore
    exact Nat.lt_irrefl _ (Nat.lt_of_lt_of_le hmore hle)
  obtain ⟨r', hr', hleaves, hputs⟩ := DataManager.handle_spec op.1 h.exactly op.2 hids hblind
  obtain rfl : r = r' := Option.some.inj (hr.symm.trans hr')
  have hstand : ∀ rec ∈ standingAfter op.1 w.standing op.2, rec.id ∈ ids := by
    intro rec hrec
    rcases standingAfter_mem hrec with ⟨old, hold, hsame⟩ | hput
    · exact hsame ▸ h.exactly.known _ (h.held old hold)
    · exact hids _ (DataEvent.putsIn_mem hput)
  have hinv := hsound.inv hleaves.exactly hstand
  refine ⟨?_, ?_⟩
  · intro id hid
    rw [h.exactly.has (hids id (DataEvent.blind_mem hid))]
    exact congrArg some (decide_eq_true (hblind id hid))
  · intro id hout rec hrec heq
    exact hleaves.gone id hout (heq ▸ hinv.held rec hrec)

/--
**The filter of the data manager tracks the receptions.** Suppose the hashes of the ids in
play do not collide. A run never removes an id more often than it added it, and keeps the id
of every accepted reception that was neither rejected nor deleted, in every state it reaches,
exactly when every id that is taken out without a look is there, and no id is taken out while
another accepted reception of it stands.
-/
theorem filter_tracks_receptions_iff (sha1 : Digest) (bf : CountingBloomfilter)
    (hfresh : bf.Fresh) (ops : List (Surroundings × DataEvent))
    (hfree : NoCollision sha1 bf.m bf.salts.toList (ops.flatMap (fun op => op.2.ids))) :
    (∀ pre post, ops = pre ++ post →
        ∃ w, run (step sha1) (start bf) pre = some w ∧ w.Sound sha1) ↔
      Guarded (step sha1) (Fits sha1) (start bf) ops := by
  have hstart : (start bf).Inv sha1 (ops.flatMap (fun op => op.2.ids)) :=
    ⟨Exact.init hfresh hfree, fun r hr => absurd hr List.not_mem_nil⟩
  have hids : ∀ op ∈ ops, ∀ id ∈ op.2.ids, id ∈ ops.flatMap (fun op => op.2.ids) :=
    fun op hop id hid => List.mem_flatMap.mpr ⟨op, hop, hid⟩
  exact run_wanted_iff (fun w h => h.sound) (fun w op h hop hfits => h.fitting hop hfits)
    (fun w op w' h hop hstep hsound => h.fits_of_sound hop hstep hsound) ops (start bf) hstart hids

end Tracked

/-! ## A run that works and one that does not -/

/-- A digest that sends a key to the bin of its first byte. -/
def firstByteDigest : Digest := fun bytes => #v[(bytes.headD 0).toUInt32, 0, 0, 0, 0]

/-- One hash function, eight bins, nothing in them. -/
def emptyBF : CountingBloomfilter := ⟨1, 8, 0, Vector.replicate 1 0, Vector.replicate 8 0⟩

/-- A peer is known, and nothing else goes on. -/
def quiet : Surroundings where
  peer := fun _ => some 7
  updateIsScheduled := true
  nodeDescUpdateOnReception := false
  helper := true
  keptAsBlock := fun _ => false
  keptAsFragment := fun _ => false
  cacheStrategy := fun _ => false

/-- A copy of a data object without data. -/
def plainCopy (num : Nat) (id : Key) (status : SignatureStatus) : Copy where
  num := num
  id := id
  isControlMessage := false
  isNodeDescription := false
  signatureStatus := status
  dataState := .noData
  abeStatus := .notNeeded
  isDuplicate := false
  isPersistent := true

instance (sha1 : Digest) (w : Tracked) (op : Surroundings × DataEvent) :
    Decidable (w.Fits sha1 op) :=
  @instDecidableAnd _ _ (List.decidableBAll _ _)
    (@List.decidableBAll _ _ (fun _ => List.decidableBAll _ _) _)

/-- One object is received twice and kept, another is received and deleted. -/
def keptRun : List (Surroundings × DataEvent) :=
  [(quiet, .incoming (plainCopy 1 [1] .valid)), (quiet, .verified (plainCopy 1 [1] .valid)),
    (quiet, .incoming (plainCopy 2 [2] .valid)), (quiet, .incoming (plainCopy 3 [1] .valid)),
    (quiet, .deleted [plainCopy 2 [2] .valid] false),
    (quiet, .verified (plainCopy 3 [1] .valid))]

theorem filter_tracks_receptions_kept :
    ∃ w, run (Tracked.step firstByteDigest) (Tracked.start emptyBF) keptRun = some w ∧
      w.Sound firstByteDigest :=
  (Tracked.filter_tracks_receptions_iff firstByteDigest emptyBF (by decide) keptRun
    ⟨by decide, by decide +kernel, by decide +kernel, by decide +kernel⟩).mpr
      (by decide +kernel) keptRun [] (List.append_nil _).symm

/-- An object is received and verified, then a copy of it comes with a bad signature. -/
def forgedRun : List (Surroundings × DataEvent) :=
  [(quiet, .incoming (plainCopy 1 [1] .valid)), (quiet, .verified (plainCopy 1 [1] .valid)),
    (quiet, .incoming (plainCopy 2 [1] .unverified)),
    (quiet, .verified (plainCopy 2 [1] .invalid))]

/-- The bad copy takes the id of the good one out of the filter. -/
theorem forged_copy_clears_filter :
    ¬ ∀ pre post, forgedRun = pre ++ post →
      ∃ w, run (Tracked.step firstByteDigest) (Tracked.start emptyBF) pre = some w ∧
        w.Sound firstByteDigest := by
  intro hall
  obtain ⟨w, hw, hsound⟩ := hall forgedRun [] (List.append_nil _).symm
  have hend : (run (Tracked.step firstByteDigest) (Tracked.start emptyBF) forgedRun).map
      (fun w => (w.standing, w.manager.has firstByteDigest [1])) =
        some ([⟨1, [1], true⟩], some false) := by
    decide +kernel
  rw [hw, Option.map_some, Option.some.injEq, Prod.mk.injEq] at hend
  have hheld := hsound.held ⟨1, [1], true⟩ (hend.1 ▸ List.mem_singleton.mpr rfl)
  rw [hend.2] at hheld
  cases hheld

end Encoders.Kernel
