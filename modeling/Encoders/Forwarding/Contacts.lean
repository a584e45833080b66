import Encoders.Nodes.Unique

/-!
# Contacts

How `ForwardingManager` tells its forwarding module and the data store of a contact.

A new contact is not acted on at once, since a node description may be on its way: the node
goes into `pendingQueryList` and a callback is scheduled for five seconds later. An update of
the node takes the entry out again and does the query itself; the end of the contact takes
the entry out and does none. The callback cannot be taken back. It queries only for a node it
finds in the list, but it tells the forwarding module of a new neighbour either way.

So a contact that ends before its callback fires leaves a module that believes in it. And a
contact announced twice has two entries, of which its end removes one.
-/

namespace Encoders.Forwarding

open Encoders.Lib Encoders.Nodes

/-! ## What the handlers read -/

/-- `Node::Id_t` -/
abbrev NodeId := Vector UInt8 20

/-- The settings that the handlers of contacts read. -/
structure ContactConfig where
  enableTargetGeneration : Bool
  enableMultihopBloomfilters : Bool
  recursiveRoutingUpdates : Bool

/-- What a handler finds when its event arrives. -/
structure Moment where
  /-- `getState() <= MANAGER_STATE_RUNNING` -/
  running : Bool
  /-- There is a forwarding module. -/
  forwardingModule : Bool
  /-- `node->isNeighbor()`, for the node of the event. -/
  isNeighbor : Bool
  /-- What `probabilisticLoadReduction` returns. -/
  loadReduction : Bool

/-- What a handler asks of others. -/
inductive ContactCall where
  | newNeighbor (node : Node)
  | newNeighborNodeDescription (node : Node)
  | endNeighbor (node : Node)
  | generateRoutingInformationDataObject (node : Node)
  | generateTargetsFor (node : Node)
  | forwardNodeDescriptions (node : Node)
  | doDataObjectQuery (node : Node)
  | cancelDataObjectQueries (node : Node)
  | recursiveRoutingUpdate (node : Node)

/-- The manager: nodes it has yet to query for, and the nodes of the callbacks under way. -/
structure Contacts where
  pendingQueryList : List Node
  scheduled : List Node

/-! ## The handlers -/

/-- The loops over `pendingQueryList`: is there an entry of the node? -/
def Contacts.isPending (s : Contacts) (node : Node) : Bool :=
  s.pendingQueryList.any (fun p => node.eqNode p)

/-- The first entry of the node goes. -/
def Contacts.erasePending (s : Contacts) (node : Node) : Contacts :=
  { s with pendingQueryList := s.pendingQueryList.eraseP (fun p => node.eqNode p) }

/-- `findMatchingDataObjectsAndTargets` -/
def findMatchingDataObjectsAndTargets (c : ContactConfig) (m : Moment) (node : Node) :
    List ContactCall :=
  if node.type = .undefined then []
  else
    (if c.enableTargetGeneration && m.isNeighbor && m.forwardingModule then
      [.generateTargetsFor node] else []) ++ [.doDataObjectQuery node]

/-- `onNewNeighbor` -/
def onNewNeighbor (m : Moment) (node : Node) (s : Contacts) : Contacts × List ContactCall :=
  if m.running = false then (s, [])
  else if node.type = .undefined then (s, [])
  else
    -- the same node may be pushed again and again
    ({ pendingQueryList := s.pendingQueryList ++ [node], scheduled := s.scheduled ++ [node] },
      if m.forwardingModule then [.generateRoutingInformationDataObject node] else [])

/-- `onDelayedDataObjectQuery`, for the callback at place `k` of those under way. -/
def onDelayedDataObjectQuery (c : ContactConfig) (m : Moment) (k : Nat) (s : Contacts) :
    Contacts × List ContactCall :=
  match s.scheduled[k]? with
  | none => (s, [])
  | some node =>
      let s' := { s with scheduled := s.scheduled.eraseIdx k }
      if m.running = false then (s', [])
      else
        (if s.isPending node then s'.erasePending node else s',
          (if s.isPending node then
            (if c.enableMultihopBloomfilters then [.forwardNodeDescriptions node] else []) ++
              findMatchingDataObjectsAndTargets c m node else []) ++
          -- whether or not the node was found in the list
          (if m.forwardingModule then [.newNeighbor node] else []))

/-- `onEndNeighbor` -/
def onEndNeighbor (c : ContactConfig) (m : Moment) (node : Node) (s : Contacts) :
    Contacts × List ContactCall :=
  if node.type = .undefined then (s, [])
  else
    (s.erasePending node,
      (if m.forwardingModule then [.endNeighbor node] else []) ++
        [.cancelDataObjectQueries node] ++
        (if c.recursiveRoutingUpdates then [.recursiveRoutingUpdate node] else []))

/-- The loop of `onNodeUpdated` over the replaced nodes, and `forwardNodeDesc` after it. -/
def announceReplaced (m : Moment) (node : Node) : List Node → List ContactCall × Bool
  | [] => ([], false)
  | q :: replaced =>
      if q.type = .undefined ∧ m.isNeighbor = true then
        (if m.forwardingModule then
          [.newNeighbor node, .generateRoutingInformationDataObject node] else [], true)
      else if m.isNeighbor = true then
        (if m.forwardingModule then [.newNeighborNodeDescription node] else [], true)
      else announceReplaced m node replaced

/-- `onNodeUpdated` -/
def onNodeUpdated (c : ContactConfig) (m : Moment) (node : Node) (replaced : List Node)
    (s : Contacts) : Contacts × List ContactCall :=
  if m.running = false then (s, [])
  else if node.type = .undefined then (s, [])
  else
    let (calls, forwardNodeDesc) := announceReplaced m node replaced
    (s.erasePending node,
      calls ++
        (if c.enableMultihopBloomfilters && (forwardNodeDesc || s.isPending node) then
          [.forwardNodeDescriptions node] else []) ++
        (if m.loadReduction then [] else findMatchingDataObjectsAndTargets c m node))

/-! ## Events -/

/-- What the manager handles, in any order. -/
inductive ContactEvent where
  | newContact (m : Moment) (node : Node)
  | nodeUpdated (m : Moment) (node : Node) (replaced : List Node)
  | endContact (m : Moment) (node : Node)
  | delayedDataObjectQuery (m : Moment) (k : Nat)

/-- An event, handled. -/
def handleContact (c : ContactConfig) (s : Contacts) :
    ContactEvent → Contacts × List ContactCall
  | .newContact m node => onNewNeighbor m node s
  | .nodeUpdated m node replaced => onNodeUpdated c m node replaced s
  | .endContact m node => onEndNeighbor c m node s
  | .delayedDataObjectQuery m k => onDelayedDataObjectQuery c m k s

/-! ## Lost neighbours -/

/-- Whose contact has ended, and not begun again since. Only defined nodes have an id. -/
def noteLost (lost : NodeId → Bool) : ContactEvent → NodeId → Bool
  | .newContact _ node | .nodeUpdated _ node _ =>
      if node.type = .undefined then lost else Function.update lost node.id false
  | .endContact _ node =>
      if node.type = .undefined then lost else Function.update lost node.id true
  | .delayedDataObjectQuery _ _ => lost

/-- The node that a call treats as one in contact. -/
def ContactCall.announces : ContactCall → Option NodeId
  | .newNeighbor node | .doDataObjectQuery node => some node.id
  | _ => none

/-- The manager, who is lost, and what was asked for at the last event. -/
structure ContactWorld where
  manager : Contacts
  lost : NodeId → Bool
  calls : List ContactCall

namespace ContactWorld

/-- Before the first event. -/
def init : ContactWorld := ⟨⟨[], []⟩, fun _ => false, []⟩

def step (c : ContactConfig) (w : ContactWorld) (ev : ContactEvent) : ContactWorld where
  manager := (handleContact c w.manager ev).1
  lost := noteLost w.lost ev
  calls := (handleContact c w.manager ev).2

/-- No lost neighbour is announced to the module or queried for. -/
def Quiet (w : ContactWorld) : Prop :=
  ∀ call ∈ w.calls, ∀ id ∈ call.announces, w.lost id = false

end ContactWorld

variable {c : ContactConfig} {m : Moment} {node : Node} {call : ContactCall} {s : Contacts}
variable {id : NodeId}

/--
A callback that the manager acts on is not for a lost node, or there is neither a module to
tell nor an entry left to query for.
-/
def InTime (w : ContactWorld) : ContactEvent → Prop
  | .delayedDataObjectQuery m k => m.running = true →
      ∀ node ∈ w.manager.scheduled[k]?, w.lost node.id = true →
        m.forwardingModule = false ∧ w.manager.isPending node = false
  | _ => True

/-- Callbacks are scheduled for defined nodes only. -/
def Contacts.Defined (s : Contacts) : Prop := ∀ node ∈ s.scheduled, node.type ≠ .undefined

/-! ## What each handler announces -/

theorem findMatching_announces (hcall : call ∈ findMatchingDataObjectsAndTargets c m node)
    (hid : id ∈ call.announces) : id = node.id := by
  unfold findMatchingDataObjectsAndTargets at hcall
  split at hcall
  · cases hcall
  · rcases List.mem_append.mp hcall with htargets | hquery
    · split at htargets
      · rw [List.mem_singleton.mp htargets] at hid
        cases hid
      · cases htargets
    · rw [List.mem_singleton.mp hquery] at hid
      exact (Option.some.inj hid).symm

theorem query_mem_findMatching (h : node.type ≠ .undefined) :
    .doDataObjectQuery node ∈ findMatchingDataObjectsAndTargets c m node := by
  unfold findMatchingDataObjectsAndTargets
  rw [if_neg h]
  exact List.mem_append_right _ List.mem_cons_self

/-- A new contact is announced to nobody yet. -/
theorem onNewNeighbor_announces (hcall : call ∈ (onNewNeighbor m node s).2) :
    call.announces = none := by
  unfold onNewNeighbor at hcall
  split at hcall
  · cases hcall
  · split at hcall
    · cases hcall
    · dsimp only at hcall
      split at hcall
      · rw [List.mem_singleton.mp hcall]
        rfl
      · cases hcall

/-- The end of a contact announces nobody. -/
theorem onEndNeighbor_announces (hcall : call ∈ (onEndNeighbor c m node s).2) :
    call.announces = none := by
  unfold onEndNeighbor at hcall
  split at hcall
  · cases hcall
  · rcases List.mem_append.mp hcall with hcall | hrecursive
    · rcases List.mem_append.mp hcall with hend | hcancel
      · split at hend
        · rw [List.mem_singleton.mp hend]
          rfl
        · cases hend
      · rw [List.mem_singleton.mp hcancel]
        rfl
    · split at hrecursive
      · rw [List.mem_singleton.mp hrecursive]
        rfl
      · cases hrecursive

theorem announceReplaced_announces (hid : id ∈ call.announces) :
    ∀ replaced : List Node,
    call ∈ (announceReplaced m node replaced).1 → id = node.id := by
  intro replaced
  induction replaced with
  | nil =>
      intro hcall
      cases hcall
  | cons q replaced ih =>
      intro hcall
      unfold announceReplaced at hcall
      split at hcall
      · dsimp only at hcall
        split at hcall
        · rcases List.mem_cons.mp hcall with rfl | hrouting
          · exact (Option.some.inj hid).symm
          · rw [List.mem_singleton.mp hrouting] at hid
            cases hid
        · cases hcall
      · split at hcall
        · dsimp only at hcall
          split at hcall
          · rw [List.mem_singleton.mp hcall] at hid
            cases hid
          · cases hcall
        · exact ih hcall

/-- An update announces the updated node, which is defined. -/
theorem onNodeUpdated_announces {replaced : List Node}
    (hcall : call ∈ (onNodeUpdated c m node replaced s).2) (hid : id ∈ call.announces) :
    node.type ≠ .undefined ∧ id = node.id := by
  unfold onNodeUpdated at hcall
  split at hcall
  · cases hcall
  · split at hcall
    · cases hcall
    · rename_i hdef
      refine ⟨hdef, ?_⟩
      rcases List.mem_append.mp hcall with hcall | hquery
      · rcases List.mem_append.mp hcall with hannounce | hforward
        · exact announceReplaced_announces hid replaced hannounce
        · split at hforward
          · rw [List.mem_singleton.mp hforward] at hid
            cases hid
          · cases hforward
      · split at hquery
        · cases hquery
        · exact findMatching_announces hquery hid

/--
**The callback announces its node whenever it can**: to the module if there is one, and in a
query if there is an entry left.
-/
theorem onDelayed_announces_iff {k : Nat} (hdef : s.Defined) (id : NodeId) :
    (∃ call ∈ (onDelayedDataObjectQuery c m k s).2, id ∈ call.announces) ↔
      m.running = true ∧ ∃ node ∈ s.scheduled[k]?, node.id = id ∧
        (m.forwardingModule = true ∨ s.isPending node = true) := by
  unfold onDelayedDataObjectQuery
  cases hk : s.scheduled[k]? with
  | none =>
      refine iff_of_false ?_ ?_
      · intro ⟨call, hcall, _⟩
        cases hcall
      · intro ⟨_, node, hnode, _⟩
        cases hnode
  | some node =>
      dsimp only
      by_cases hrun : m.running = false
      · rw [if_pos hrun]
        refine iff_of_false ?_ ?_
        · intro ⟨call, hcall, _⟩
          cases hcall
        · intro ⟨h, _⟩
          rw [hrun] at h
          cases h
      · rw [if_neg hrun]
        constructor
        -- a forwarding call announces nobody; the query and the module announce the node
        · intro ⟨call, hcall, hid⟩
          refine ⟨by simpa using hrun, node, rfl, ?_⟩
          rcases List.mem_append.mp hcall with hpending | hmodule
          · split at hpending
            · rename_i hp
              rcases List.mem_append.mp hpending with hforward | hquery
              · split at hforward
                · rw [List.mem_singleton.mp hforward] at hid
                  cases hid
                · cases hforward
              · exact ⟨(findMatching_announces hquery hid).symm, Or.inr hp⟩
            · cases hpending
          · split at hmodule
            · rename_i hm
              rw [List.mem_singleton.mp hmodule] at hid
              exact ⟨Option.some.inj hid, Or.inl hm⟩
            · cases hmodule
        · intro ⟨_, node', hnode', hid, hor⟩
          obtain rfl := Option.some.inj hnode'
          rcases hor with hm | hp
          · refine ⟨.newNeighbor node, List.mem_append_right _ ?_, congrArg some hid⟩
            rw [if_pos hm]
            exact List.mem_cons_self
          · refine ⟨.doDataObjectQuery node, List.mem_append_left _ ?_, congrArg some hid⟩
            rw [if_pos hp]
            exact List.mem_append_right _
              (query_mem_findMatching (hdef node (List.mem_of_getElem? hk)))

/-! ## Steps -/

theorem Contacts.Defined.erasePending (h : s.Defined) (node : Node) :
    (s.erasePending node).Defined := h

theorem Contacts.Defined.handle (h : s.Defined) (c : ContactConfig) (ev : ContactEvent) :
    (handleContact c s ev).1.Defined := by
  cases ev with
  | newContact m node =>
      dsimp only [handleContact]
      unfold onNewNeighbor
      split
      · exact h
      · split
        · exact h
        · -- the guard of `onNewNeighbor` keeps undefined nodes out
          rename_i hdef
          intro n hn
          rcases List.mem_append.mp hn with hold | hnew
          · exact h n hold
          · rw [List.mem_singleton.mp hnew]
            exact hdef
  | nodeUpdated m node replaced =>
      dsimp only [handleContact]
      unfold onNodeUpdated
      split
      · exact h
      · split
        · exact h
        · exact h.erasePending node
  | endContact m node =>
      dsimp only [handleContact]
      unfold onEndNeighbor
      split
      · exact h
      · exact h.erasePending node
  | delayedDataObjectQuery m k =>
      dsimp only [handleContact]
      unfold onDelayedDataObjectQuery
      cases s.scheduled[k]? with
      | none => exact h
      | some node =>
          -- what is scheduled was a neighbour when it was put there
          have hleft : ({ s with scheduled := s.scheduled.eraseIdx k } : Contacts).Defined :=
            fun n hn => h n (List.mem_of_mem_eraseIdx hn)
          dsimp only
          split
          · exact hleft
          · split
            · exact hleft.erasePending node
            · exact hleft

/-- **One event is quiet exactly if it comes in time.** -/
theorem quiet_step_iff {w : ContactWorld} (hdef : w.manager.Defined) (c : ContactConfig)
    (ev : ContactEvent) : (w.step c ev).Quiet ↔ InTime w ev := by
  cases ev with
  | newContact m node =>
      refine iff_of_true (fun call hcall id hid => ?_) trivial
      rw [onNewNeighbor_announces hcall] at hid
      cases hid
  | nodeUpdated m node replaced =>
      refine iff_of_true (fun call hcall id hid => ?_) trivial
      obtain ⟨hnode, rfl⟩ := onNodeUpdated_announces hcall hid
      -- the event itself says that the node is back
      dsimp only [ContactWorld.step, noteLost]
      rw [if_neg hnode, Function.update_self]
  | endContact m node =>
      refine iff_of_true (fun call hcall id hid => ?_) trivial
      rw [onEndNeighbor_announces hcall] at hid
      cases hid
  | delayedDataObjectQuery m k =>
      constructor
      · intro hquiet hrun node hnode hlost
        -- an announcement would be one of a lost node
        have hnone : ¬ (m.forwardingModule = true ∨ w.manager.isPending node = true) := by
          intro hor
          obtain ⟨call, hcall, hid⟩ :=
            (onDelayed_announces_iff (c := c) hdef node.id).mpr ⟨hrun, node, hnode, rfl, hor⟩
          have hback : w.lost node.id = false := hquiet call hcall node.id hid
          rw [hlost] at hback
          cases hback
        rw [not_or, Bool.not_eq_true, Bool.not_eq_true] at hnone
        exact hnone
      · intro htime call hcall id hid
        obtain ⟨hrun, node, hnode, rfl, hor⟩ :=
          (onDelayed_announces_iff hdef id).mp ⟨call, hcall, hid⟩
        cases hlost : w.lost node.id with
        | false => exact hlost
        | true =>
            obtain ⟨hmodule, hpending⟩ := htime hrun node hnode hlost
            rcases hor with h | h
            · rw [hmodule] at h
              cases h
            · rw [hpending] at h
              cases h

/-! ## Runs -/

/--
**No lost neighbour is announced or queried for exactly if every callback comes in time.** The
events and callbacks come in any order, each at any moment and with any replaced nodes.
-/
theorem lost_neighbors_quiet_iff (c : ContactConfig) (evs : List ContactEvent) :
    (∀ pre post, evs = pre ++ post → (pre.foldl (ContactWorld.step c) ContactWorld.init).Quiet) ↔
      Guarded (fun w ev => some (ContactWorld.step c w ev)) InTime ContactWorld.init evs := by
  refine @foldl_wanted_iff ContactWorld ContactEvent (ContactWorld.step c) InTime
    (fun w => w.manager.Defined ∧ w.Quiet) ContactWorld.Quiet (fun w h => h.2) ?_ ?_ evs _ ?_
  · intro w ev h htime
    exact ⟨h.1.handle c ev, (quiet_step_iff h.1 c ev).mpr htime⟩
  · intro w ev h hquiet
    exact (quiet_step_iff h.1 c ev).mp hquiet
  · exact ⟨fun n hn => (by cases hn), fun call hcall => (by cases hcall)⟩

/-! ### A contact shorter than the delay -/

/-- The manager runs, with a module, and the node is a neighbour. -/
def inContact : Moment := ⟨true, true, true, false⟩

def plainConfig : ContactConfig := ⟨true, false, true⟩

/-- A peer comes and goes, and then its callback fires. -/
def shortContact : List ContactEvent :=
  [.newContact inContact (NodeStore.nodeOn .peer 1 1 true),
    .endContact inContact (NodeStore.nodeOn .peer 1 1 false),
    .delayedDataObjectQuery inContact 0]

/-- The module is told of a new neighbour that is gone. -/
theorem short_contact_announced :
    ¬ ∀ (c : ContactConfig) (evs pre post : List ContactEvent), evs = pre ++ post →
      (pre.foldl (ContactWorld.step c) ContactWorld.init).Quiet := by
  intro hall
  have hquiet := hall plainConfig shortContact shortContact [] (List.append_nil _).symm
  have hfalse : (shortContact.foldl (ContactWorld.step plainConfig) ContactWorld.init).lost
      (Vector.replicate 20 1) = false :=
    hquiet (.newNeighbor (NodeStore.nodeOn .peer 1 1 true)) List.mem_cons_self _ rfl
  have htrue : (shortContact.foldl (ContactWorld.step plainConfig) ContactWorld.init).lost
      (Vector.replicate 20 1) = true := by decide
  rw [hfalse] at htrue
  cases htrue

end Encoders.Forwarding
