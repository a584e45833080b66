import Mathlib.Data.Set.Basic
import Encoders.Lib.Run
import Encoders.Replication.ManagerUtility

/-!
# Whether tokens leak

A `Ledger` is kept beside the manager: the sends it started whose outcome has not been notified.
The tokens held are those of the ledger as long as every outcome of a send that holds one comes
while its node is available, and no fragment or block of an object is sent to a node while only
the object itself holds a token for it.
-/

namespace Encoders.Replication

open Encoders.Lib Encoders.Data Encoders.Store

/-! ## The ledger -/

/-- A send: a node and an object. -/
abbrev Send := CString × CString

/-- The sends without a notified outcome, and what the last notification concluded and started. -/
structure Ledger where
  pending : Set Send
  concluded : Set Send
  started : Set Send

namespace ReplicationManagerUtility

variable {nodeId : CString} {w : ReplicationManagerUtility × Ledger}

/-- The sends whose outcome a notification is: that of the object, and of its parent. -/
def outcomes : Notification → Set Send
  | .sendSuccess dObj node => {(node.id, dObj.id), (node.id, dObj.getIdOrParentId)}
  | .sendFailure dObj node => {(node.id, dObj.id), (node.id, dObj.getIdOrParentId)}
  | _ => ∅

/-- The sends that a step added. -/
def startedSends (s s' : ReplicationManagerUtility) : Set Send :=
  {e | e ∈ s'.sent.drop s.sent.length}

/-- What a step comes to in the ledger. -/
def record (s : ReplicationManagerUtility) (a : Ledger) (n : Notification × Surroundings)
    (s' : ReplicationManagerUtility) : Ledger where
  pending := (a.pending \ outcomes n.1) ∪ startedSends s s'
  concluded := outcomes n.1
  started := startedSends s s'

/-- A step of the manager, with the ledger. -/
def ledgerStep : ReplicationManagerUtility × Ledger → Notification × Surroundings →
    Option (ReplicationManagerUtility × Ledger) := beside step record

/-- What is wanted: no token of a concluded send but those reserved anew, and tokens and ledger
agree. -/
structure Settled (w : ReplicationManagerUtility × Ledger) : Prop where
  concluded : ∀ e ∈ w.2.concluded, e ∈ w.1.concurrentSend.nodeTokens → e ∈ w.2.started
  held : ∀ e, e ∈ w.1.concurrentSend.nodeTokens ↔ e ∈ w.2.pending

/-- A manager as it is configured, before any send. -/
structure Configured (s : ReplicationManagerUtility) : Prop where
  enabled : s.enabled = true
  tokens : s.concurrentSend.nodeTokens = []

/-! ## Runs of `replicateToNeighbor` -/

/-- What a run of `replicateToNeighbor` comes to: sends, each with a token. -/
structure Starts (s s' : ReplicationManagerUtility) : Prop where
  enabled : s'.enabled = s.enabled
  orderly : s'.concurrentSend.Orderly
  sends : ∃ l, s'.sent = s.sent ++ l ∧
    ∀ e, e ∈ s'.concurrentSend.nodeTokens ↔ e ∈ s.concurrentSend.nodeTokens ∨ e ∈ l

variable {s s' s'' : ReplicationManagerUtility}

theorem Starts.refl (h : s.concurrentSend.Orderly) : Starts s s :=
  ⟨rfl, h, [], by simp, by simp⟩

theorem Starts.trans (h : Starts s s') (h' : Starts s' s'') : Starts s s'' := by
  obtain ⟨l, hl, hmem⟩ := h.sends
  obtain ⟨l', hl', hmem'⟩ := h'.sends
  refine ⟨h'.enabled.trans h.enabled, h'.orderly, l ++ l', ?_, fun e => ?_⟩
  · rw [hl', hl, List.append_assoc]
  · rw [hmem', hmem, List.mem_append, or_assoc]

/-- The state in which the token of a send is reserved and the send given to the kernel. -/
def sendOn (s : ReplicationManagerUtility) (nodeId dobjId : CString) :
    ReplicationManagerUtility :=
  { s with concurrentSend := s.concurrentSend.reserveToken nodeId dobjId
    }.sendDataObjectToNode nodeId dobjId

theorem starts_sendOn (he : s.enabled = true) (h : s.concurrentSend.Orderly) {dobjId : CString}
    (havail : s.concurrentSend.tokenAvailable nodeId = true)
    (hnot : (nodeId, dobjId) ∉ s.concurrentSend.nodeTokens) :
    Starts s (s.sendOn nodeId dobjId) ∧
      (s.sendOn nodeId dobjId).concurrentSend.used nodeId = s.concurrentSend.used nodeId + 1 ∧
      (s.sendOn nodeId dobjId).concurrentSend.maxTokens = s.concurrentSend.maxTokens := by
  obtain ⟨horderly, hmem, hused, hmax⟩ :=
    ReplicationConcurrentSend.reserveToken_spec h havail hnot
  unfold sendOn sendDataObjectToNode
  rw [if_pos he]
  refine ⟨⟨rfl, horderly, [(nodeId, dobjId)], rfl, fun e => ?_⟩, hused, hmax⟩
  rw [List.mem_singleton, or_comm]
  exact hmem e

/-- **The loop comes to an end within the tokens there are**, and reserves one for each send. -/
theorem replicateLoop_spec (around : Surroundings) (nodeId : CString) (n round : Nat)
    (he : s.enabled = true) (h : s.concurrentSend.Orderly) (hn : 0 < n)
    (hroom : s.concurrentSend.maxTokens < s.concurrentSend.used nodeId + n) :
    ∃ s', s.replicateLoop around nodeId n round = some s' ∧ Starts s s' := by
  induction n generalizing s round with
  | zero => exact absurd hn (by omega)
  | succ n ih =>
      rw [replicateLoop]
      by_cases havail : s.concurrentSend.tokenAvailable nodeId = true
      · have hlt := (ReplicationConcurrentSend.tokenAvailable_iff h.sorted nodeId).mp havail
        rw [if_pos havail]
        dsimp only
        split
        · exact ⟨s, rfl, Starts.refl h⟩
        · rename_i dobjId hnext
          -- the objects that hold a token are on the blacklist
          obtain ⟨_, -, -, -, hpassed⟩ := ReplicationOptimizer.getNextDataObject_spec hnext
          have hnot : (nodeId, dobjId) ∉ s.concurrentSend.nodeTokens := fun hmem =>
            hpassed ((ReplicationConcurrentSend.mem_reserved h.sorted).mpr hmem)
          obtain ⟨hstarts, hused, hmax⟩ := starts_sendOn he h havail hnot
          obtain ⟨s', hs', hrest⟩ := ih (round + 1) (hstarts.enabled.trans he) hstarts.orderly
            (by omega) (by omega)
          exact ⟨s', hs', hstarts.trans hrest⟩
      · rw [if_neg havail]
        refine ⟨_, rfl, ?_⟩
        split
        · exact ⟨rfl, h, [], by simp, by simp⟩
        · exact Starts.refl h

theorem replicateToNeighbor_spec (around : Surroundings) (nodeId : CString)
    (he : s.enabled = true) (h : s.concurrentSend.Orderly) :
    ∃ s', s.replicateToNeighbor around nodeId = some s' ∧ Starts s s' := by
  unfold replicateToNeighbor
  split
  · exact ⟨s, rfl, Starts.refl h⟩
  · exact replicateLoop_spec around nodeId _ 0 he h (Nat.succ_pos _) (by omega)

/-- A contact starts sends, or nothing when the node is of no interest. -/
theorem notifyContact_spec (around : Surroundings) (node : PeerNode) (he : s.enabled = true)
    (h : s.concurrentSend.Orderly) :
    ∃ s', s.notifyContact around node = some s' ∧ Starts s s' := by
  unfold notifyContact
  split
  · exact ⟨s, rfl, Starts.refl h⟩
  · exact replicateToNeighbor_spec around node.id he h

/-! ## Frees -/

/-- What the handlers of sends do to the tokens besides: some are freed. -/
structure Frees (s s' : ReplicationManagerUtility) (gone : Set Send) : Prop where
  enabled : s'.enabled = s.enabled
  sent : s'.sent = s.sent
  orderly : s'.concurrentSend.Orderly
  tokens : ∀ e, e ∈ s'.concurrentSend.nodeTokens ↔
    e ∈ s.concurrentSend.nodeTokens ∧ e ∉ gone

theorem Frees.refl (h : s.concurrentSend.Orderly) : Frees s s ∅ :=
  ⟨rfl, rfl, h, by simp⟩

theorem Frees.trans {gone gone' : Set Send} (h : Frees s s' gone) (h' : Frees s' s'' gone') :
    Frees s s'' (gone ∪ gone') := by
  refine ⟨h'.enabled.trans h.enabled, h'.sent.trans h.sent, h'.orderly, fun e => ?_⟩
  rw [h'.tokens, h.tokens, Set.mem_union, not_or, and_assoc]

/-- Only the tokens that are held matter. -/
theorem Frees.congr {gone gone' : Set Send} (h : Frees s s' gone)
    (hsame : ∀ e ∈ s.concurrentSend.nodeTokens, (e ∈ gone ↔ e ∈ gone')) : Frees s s' gone' := by
  refine ⟨h.enabled, h.sent, h.orderly, fun e => ?_⟩
  rw [h.tokens]
  refine and_congr_right (fun he => ?_)
  rw [hsame e he]

theorem frees_ext (h : s.concurrentSend.Orderly) (entries : List (CString × CString × Int)) :
    Frees s { s with extSendMap := entries } ∅ :=
  ⟨rfl, rfl, h, by simp⟩

theorem frees_removeFromExtSendMap (h : s.concurrentSend.Orderly) (nodeId dobjId : CString) :
    Frees s (s.removeFromExtSendMap nodeId dobjId) ∅ := by
  unfold removeFromExtSendMap
  split
  · exact frees_ext h _
  · exact Frees.refl h

theorem frees_addToExtSendMap (h : s.concurrentSend.Orderly) (nodeId dobjId : CString)
    (cost : Int) : Frees s (s.addToExtSendMap nodeId dobjId cost) ∅ := by
  unfold addToExtSendMap
  split
  · exact Frees.refl h
  · exact frees_ext h _

/-- A token is freed if it exists, so its send is not among those held. -/
theorem frees_token (h : s.concurrentSend.Orderly) (hid : nodeId ≠ []) (dobjId : CString) :
    Frees s (if s.concurrentSend.tokenExists nodeId dobjId then s.freeToken nodeId dobjId else s)
      {(nodeId, dobjId)} := by
  by_cases hexists : s.concurrentSend.tokenExists nodeId dobjId = true
  · rw [if_pos hexists]
    obtain ⟨horderly, hmem⟩ := ReplicationConcurrentSend.freeToken_spec h hid dobjId
    exact ⟨rfl, rfl, horderly, hmem⟩
  · rw [if_neg hexists]
    refine (Frees.refl h).congr (fun e he => ?_)
    refine iff_of_false (fun hmem => hmem.elim) (fun heq => hexists ?_)
    rw [Set.mem_singleton_iff] at heq
    exact (ReplicationConcurrentSend.tokenExists_iff h.sorted).mpr (heq ▸ he)

/-- The parent's token is freed, where the object has a parent. -/
theorem frees_removeParent (h : s.concurrentSend.Orderly) (hid : nodeId ≠ []) (dObj : SentObject) :
    Frees s (s.removeParent nodeId dObj)
      {e | dObj.getIdOrParentId ≠ dObj.id ∧ e = (nodeId, dObj.getIdOrParentId)} := by
  unfold removeParent
  dsimp only
  by_cases hparent : dObj.getIdOrParentId ≠ dObj.id
  · rw [if_pos hparent]
    have hext : Frees s (if s.inExtSendMap nodeId dObj.getIdOrParentId then
        s.removeFromExtSendMap nodeId dObj.getIdOrParentId else s) ∅ := by
      split
      · exact frees_removeFromExtSendMap h _ _
      · exact Frees.refl h
    refine (hext.trans (frees_token hext.orderly hid dObj.getIdOrParentId)).congr (fun e _ => ?_)
    simp [hparent]
  · rw [if_neg hparent]
    refine (Frees.refl h).congr (fun e _ => ?_)
    simp [hparent]

/-- The end of a send frees the token of the object, and its parent's. -/
theorem frees_concludeSend (h : s.concurrentSend.Orderly) (dObj : SentObject) (node : PeerNode) :
    Frees s (s.concludeSend dObj node).1
      {(node.id, dObj.id), (node.id, dObj.getIdOrParentId)} := by
  have hparent := frees_removeParent h node.id_ne dObj
  have hown : Frees (s.removeParent node.id dObj) (s.concludeSend dObj node).1
      {(node.id, dObj.id)} := by
    have htoken := frees_token hparent.orderly node.id_ne dObj.id
    unfold concludeSend
    dsimp only
    by_cases hexists : (s.removeParent node.id dObj).concurrentSend.tokenExists node.id dObj.id = true
    · rw [if_pos hexists] at htoken ⊢
      exact htoken
    · rw [if_neg hexists] at htoken ⊢
      split
      · have hext := frees_removeFromExtSendMap hparent.orderly node.id dObj.id
        refine (htoken.trans hext).congr (fun e _ => ?_)
        simp
      · exact htoken
  refine (hparent.trans hown).congr (fun e _ => ?_)
  by_cases hsame : dObj.getIdOrParentId = dObj.id
  · simp [hsame]
  · simp [hsame]

/-! ## Sends by others -/

/-- The parents' tokens that a send of an object to some nodes frees. -/
def freedBySend (s : ReplicationManagerUtility) (dObj : SentObject) (nl : List PeerNode) :
    Set Send :=
  {e | dObj.getIdOrParentId ≠ dObj.id ∧ ∃ node ∈ nl, s.isInterestingNode node = true ∧
    (node.id, dObj.id) ∉ s.concurrentSend.nodeTokens ∧ e = (node.id, dObj.getIdOrParentId)}

theorem isInterestingNode_congr (h : s'.enabled = s.enabled) (node : PeerNode) :
    s'.isInterestingNode node = s.isInterestingNode node := by
  unfold isInterestingNode
  rw [h]

theorem frees_notifySendTo (h : s.concurrentSend.Orderly) (dObj : SentObject)
    (cost : CString → Int) (node : PeerNode) :
    Frees s (notifySendTo dObj cost s node) (s.freedBySend dObj [node]) := by
  unfold notifySendTo
  by_cases hint : s.isInterestingNode node = true
  · rw [if_pos hint]
    by_cases hexists : s.concurrentSend.tokenExists node.id dObj.id = true
    · rw [if_pos hexists]
      have hmem := (ReplicationConcurrentSend.tokenExists_iff h.sorted).mp hexists
      refine (Frees.refl h).congr (fun e _ => ?_)
      simp [freedBySend, hmem]
    · rw [if_neg hexists]
      have hmem : (node.id, dObj.id) ∉ s.concurrentSend.nodeTokens := fun hmem =>
        hexists ((ReplicationConcurrentSend.tokenExists_iff h.sorted).mpr hmem)
      have hext : Frees s (if s.inExtSendMap node.id dObj.id then s
          else s.addToExtSendMap node.id dObj.id (cost node.id)) ∅ := by
        split
        · exact Frees.refl h
        · exact frees_addToExtSendMap h _ _ _
      refine (hext.trans (frees_removeParent hext.orderly node.id_ne dObj)).congr (fun e _ => ?_)
      simp [freedBySend, hint, hmem]
  · rw [if_neg hint]
    refine (Frees.refl h).congr (fun e _ => ?_)
    simp [freedBySend, hint]

/-- By induction over the nodes; what is freed is never a token of the object itself. -/
theorem frees_sendToAll (dObj : SentObject) (cost : CString → Int) (nl : List PeerNode)
    (h : s.concurrentSend.Orderly) :
    Frees s (nl.foldl (notifySendTo dObj cost) s) (s.freedBySend dObj nl) := by
  induction nl generalizing s with
  | nil =>
      refine (Frees.refl h).congr (fun e _ => ?_)
      simp [freedBySend]
  | cons node nl ih =>
      have hfirst := frees_notifySendTo h dObj cost node
      refine (hfirst.trans (ih hfirst.orderly)).congr (fun e _ => ?_)
      -- the tokens freed for one node leave those that the later nodes are asked for
      have hown : ∀ n : CString, dObj.getIdOrParentId ≠ dObj.id →
          ((n, dObj.id) ∈ (notifySendTo dObj cost s node).concurrentSend.nodeTokens ↔
            (n, dObj.id) ∈ s.concurrentSend.nodeTokens) := by
        intro n hparent
        rw [hfirst.tokens]
        refine and_iff_left (fun hgone => ?_)
        obtain ⟨-, node', -, -, -, heq⟩ := hgone
        exact hparent (Prod.mk.inj heq).2.symm
      unfold freedBySend
      rw [Set.mem_union]
      simp only [Set.mem_ofPred_eq, List.mem_cons, List.not_mem_nil, or_false, exists_eq_left]
      rw [← and_or_left]
      refine and_congr_right (fun hparent => ?_)
      constructor
      · rintro (hhead | ⟨node', hnode', hint, hnot, heq⟩)
        · exact ⟨node, Or.inl rfl, hhead⟩
        · refine ⟨node', Or.inr hnode', ?_, ?_, heq⟩
          · rw [← isInterestingNode_congr hfirst.enabled]
            exact hint
          · rw [← hown node'.id hparent]
            exact hnot
      · rintro ⟨node', rfl | hnode', hint, hnot, heq⟩
        · exact Or.inl ⟨hint, hnot, heq⟩
        · refine Or.inr ⟨node', hnode', ?_, ?_, heq⟩
          · rw [isInterestingNode_congr hfirst.enabled]
            exact hint
          · rw [hown node'.id hparent]
            exact hnot

/-! ## Steps -/

/-- The tokens a handler frees. -/
def freed (s : ReplicationManagerUtility) : Notification → Set Send
  | .send dObj nl _ =>
      {e | s.isInterestingDataObject dObj = true ∧ e ∈ s.freedBySend dObj nl}
  | .sendSuccess dObj node =>
      {e | (s.isInterestingNode node = true ∧ s.isInterestingDataObject dObj = true) ∧
        e ∈ outcomes (.sendSuccess dObj node)}
  | .sendFailure dObj node =>
      {e | (s.isInterestingNode node = true ∧ s.isInterestingDataObject dObj = true) ∧
        e ∈ outcomes (.sendFailure dObj node)}
  | _ => ∅

/-- When a handler frees the tokens of the outcomes it is told, of those that are held. -/
def Fits (s : ReplicationManagerUtility) : Notification → Prop
  | .send dObj nl _ =>
      s.isInterestingDataObject dObj = true → dObj.getIdOrParentId ≠ dObj.id →
        ∀ node ∈ nl, s.isInterestingNode node = true →
          (node.id, dObj.id) ∈ s.concurrentSend.nodeTokens ∨
            (node.id, dObj.getIdOrParentId) ∉ s.concurrentSend.nodeTokens
  | .sendSuccess dObj node =>
      (node.id, dObj.id) ∈ s.concurrentSend.nodeTokens ∨
          (node.id, dObj.getIdOrParentId) ∈ s.concurrentSend.nodeTokens →
        s.isInterestingNode node = true ∧ s.isInterestingDataObject dObj = true
  | .sendFailure dObj node =>
      (node.id, dObj.id) ∈ s.concurrentSend.nodeTokens ∨
          (node.id, dObj.getIdOrParentId) ∈ s.concurrentSend.nodeTokens →
        s.isInterestingNode node = true ∧ s.isInterestingDataObject dObj = true
  | _ => True

instance (s : ReplicationManagerUtility) (n : Notification) : Decidable (s.Fits n) := by
  cases n <;> unfold Fits <;> infer_instance

/-- A handler that returns at once frees nothing. -/
theorem step_idle (h : s.concurrentSend.Orderly) {n : Notification} (hnone : ∀ e, e ∉ s.freed n) :
    ∃ s₁ s', some s = some s' ∧ Frees s s₁ (s.freed n) ∧ Starts s₁ s' ∧ (s.Fits n ∨ s' = s₁) := by
  refine ⟨s, s, rfl, (Frees.refl h).congr (fun e _ => ?_), Starts.refl h, Or.inr rfl⟩
  exact iff_of_false (fun he => he.elim) (hnone e)

/-- **What a step does**: it frees some tokens, and then starts sends if it fits. -/
theorem step_spec (he : s.enabled = true) (h : s.concurrentSend.Orderly)
    (n : Notification × Surroundings) :
    ∃ s₁ s', s.step n = some s' ∧ Frees s s₁ (s.freed n.1) ∧ Starts s₁ s' ∧
      (s.Fits n.1 ∨ s' = s₁) := by
  obtain ⟨n, around⟩ := n
  unfold step
  cases n with
  | send dObj nl cost =>
      dsimp only
      unfold notifySendDataObject
      by_cases hint : s.isInterestingDataObject dObj = true
      · have hfrees := frees_sendToAll dObj cost nl h
        rw [if_pos hint]
        refine ⟨_, _, rfl, hfrees.congr (fun e _ => ?_), Starts.refl hfrees.orderly, Or.inr rfl⟩
        simp [freed, hint]
      · rw [if_neg hint]
        exact step_idle h (by simp [freed, hint])
  | sendSuccess dObj node =>
      dsimp only
      unfold notifySendSuccess
      by_cases hnode : s.isInterestingNode node = true
      · by_cases hobj : s.isInterestingDataObject dObj = true
        · have hfrees := frees_concludeSend h dObj node
          rw [if_neg (by simp [hnode]), if_neg (by simp [hobj])]
          have hgone : Frees s (s.concludeSend dObj node).1
              (s.freed (.sendSuccess dObj node)) := hfrees.congr (fun e _ => by
            simp [freed, outcomes, hnode, hobj])
          cases hc : s.concludeSend dObj node with
          | mk s₁ own =>
              rw [hc] at hgone
              -- only a send of its own starts the next one
              cases own with
              | true =>
                  obtain ⟨s', hs', hstarts⟩ := replicateToNeighbor_spec around node.id
                    (hgone.enabled.trans he) hgone.orderly
                  exact ⟨s₁, s', hs', hgone, hstarts, Or.inl (fun _ => ⟨hnode, hobj⟩)⟩
              | false => exact ⟨s₁, s₁, rfl, hgone, Starts.refl hgone.orderly, Or.inr rfl⟩
        · rw [if_neg (by simp [hnode]), if_pos (by simp [hobj])]
          exact step_idle h (by simp [freed, hobj])
      · rw [if_pos (by simp [hnode])]
        exact step_idle h (by simp [freed, hnode])
  | sendFailure dObj node =>
      dsimp only
      unfold notifySendFailure
      by_cases hnode : s.isInterestingNode node = true
      · by_cases hobj : s.isInterestingDataObject dObj = true
        · have hfrees := frees_concludeSend h dObj node
          rw [if_neg (by simp [hnode]), if_neg (by simp [hobj])]
          refine ⟨_, _, rfl, hfrees.congr (fun e _ => ?_), Starts.refl hfrees.orderly, Or.inr rfl⟩
          simp [freed, outcomes, hnode, hobj]
        · rw [if_neg (by simp [hnode]), if_pos (by simp [hobj])]
          exact step_idle h (by simp [freed, hobj])
      · rw [if_pos (by simp [hnode])]
        exact step_idle h (by simp [freed, hnode])
  | newContact node =>
      obtain ⟨s', hs', hstarts⟩ := notifyContact_spec around node he h
      exact ⟨s, s', hs', Frees.refl h, hstarts, Or.inl trivial⟩
  | updatedContact node =>
      obtain ⟨s', hs', hstarts⟩ := notifyContact_spec around node he h
      exact ⟨s, s', hs', Frees.refl h, hstarts, Or.inl trivial⟩
  | downContact node => exact ⟨s, s, rfl, Frees.refl h, Starts.refl h, Or.inr rfl⟩
  | replicate nodeId =>
      obtain ⟨s', hs', hstarts⟩ := replicateToNeighbor_spec around nodeId he h
      exact ⟨s, s', hs', Frees.refl h, hstarts, Or.inl trivial⟩

/-- Two tokens are freed under a guard as wanted exactly when the guard holds if one is held. -/
theorem outcome_iff (held : List Send) {own parent : Send} {guard : Prop} :
    (own ∈ held ∨ parent ∈ held → guard) ↔
      ∀ e ∈ held, (guard ∧ e ∈ ({own, parent} : Set Send) ↔ e ∈ ({own, parent} : Set Send)) := by
  constructor
  · intro h e he
    refine ⟨fun hmem => hmem.2, fun hmem => ⟨h ?_, hmem⟩⟩
    rcases hmem with rfl | rfl
    · exact Or.inl he
    · exact Or.inr he
  · rintro h (hown | hparent)
    · exact ((h _ hown).mpr (Or.inl rfl)).1
    · exact ((h _ hparent).mpr (Or.inr rfl)).1

/-- A handler fits exactly when it frees, of the tokens held, those of the outcomes. -/
theorem fits_iff (s : ReplicationManagerUtility) (n : Notification) :
    s.Fits n ↔ ∀ e ∈ s.concurrentSend.nodeTokens, (e ∈ s.freed n ↔ e ∈ outcomes n) := by
  cases n with
  | send dObj nl cost =>
      unfold Fits freed outcomes freedBySend
      constructor
      · intro h e he
        refine iff_of_false ?_ (fun hmem => hmem.elim)
        rintro ⟨hobj, hparent, node, hnode, hint, hnot, rfl⟩
        rcases h hobj hparent node hnode hint with hown | hfree
        · exact hnot hown
        · exact hfree he
      · intro h hobj hparent node hnode hint
        by_contra hboth
        push Not at hboth
        exact ((h _ hboth.2).mp ⟨hobj, hparent, node, hnode, hint, hboth.1, rfl⟩).elim
  | sendSuccess dObj node => exact outcome_iff s.concurrentSend.nodeTokens
  | sendFailure dObj node => exact outcome_iff s.concurrentSend.nodeTokens
  | newContact node => exact iff_of_true trivial (fun _ _ => Iff.rfl)
  | updatedContact node => exact iff_of_true trivial (fun _ _ => Iff.rfl)
  | downContact node => exact iff_of_true trivial (fun _ _ => Iff.rfl)
  | replicate nodeId => exact iff_of_true trivial (fun _ _ => Iff.rfl)

/-! ## Runs -/

/-- The invariant: tokens and ledger agree, in a manager that is enabled and orderly. -/
structure Tracked (w : ReplicationManagerUtility × Ledger) : Prop extends Settled w where
  enabled : w.1.enabled = true
  orderly : w.1.concurrentSend.Orderly

/-- The sends a step added, as a list. -/
theorem startedSends_eq {l : List Send} (h : s'.sent = s.sent ++ l) :
    startedSends s s' = {e | e ∈ l} := by
  unfold startedSends
  rw [h, List.drop_left]

theorem Tracked.step {w : ReplicationManagerUtility × Ledger} (h : Tracked w)
    {n : Notification × Surroundings} (hfits : w.1.Fits n.1) :
    ∃ w', ledgerStep w n = some w' ∧ Tracked w' := by
  obtain ⟨s₁, s', hs', hfrees, hstarts, -⟩ := step_spec h.enabled h.orderly n
  obtain ⟨l, hl, hmem⟩ := hstarts.sends
  rw [hfrees.sent] at hl
  have hstarted := startedSends_eq hl
  refine ⟨(s', record w.1 w.2 n s'), by rw [ledgerStep, beside, hs']; rfl, ?_⟩
  have htokens : ∀ e, e ∈ s'.concurrentSend.nodeTokens ↔
      e ∈ (w.2.pending \ outcomes n.1) ∪ startedSends w.1 s' := by
    intro e
    rw [hmem, hfrees.tokens, hstarted, Set.mem_union, Set.mem_sdiff, ← h.held]
    refine or_congr_left (and_congr_right (fun he => ?_))
    rw [(fits_iff w.1 n.1).mp hfits e he]
  refine ⟨⟨?_, htokens⟩, hstarts.enabled.trans (hfrees.enabled.trans h.enabled), hstarts.orderly⟩
  intro e hconcluded he
  rcases (htokens e).mp he with hkept | hnew
  · exact absurd hconcluded hkept.2
  · exact hnew

theorem Tracked.fits {w' : ReplicationManagerUtility × Ledger} (h : Tracked w)
    {n : Notification × Surroundings} (hstep : ledgerStep w n = some w') (hgood : Settled w') :
    w.1.Fits n.1 := by
  obtain ⟨s₁, s', hs', hfrees, -, hfits | rfl⟩ := step_spec h.enabled h.orderly n
  · exact hfits
  · -- no send was started, so the tokens that are left are those not freed
    rw [ledgerStep, beside, hs'] at hstep
    obtain rfl := Option.some.inj hstep
    have hnone : startedSends w.1 s' = ∅ := by
      rw [startedSends_eq (l := []) (by rw [hfrees.sent, List.append_nil])]
      simp
    refine (fits_iff w.1 n.1).mpr (fun e he => ?_)
    have hheld := hgood.held e
    dsimp only [record] at hheld
    rw [hfrees.tokens, hnone, Set.union_empty, Set.mem_sdiff, ← h.held] at hheld
    rw [← not_iff_not]
    exact ⟨fun hnot => (hheld.mp ⟨he, hnot⟩).2, fun hnot => (hheld.mpr ⟨he, hnot⟩).2⟩

/-- A manager starts with an empty ledger. -/
theorem Configured.tracked (h : Configured s) : Tracked (s, ⟨∅, ∅, ∅⟩) := by
  refine ⟨⟨fun e he => he.elim, fun e => ?_⟩, h.enabled, ?_, ?_⟩
  · rw [h.tokens]
    exact iff_of_false (by simp) (fun he => he.elim)
  · rw [h.tokens]
    exact List.Pairwise.nil
  · rw [h.tokens]
    exact List.nodup_nil

/-- From a state in which tokens and ledger agree, they go on to agree while the handlers fit. -/
theorem settled_iff (h : Tracked w) (ns : List (Notification × Surroundings)) :
    (∀ pre post, ns = pre ++ post → ∃ w', run ledgerStep w pre = some w' ∧ Settled w') ↔
      Guarded step (fun s n => s.Fits n.1) w.1 ns := by
  refine run_beside_iff (P := Tracked) ?_ ?_ ?_ ns w h
  · intro w hw
    exact hw.toSettled
  · intro w n hw hfits
    exact hw.step hfits
  · intro w n w' hw hstep hgood
    exact hw.fits hstep hgood

/--
**The tokens held are exactly the sends whose outcome has not been notified, and none is kept by
its outcome, through a whole run, exactly when** each outcome of a send that holds a token comes
while its node is of interest, and no fragment or block is sent to a node that holds a token for
its parent and none for itself.
-/
theorem tokens_held_iff (s : ReplicationManagerUtility) (h : Configured s)
    (ns : List (Notification × Surroundings)) :
    (∀ pre post, ns = pre ++ post →
        ∃ w, run ledgerStep (s, ⟨∅, ∅, ∅⟩) pre = some w ∧ Settled w) ↔
      Guarded step (fun s n => s.Fits n.1) s ns :=
  settled_iff h.tracked ns

/-- A manager after its configuration, with the default tokens. -/
def plainManager : ReplicationManagerUtility where
  enabled := true
  concurrentSend := ReplicationConcurrentSend.new
  extSendMap := []
  lastReplication := 0
  replCooldownMs := 0
  sent := []

theorem peerId_ne : lit "peer" ≠ [] := by decide

/-- A peer, available or not. -/
def peer (isAvailable : Bool) : PeerNode where
  id := lit "peer"
  isThisNode := false
  isLocalApplication := false
  isAvailable := isAvailable
  isNeighbor := isAvailable
  isPeer := true
  id_ne := peerId_ne

def plainObject (id : CString) (originalOfFragment : Option CString) : SentObject where
  id := id
  isNodeDescription := false
  isNetworkCodingEnabled := false
  originalOfBlock := none
  isFragmentationEnabled := true
  originalOfFragment := originalOfFragment

/-- An optimizer that has one object for each node. -/
def oneObject (dobjId : CString) : ReplicationOptimizer where
  utils nodeId := [⟨dobjId, nodeId, 1, 1, 0, 0⟩]
  nodeMap _ := some fun _ => false
  doMap d := d = dobjId ∧ d ≠ []
  getCost _ _ := 1
  utilFunction := none
  computePeriodMs := 10000
  minimumThreshold := 0
  knapsack := greedy 1 one_ne_zero
  now _ := 0
  doMap_nil := by simp

/-- A manager with this optimizer. -/
def offering (dobjId : CString) : Surroundings where
  now := 1
  later := 1
  estimatedBytesLeft := fun _ => 0
  replicationOptimizer := fun _ => oneObject dobjId

/-- An object is sent to a new contact, its fragment succeeds, and it is sent again. -/
def settledRun : List (Notification × Surroundings) :=
  [(.newContact (peer true), offering (lit "d")),
    (.send (plainObject (lit "d") none) [peer true] (fun _ => 1), offering (lit "d")),
    (.sendSuccess (plainObject (lit "f") (some (lit "d"))) (peer true), offering (lit "d")),
    (.updatedContact (peer true), offering (lit "d")),
    (.sendFailure (plainObject (lit "d") none) (peer true), offering (lit "d")),
    (.downContact (peer false), offering (lit "d"))]

theorem plainManager_configured : Configured plainManager := ⟨rfl, rfl⟩

theorem tokens_held_settledRun :
    ∃ w, run ledgerStep (plainManager, ⟨∅, ∅, ∅⟩) settledRun = some w ∧ Settled w :=
  (tokens_held_iff plainManager plainManager_configured settledRun).mpr (by decide +kernel)
    settledRun [] (List.append_nil settledRun).symm

/-- The peer goes away while an object is on its way to it. -/
def peerLeaves : List (Notification × Surroundings) :=
  [(.newContact (peer true), offering (lit "d")),
    (.downContact (peer false), offering (lit "d")),
    (.sendFailure (plainObject (lit "d") none) (peer false), offering (lit "d"))]

/-- The failure comes while the peer is unavailable, and the token stays. -/
theorem token_leaks :
    ¬ ∀ s, Configured s → ∀ ns, ∀ pre post, ns = pre ++ post →
      ∃ w, run ledgerStep (s, ⟨∅, ∅, ∅⟩) pre = some w ∧ Settled w := by
  intro hall
  have hguard := (settled_iff plainManager_configured.tracked peerLeaves).mp
    (hall plainManager plainManager_configured peerLeaves)
  exact absurd hguard (by decide +kernel)

end ReplicationManagerUtility

end Encoders.Replication
