import Encoders.Replication.Loops

/-!
# When the indices of the replication state agree

`Spec` is what the state is for: which nodes and objects are cached, and the matches of each
pair of them that were set since both are. The state keeps the best of them, and its two
indices list the keys of what it keeps, as long as each `unCacheNode` and `unCacheDataObject`
finds an index its loop is right for.
-/

namespace Encoders.Replication

open Encoders.Lib Encoders.Data Encoders.Store

/-! ## The purpose -/

/-- What is cached, and the matches set for an object and a node while both are. -/
structure Spec where
  nodes : CString → Bool
  objects : CString → Bool
  since : CString → CString → List Match

namespace Spec

def new : Spec where
  nodes := fun _ => false
  objects := fun _ => false
  since := fun _ _ => []

def step (a : Spec) : ObjectState.Call → Spec
  | .cacheNode node => { a with nodes := fun n => if n = node.name then true else a.nodes n }
  | .unCacheNode nodeName =>
      { a with
        nodes := fun n => if n = nodeName then false else a.nodes n
        since := fun d n => if n = nodeName then [] else a.since d n }
  | .cacheDataObject dobjId =>
      { a with objects := fun d => if d = dobjId then true else a.objects d }
  | .unCacheDataObject dobjId =>
      { a with
        objects := fun d => if d = dobjId then false else a.objects d
        since := fun d n => if d = dobjId then [] else a.since d n }
  | .setMatchStrength dobjId nodeName ratio threshold =>
      { a with
        since := fun d n =>
          if d = dobjId ∧ n = nodeName then ⟨ratio, threshold⟩ :: a.since d n else a.since d n }

/-- The callers set matches of what is cached only. Ids are hexadecimal, so have no colon. -/
def Meant (a : Spec) : ObjectState.Call → Prop
  | .cacheDataObject dobjId => 58 ∉ dobjId
  | .setMatchStrength dobjId nodeName _ _ => a.objects dobjId = true ∧ a.nodes nodeName = true
  | _ => True

instance (a : Spec) (call : ObjectState.Call) : Decidable (a.Meant call) := by
  cases call <;> unfold Meant <;> infer_instance

end Spec

/-- The answer is a match of greatest strength, or zeros. -/
def IsBest (matches' : List Match) (answer : Int × Int) : Prop :=
  (matches' = [] ∧ answer = (0, 0)) ∨
    ∃ m ∈ matches', answer = (m.ratio, m.threshold) ∧
      ∀ m' ∈ matches', m'.ratio - m'.threshold ≤ m.ratio - m.threshold

/-- The state does what it is for. -/
structure Agrees (s : ObjectState) (a : Spec) : Prop where
  objectOnce : (s.dataObjectIdMatchIndex.map Prod.snd).Nodup
  nodeOnce : (s.nodeIdMatchIndex.map Prod.snd).Nodup
  objectListed : ∀ k, k ∈ s.dataObjectIdMatchIndex.map Prod.snd ↔
    (s.dataObjectIdMatch k).isSome = true
  nodeListed : ∀ k, k ∈ s.nodeIdMatchIndex.map Prod.snd ↔ (s.dataObjectIdMatch k).isSome = true
  objectOwner : ∀ e ∈ s.dataObjectIdMatchIndex, 58 ∉ e.1 ∧ ∃ n, e.2 = getKey e.1 n
  nodeOwner : ∀ e ∈ s.nodeIdMatchIndex, ∃ d, 58 ∉ d ∧ e.2 = getKey d e.1
  present : ∀ d n, 58 ∉ d →
    ((s.dataObjectIdMatch (getKey d n)).isSome = true ↔ a.since d n ≠ [])
  best : ∀ d n, 58 ∉ d → IsBest (a.since d n) (s.getMatchStrength d n)

/-! ## The invariant -/

/-- What the matches hold of the ones that were set. -/
def Kept (matches' : List Match) : Option Match → Prop
  | none => matches' = []
  | some m => m ∈ matches' ∧ ∀ m' ∈ matches', m'.ratio - m'.threshold ≤ m.ratio - m.threshold

structure Sound (s : ObjectState) (a : Spec) : Prop where
  objectOnce : (s.dataObjectIdMatchIndex.map Prod.snd).Nodup
  nodeOnce : (s.nodeIdMatchIndex.map Prod.snd).Nodup
  objectListed : ∀ k, k ∈ s.dataObjectIdMatchIndex.map Prod.snd ↔
    (s.dataObjectIdMatch k).isSome = true
  nodeListed : ∀ k, k ∈ s.nodeIdMatchIndex.map Prod.snd ↔ (s.dataObjectIdMatch k).isSome = true
  objectOwner : ∀ e ∈ s.dataObjectIdMatchIndex, 58 ∉ e.1 ∧ ∃ n, e.2 = getKey e.1 n
  nodeOwner : ∀ e ∈ s.nodeIdMatchIndex, ∃ d, 58 ∉ d ∧ e.2 = getKey d e.1
  objectSorted : s.dataObjectIdMatchIndex.Sorted
  nodeSorted : s.nodeIdMatchIndex.Sorted
  kept : ∀ d n, 58 ∉ d → Kept (a.since d n) (s.dataObjectIdMatch (getKey d n))
  node : ∀ n, (s.cachedNodes n).isSome = a.nodes n
  object : ∀ d, s.cachedDataObjects d = a.objects d
  objectId : ∀ d, a.objects d = true → 58 ∉ d
  cached : ∀ d n, a.since d n ≠ [] → a.objects d = true ∧ a.nodes n = true

namespace Sound

variable {s s' : ObjectState} {a a' : Spec}

theorem agrees (h : Sound s a) : Agrees s a where
  objectOnce := h.objectOnce
  nodeOnce := h.nodeOnce
  objectListed := h.objectListed
  nodeListed := h.nodeListed
  objectOwner := h.objectOwner
  nodeOwner := h.nodeOwner
  present := by
    intro d n hd
    have hkept := h.kept d n hd
    cases hm : s.dataObjectIdMatch (getKey d n) with
    | none =>
        rw [hm] at hkept
        have hnil : a.since d n = [] := hkept
        simp [hnil]
    | some m =>
        rw [hm] at hkept
        have hne : a.since d n ≠ [] := List.ne_nil_of_mem hkept.1
        simpa using hne
  best := by
    intro d n hd
    have hkept := h.kept d n hd
    unfold ObjectState.getMatchStrength
    cases hm : s.dataObjectIdMatch (getKey d n) with
    | none =>
        rw [hm] at hkept
        exact Or.inl ⟨hkept, rfl⟩
    | some m =>
        rw [hm] at hkept
        exact Or.inr ⟨m, hkept.1, rfl, hkept.2⟩

theorem new : Sound ObjectState.new Spec.new where
  objectOnce := List.nodup_nil
  nodeOnce := List.nodup_nil
  objectListed := by
    intro k
    simp [ObjectState.new]
  nodeListed := by
    intro k
    simp [ObjectState.new]
  objectOwner := by
    intro e he
    cases he
  nodeOwner := by
    intro e he
    cases he
  objectSorted := List.Pairwise.nil
  nodeSorted := List.Pairwise.nil
  kept := fun _ _ _ => rfl
  node := fun _ => rfl
  object := fun _ => rfl
  objectId := by
    intro d hd
    cases hd
  cached := by
    intro d n hne
    exact absurd rfl hne

/-- A change of what is cached, for more. -/
theorem caching (h : Sound s a) (hmatch : s'.dataObjectIdMatch = s.dataObjectIdMatch)
    (hobjects : s'.dataObjectIdMatchIndex = s.dataObjectIdMatchIndex)
    (hnodes : s'.nodeIdMatchIndex = s.nodeIdMatchIndex) (hsince : a'.since = a.since)
    (hnode : ∀ n, (s'.cachedNodes n).isSome = a'.nodes n)
    (hobject : ∀ d, s'.cachedDataObjects d = a'.objects d)
    (hid : ∀ d, a'.objects d = true → 58 ∉ d)
    (hcached : ∀ d n, a.objects d = true ∧ a.nodes n = true →
      a'.objects d = true ∧ a'.nodes n = true) : Sound s' a' where
  objectOnce := by rw [hobjects]; exact h.objectOnce
  nodeOnce := by rw [hnodes]; exact h.nodeOnce
  objectListed := by rw [hobjects, hmatch]; exact h.objectListed
  nodeListed := by rw [hnodes, hmatch]; exact h.nodeListed
  objectOwner := by rw [hobjects]; exact h.objectOwner
  nodeOwner := by rw [hnodes]; exact h.nodeOwner
  objectSorted := by rw [hobjects]; exact h.objectSorted
  nodeSorted := by rw [hnodes]; exact h.nodeSorted
  kept := by rw [hmatch, hsince]; exact h.kept
  node := hnode
  object := hobject
  objectId := hid
  cached := by
    intro d n hne
    rw [hsince] at hne
    exact hcached d n (h.cached d n hne)

/-- The matches of a kind are removed, with their keys. -/
theorem removed (h : Sound s a) {p : CString → Bool}
    (hmatch : s'.dataObjectIdMatch = fun k => if p k then none else s.dataObjectIdMatch k)
    (hobjects : s'.dataObjectIdMatchIndex = s.dataObjectIdMatchIndex.filter (fun e => !p e.2))
    (hnodes : s'.nodeIdMatchIndex = s.nodeIdMatchIndex.filter (fun e => !p e.2))
    (hsince : ∀ d n, 58 ∉ d →
      a'.since d n = if p (getKey d n) then [] else a.since d n)
    (hnode : ∀ n, (s'.cachedNodes n).isSome = a'.nodes n)
    (hobject : ∀ d, s'.cachedDataObjects d = a'.objects d)
    (hid : ∀ d, a'.objects d = true → 58 ∉ d)
    (hcached : ∀ d n, a'.since d n ≠ [] → a'.objects d = true ∧ a'.nodes n = true) :
    Sound s' a' := by
  -- a key stays listed exactly if the predicate spares it, in either index
  have hlisted : ∀ (index : Index) (k : CString),
      k ∈ (index.filter (fun e => !p e.2)).map Prod.snd ↔
        k ∈ index.map Prod.snd ∧ p k = false := by
    intro index k
    simp only [List.mem_map, List.mem_filter, Bool.not_eq_true']
    constructor
    · rintro ⟨e, ⟨he, hpe⟩, rfl⟩
      exact ⟨⟨e, he, rfl⟩, hpe⟩
    · rintro ⟨⟨e, he, rfl⟩, hpe⟩
      exact ⟨e, ⟨he, hpe⟩, rfl⟩
  have hisSome : ∀ k, (s'.dataObjectIdMatch k).isSome = true ↔
      (s.dataObjectIdMatch k).isSome = true ∧ p k = false := by
    intro k
    rw [hmatch]
    dsimp only
    by_cases hpk : p k = true
    · simp [hpk]
    · simp [hpk]
  refine ⟨?_, ?_, ?_, ?_, ?_, ?_, ?_, ?_, ?_, hnode, hobject, hid, hcached⟩
  · rw [hobjects]
    exact h.objectOnce.sublist (List.filter_sublist.map _)
  · rw [hnodes]
    exact h.nodeOnce.sublist (List.filter_sublist.map _)
  · intro k
    rw [hobjects, hlisted, h.objectListed, hisSome]
  · intro k
    rw [hnodes, hlisted, h.nodeListed, hisSome]
  · rw [hobjects]
    exact fun e he => h.objectOwner e (List.mem_of_mem_filter he)
  · rw [hnodes]
    exact fun e he => h.nodeOwner e (List.mem_of_mem_filter he)
  · rw [hobjects]
    exact List.Pairwise.sublist List.filter_sublist h.objectSorted
  · rw [hnodes]
    exact List.Pairwise.sublist List.filter_sublist h.nodeSorted
  · intro d n hd
    rw [hsince d n hd, hmatch]
    dsimp only
    split
    · exact rfl
    · exact h.kept d n hd

end Sound

/-! ## The tables -/

namespace ObjectState

/-- What `unCacheNode` works on. -/
def nodeTables (s : ObjectState) : Tables :=
  ⟨s.nodeIdMatchIndex, s.dataObjectIdMatchIndex, s.dataObjectIdMatch⟩

/-- What `unCacheDataObject` works on. -/
def objectTables (s : ObjectState) : Tables :=
  ⟨s.dataObjectIdMatchIndex, s.nodeIdMatchIndex, s.dataObjectIdMatch⟩

def withNodeTables (s : ObjectState) (t : Tables) : ObjectState :=
  { s with
    nodeIdMatchIndex := t.own
    dataObjectIdMatchIndex := t.other
    dataObjectIdMatch := t.strengths }

def withObjectTables (s : ObjectState) (t : Tables) : ObjectState :=
  { s with
    dataObjectIdMatchIndex := t.own
    nodeIdMatchIndex := t.other
    dataObjectIdMatch := t.strengths }

/-- Where the search in the node index starts. -/
def nodeStart (key : CString) (index : Index) : Nat := index.find (nodeIdFromKey key)

theorem unCacheNodeLoop_eq (n it : Nat) (s : ObjectState) :
    unCacheNodeLoop n it s = s.withNodeTables (s.nodeTables.loop (fun _ _ => 0) n it) := by
  induction n generalizing it s with
  | zero => rfl
  | succ n ih =>
      rw [unCacheNodeLoop, Tables.loop]
      unfold nodeTables
      dsimp only
      cases s.nodeIdMatchIndex[it]? with
      | none => rfl
      | some entry =>
          dsimp only
          cases s.dataObjectIdMatch entry.2 with
          | none => rfl
          | some m =>
              dsimp only
              rw [ih]
              rfl

theorem unCacheDataObjectLoop_eq (n it : Nat) (s : ObjectState) :
    unCacheDataObjectLoop n it s =
      s.withObjectTables (s.objectTables.loop nodeStart n it) := by
  induction n generalizing it s with
  | zero => rfl
  | succ n ih =>
      rw [unCacheDataObjectLoop, Tables.loop]
      unfold objectTables
      dsimp only
      cases s.dataObjectIdMatchIndex[it]? with
      | none => rfl
      | some entry =>
          dsimp only
          cases s.dataObjectIdMatch entry.2 with
          | none => rfl
          | some m =>
              dsimp only
              rw [ih]
              rfl

/-- `unCacheNode` finds the node, and its id in the proxy map. -/
def registered (s : ObjectState) (nodeName : CString) : Bool :=
  match s.cachedNodes nodeName with
  | none => false
  | some node => (s.proxyIdToNodeName node.id).isSome

/-- Without, only the node goes. -/
theorem unCacheNode_of_not {s : ObjectState} {nodeName : CString}
    (h : s.registered nodeName = false) :
    s.unCacheNode nodeName = { s with
      cachedNodes := fun n => if n = nodeName then none else s.cachedNodes n } := by
  unfold registered at h
  cases hnode : s.cachedNodes nodeName with
  | none =>
      have hsame : (fun n => if n = nodeName then none else s.cachedNodes n) = s.cachedNodes := by
        funext n
        split
        · rename_i heq
          rw [heq, hnode]
        · rfl
      rw [hsame]
      simp only [unCacheNode, hnode]
  | some node =>
      rw [hnode] at h
      have hproxy : s.proxyIdToNodeName node.id = none := by simpa using h
      simp only [unCacheNode, hnode, hproxy]

theorem unCacheNode_of_registered {s : ObjectState} {nodeName : CString}
    (h : s.registered nodeName = true) : ∃ proxies,
    s.unCacheNode nodeName = { s with
      cachedNodes := fun n => if n = nodeName then none else s.cachedNodes n
      proxyIdToNodeName := proxies }.withNodeTables
        (s.nodeTables.loop (fun _ _ => 0) (s.nodeIdMatchIndex.length + 1)
          (s.nodeIdMatchIndex.find nodeName)) := by
  unfold registered at h
  cases hnode : s.cachedNodes nodeName with
  | none =>
      rw [hnode] at h
      cases h
  | some node =>
      rw [hnode] at h
      obtain ⟨name, hproxy⟩ := Option.isSome_iff_exists.mp h
      refine ⟨fun id => if id = node.id then none else s.proxyIdToNodeName id, ?_⟩
      simp only [unCacheNode, hnode, hproxy, unCacheNodeLoop_eq]
      rfl

theorem unCacheDataObject_of_not {s : ObjectState} {dobjId : CString}
    (h : s.cachedDataObjects dobjId = false) : s.unCacheDataObject dobjId = s := by
  unfold unCacheDataObject
  rw [h]
  rfl

theorem unCacheDataObject_of_cached {s : ObjectState} {dobjId : CString}
    (h : s.cachedDataObjects dobjId = true) :
    s.unCacheDataObject dobjId = { s with
      cachedDataObjects := fun d => if d = dobjId then false else s.cachedDataObjects d
      }.withObjectTables
        (s.objectTables.loop nodeStart (s.dataObjectIdMatchIndex.length + 1)
          (s.dataObjectIdMatchIndex.find dobjId)) := by
  unfold unCacheDataObject
  rw [if_pos h, unCacheDataObjectLoop_eq]
  rfl

end ObjectState

/-! ## Whose a key is -/

def ofNode (nodeName key : CString) : Bool := nodeIdFromKey key = nodeName

def ofObject (dobjId key : CString) : Bool := key = getKey dobjId (nodeIdFromKey key)

theorem ofNode_getKey {d : CString} (hd : 58 ∉ d) (nodeName n : CString) :
    ofNode nodeName (getKey d n) = decide (n = nodeName) := by
  unfold ofNode
  rw [nodeIdFromKey_getKey hd]

theorem ofObject_getKey {dobjId d : CString} (h : 58 ∉ dobjId) (hd : 58 ∉ d) (n : CString) :
    ofObject dobjId (getKey d n) = decide (d = dobjId) := by
  unfold ofObject
  rw [nodeIdFromKey_getKey hd]
  refine decide_eq_decide.mpr ⟨fun heq => (getKey_inj hd h heq).1, fun heq => ?_⟩
  rw [heq]

namespace Sound

variable {s : ObjectState} {a : Spec}

theorem nodeSynced (h : Sound s a) : s.nodeTables.Synced (fun _ => True) where
  ownNodup := h.nodeOnce
  otherNodup := h.objectOnce
  own := h.nodeListed
  other := h.objectListed
  fine := fun _ _ => trivial

theorem objectSynced (h : Sound s a) :
    s.objectTables.Synced (fun e => nodeIdFromKey e.2 = e.1) where
  ownNodup := h.objectOnce
  otherNodup := h.nodeOnce
  own := h.objectListed
  other := h.nodeListed
  fine := by
    intro e he
    obtain ⟨d, hd, hkey⟩ := h.nodeOwner e he
    rw [hkey, nodeIdFromKey_getKey hd]

theorem ofNode_iff (h : Sound s a) (nodeName : CString) :
    ∀ e ∈ s.nodeIdMatchIndex, (ofNode nodeName e.2 = true ↔ e.1 = nodeName) := by
  intro e he
  obtain ⟨d, hd, hkey⟩ := h.nodeOwner e he
  rw [hkey, ofNode_getKey hd, decide_eq_true_eq]

theorem ofObject_iff (h : Sound s a) {dobjId : CString} (hid : 58 ∉ dobjId) :
    ∀ e ∈ s.dataObjectIdMatchIndex, (ofObject dobjId e.2 = true ↔ e.1 = dobjId) := by
  intro e he
  obtain ⟨hd, n, hkey⟩ := h.objectOwner e he
  rw [hkey, ofObject_getKey hid hd, decide_eq_true_eq]

end Sound

/-- `unCacheNode` searches the object index from the front. -/
theorem starts_zero : Tables.Starts (fun _ _ => 0) (fun _ => True) := by
  intro index _ _ key _ e he
  cases he

/-- `unCacheDataObject` searches the node index from the first entry of the node. -/
theorem starts_nodeStart :
    Tables.Starts ObjectState.nodeStart (fun e => nodeIdFromKey e.2 = e.1) := by
  intro index hfine _ key _ e he heq
  have hmem := List.mem_of_mem_take he
  unfold ObjectState.nodeStart Index.find at he
  have hnot : ∀ (l : Index) (x : CString × CString),
      x ∈ l.take ((l.findIdx? (fun e => e.1 = nodeIdFromKey key)).getD l.length) →
        x.1 ≠ nodeIdFromKey key := by
    intro l
    induction l with
    | nil =>
        intro x hx
        cases hx
    | cons y l ih =>
        intro x hx
        rw [List.findIdx?_cons] at hx
        by_cases hy : y.1 = nodeIdFromKey key
        · rw [if_pos (by simpa using hy)] at hx
          cases hx
        · rw [if_neg (by simpa using hy)] at hx
          have hx' : x ∈ (y :: l).take
              ((l.findIdx? (fun e => e.1 = nodeIdFromKey key)).getD l.length + 1) := by
            cases hfind : l.findIdx? (fun e => e.1 = nodeIdFromKey key) with
            | none => simpa [hfind] using hx
            | some i => simpa [hfind] using hx
          rw [List.take_succ_cons] at hx'
          rcases List.mem_cons.mp hx' with rfl | hx'
          · exact hy
          · exact ih x hx'
  exact hnot index e he (by rw [← hfine e hmem, heq])

/-! ## Steps -/

/-- What a call needs of the state to do what it is for. -/
def Sure (s : ObjectState) : ObjectState.Call → Prop
  | .unCacheNode nodeName =>
      s.nodeIdMatchIndex.own nodeName = [] ∨
        s.registered nodeName = true ∧ Tables.Fits s.nodeIdMatchIndex nodeName
  | .unCacheDataObject dobjId => Tables.Fits s.dataObjectIdMatchIndex dobjId
  | .setMatchStrength dobjId nodeName ratio threshold =>
      match s.dataObjectIdMatch (getKey dobjId nodeName) with
      | none => True
      | some m => (Match.strength ⟨ratio, threshold⟩).isSome = true ∧ m.strength.isSome = true
  | _ => True

instance (index : Index) (key : CString) : Decidable (Tables.Fits index key) := by
  unfold Tables.Fits
  infer_instance

instance (s : ObjectState) (call : ObjectState.Call) : Decidable (Sure s call) := by
  cases call with
  | setMatchStrength d n r t =>
      unfold Sure
      dsimp only
      cases s.dataObjectIdMatch (getKey d n) <;> dsimp only <;> infer_instance
  | _ =>
      unfold Sure
      infer_instance

theorem strength_eq {m : Match} {x : Int} (h : m.strength = some x) : x = m.ratio - m.threshold := by
  unfold Match.strength at h
  split at h
  · exact (Option.some.inj h).symm
  · cases h

namespace Sound

variable {s s' : ObjectState} {a a' : Spec}
variable {d dobjId n : CString}
variable {nodeName : CString} {r t : Int}

theorem since_ne_nil (h : Sound s a) (hd : 58 ∉ d)
    (hsome : (s.dataObjectIdMatch (getKey d n)).isSome = true) : a.since d n ≠ [] :=
  (h.agrees.present d n hd).mp hsome

/-- The key of every match is that of a pair. -/
theorem pair_of_key (h : Sound s a) {k : CString} (hk : (s.dataObjectIdMatch k).isSome = true) :
    ∃ d n, 58 ∉ d ∧ k = getKey d n := by
  obtain ⟨e, he, rfl⟩ := List.mem_map.mp ((h.nodeListed k).mpr hk)
  obtain ⟨d, hd, hkey⟩ := h.nodeOwner e he
  exact ⟨d, e.1, hd, hkey⟩

/-- What is wanted after a removal: the matches of a kind are gone, and no others. -/
theorem exact_of_agrees (h : Sound s a) (hgood : Agrees s' a') {p : CString → Bool}
    (hsince : ∀ d n, 58 ∉ d → a'.since d n = if p (getKey d n) then [] else a.since d n)
    {k : CString} (hk : (s.dataObjectIdMatch k).isSome = true) :
    (s'.dataObjectIdMatch k).isSome = true ↔ p k = false := by
  obtain ⟨d, n, hd, rfl⟩ := h.pair_of_key hk
  rw [hgood.present d n hd, hsince d n hd]
  by_cases hp : p (getKey d n) = true
  · rw [if_pos hp, hp]
    simp
  · rw [if_neg hp]
    exact iff_of_true (h.since_ne_nil hd hk) (Bool.eq_false_iff.mpr hp)

/-! ### `unCacheNode` -/

theorem since_unCacheNode (a : Spec) (nodeName : CString) : ∀ d n, 58 ∉ d →
    (a.step (.unCacheNode nodeName)).since d n =
      if ofNode nodeName (getKey d n) then [] else a.since d n := by
  intro d n hd
  rw [ofNode_getKey hd]
  simp [Spec.step]

theorem unCacheNode_tables (h : Sound s a) (hsure : Sure s (.unCacheNode nodeName)) :
    (s.unCacheNode nodeName).nodeTables = s.nodeTables.drop (ofNode nodeName) ∧
      (s.unCacheNode nodeName).cachedDataObjects = s.cachedDataObjects ∧
      (s.unCacheNode nodeName).cachedNodes =
        fun n => if n = nodeName then none else s.cachedNodes n := by
  by_cases hreg : s.registered nodeName = true
  · obtain ⟨proxies, heq⟩ := ObjectState.unCacheNode_of_registered hreg
    have hfits : Tables.Fits s.nodeIdMatchIndex nodeName := hsure.elim Or.inl And.right
    rw [heq]
    exact ⟨Tables.loop_of_fits starts_zero h.nodeSynced h.nodeSorted (h.ofNode_iff nodeName) hfits,
      rfl, rfl⟩
  · have hnil : s.nodeIdMatchIndex.own nodeName = [] := hsure.elim id (fun h => absurd h.1 hreg)
    rw [ObjectState.unCacheNode_of_not (Bool.eq_false_iff.mpr hreg)]
    refine ⟨(Tables.drop_eq_self h.nodeSynced ?_).symm, rfl, rfl⟩
    intro k hk
    obtain ⟨e, he, rfl⟩ := List.mem_map.mp hk
    refine Bool.eq_false_iff.mpr (fun hof => List.filter_eq_nil_iff.mp hnil e he ?_)
    simpa using (h.ofNode_iff nodeName e he).mp hof

theorem unCacheNode (h : Sound s a) (hsure : Sure s (.unCacheNode nodeName)) :
    Sound (s.unCacheNode nodeName) (a.step (.unCacheNode nodeName)) := by
  obtain ⟨htables, hobjects, hnodes⟩ := h.unCacheNode_tables hsure
  refine h.removed (congrArg Tables.strengths htables) (congrArg Tables.other htables)
    (congrArg Tables.own htables) (since_unCacheNode a nodeName) ?_ ?_ h.objectId ?_
  · intro n
    rw [hnodes]
    unfold Spec.step
    dsimp only
    split
    · rfl
    · exact h.node n
  · rw [hobjects]
    exact h.object
  · intro d n hne
    unfold Spec.step at hne ⊢
    dsimp only at hne ⊢
    by_cases hn : n = nodeName
    · rw [if_pos hn] at hne
      exact absurd rfl hne
    · rw [if_neg hn] at hne ⊢
      exact h.cached d n hne

theorem sure_of_unCacheNode (h : Sound s a)
    (hgood : Agrees (s.unCacheNode nodeName) (a.step (.unCacheNode nodeName))) :
    Sure s (.unCacheNode nodeName) := by
  have hexact : ∀ k ∈ s.nodeIdMatchIndex.map Prod.snd,
      (((s.unCacheNode nodeName).dataObjectIdMatch k).isSome = true ↔
        ofNode nodeName k = false) := fun k hk =>
    h.exact_of_agrees hgood (since_unCacheNode a nodeName) ((h.nodeListed k).mp hk)
  by_cases hreg : s.registered nodeName = true
  · obtain ⟨proxies, heq⟩ := ObjectState.unCacheNode_of_registered hreg
    rw [heq] at hexact
    exact Or.inr ⟨hreg, Tables.fits_of_loop starts_zero h.nodeSynced h.nodeSorted
      (h.ofNode_iff nodeName) hexact⟩
  · -- nothing was removed, so there was nothing to remove
    rw [ObjectState.unCacheNode_of_not (Bool.eq_false_iff.mpr hreg)] at hexact
    refine Or.inl (List.filter_eq_nil_iff.mpr (fun e he hname => ?_))
    have hvalue := List.mem_map_of_mem (f := Prod.snd) he
    have hof := (h.ofNode_iff nodeName e he).mpr (by simpa using hname)
    rw [(hexact e.2 hvalue).mp ((h.nodeListed e.2).mp hvalue)] at hof
    cases hof

/-! ### `unCacheDataObject` -/

theorem since_unCacheDataObject (a : Spec) (hid : 58 ∉ dobjId) :
    ∀ d n, 58 ∉ d → (a.step (.unCacheDataObject dobjId)).since d n =
      if ofObject dobjId (getKey d n) then [] else a.since d n := by
  intro d n hd
  rw [ofObject_getKey hid hd]
  simp [Spec.step]

/-- An object that is not cached has no entry. -/
theorem own_nil (h : Sound s a) (hnot : s.cachedDataObjects dobjId = false) :
    s.dataObjectIdMatchIndex.own dobjId = [] := by
  refine List.filter_eq_nil_iff.mpr (fun e he hid => ?_)
  obtain ⟨hd, n, hkey⟩ := h.objectOwner e he
  have hsome := (h.objectListed e.2).mp (List.mem_map_of_mem he)
  rw [hkey] at hsome
  have hcached := (h.cached _ _ (h.since_ne_nil hd hsome)).1
  rw [show e.1 = dobjId by simpa using hid, ← h.object, hnot] at hcached
  cases hcached

theorem unCacheDataObject (h : Sound s a) (hsure : Sure s (.unCacheDataObject dobjId)) :
    Sound (s.unCacheDataObject dobjId) (a.step (.unCacheDataObject dobjId)) := by
  cases hcached : s.cachedDataObjects dobjId with
  | false =>
      -- the specification has nothing of the object either
      have hspec : a.objects dobjId = false := by rw [← h.object, hcached]
      have hsince : (a.step (.unCacheDataObject dobjId)).since = a.since := by
        funext d n
        unfold Spec.step
        dsimp only
        split
        · rename_i heq
          by_contra hne
          have := (h.cached d n (fun hnil => hne hnil.symm)).1
          rw [heq, hspec] at this
          cases this
        · rfl
      have hobjects : (a.step (.unCacheDataObject dobjId)).objects = a.objects := by
        funext d
        unfold Spec.step
        dsimp only
        split
        · rename_i heq
          rw [heq, hspec]
        · rfl
      rw [ObjectState.unCacheDataObject_of_not hcached]
      refine h.caching rfl rfl rfl hsince h.node ?_ ?_ ?_
      · rw [hobjects]
        exact h.object
      · rw [hobjects]
        exact h.objectId
      · rw [hobjects]
        exact fun d n hboth => hboth
  | true =>
      have hid : 58 ∉ dobjId := h.objectId dobjId (by rw [← h.object, hcached])
      have htables : (s.unCacheDataObject dobjId).objectTables =
          s.objectTables.drop (ofObject dobjId) := by
        rw [ObjectState.unCacheDataObject_of_cached hcached]
        exact Tables.loop_of_fits starts_nodeStart h.objectSynced h.objectSorted
          (h.ofObject_iff hid) hsure
      refine h.removed (congrArg Tables.strengths htables) (congrArg Tables.own htables)
        (congrArg Tables.other htables) (since_unCacheDataObject a hid) ?_ ?_ ?_ ?_
      · rw [ObjectState.unCacheDataObject_of_cached hcached]
        exact h.node
      · intro d
        rw [ObjectState.unCacheDataObject_of_cached hcached]
        unfold Spec.step
        dsimp only [ObjectState.withObjectTables]
        split
        · rfl
        · exact h.object d
      · intro d hd
        unfold Spec.step at hd
        dsimp only at hd
        split at hd
        · cases hd
        · exact h.objectId d hd
      · intro d n hne
        unfold Spec.step at hne ⊢
        dsimp only at hne ⊢
        by_cases hd : d = dobjId
        · rw [if_pos hd] at hne
          exact absurd rfl hne
        · rw [if_neg hd] at hne ⊢
          exact h.cached d n hne

theorem sure_of_unCacheDataObject (h : Sound s a)
    (hgood : Agrees (s.unCacheDataObject dobjId) (a.step (.unCacheDataObject dobjId))) :
    Sure s (.unCacheDataObject dobjId) := by
  cases hcached : s.cachedDataObjects dobjId with
  | false => exact Or.inl (h.own_nil hcached)
  | true =>
      have hid : 58 ∉ dobjId := h.objectId dobjId (by rw [← h.object, hcached])
      have hexact : ∀ k ∈ s.dataObjectIdMatchIndex.map Prod.snd,
          (((s.unCacheDataObject dobjId).dataObjectIdMatch k).isSome = true ↔
            ofObject dobjId k = false) := fun k hk =>
        h.exact_of_agrees hgood (since_unCacheDataObject a hid) ((h.objectListed k).mp hk)
      rw [ObjectState.unCacheDataObject_of_cached hcached] at hexact
      exact Tables.fits_of_loop starts_nodeStart h.objectSynced h.objectSorted
        (h.ofObject_iff hid) hexact

/-! ### `setMatchStrength` -/

/-- A match comes in over those that were set for its pair. -/
theorem kept_put (h : Sound s a) (hd : 58 ∉ d) (m : Match)
    (hbest : ∀ m' ∈ a.since d n, m'.ratio - m'.threshold ≤ m.ratio - m.threshold) :
    ∀ d' n', 58 ∉ d' →
      Kept ((a.step (.setMatchStrength d n m.ratio m.threshold)).since d' n')
        ((s.putMatch (getKey d n) m).dataObjectIdMatch (getKey d' n')) := by
  intro d' n' hd'
  unfold Spec.step ObjectState.putMatch
  dsimp only
  by_cases hsame : d' = d ∧ n' = n
  · obtain ⟨rfl, rfl⟩ := hsame
    rw [if_pos ⟨rfl, rfl⟩, if_pos rfl]
    refine ⟨List.mem_cons_self, fun m' hm' => ?_⟩
    rcases List.mem_cons.mp hm' with rfl | hm'
    · exact le_refl _
    · exact hbest m' hm'
  · rw [if_neg hsame, if_neg (fun heq => hsame (getKey_inj hd' hd heq))]
    exact h.kept d' n' hd'

theorem cached_setMatchStrength (h : Sound s a) (hmeant : a.Meant (.setMatchStrength d n r t)) :
    ∀ d' n', (a.step (.setMatchStrength d n r t)).since d' n' ≠ [] →
      a.objects d' = true ∧ a.nodes n' = true := by
  intro d' n' hne
  unfold Spec.step at hne
  dsimp only at hne
  by_cases hsame : d' = d ∧ n' = n
  · rw [hsame.1, hsame.2]
    exact hmeant
  · rw [if_neg hsame] at hne
    exact h.cached d' n' hne

/-- The first match of a pair is listed in both indices. -/
theorem setMatchStrength_first (h : Sound s a) (hmeant : a.Meant (.setMatchStrength d n r t))
    (hnone : s.dataObjectIdMatch (getKey d n) = none) :
    Sound { s.putMatch (getKey d n) ⟨r, t⟩ with
        dataObjectIdMatchIndex := s.dataObjectIdMatchIndex.insert (d, getKey d n)
        nodeIdMatchIndex := s.nodeIdMatchIndex.insert (n, getKey d n) }
      (a.step (.setMatchStrength d n r t)) := by
  have hd : 58 ∉ d := h.objectId d hmeant.1
  have hsince : a.since d n = [] := by
    have hkept := h.kept d n hd
    rw [hnone] at hkept
    exact hkept
  -- the key is in neither index yet, as it has no match
  have hnodup : ∀ (index : Index) (x : CString), (index.map Prod.snd).Nodup →
      (∀ k, k ∈ index.map Prod.snd ↔ (s.dataObjectIdMatch k).isSome = true) →
      ((index.insert (x, getKey d n)).map Prod.snd).Nodup := by
    intro index x honce hlisted
    refine ((Index.perm_insert index _).map Prod.snd).nodup_iff.mpr ?_
    refine List.nodup_cons.mpr ⟨fun hmem => ?_, honce⟩
    have hsome := (hlisted _).mp hmem
    rw [hnone] at hsome
    cases hsome
  have hlists : ∀ (index : Index) (x : CString),
      (∀ k, k ∈ index.map Prod.snd ↔ (s.dataObjectIdMatch k).isSome = true) →
      ∀ k, k ∈ (index.insert (x, getKey d n)).map Prod.snd ↔
        ((s.putMatch (getKey d n) ⟨r, t⟩).dataObjectIdMatch k).isSome = true := by
    intro index x hlisted k
    rw [((Index.perm_insert index _).map Prod.snd).mem_iff, List.map_cons, List.mem_cons,
      hlisted k]
    unfold ObjectState.putMatch
    dsimp only
    by_cases hk : k = getKey d n
    · simp [hk]
    · simp [hk]
  refine ⟨hnodup _ _ h.objectOnce h.objectListed, hnodup _ _ h.nodeOnce h.nodeListed,
    hlists _ _ h.objectListed, hlists _ _ h.nodeListed, ?_, ?_, h.objectSorted.insert _,
    h.nodeSorted.insert _, h.kept_put hd ⟨r, t⟩ ?_, h.node, h.object, h.objectId,
    h.cached_setMatchStrength hmeant⟩
  · intro e he
    rcases Index.mem_insert.mp he with rfl | he
    · exact ⟨hd, n, rfl⟩
    · exact h.objectOwner e he
  · intro e he
    rcases Index.mem_insert.mp he with rfl | he
    · exact ⟨d, hd, rfl⟩
    · exact h.nodeOwner e he
  · rw [hsince]
    intro m' hm'
    cases hm'

/-- A better match takes the place of the one there, and is listed already. -/
theorem setMatchStrength_better (h : Sound s a) {m : Match}
    (hmeant : a.Meant (.setMatchStrength d n r t))
    (hsome : s.dataObjectIdMatch (getKey d n) = some m) (hlt : m.ratio - m.threshold ≤ r - t) :
    Sound (s.putMatch (getKey d n) ⟨r, t⟩) (a.step (.setMatchStrength d n r t)) := by
  have hd : 58 ∉ d := h.objectId d hmeant.1
  have hbest : ∀ m' ∈ a.since d n, m'.ratio - m'.threshold ≤ r - t := by
    have hkept := h.kept d n hd
    rw [hsome] at hkept
    exact fun m' hm' => le_trans (hkept.2 m' hm') hlt
  have hsame : ∀ k, ((s.putMatch (getKey d n) ⟨r, t⟩).dataObjectIdMatch k).isSome =
      (s.dataObjectIdMatch k).isSome := by
    intro k
    unfold ObjectState.putMatch
    dsimp only
    split
    · rename_i hk
      rw [hk, hsome]
      rfl
    · rfl
  refine ⟨h.objectOnce, h.nodeOnce, ?_, ?_, h.objectOwner, h.nodeOwner, h.objectSorted,
    h.nodeSorted, h.kept_put hd ⟨r, t⟩ hbest, h.node, h.object, h.objectId,
    h.cached_setMatchStrength hmeant⟩
  · intro k
    rw [hsame]
    exact h.objectListed k
  · intro k
    rw [hsame]
    exact h.nodeListed k

/-- A match that is no better is not kept. -/
theorem setMatchStrength_worse (h : Sound s a) {m : Match}
    (hmeant : a.Meant (.setMatchStrength d n r t))
    (hsome : s.dataObjectIdMatch (getKey d n) = some m) (hle : r - t ≤ m.ratio - m.threshold) :
    Sound s (a.step (.setMatchStrength d n r t)) := by
  refine { h with kept := ?_, cached := h.cached_setMatchStrength hmeant }
  intro d' n' hd'
  have hkept := h.kept d' n' hd'
  unfold Spec.step
  dsimp only
  by_cases hpair : d' = d ∧ n' = n
  · obtain ⟨rfl, rfl⟩ := hpair
    rw [hsome] at hkept ⊢
    rw [if_pos ⟨rfl, rfl⟩]
    refine ⟨List.mem_cons_of_mem _ hkept.1, fun m' hm' => ?_⟩
    rcases List.mem_cons.mp hm' with rfl | hm'
    · exact hle
    · exact hkept.2 m' hm'
  · rw [if_neg hpair]
    exact hkept

theorem setMatchStrength (h : Sound s a) (hmeant : a.Meant (.setMatchStrength d n r t))
    (hsure : Sure s (.setMatchStrength d n r t)) :
    ∃ s', s.setMatchStrength d n r t = some s' ∧ Sound s' (a.step (.setMatchStrength d n r t)) := by
  unfold Sure at hsure
  unfold ObjectState.setMatchStrength
  dsimp only at hsure ⊢
  cases hm : s.dataObjectIdMatch (getKey d n) with
  | none => exact ⟨_, rfl, h.setMatchStrength_first hmeant hm⟩
  | some m =>
      rw [hm] at hsure
      obtain ⟨newMatch, hnew⟩ := Option.isSome_iff_exists.mp hsure.1
      obtain ⟨oldMatch, hold⟩ := Option.isSome_iff_exists.mp hsure.2
      have hnew' : newMatch = r - t := strength_eq hnew
      have hold' := strength_eq hold
      dsimp only
      rw [hnew, hold]
      refine ⟨_, rfl, ?_⟩
      by_cases hle : newMatch ≤ oldMatch
      · rw [if_pos hle]
        exact h.setMatchStrength_worse hmeant hm (by omega)
      · rw [if_neg hle]
        exact h.setMatchStrength_better hmeant hm (by omega)

theorem sure_of_setMatchStrength (hstep : s.setMatchStrength d n r t = some s') :
    Sure s (.setMatchStrength d n r t) := by
  unfold ObjectState.setMatchStrength at hstep
  unfold Sure
  dsimp only at hstep ⊢
  cases hm : s.dataObjectIdMatch (getKey d n) with
  | none => exact trivial
  | some m =>
      rw [hm] at hstep
      obtain ⟨newMatch, hnew, hstep⟩ := Option.bind_eq_some_iff.mp hstep
      obtain ⟨oldMatch, hold, -⟩ := Option.bind_eq_some_iff.mp hstep
      exact ⟨by rw [hnew]; rfl, by rw [hold]; rfl⟩

/-! ### Caching -/

theorem cacheNode (h : Sound s a) (node : NamedNode) :
    Sound (s.cacheNode node) (a.step (.cacheNode node)) := by
  have hmore : ∀ d n, a.objects d = true ∧ a.nodes n = true →
      a.objects d = true ∧ (if n = node.name then true else a.nodes n) = true := by
    intro d n hboth
    refine ⟨hboth.1, ?_⟩
    split
    · rfl
    · exact hboth.2
  unfold ObjectState.cacheNode
  split
  · rename_i hsome
    refine h.caching rfl rfl rfl rfl (fun n => ?_) h.object h.objectId hmore
    unfold Spec.step
    dsimp only
    split
    · rename_i heq
      rw [heq, hsome]
    · exact h.node n
  · refine h.caching rfl rfl rfl rfl (fun n => ?_) h.object h.objectId hmore
    unfold Spec.step
    dsimp only
    split
    · rfl
    · exact h.node n

theorem cacheDataObject (h : Sound s a) (hid : 58 ∉ dobjId) :
    Sound (s.cacheDataObject dobjId) (a.step (.cacheDataObject dobjId)) := by
  have hmore : ∀ d n, a.objects d = true ∧ a.nodes n = true →
      (if d = dobjId then true else a.objects d) = true ∧ a.nodes n = true := by
    intro d n hboth
    refine ⟨?_, hboth.2⟩
    split
    · rfl
    · exact hboth.1
  have hids : ∀ d, (if d = dobjId then true else a.objects d) = true → 58 ∉ d := by
    intro d hd
    split at hd
    · rename_i heq
      rw [heq]
      exact hid
    · exact h.objectId d hd
  unfold ObjectState.cacheDataObject
  split
  · rename_i hcached
    refine h.caching rfl rfl rfl rfl h.node (fun d => ?_) hids hmore
    unfold Spec.step
    dsimp only
    split
    · rename_i heq
      rw [heq, hcached]
    · exact h.object d
  · refine h.caching rfl rfl rfl rfl h.node (fun d => ?_) hids hmore
    unfold Spec.step
    dsimp only
    split
    · rfl
    · exact h.object d

/-- **A call that is sure of its state keeps the invariant.** -/
theorem step (h : Sound s a) {call : ObjectState.Call} (hmeant : a.Meant call)
    (hsure : Sure s call) : ∃ s', s.step call = some s' ∧ Sound s' (a.step call) := by
  cases call with
  | cacheNode node => exact ⟨_, rfl, h.cacheNode node⟩
  | unCacheNode n => exact ⟨_, rfl, h.unCacheNode hsure⟩
  | cacheDataObject d => exact ⟨_, rfl, h.cacheDataObject hmeant⟩
  | unCacheDataObject d => exact ⟨_, rfl, h.unCacheDataObject hsure⟩
  | setMatchStrength d n r t => exact h.setMatchStrength hmeant hsure

/-- **And a call after which the state agrees was sure of it.** -/
theorem sure (h : Sound s a) {call : ObjectState.Call} (hstep : s.step call = some s')
    (hgood : Agrees s' (a.step call)) : Sure s call := by
  cases call with
  | cacheNode node => exact trivial
  | unCacheNode n =>
      obtain rfl := Option.some.inj hstep
      exact h.sure_of_unCacheNode hgood
  | cacheDataObject d => exact trivial
  | unCacheDataObject d =>
      obtain rfl := Option.some.inj hstep
      exact h.sure_of_unCacheDataObject hgood
  | setMatchStrength d n r t => exact sure_of_setMatchStrength hstep

end Sound

/-! ## Runs -/

/--
**The state does what it is for after every call of a run exactly when each removal finds
nothing to remove, or one match with at most one entry behind it in the index** (and a node's
id still in the proxy map), and each match set over another leaves differences that are `int`s.
-/
theorem indices_agree_iff (calls : List ObjectState.Call)
    (h : Guarded (fun a call => some (Spec.step a call)) Spec.Meant Spec.new calls) :
    (∀ pre post, calls = pre ++ post → ∃ s, run ObjectState.step ObjectState.new pre = some s ∧
        Agrees s (pre.foldl Spec.step Spec.new)) ↔
      Guarded ObjectState.step Sure ObjectState.new calls := by
  refine run_related_iff (R := Sound) ?_ ?_ ?_ calls ObjectState.new Spec.new Sound.new h
  · intro s a hs
    exact hs.agrees
  · intro s a call hs hmeant hsure
    exact hs.step hmeant hsure
  · intro s a call s' hs _ hstep hgood
    exact hs.sure hstep hgood

/-- Two nodes, an object that matches both and one that matches one, and a better match. -/
def agreeingCalls : List ObjectState.Call :=
  [.cacheNode ⟨lit "alice", lit "1"⟩, .cacheNode ⟨lit "bob", lit "2"⟩, .cacheDataObject (lit "d0"),
    .setMatchStrength (lit "d0") (lit "bob") 30 10, .setMatchStrength (lit "d0") (lit "bob") 50 10,
    .cacheDataObject (lit "d1"), .setMatchStrength (lit "d1") (lit "alice") 20 10,
    .unCacheNode (lit "alice"), .unCacheDataObject (lit "d0")]

theorem indices_agree_two_nodes :
    ∃ s, run ObjectState.step ObjectState.new agreeingCalls = some s ∧
      Agrees s (agreeingCalls.foldl Spec.step Spec.new) :=
  (indices_agree_iff agreeingCalls (by decide +kernel)).mpr (by decide +kernel)
    agreeingCalls [] (List.append_nil agreeingCalls).symm

/-- One node with two matches. -/
def twoMatches : List ObjectState.Call :=
  [.cacheNode ⟨lit "alice", lit "1"⟩, .cacheDataObject (lit "d0"), .cacheDataObject (lit "d1"),
    .setMatchStrength (lit "d0") (lit "alice") 30 10,
    .setMatchStrength (lit "d1") (lit "alice") 20 10, .unCacheNode (lit "alice")]

/-- When the node goes, one of its matches stays, and is answered. -/
theorem second_match_stays :
    ¬ ∀ calls, Guarded (fun a call => some (Spec.step a call)) Spec.Meant Spec.new calls →
      ∀ pre post, calls = pre ++ post →
        ∃ s, run ObjectState.step ObjectState.new pre = some s ∧
          Agrees s (pre.foldl Spec.step Spec.new) := by
  intro hall
  obtain ⟨s, hs, hgood⟩ := hall twoMatches (by decide +kernel) twoMatches [] (by simp)
  have hanswer : (run ObjectState.step ObjectState.new twoMatches).map
      (fun s => s.getMatchStrength (lit "d0") (lit "alice")) = some (30, 10) := by
    decide +kernel
  rw [hs, Option.map_some] at hanswer
  have hsince : (twoMatches.foldl Spec.step Spec.new).since (lit "d0") (lit "alice") = [] := by
    decide +kernel
  have hbest := hgood.best (lit "d0") (lit "alice") (by decide)
  rw [hsince, Option.some.inj hanswer] at hbest
  rcases hbest with ⟨-, hzero⟩ | ⟨m, hm, -⟩
  · cases hzero
  · cases hm

end Encoders.Replication
