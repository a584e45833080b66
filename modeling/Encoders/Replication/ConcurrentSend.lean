import Encoders.Replication.Loops
import Mathlib.Data.List.Perm.Subperm

/-!
# `ReplicationConcurrentSend`

The tokens of the sends in flight, a `BasicMap` from nodes to the objects on their way to them.
The loops of this class start at the first entry of a node and stop at the first of another; at
`end()` they have no rounds. The lemmas say what each operation does to the set of tokens, and
from that, what holds of it after any calls.
-/

namespace Encoders.Replication

open Encoders.Lib Encoders.Data Encoders.Store

/-- `class ReplicationConcurrentSend`. Configuration makes a maximum below one a one. -/
structure ReplicationConcurrentSend where
  nodeTokens : Index
  maxTokens : Int
  tokensPerNode : Bool
  maxTokens_pos : 1 ≤ maxTokens

namespace ReplicationConcurrentSend

variable {dobjId nodeId : CString}

theorem defaultConn_pos : (1 : Int) ≤ 5 := by decide

/-- `ReplicationConcurrentSend()`, with `REPL_CONN_SEND_DEFAULT_CONN` tokens for each node. -/
def new : ReplicationConcurrentSend where
  nodeTokens := []
  maxTokens := 5
  tokensPerNode := true
  maxTokens_pos := defaultConn_pos

/-- The entries a loop over a node goes through. -/
def ofNode (c : ReplicationConcurrentSend) (nodeId : CString) : Index :=
  (c.nodeTokens.drop (c.nodeTokens.find nodeId)).takeWhile (fun e => e.1 = nodeId)

/-- `tokenAvailable` -/
def tokenAvailable (c : ReplicationConcurrentSend) (nodeId : CString) : Bool :=
  if c.tokensPerNode then
    if c.nodeTokens.find nodeId = c.nodeTokens.length then true
    else
      let rest := c.nodeTokens.drop (c.nodeTokens.find nodeId)
      ((rest.filter (fun e => e.1 = nodeId)).length : Int) < c.maxTokens
  else (c.nodeTokens.length : Int) < c.maxTokens

/-- `freeToken` -/
def freeToken (c : ReplicationConcurrentSend) (nodeId dobjId : CString) :
    ReplicationConcurrentSend :=
  if nodeId.length = 0 then c
  else
    let before := c.nodeTokens.take (c.nodeTokens.find nodeId)
    let behind := (c.nodeTokens.drop (c.nodeTokens.find nodeId)).dropWhile (fun e => e.1 = nodeId)
    { c with
      nodeTokens := before ++ (c.ofNode nodeId).eraseP (fun e => e.2 = dobjId) ++ behind }

/-- `tokenExists` -/
def tokenExists (c : ReplicationConcurrentSend) (nodeId dobjId : CString) : Bool :=
  (c.ofNode nodeId).any (fun e => e.2 = dobjId)

/-- `reserveToken`. The entries are counted up to one of the object. -/
def reserveToken (c : ReplicationConcurrentSend) (nodeId dobjId : CString) :
    ReplicationConcurrentSend :=
  if c.tokensPerNode = false ∧ c.maxTokens ≤ c.nodeTokens.length then c
  else if c.tokenExists nodeId dobjId then c
  else if c.maxTokens ≤ (c.ofNode nodeId).length then c
  else { c with nodeTokens := c.nodeTokens.insert (nodeId, dobjId) }

/-- `getReservedDataObjectsForNode` -/
def getReservedDataObjectsForNode (c : ReplicationConcurrentSend) (nodeId : CString) :
    List CString :=
  ((c.ofNode nodeId).map Prod.snd).reverse

/-! ## The set of tokens -/

/-- The array is in order, and has no token twice. -/
structure Orderly (c : ReplicationConcurrentSend) : Prop where
  sorted : c.nodeTokens.Sorted
  nodup : c.nodeTokens.Nodup

variable {c : ReplicationConcurrentSend}

theorem ofNode_eq (h : c.nodeTokens.Sorted) (nodeId : CString) :
    c.ofNode nodeId = c.nodeTokens.own nodeId := by
  unfold ofNode
  by_cases hown : c.nodeTokens.own nodeId = []
  · rw [Index.find_of_own_nil hown, hown, List.drop_length]
    rfl
  · rw [Index.drop_find h hown, List.takeWhile_append_of_pos]
    · have hlater : (c.nodeTokens.later nodeId).takeWhile (fun e => e.1 = nodeId) = [] := by
        cases hl : c.nodeTokens.later nodeId with
        | nil => rfl
        | cons e rest =>
            have he : e ∈ c.nodeTokens.later nodeId := hl ▸ List.mem_cons_self
            have hlt : nodeId < e.1 := by simpa using (List.mem_filter.mp he).2
            rw [List.takeWhile_cons_of_neg (by simpa using hlt.ne')]
      rw [hlater, List.append_nil]
    · intro e he
      exact (List.mem_filter.mp he).2

/-- The array is what is before the entries of a node, these, and what is behind. -/
theorem parts (c : ReplicationConcurrentSend) (nodeId : CString) :
    c.nodeTokens.take (c.nodeTokens.find nodeId) ++ c.ofNode nodeId ++
      (c.nodeTokens.drop (c.nodeTokens.find nodeId)).dropWhile (fun e => e.1 = nodeId) =
        c.nodeTokens := by
  unfold ofNode
  rw [List.append_assoc, List.takeWhile_append_dropWhile, List.take_append_drop]

theorem mem_ofNode (h : c.nodeTokens.Sorted) {e : CString × CString} :
    e ∈ c.ofNode nodeId ↔ e ∈ c.nodeTokens ∧ e.1 = nodeId := by
  rw [ofNode_eq h]
  unfold Index.own
  rw [List.mem_filter, decide_eq_true_eq]

theorem exists_ofNode_iff (h : c.nodeTokens.Sorted) :
    (∃ e ∈ c.ofNode nodeId, e.2 = dobjId) ↔ (nodeId, dobjId) ∈ c.nodeTokens := by
  constructor
  · rintro ⟨⟨n, d⟩, he, rfl⟩
    obtain ⟨hmem, rfl⟩ := (mem_ofNode h).mp he
    exact hmem
  · intro hmem
    exact ⟨(nodeId, dobjId), (mem_ofNode h).mpr ⟨hmem, rfl⟩, rfl⟩

theorem tokenExists_iff (h : c.nodeTokens.Sorted) :
    c.tokenExists nodeId dobjId = true ↔ (nodeId, dobjId) ∈ c.nodeTokens := by
  unfold tokenExists
  simp only [List.any_eq_true, decide_eq_true_eq]
  exact exists_ofNode_iff h

theorem mem_reserved (h : c.nodeTokens.Sorted) :
    dobjId ∈ c.getReservedDataObjectsForNode nodeId ↔ (nodeId, dobjId) ∈ c.nodeTokens := by
  unfold getReservedDataObjectsForNode
  rw [List.mem_reverse, List.mem_map]
  exact exists_ofNode_iff h

/-- **Freeing takes the token out.** -/
theorem freeToken_spec (h : c.Orderly) (hid : nodeId ≠ []) (dobjId : CString) :
    (c.freeToken nodeId dobjId).Orderly ∧
      (∀ e, e ∈ (c.freeToken nodeId dobjId).nodeTokens ↔
        e ∈ c.nodeTokens ∧ e ≠ (nodeId, dobjId)) := by
  have hlen : nodeId.length ≠ 0 := fun hzero => hid (List.length_eq_zero_iff.mp hzero)
  have heq : (c.freeToken nodeId dobjId).nodeTokens = c.nodeTokens.erase (nodeId, dobjId) := by
    unfold freeToken
    rw [if_neg hlen]
    dsimp only
    -- among the entries of the node, those of the object are the token itself
    have hsame : (c.ofNode nodeId).eraseP (fun e => e.2 = dobjId) =
        (c.ofNode nodeId).erase (nodeId, dobjId) := by
      rw [List.erase_eq_eraseP']
      have hcongr : ∀ l : Index, (∀ e ∈ l, e.1 = nodeId) →
          l.eraseP (fun e => e.2 = dobjId) = l.eraseP (· == (nodeId, dobjId)) := by
        intro l
        induction l with
        | nil => exact fun _ => rfl
        | cons e l ih =>
            intro hl
            obtain ⟨n, d⟩ := e
            obtain rfl : n = nodeId := hl _ List.mem_cons_self
            have hrest := ih (fun f hf => hl f (List.mem_cons_of_mem _ hf))
            by_cases hd : d = dobjId
            · rw [List.eraseP_cons_of_pos (by simpa using hd),
                List.eraseP_cons_of_pos (by simp [hd])]
            · rw [List.eraseP_cons_of_neg (by simpa using hd),
                List.eraseP_cons_of_neg (by simp [hd]), hrest]
      exact hcongr _ (fun e he => ((mem_ofNode h.sorted).mp he).2)
    have hbefore : (nodeId, dobjId) ∉ c.nodeTokens.take (c.nodeTokens.find nodeId) := by
      intro hmem
      by_cases htok : (nodeId, dobjId) ∈ c.ofNode nodeId
      · -- it would be there twice
        have hnodup := h.nodup
        rw [← c.parts nodeId, List.append_assoc] at hnodup
        have hdisj := (List.nodup_append.mp hnodup).2.2 _ hmem _ (List.mem_append_left _ htok)
        exact hdisj rfl
      · exact htok ((mem_ofNode h.sorted).mpr ⟨List.mem_of_mem_take hmem, rfl⟩)
    rw [hsame]
    conv_rhs => rw [← c.parts nodeId]
    rw [List.append_assoc, List.append_assoc, List.erase_append_right _ hbefore]
    by_cases htok : (nodeId, dobjId) ∈ c.ofNode nodeId
    · rw [List.erase_append_left _ htok]
    · have hbehind : (nodeId, dobjId) ∉
          (c.nodeTokens.drop (c.nodeTokens.find nodeId)).dropWhile (fun e => e.1 = nodeId) := by
        intro hmem
        have hdrop := (List.dropWhile_sublist _).subset hmem
        exact htok ((mem_ofNode h.sorted).mpr ⟨List.mem_of_mem_drop hdrop, rfl⟩)
      rw [List.erase_append_right _ htok, List.erase_of_not_mem htok,
        List.erase_of_not_mem hbehind]
  refine ⟨⟨?_, ?_⟩, fun e => ?_⟩
  · rw [heq]
    exact List.Pairwise.sublist List.erase_sublist h.sorted
  · rw [heq]
    exact h.nodup.erase _
  · rw [heq, h.nodup.mem_erase_iff, and_comm]

/-- How many tokens count against the maximum. -/
def used (c : ReplicationConcurrentSend) (nodeId : CString) : Nat :=
  if c.tokensPerNode then (c.nodeTokens.own nodeId).length else c.nodeTokens.length

theorem tokenAvailable_iff (h : c.nodeTokens.Sorted) (nodeId : CString) :
    c.tokenAvailable nodeId = true ↔ (c.used nodeId : Int) < c.maxTokens := by
  unfold tokenAvailable used
  by_cases hper : c.tokensPerNode = true
  · rw [if_pos hper, if_pos hper]
    by_cases hown : c.nodeTokens.own nodeId = []
    · have := c.maxTokens_pos
      rw [if_pos (Index.find_of_own_nil hown), hown]
      simp only [List.length_nil, true_iff]
      omega
    · have hlater : (c.nodeTokens.later nodeId).filter (fun e => e.1 = nodeId) = [] := by
        refine List.filter_eq_nil_iff.mpr (fun e he => ?_)
        have hlt : nodeId < e.1 := by simpa using (List.mem_filter.mp he).2
        simpa using hlt.ne'
      have hfind : c.nodeTokens.find nodeId ≠ c.nodeTokens.length := by
        intro hend
        have hdrop := Index.drop_find h hown
        rw [hend, List.drop_length] at hdrop
        exact hown (List.append_eq_nil_iff.mp hdrop.symm).1
      have hself : (c.nodeTokens.own nodeId).filter (fun e => e.1 = nodeId) =
          c.nodeTokens.own nodeId :=
        List.filter_eq_self.mpr (fun e he => (List.mem_filter.mp he).2)
      rw [if_neg hfind]
      dsimp only
      rw [Index.drop_find h hown, List.filter_append, hlater, List.append_nil, decide_eq_true_eq,
        hself]
  · rw [if_neg hper, if_neg hper, decide_eq_true_eq]

theorem used_ge (c : ReplicationConcurrentSend) (h : c.nodeTokens.Sorted) (nodeId : CString) :
    (c.ofNode nodeId).length ≤ c.used nodeId := by
  rw [ofNode_eq h]
  unfold used
  split
  · exact le_refl _
  · exact List.length_filter_le _ _

/-- **A token that is available and not held is reserved.** -/
theorem reserveToken_spec (h : c.Orderly) (havail : c.tokenAvailable nodeId = true)
    (hnot : (nodeId, dobjId) ∉ c.nodeTokens) :
    (c.reserveToken nodeId dobjId).Orderly ∧
      (∀ e, e ∈ (c.reserveToken nodeId dobjId).nodeTokens ↔
        e = (nodeId, dobjId) ∨ e ∈ c.nodeTokens) ∧
      (c.reserveToken nodeId dobjId).used nodeId = c.used nodeId + 1 ∧
      (c.reserveToken nodeId dobjId).maxTokens = c.maxTokens := by
  have hlt := (tokenAvailable_iff h.sorted nodeId).mp havail
  have hge := used_ge c h.sorted nodeId
  have heq : c.reserveToken nodeId dobjId =
      { c with nodeTokens := c.nodeTokens.insert (nodeId, dobjId) } := by
    unfold reserveToken
    rw [if_neg, if_neg, if_neg]
    · omega
    · exact fun hexists => hnot ((tokenExists_iff h.sorted).mp hexists)
    · rintro ⟨hper, hfull⟩
      unfold used at hlt
      rw [hper] at hlt
      simp only [Bool.false_eq_true, if_false] at hlt
      omega
  have hperm := Index.perm_insert c.nodeTokens (nodeId, dobjId)
  rw [heq]
  refine ⟨⟨h.sorted.insert _, hperm.nodup_iff.mpr (List.nodup_cons.mpr ⟨hnot, h.nodup⟩)⟩,
    fun e => Index.mem_insert, ?_, rfl⟩
  unfold used
  dsimp only
  split
  · have hown := (hperm.filter (fun e => e.1 = nodeId)).length_eq
    rw [List.filter_cons_of_pos (by simp), List.length_cons] at hown
    exact hown
  · rw [hperm.length_eq, List.length_cons]

/-! ## Runs of reserving and freeing -/

/-- A call that changes the tokens. -/
inductive TokenCall where
  | reserveToken (nodeId dobjId : CString)
  | freeToken (nodeId dobjId : CString)

/-- Without tokens, as configured. -/
def configured (maxTokens : Int) (tokensPerNode : Bool) (h : 1 ≤ maxTokens) :
    ReplicationConcurrentSend :=
  ⟨[], maxTokens, tokensPerNode, h⟩

def call (c : ReplicationConcurrentSend) : TokenCall → ReplicationConcurrentSend
  | .reserveToken nodeId dobjId => c.reserveToken nodeId dobjId
  | .freeToken nodeId dobjId => c.freeToken nodeId dobjId

/-- The array is orderly, and holds no more tokens than are allowed. -/
structure Bounded (c : ReplicationConcurrentSend) : Prop where
  orderly : c.Orderly
  node : ∀ nodeId, ((c.ofNode nodeId).length : Int) ≤ c.maxTokens
  total : c.tokensPerNode = false → (c.nodeTokens.length : Int) ≤ c.maxTokens

/-- Reserving a token leaves the tokens as they are, or adds the one. -/
theorem reserveToken_cases (c : ReplicationConcurrentSend) (nodeId dobjId : CString) :
    c.reserveToken nodeId dobjId = c ∨
      c.reserveToken nodeId dobjId =
          { c with nodeTokens := c.nodeTokens.insert (nodeId, dobjId) } ∧
        ¬(c.tokensPerNode = false ∧ c.maxTokens ≤ c.nodeTokens.length) ∧
        ¬c.tokenExists nodeId dobjId ∧ ¬c.maxTokens ≤ (c.ofNode nodeId).length := by
  unfold reserveToken
  by_cases htotal : c.tokensPerNode = false ∧ c.maxTokens ≤ c.nodeTokens.length
  · exact .inl (if_pos htotal)
  by_cases hexists : c.tokenExists nodeId dobjId = true
  · exact .inl (by rw [if_neg htotal, if_pos hexists])
  by_cases hnode : c.maxTokens ≤ (c.ofNode nodeId).length
  · exact .inl (by rw [if_neg htotal, if_neg hexists, if_pos hnode])
  · exact .inr ⟨by rw [if_neg htotal, if_neg hexists, if_neg hnode], htotal, hexists, hnode⟩

/-- Freeing a token changes neither the maximum nor the mode. -/
theorem freeToken_config (c : ReplicationConcurrentSend) (nodeId dobjId : CString) :
    (c.freeToken nodeId dobjId).maxTokens = c.maxTokens ∧
      (c.freeToken nodeId dobjId).tokensPerNode = c.tokensPerNode := by
  unfold freeToken
  split
  · exact ⟨rfl, rfl⟩
  · exact ⟨rfl, rfl⟩

theorem freeToken_nil (c : ReplicationConcurrentSend) (dobjId : CString) :
    c.freeToken [] dobjId = c := rfl

theorem Bounded.configured {maxTokens : Int} {tokensPerNode : Bool} (h : 1 ≤ maxTokens) :
    (configured maxTokens tokensPerNode h).Bounded where
  orderly := ⟨List.Pairwise.nil, List.nodup_nil⟩
  node _ := show (0 : Int) ≤ maxTokens by omega
  total _ := show (0 : Int) ≤ maxTokens by omega

theorem Bounded.reserveToken (h : c.Bounded) (nodeId dobjId : CString) :
    (c.reserveToken nodeId dobjId).Bounded := by
  rcases c.reserveToken_cases nodeId dobjId with hsame | ⟨hinsert, htotal, hnew, hnode⟩
  · rwa [hsame]
  rw [hinsert]
  have hsorted := h.orderly.sorted
  have hnot : (nodeId, dobjId) ∉ c.nodeTokens :=
    fun hmem => hnew ((tokenExists_iff hsorted).mpr hmem)
  have hperm := Index.perm_insert c.nodeTokens (nodeId, dobjId)
  refine ⟨⟨hsorted.insert _, hperm.nodup_iff.mpr (List.nodup_cons.mpr ⟨hnot, h.orderly.nodup⟩)⟩,
    fun n => ?_, fun hper => ?_⟩
  · -- only the node that gets the token has one more
    rw [ofNode_eq (hsorted.insert _)]
    have hown := (hperm.filter (fun e => e.1 = n)).length_eq
    have hbefore := h.node n
    rw [ofNode_eq hsorted] at hbefore
    by_cases hn : nodeId = n
    · subst hn
      rw [ofNode_eq hsorted] at hnode
      rw [List.filter_cons_of_pos (by simp), List.length_cons] at hown
      unfold Index.own at hnode ⊢
      dsimp only
      omega
    · rw [List.filter_cons_of_neg (by simpa using hn)] at hown
      unfold Index.own at hbefore ⊢
      dsimp only
      omega
  · have hlen := hperm.length_eq
    rw [List.length_cons] at hlen
    have hroom : ¬c.maxTokens ≤ c.nodeTokens.length := fun hfull => htotal ⟨hper, hfull⟩
    dsimp only
    omega

theorem Bounded.freeToken (h : c.Bounded) (nodeId dobjId : CString) :
    (c.freeToken nodeId dobjId).Bounded := by
  by_cases hid : nodeId = []
  · rwa [hid, freeToken_nil]
  obtain ⟨horderly, hmem⟩ := freeToken_spec h.orderly hid dobjId
  obtain ⟨hmax, hper⟩ := c.freeToken_config nodeId dobjId
  have hsubset : (c.freeToken nodeId dobjId).nodeTokens ⊆ c.nodeTokens :=
    fun e he => ((hmem e).mp he).1
  refine ⟨horderly, fun n => ?_, fun hglobal => ?_⟩
  · have hown : (c.freeToken nodeId dobjId).ofNode n ⊆ c.ofNode n := by
      intro e he
      obtain ⟨hin, hn⟩ := (mem_ofNode horderly.sorted).mp he
      exact (mem_ofNode h.orderly.sorted).mpr ⟨hsubset hin, hn⟩
    have hnodup : ((c.freeToken nodeId dobjId).ofNode n).Nodup := by
      rw [ofNode_eq horderly.sorted]
      exact horderly.nodup.filter _
    have hle := (List.subperm_of_subset hnodup hown).length_le
    have hbefore := h.node n
    omega
  · have hle := (List.subperm_of_subset horderly.nodup hsubset).length_le
    have hbefore := h.total (hper ▸ hglobal)
    omega

theorem Bounded.call (h : c.Bounded) (op : TokenCall) : (c.call op).Bounded := by
  cases op with
  | reserveToken nodeId dobjId => exact h.reserveToken nodeId dobjId
  | freeToken nodeId dobjId => exact h.freeToken nodeId dobjId

theorem Bounded.calls (calls : List TokenCall) :
    ∀ {c : ReplicationConcurrentSend}, c.Bounded →
      (calls.foldl ReplicationConcurrentSend.call c).Bounded := by
  induction calls with
  | nil => exact fun h => h
  | cons op calls ih => exact fun h => ih (h.call op)

/-- A token is there to be had just when asking for one that is not held creates it. -/
theorem tokenAvailable_iff_created (h : c.Bounded) (hnot : c.tokenExists nodeId dobjId = false) :
    c.tokenAvailable nodeId = true ↔
      (c.reserveToken nodeId dobjId).tokenExists nodeId dobjId = true := by
  have hsorted := h.orderly.sorted
  have hnew : (nodeId, dobjId) ∉ c.nodeTokens := by
    rw [← tokenExists_iff hsorted, hnot]
    exact Bool.false_ne_true
  constructor
  · intro havail
    obtain ⟨horderly, hmem, _⟩ := reserveToken_spec h.orderly havail hnew
    exact (tokenExists_iff horderly.sorted).mpr ((hmem _).mpr (.inl rfl))
  · intro hcreated
    rw [tokenAvailable_iff hsorted]
    rcases c.reserveToken_cases nodeId dobjId with hsame | ⟨_, htotal, _, hnode⟩
    · rw [hsame, hnot] at hcreated
      cases hcreated
    · rw [ofNode_eq hsorted] at hnode
      unfold used
      split
      · omega
      · rename_i hper
        have hroom : ¬c.maxTokens ≤ c.nodeTokens.length :=
          fun hfull => htotal ⟨Bool.eq_false_iff.mpr hper, hfull⟩
        omega

/--
**The tokens over any run.** After any calls there is no token twice, and no more are out than
are allowed; what `tokenAvailable` says is what `reserveToken` does. Freeing takes that token and
no other, but for the node without an id, whose tokens stay.
-/
theorem tokens_over_calls (maxTokens : Int) (tokensPerNode : Bool) (h : 1 ≤ maxTokens)
    (calls : List TokenCall) :
    let c := calls.foldl call (configured maxTokens tokensPerNode h)
    c.nodeTokens.Nodup ∧
      (∀ nodeId, (((c.nodeTokens.filter (fun e => e.1 = nodeId)).length : Nat) : Int) ≤
        maxTokens) ∧
      (tokensPerNode = false → (c.nodeTokens.length : Int) ≤ maxTokens) ∧
      (∀ nodeId dobjId, c.tokenExists nodeId dobjId = true ↔ (nodeId, dobjId) ∈ c.nodeTokens) ∧
      (∀ nodeId dobjId, c.tokenExists nodeId dobjId = false →
        (c.tokenAvailable nodeId = true ↔
          (c.reserveToken nodeId dobjId).tokenExists nodeId dobjId = true)) ∧
      (∀ nodeId dobjId, nodeId ≠ [] →
        (c.freeToken nodeId dobjId).tokenExists nodeId dobjId = false ∧
        ∀ nodeId' dobjId', (nodeId', dobjId') ≠ (nodeId, dobjId) →
          (c.freeToken nodeId dobjId).tokenExists nodeId' dobjId' =
            c.tokenExists nodeId' dobjId') ∧
      (∀ dobjId, c.freeToken [] dobjId = c) := by
  intro c
  -- no call changes the configuration
  have hconfig : ∀ (calls : List TokenCall) (c : ReplicationConcurrentSend),
      (calls.foldl call c).maxTokens = c.maxTokens ∧
        (calls.foldl call c).tokensPerNode = c.tokensPerNode := by
    intro calls
    induction calls with
    | nil => exact fun _ => ⟨rfl, rfl⟩
    | cons op calls ih =>
        intro c
        obtain ⟨hmax, hper⟩ := ih (c.call op)
        rw [List.foldl_cons, hmax, hper]
        cases op with
        | freeToken nodeId dobjId => exact c.freeToken_config nodeId dobjId
        | reserveToken nodeId dobjId =>
            unfold call
            rcases c.reserveToken_cases nodeId dobjId with hsame | ⟨hinsert, _⟩
            · simp only [hsame, and_self]
            · simp only [hinsert, and_self]
  obtain ⟨hmax, hper⟩ := hconfig calls (configured maxTokens tokensPerNode h)
  have hb : c.Bounded := Bounded.calls calls (.configured h)
  have hsorted := hb.orderly.sorted
  -- sorted and without repetition: then membership decides every question
  refine ⟨hb.orderly.nodup, fun nodeId => ?_, fun hglobal => ?_, fun _ _ => tokenExists_iff hsorted,
    fun _ _ hnot => tokenAvailable_iff_created hb hnot, fun nodeId dobjId hid => ?_,
    fun _ => rfl⟩
  · have hnode := hb.node nodeId
    rw [ofNode_eq hsorted] at hnode
    exact hnode.trans hmax.le
  · exact (hb.total (hper.trans hglobal)).trans hmax.le
  · obtain ⟨horderly, hmem⟩ := freeToken_spec hb.orderly hid dobjId
    refine ⟨?_, fun nodeId' dobjId' hne => ?_⟩
    · rw [Bool.eq_false_iff, ne_eq, tokenExists_iff horderly.sorted, hmem]
      exact fun hin => hin.2 rfl
    · rw [Bool.eq_iff_iff, tokenExists_iff horderly.sorted, tokenExists_iff hsorted, hmem]
      exact ⟨fun hin => hin.1, fun hin => ⟨hin, hne⟩⟩

/-- One token for each node: it is given once, and given back. -/
theorem tokens_over_calls_one :
    ((configured 1 true (by decide)).call (.reserveToken [1] [2])).tokenAvailable [1] = false ∧
      (((configured 1 true (by decide)).call (.reserveToken [1] [2])).freeToken [1] [2]).tokenExists
        [1] [2] = false :=
  ⟨by decide, ((tokens_over_calls 1 true (by decide) [.reserveToken [1] [2]]).2.2.2.2.2.1 [1] [2]
    (by decide)).1⟩

/-- A token that was reserved for a node without an id is there after it was freed. -/
theorem freeToken_without_id :
    ¬ ∀ (maxTokens : Int) (tokensPerNode : Bool) (h : 1 ≤ maxTokens) (calls : List TokenCall)
      (nodeId dobjId : CString),
        ((calls.foldl call (configured maxTokens tokensPerNode h)).freeToken
          nodeId dobjId).tokenExists nodeId dobjId = false := by
  intro h
  exact absurd (h 5 true (by decide) [.reserveToken [] [2]] [] [2]) (by decide)

end ReplicationConcurrentSend

end Encoders.Replication
