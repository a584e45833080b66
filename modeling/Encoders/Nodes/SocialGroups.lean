import Encoders.Data.Object
import Encoders.Lib.Run

/-!
# Social groups

`NodeStore` keeps two maps of the peers: `social_node_map` from a node's id to its group,
and `social_to_nodes_map` from a group to the ids of its members. Both are updated with the
group that the node's description declares now. The first map forgets the group a node had
before, the second one is not asked: the lists of other groups are never looked at. So the
two agree as long as a node declares the group that is recorded for it, and no longer.

Both maps are hash maps with one entry for a key.
-/

namespace Encoders.Nodes

open Encoders.Data Encoders.Lib

/-- What the functions below look at in a node: id, type and description. -/
structure SocialNode where
  idStr : CString
  isPeer : Bool
  description : Metadata

/-- `returnNodeSocialGroupName`: the declared group. A missing `SocialId` is an empty string. -/
def returnNodeSocialGroupName (node : SocialNode) : CString :=
  match node.description.getMetadata (lit "SocialGroups") with
  | some m => (m.getParameter (lit "SocialId")).getD []
  | none => lit "DefaultSocialGroup"

/-- The two maps. -/
structure SocialMaps where
  socialNodeMap : CString → Option CString
  socialToNodesMap : CString → Option (List CString)

namespace SocialMaps

def empty : SocialMaps := ⟨fun _ => none, fun _ => none⟩

/-- `insertNodeSocialGroup` -/
def insertNodeSocialGroup (s : SocialMaps) (node : SocialNode) : SocialMaps :=
  let socialGroup := returnNodeSocialGroupName node
  if node.isPeer = false then s
  else
    { socialNodeMap := Function.update s.socialNodeMap node.idStr (some socialGroup)
      socialToNodesMap := Function.update s.socialToNodesMap socialGroup
        (match s.socialToNodesMap socialGroup with
        | none => some [node.idStr]
        -- to the end of the list, after it was taken out where it stood
        | some ids => some (ids.erase node.idStr ++ [node.idStr])) }

/-- `removeNodeSocialGroup` -/
def removeNodeSocialGroup (s : SocialMaps) (node : SocialNode) : SocialMaps :=
  let socialGroup := returnNodeSocialGroupName node
  { socialNodeMap := Function.update s.socialNodeMap node.idStr none
    socialToNodesMap :=
      match s.socialToNodesMap socialGroup with
      | none => s.socialToNodesMap
      | some ids =>
          let ids := ids.erase node.idStr
          Function.update s.socialToNodesMap socialGroup
            (if 0 < ids.length then some ids else none) }

/-- The list that `returnNodesPerSocialGroup` and `returnNumInSocialGroup` go by, if there is one. -/
def members (s : SocialMaps) (socialGroup : CString) : List CString :=
  (s.socialToNodesMap socialGroup).getD []

end SocialMaps

/-- The calls, with the node as its description is at the time. -/
inductive SocialOp where
  | insert (node : SocialNode)
  | remove (node : SocialNode)

/-- The node of a call. -/
def SocialOp.node : SocialOp → SocialNode
  | .insert node => node
  | .remove node => node

/-- One call. -/
def socialStep (s : SocialMaps) : SocialOp → SocialMaps
  | .insert node => s.insertNodeSocialGroup node
  | .remove node => s.removeNodeSocialGroup node

/-- The maps agree: recorded ids stand once in the list of their group, and nowhere else. -/
structure SocialMaps.Agree (s : SocialMaps) : Prop where
  once : ∀ id g, s.socialNodeMap id = some g → (s.members g).count id = 1
  only : ∀ id g, id ∈ s.members g → s.socialNodeMap id = some g
  nonempty : ∀ g ids, s.socialToNodesMap g = some ids → ids ≠ []

/-- A node that is recorded declares the group it is recorded with. -/
def Faithful (s : SocialMaps) (op : SocialOp) : Prop :=
  ∀ g, s.socialNodeMap op.node.idStr = some g → returnNodeSocialGroupName op.node = g

theorem faithful_none {s : SocialMaps} {op : SocialOp} (h : s.socialNodeMap op.node.idStr = none) :
    Faithful s op := by
  intro g hg
  rw [h] at hg
  cases hg

theorem faithful_some {s : SocialMaps} {op : SocialOp} {g : CString}
    (h : s.socialNodeMap op.node.idStr = some g) :
    returnNodeSocialGroupName op.node = g ↔ Faithful s op := by
  unfold Faithful
  rw [h]
  exact ⟨fun heq g' hg' => heq.trans (Option.some.inj hg'), fun hall => hall g rfl⟩

instance (s : SocialMaps) (op : SocialOp) : Decidable (Faithful s op) :=
  match h : s.socialNodeMap op.node.idStr with
  | none => isTrue (faithful_none h)
  | some _ => decidable_of_iff _ (faithful_some h)

/-! ## What the calls do -/

namespace SocialMaps

variable {s : SocialMaps}
variable {node : SocialNode}

theorem members_insert (hpeer : node.isPeer = true) (g : CString) :
    (s.insertNodeSocialGroup node).members g =
      if g = returnNodeSocialGroupName node then
        (s.members g).erase node.idStr ++ [node.idStr]
      else s.members g := by
  unfold insertNodeSocialGroup members
  dsimp only
  rw [if_neg (Bool.not_eq_false _ ▸ hpeer)]
  dsimp only
  by_cases hg : g = returnNodeSocialGroupName node
  · subst hg
    rw [if_pos rfl, Function.update_self]
    cases s.socialToNodesMap (returnNodeSocialGroupName node) with
    | none => rfl
    | some ids => rfl
  · rw [if_neg hg, Function.update_of_ne hg]

theorem members_remove (s : SocialMaps) (node : SocialNode) (g : CString) :
    (s.removeNodeSocialGroup node).members g =
      if g = returnNodeSocialGroupName node then (s.members g).erase node.idStr
      else s.members g := by
  unfold removeNodeSocialGroup members
  dsimp only
  by_cases hg : g = returnNodeSocialGroupName node
  · subst hg
    rw [if_pos rfl]
    cases hids : s.socialToNodesMap (returnNodeSocialGroupName node) with
    | none =>
        dsimp only
        rw [hids]
        rfl
    | some ids =>
        dsimp only
        rw [Function.update_self]
        by_cases hpos : 0 < (ids.erase node.idStr).length
        · rw [if_pos hpos]
          rfl
        · rw [if_neg hpos]
          exact (List.length_eq_zero_iff.mp (Nat.eq_zero_of_not_pos hpos)).symm
  · rw [if_neg hg]
    cases s.socialToNodesMap (returnNodeSocialGroupName node) with
    | none => rfl
    | some ids =>
        dsimp only
        rw [Function.update_of_ne hg]

theorem groupOf_insert (hpeer : node.isPeer = true) :
    (s.insertNodeSocialGroup node).socialNodeMap =
      Function.update s.socialNodeMap node.idStr (some (returnNodeSocialGroupName node)) := by
  unfold insertNodeSocialGroup
  dsimp only
  rw [if_neg (Bool.not_eq_false _ ▸ hpeer)]

/-- Lists are only kept while there is someone in them. -/
theorem nonempty_insert (node : SocialNode)
    (h : ∀ g ids, s.socialToNodesMap g = some ids → ids ≠ []) (g : CString) (ids : List CString)
    (hg : (s.insertNodeSocialGroup node).socialToNodesMap g = some ids) : ids ≠ [] := by
  unfold insertNodeSocialGroup at hg
  dsimp only at hg
  split at hg
  · exact h g ids hg
  · dsimp only at hg
    by_cases heq : g = returnNodeSocialGroupName node
    · subst heq
      rw [Function.update_self] at hg
      split at hg
      · rw [← Option.some.inj hg]
        exact List.cons_ne_nil _ _
      · rw [← Option.some.inj hg]
        exact List.append_ne_nil_of_right_ne_nil _ (List.cons_ne_nil _ _)
    · rw [Function.update_of_ne heq] at hg
      exact h g ids hg

theorem nonempty_remove (node : SocialNode)
    (h : ∀ g ids, s.socialToNodesMap g = some ids → ids ≠ []) (g : CString) (ids : List CString)
    (hg : (s.removeNodeSocialGroup node).socialToNodesMap g = some ids) : ids ≠ [] := by
  unfold removeNodeSocialGroup at hg
  dsimp only at hg
  cases hids : s.socialToNodesMap (returnNodeSocialGroupName node) with
  | none =>
      rw [hids] at hg
      exact h g ids hg
  | some old =>
      rw [hids] at hg
      dsimp only at hg
      by_cases heq : g = returnNodeSocialGroupName node
      · subst heq
        rw [Function.update_self] at hg
        split at hg
        · next hpos =>
            rw [← Option.some.inj hg]
            exact List.length_pos_iff.mp hpos
        · cases hg
      · rw [Function.update_of_ne heq] at hg
        exact h g ids hg

/-! ## Agreement -/

theorem Agree.not_mem (h : s.Agree) {id g : CString} (hg : s.socialNodeMap id ≠ some g) :
    id ∉ s.members g :=
  fun hmem => hg (h.only id g hmem)

/-- A node that declares its recorded group, if it has one, leaves the maps agreeing. -/
theorem Agree.insert (h : s.Agree) (hpeer : node.isPeer = true)
    (hfaithful : Faithful s (.insert node)) : (s.insertNodeSocialGroup node).Agree := by
  -- in other lists than the declared one it does not stand
  have hother : ∀ g, g ≠ returnNodeSocialGroupName node → node.idStr ∉ s.members g :=
    fun g hg => h.not_mem (fun hcon => hg (hfaithful g hcon).symm)
  have hcount : (s.members (returnNodeSocialGroupName node)).count node.idStr ≤ 1 := by
    by_cases hmem : node.idStr ∈ s.members (returnNodeSocialGroupName node)
    · exact (h.once _ _ (h.only _ _ hmem)).le
    · rw [List.count_eq_zero_of_not_mem hmem]
      exact Nat.zero_le 1
  refine ⟨?_, ?_, nonempty_insert node h.nonempty⟩
  · intro id g hid
    rw [groupOf_insert hpeer] at hid
    rw [members_insert hpeer]
    by_cases heq : id = node.idStr
    · subst heq
      rw [Function.update_self] at hid
      rw [← Option.some.inj hid, if_pos rfl, List.count_append, List.count_erase_self,
        List.count_singleton_self]
      omega
    · rw [Function.update_of_ne heq] at hid
      split
      · rw [List.count_append, List.count_erase_of_ne heq, h.once id g hid,
          List.count_eq_zero_of_not_mem (by rw [List.mem_singleton]; exact heq)]
      · exact h.once id g hid
  · intro id g hmem
    rw [groupOf_insert hpeer]
    rw [members_insert hpeer] at hmem
    by_cases heq : id = node.idStr
    · subst heq
      rw [Function.update_self]
      split at hmem
      · next hg => rw [hg]
      · next hg => exact absurd hmem (hother g hg)
    · rw [Function.update_of_ne heq]
      split at hmem
      · rcases List.mem_append.mp hmem with hmem | hmem
        · exact h.only id g (List.mem_of_mem_erase hmem)
        · exact absurd (List.mem_singleton.mp hmem) heq
      · exact h.only id g hmem

theorem Agree.remove (h : s.Agree) (hfaithful : Faithful s (.remove node)) :
    (s.removeNodeSocialGroup node).Agree := by
  have hother : ∀ g, g ≠ returnNodeSocialGroupName node → node.idStr ∉ s.members g :=
    fun g hg => h.not_mem (fun hcon => hg (hfaithful g hcon).symm)
  have hgroup : (s.removeNodeSocialGroup node).socialNodeMap =
      Function.update s.socialNodeMap node.idStr none := rfl
  refine ⟨?_, ?_, nonempty_remove node h.nonempty⟩
  · intro id g hid
    rw [hgroup] at hid
    rw [members_remove]
    by_cases heq : id = node.idStr
    · subst heq
      rw [Function.update_self] at hid
      cases hid
    · rw [Function.update_of_ne heq] at hid
      split
      · rw [List.count_erase_of_ne heq, h.once id g hid]
      · exact h.once id g hid
  · intro id g hmem
    rw [hgroup]
    rw [members_remove] at hmem
    by_cases heq : id = node.idStr
    · subst heq
      split at hmem
      · next hg =>
          -- it stood there once, and that occurrence is gone
          have hpos := List.count_pos_iff.mpr hmem
          have honce := h.once _ _ (h.only _ _ (List.mem_of_mem_erase hmem))
          rw [List.count_erase_self, honce] at hpos
          omega
      · next hg => exact absurd hmem (hother g hg)
    · rw [Function.update_of_ne heq]
      split at hmem
      · exact h.only id g (List.mem_of_mem_erase hmem)
      · exact h.only id g hmem

/-- A node that declares another group than before stays in the list of the old one. -/
theorem Agree.faithful_of_step (h : s.Agree) {op : SocialOp} (hpeer : op.node.isPeer = true)
    (hstep : (socialStep s op).Agree) : Faithful s op := by
  intro g hg
  have hold : op.node.idStr ∈ s.members g := by
    refine List.count_pos_iff.mp ?_
    rw [h.once _ _ hg]
    exact Nat.one_pos
  by_contra hne
  cases op with
  | insert node =>
      dsimp only [SocialOp.node] at hpeer hold hne
      have hmem : node.idStr ∈ (s.insertNodeSocialGroup node).members g := by
        rw [members_insert hpeer, if_neg (Ne.symm hne)]
        exact hold
      have hgroup : (s.insertNodeSocialGroup node).socialNodeMap node.idStr = some g :=
        hstep.only _ _ hmem
      rw [groupOf_insert hpeer, Function.update_self] at hgroup
      exact hne (Option.some.inj hgroup)
  | remove node =>
      dsimp only [SocialOp.node] at hold hne
      have hmem : node.idStr ∈ (s.removeNodeSocialGroup node).members g := by
        rw [members_remove, if_neg (Ne.symm hne)]
        exact hold
      have hgroup : (s.removeNodeSocialGroup node).socialNodeMap node.idStr = some g :=
        hstep.only _ _ hmem
      have hnone : (s.removeNodeSocialGroup node).socialNodeMap node.idStr = none :=
        Function.update_self _ _ _
      rw [hnone] at hgroup
      cases hgroup

end SocialMaps

open SocialMaps

theorem agree_empty : SocialMaps.empty.Agree :=
  ⟨fun _ _ h => (by cases h), fun _ _ h => absurd h List.not_mem_nil, fun _ _ h => (by cases h)⟩

/--
**The two maps agree after every call exactly if no node ever declares another group than the one
recorded for it.** The calls are for peers, in any order and with any descriptions.
-/
theorem social_groups_agree_iff (ops : List SocialOp)
    (hpeers : ∀ op ∈ ops, op.node.isPeer = true) :
    (∀ pre post, ops = pre ++ post → ∃ s,
      run (fun s op => some (socialStep s op)) SocialMaps.empty pre = some s ∧ s.Agree) ↔
      Guarded (fun s op => some (socialStep s op)) Faithful SocialMaps.empty ops := by
  refine @run_wanted_iff SocialMaps SocialOp _ Faithful Agree Agree
    (fun op => op.node.isPeer = true) (fun s h => h) ?_ ?_ ops _ agree_empty hpeers
  · intro s op h hpeer hfaithful
    refine ⟨socialStep s op, rfl, ?_⟩
    cases op with
    | insert node => exact h.insert hpeer hfaithful
    | remove node => exact h.remove hfaithful
  · intro s op s' h hpeer hstep hagree
    rw [← Option.some.inj hstep] at hagree
    exact h.faithful_of_step hpeer hagree

/-! ### One node, two groups -/

/-- A peer that declares a group. -/
def memberOf (group : CString) : SocialNode where
  idStr := lit "n"
  isPeer := true
  description := (Metadata.leaf []).addMetadata (lit "SocialGroups")
    ((Metadata.leaf []).setParameter (lit "SocialId") group)

/-- It comes with one group, is updated with the same, and leaves. -/
def stays : List SocialOp :=
  [.insert (memberOf (lit "a")), .insert (memberOf (lit "a")), .remove (memberOf (lit "a"))]

theorem stays_peers : ∀ op ∈ stays, op.node.isPeer = true := by decide

theorem stays_agree : ∃ s,
    run (fun s op => some (socialStep s op)) SocialMaps.empty stays = some s ∧ s.Agree :=
  (social_groups_agree_iff stays stays_peers).mpr (by decide +kernel) stays []
    (List.append_nil stays).symm

/-- It comes with one group and is updated with another. -/
def moves : List SocialOp := [.insert (memberOf (lit "a")), .insert (memberOf (lit "b"))]

/-- The list of the old group still has it. -/
theorem moves_disagree :
    ¬ ∀ ops : List SocialOp, (∀ op ∈ ops, op.node.isPeer = true) →
      ∃ s, run (fun s op => some (socialStep s op)) SocialMaps.empty ops = some s ∧ s.Agree := by
  intro hall
  obtain ⟨s, hrun, hagree⟩ := hall moves (by decide)
  obtain rfl := Option.some.inj hrun
  have hgroup := hagree.only (lit "n") (lit "a") (by decide +kernel)
  exact absurd hgroup (by decide +kernel)

end Encoders.Nodes
