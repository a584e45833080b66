import Mathlib.Algebra.Order.Field.Rat
import Encoders.Store.Index

/-!
# What the queries see

Against indices that are right, every lookup of a query is a question about the cached
objects, nodes and filters themselves: an interest lists the objects that match it, an
attribute lists the nodes and the filters that ask for it. `Matched` is that question as the
joined strings put it: an interest in any value is matched by an attribute with the same
string before the last colon, another interest by the same joined string.
-/

namespace Encoders.Store

open Encoders.Lib Encoders.Container Encoders.Data MemoryCache

/-- A joined interest is matched by one of some joined attributes. -/
def Matched (keyval : CString) (attrs : List CString) : Bool :=
  if isStar keyval then attrs.any (fun a => extractKey a = extractKey keyval)
  else attrs.any (fun a => a = keyval)

theorem matched_iff {keyval : CString} {attrs : List CString} :
    Matched keyval attrs = true ↔
      (isStar keyval = true ∧ ∃ a ∈ attrs, extractKey a = extractKey keyval) ∨
        (isStar keyval = false ∧ keyval ∈ attrs) := by
  unfold Matched
  cases isStar keyval <;> simp

variable {s : MemoryCache}

/-! ## Objects -/

section Objects

variable {objects : List AbstractDataObject}
variable {dobjId : CString}

theorem ObjectsIndexed.mem_keyvalToDoId (h : ObjectsIndexed s objects) {keyval : CString} :
    dobjId ∈ s.keyvalToDoId.values keyval ↔
      ∃ d ∈ objects, d.id = dobjId ∧ keyval ∈ d.getAttributes := by
  rw [h.keyvalToDoId keyval, mem_atKey, List.mem_flatMap]
  refine exists_congr fun d => and_congr_right fun _ => ?_
  unfold AbstractDataObject.entries
  rw [List.mem_map]
  constructor
  · rintro ⟨kv, hkv, heq⟩
    injection heq with heq hid
    exact ⟨hid, heq ▸ hkv⟩
  · rintro ⟨rfl, hkv⟩
    exact ⟨keyval, hkv, rfl⟩

theorem ObjectsIndexed.mem_keyStarToDoIds (h : ObjectsIndexed s objects) {key : CString} :
    dobjId ∈ s.keyStarToDoIds.starIds key ↔
      ∃ d ∈ objects, d.id = dobjId ∧ ∃ a ∈ d.getAttributes, extractKey a = key := by
  rw [h.keyStarToDoIds.mem_starIds]
  constructor
  · rintro ⟨v, hv⟩
    obtain ⟨d, hd, he⟩ := List.mem_flatMap.mp hv
    obtain ⟨a, ha, heq⟩ := List.mem_map.mp he
    simp only [Prod.mk.injEq] at heq
    exact ⟨d, hd, heq.2.1, a, ha, heq.1⟩
  · rintro ⟨d, hd, rfl, a, ha, rfl⟩
    exact ⟨extractVal a, List.mem_flatMap.mpr ⟨d, hd, List.mem_map_of_mem ha⟩⟩

/-- **The objects that an interest lists are those that match it.** -/
theorem ObjectsIndexed.mem_objectsOf (h : ObjectsIndexed s objects) {keyval : CString} :
    dobjId ∈ s.objectsOf keyval ↔
      ∃ d ∈ objects, d.id = dobjId ∧ Matched keyval d.getAttributes = true := by
  unfold objectsOf Matched
  cases isStar keyval with
  | true =>
      rw [if_pos rfl, h.mem_keyStarToDoIds]
      simp
  | false =>
      rw [if_neg (by simp), h.mem_keyvalToDoId]
      simp

/-- An object has what an interest asks for if it matches it. -/
theorem ObjectsIndexed.hasAttr (h : ObjectsIndexed s objects) {d : AbstractDataObject}
    (hd : d ∈ objects) : s.hasAttr d.id = fun keyval => Matched keyval d.getAttributes := by
  funext keyval
  have hobjects : d.id ∈ s.objectsOf keyval ↔ _ := h.mem_objectsOf
  have honly : (∃ d' ∈ objects, d'.id = d.id ∧ Matched keyval d'.getAttributes = true) ↔
      Matched keyval d.getAttributes = true := by
    constructor
    · rintro ⟨d', hd', hid, hmatched⟩
      rw [← List.inj_on_of_nodup_map h.ids hd' hd hid]
      exact hmatched
    · exact fun hmatched => ⟨d, hd, rfl, hmatched⟩
  rw [Bool.eq_iff_iff, ← honly, ← hobjects]
  unfold MemoryCache.hasAttr objectsOf
  cases isStar keyval with
  | true =>
      rw [if_pos rfl, if_pos rfl, h.keyStarToDoIds.starHas_iff, h.keyStarToDoIds.mem_starIds]
  | false => simp

theorem ObjectsIndexed.mem_objectCandidates (h : ObjectsIndexed s objects)
    {interests : List (CString × Int)} :
    dobjId ∈ s.objectCandidates interests ↔
      ∃ d ∈ objects, d.id = dobjId ∧
        ∃ i ∈ interests, s.excludes i.2 = false ∧ Matched i.1 d.getAttributes = true := by
  unfold objectCandidates
  rw [List.mem_flatMap]
  constructor
  · rintro ⟨i, hi, hmem⟩
    split at hmem
    · cases hmem
    · next hex =>
        obtain ⟨d, hd, hid, hmatched⟩ := h.mem_objectsOf.mp hmem
        exact ⟨d, hd, hid, i, hi, by simpa using hex, hmatched⟩
  · rintro ⟨d, hd, hid, i, hi, hex, hmatched⟩
    refine ⟨i, hi, ?_⟩
    rw [if_neg (by simp [hex])]
    exact h.mem_objectsOf.mpr ⟨d, hd, hid, hmatched⟩

end Objects

/-! ## Nodes -/

section Nodes

variable {nodes : List AbstractNode}

theorem NodesIndexed.mem_keyvalToNodeId (h : NodesIndexed s nodes) {keyval nodeId : CString} :
    nodeId ∈ s.keyvalToNodeId.values keyval ↔
      ∃ n ∈ nodes, n.id = nodeId ∧ ∃ i ∈ n.getInterests, isStar i.1 = false ∧ i.1 = keyval := by
  rw [h.keyvalToNodeId keyval, mem_atKey, List.mem_flatMap]
  refine exists_congr fun n => and_congr_right fun _ => ?_
  unfold AbstractNode.entries
  simp only [List.mem_map, List.mem_filter, Prod.mk.injEq]
  constructor
  · rintro ⟨i, ⟨hi, hstar⟩, hkv, hid⟩
    exact ⟨hid, i, hi, by simpa using hstar, hkv⟩
  · rintro ⟨hid, i, hi, hstar, hkv⟩
    exact ⟨i, ⟨hi, by simpa using hstar⟩, hkv, hid⟩

theorem NodesIndexed.mem_keyStarToNodeIds (h : NodesIndexed s nodes) {key nodeId : CString} :
    nodeId ∈ s.keyStarToNodeIds.starIds key ↔
      ∃ n ∈ nodes, n.id = nodeId ∧
        ∃ i ∈ n.getInterests, isStar i.1 = true ∧ extractKey i.1 = key := by
  rw [h.keyStarToNodeIds.mem_starIds]
  unfold AbstractNode.starEntries
  simp only [List.mem_flatMap, List.mem_map, List.mem_filter, Prod.mk.injEq]
  constructor
  · rintro ⟨v, n, hn, i, ⟨hi, hstar⟩, hkey, hid, _⟩
    exact ⟨n, hn, hid, i, hi, hstar, hkey⟩
  · rintro ⟨n, hn, hid, i, hi, hstar, hkey⟩
    exact ⟨1, n, hn, i, ⟨hi, hstar⟩, hkey, hid, rfl⟩

/-- The interests of a node for which an attribute leads to it. -/
def Leads (exclude : Bool) (n : AbstractNode) (attrs : List CString) : Prop :=
  ∃ i ∈ n.getInterests, Matched i.1 attrs = true ∧
    (isStar i.1 = true ∨ (exclude = true → (i.1, 0) ∉ n.getInterests))

/-- **The nodes that the attributes of an object lead to.** -/
theorem NodesIndexed.mem_nodeCandidates (h : NodesIndexed s nodes) {attrs : List CString}
    {n : AbstractNode} (hn : n ∈ nodes) :
    n.id ∈ s.nodeCandidates attrs ↔ Leads s.excludeZeroWeightAttributes n attrs := by
  have hfind : s.nodeIdToNode.find n.id = some n := h.find.mpr ⟨hn, rfl⟩
  -- an id has one node, so that every entry found under it is this node's
  have honly : ∀ m ∈ nodes, m.id = n.id → m = n := fun m hm hid =>
    List.inj_on_of_nodup_map h.ids hm hn hid
  have hskip : ∀ keyval, s.skipInterest n keyval = false ↔
      (s.excludeZeroWeightAttributes = true → (keyval, 0) ∉ n.getInterests) := by
    intro keyval
    unfold skipInterest
    cases s.excludeZeroWeightAttributes with
    | false => simp
    | true =>
        simp only [Bool.true_and, List.any_eq_false, Bool.and_eq_true, decide_eq_true_eq,
          not_and, true_implies, Prod.forall]
        constructor
        · intro hall hmem
          exact hall keyval 0 hmem rfl rfl
        · rintro hnot k w hmem rfl rfl
          exact hnot hmem
  unfold nodeCandidates Leads
  simp only [List.mem_flatMap, List.mem_append, List.mem_filter, hfind, Bool.not_eq_true',
    h.mem_keyvalToNodeId, h.mem_keyStarToNodeIds, hskip]
  constructor
  · rintro ⟨a, ha, ⟨⟨m, hm, hid, i, hi, hstar, rfl⟩, hzero⟩ | ⟨m, hm, hid, i, hi, hstar, hkey⟩⟩
    · rw [honly m hm hid] at hi
      exact ⟨i, hi, matched_iff.mpr (Or.inr ⟨hstar, ha⟩), Or.inr hzero⟩
    · rw [honly m hm hid] at hi
      exact ⟨i, hi, matched_iff.mpr (Or.inl ⟨hstar, a, ha, hkey.symm⟩), Or.inl hstar⟩
  · rintro ⟨i, hi, hmatched, hlead⟩
    rcases matched_iff.mp hmatched with ⟨hstar, a, ha, hkey⟩ | ⟨hstar, ha⟩
    · exact ⟨a, ha, Or.inr ⟨n, hn, rfl, i, hi, hstar, hkey.symm⟩⟩
    · refine ⟨i.1, ha, Or.inl ⟨⟨n, hn, rfl, i, hi, hstar, rfl⟩, ?_⟩⟩
      rcases hlead with hstar' | hzero
      · rw [hstar] at hstar'
        cases hstar'
      · exact hzero

end Nodes

/-! ## Filters -/

section Filters

variable {attributes : List FilterAttribute}
variable {filterId : Int}

/-- The joined attributes of a filter. -/
theorem FiltersIndexed.mem_filterInterests (h : FiltersIndexed s attributes) {i : CString × Int} :
    i ∈ s.filterInterests filterId ↔
      ∃ a ∈ attributes, a.filterId = filterId ∧ i = (createHash a.key a.val, a.weight) := by
  unfold filterInterests
  rw [h.filterIdToAttribute filterId, List.mem_map]
  constructor
  · rintro ⟨b, hb, rfl⟩
    obtain ⟨a, ha, heq⟩ := List.mem_map.mp (mem_atKey.mp hb)
    unfold FilterAttribute.entry at heq
    injection heq with hid hb
    exact ⟨a, ha, hid, by rw [← hb]⟩
  · rintro ⟨a, ha, rfl, rfl⟩
    exact ⟨a.entry.2, mem_atKey.mpr (List.mem_map_of_mem ha), rfl⟩

theorem FiltersIndexed.mem_keyvalToFilterId (h : FiltersIndexed s attributes) {keyval : CString} :
    filterId ∈ s.keyvalToFilterId.values keyval ↔
      ∃ i ∈ s.filterInterests filterId, isStar i.1 = false ∧ i.1 = keyval := by
  rw [h.keyvalToFilterId keyval, mem_atKey, List.mem_flatMap]
  constructor
  · rintro ⟨a, ha, he⟩
    unfold FilterAttribute.entries at he
    split at he
    · next hval =>
        rw [List.mem_singleton, Prod.mk.injEq] at he
        refine ⟨(createHash a.key a.val, a.weight), ?_, h.plain a ha hval, he.1.symm⟩
        exact h.mem_filterInterests.mpr ⟨a, ha, he.2.symm, rfl⟩
    · cases he
  · rintro ⟨i, hi, hstar, rfl⟩
    obtain ⟨a, ha, hid, rfl⟩ := h.mem_filterInterests.mp hi
    rw [isStar_of_plain (h.plain a ha), decide_eq_false_iff_not] at hstar
    refine ⟨a, ha, ?_⟩
    unfold FilterAttribute.entries
    rw [if_pos hstar, hid, List.mem_singleton]

theorem FiltersIndexed.mem_keyStarToFilterId (h : FiltersIndexed s attributes) {key : CString} :
    filterId ∈ s.keyStarToFilterId.starIds key ↔
      ∃ i ∈ s.filterInterests filterId, isStar i.1 = true ∧ extractKey i.1 = key := by
  rw [h.keyStarToFilterId.mem_starIds]
  have hkey : ∀ k : CString, extractKey (createHash k wildcard) = k := fun k =>
    extractKey_createHash k (by decide)
  constructor
  · rintro ⟨v, hv⟩
    obtain ⟨a, ha, he⟩ := List.mem_flatMap.mp hv
    unfold FilterAttribute.starEntries at he
    split at he
    · cases he
    · next hval =>
        rw [List.mem_singleton, Prod.mk.injEq, Prod.mk.injEq] at he
        have hval' : a.val = wildcard := not_not.mp hval
        refine ⟨(createHash a.key a.val, a.weight), ?_, ?_, ?_⟩
        · exact h.mem_filterInterests.mpr ⟨a, ha, he.2.1.symm, rfl⟩
        · rw [isStar_of_plain (h.plain a ha), decide_eq_true hval']
        · rw [hval', hkey, he.1]
  · rintro ⟨i, hi, hstar, rfl⟩
    obtain ⟨a, ha, hid, rfl⟩ := h.mem_filterInterests.mp hi
    rw [isStar_of_plain (h.plain a ha), decide_eq_true_eq] at hstar
    refine ⟨1, List.mem_flatMap.mpr ⟨a, ha, ?_⟩⟩
    unfold FilterAttribute.starEntries
    rw [if_neg (not_not.mpr hstar), hid, hstar, hkey, List.mem_singleton]

/-- **The filters that the attributes of an object lead to are those with an attribute it matches.** -/
theorem FiltersIndexed.mem_filterCandidates (h : FiltersIndexed s attributes) {attrs : List CString} :
    filterId ∈ s.filterCandidates attrs ↔
      ∃ i ∈ s.filterInterests filterId, Matched i.1 attrs = true := by
  unfold filterCandidates
  simp only [List.mem_flatMap, List.mem_append, h.mem_keyvalToFilterId, h.mem_keyStarToFilterId]
  constructor
  · rintro ⟨a, ha, ⟨i, hi, hstar, rfl⟩ | ⟨i, hi, hstar, hkey⟩⟩
    · exact ⟨i, hi, matched_iff.mpr (Or.inr ⟨hstar, ha⟩)⟩
    · exact ⟨i, hi, matched_iff.mpr (Or.inl ⟨hstar, a, ha, hkey.symm⟩)⟩
  · rintro ⟨i, hi, hmatched⟩
    rcases matched_iff.mp hmatched with ⟨hstar, a, ha, hkey⟩ | ⟨hstar, ha⟩
    · exact ⟨a, ha, Or.inr ⟨i, hi, hstar, hkey.symm⟩⟩
    · exact ⟨i.1, ha, Or.inl ⟨i, hi, hstar, rfl⟩⟩

end Filters

end Encoders.Store
