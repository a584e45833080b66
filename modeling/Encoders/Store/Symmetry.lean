import Encoders.Store.Queries

/-!
# Matching in both directions

A node asks for objects by its interests, an object for nodes by its attributes; a filter and
an object likewise. Both directions compute the same satisfaction, but they find their
candidates in their own ways, and treat interests without weight differently when those are
to be left out.

For nodes they disagree in two situations. An object may match no interest of the node but
wildcards without weight: the node does not ask with them, the object is led to the node all
the same. And the node may list an interest twice, with a weight and without: the node asks
with it, and the object skips it. For filters they disagree when only attributes without
weight match, as the filter does not ask with these. Everywhere else the two directions
agree, and `Asymmetric` and `FilterAsymmetric` say so to the letter.
-/

namespace Encoders.Store

open Encoders.Lib Encoders.Container Encoders.Data MemoryCache

variable {interests : List (CString × Int)}

/-! ## Sums -/

/-- The weights of some interests as the loops sum them up. -/
def totalWeight (interests : List (CString × Int)) : Int :=
  interests.foldl (fun total i => (total + i.2).bmod 4294967296) 0

theorem tally_total (hasAttr : CString → Bool) (interests : List (CString × Int)) :
    (tally hasAttr interests).total = totalWeight interests := by
  unfold tally totalWeight
  exact List.foldl_rel (r := fun (t : Tally) (total : Int) => t.total = total) rfl
    (fun i _ t total h => by rw [← h]; rfl)

/-- Where only interests without weight are matched, nothing is summed up. -/
theorem tally_sum_eq_zero (hasAttr : CString → Bool)
    (h : ∀ i ∈ interests, hasAttr i.1 = true → i.2 = 0) : (tally hasAttr interests).sum = 0 := by
  unfold tally
  refine List.foldlRecOn (motive := fun (t : Tally) => t.sum = 0) interests _ rfl ?_
  intro t ht i hi
  unfold Tally.count
  dsimp only
  split
  · next hmatched => rw [ht, h i hi hmatched]; rfl
  · exact ht

/-- Where no interest is matched, none is counted. -/
theorem tally_matchCount_eq_zero (hasAttr : CString → Bool)
    (h : ∀ i ∈ interests, hasAttr i.1 = false) : (tally hasAttr interests).matchCount = 0 := by
  unfold tally
  refine List.foldlRecOn (motive := fun (t : Tally) => t.matchCount = 0) interests _ rfl ?_
  intro t ht i hi
  unfold Tally.count
  dsimp only
  rw [if_neg (by simp [h i hi])]
  exact ht

theorem reaches_zero (arithmetic : Arithmetic) (threshold : Int) :
    (Degree.fin 0).reaches arithmetic threshold = true ↔ threshold ≤ 0 := by
  unfold Degree.reaches
  simp [arithmetic.round_zero]

/-! ## Nodes -/

/-- The satisfaction of a node by joined attributes. -/
def AbstractNode.satisfaction (n : AbstractNode) (exclude : Bool) (attrs : List CString) :
    Degree × Int :=
  let t := tally (fun keyval => Matched keyval attrs)
    (n.getInterests.filter (fun i => !(exclude && i.2 = 0)))
  (if t.total ≤ 0 then .fin 0 else Degree.quotient .double t.sum t.total, t.matchCount)

/-- The satisfaction has enough matches and reaches the node's own threshold. -/
def AbstractNode.Reached (n : AbstractNode) (exclude : Bool) (attrs : List CString)
    (minAttrMatch : Int) : Prop :=
  minAttrMatch ≤ (n.satisfaction exclude attrs).2 ∧
    (n.satisfaction exclude attrs).1.reaches .double n.getMatchThreshold = true

/-- Some interest that is not left out is matched. -/
def Asks (exclude : Bool) (n : AbstractNode) (attrs : List CString) : Prop :=
  ∃ i ∈ n.getInterests, (exclude && decide (i.2 = 0)) = false ∧ Matched i.1 attrs = true

/-- The two ways in which the directions come apart. -/
def Asymmetric (exclude : Bool) (n : AbstractNode) (d : AbstractDataObject) (minAttrMatch : Int) :
    Prop :=
  exclude = true ∧
    ( -- the object matches nothing of weight, but a wildcard, and nothing is demanded
      ((∀ i ∈ n.getInterests, Matched i.1 d.getAttributes = true → i.2 = 0) ∧
        (∃ i ∈ n.getInterests, Matched i.1 d.getAttributes = true ∧ isStar i.1 = true) ∧
        minAttrMatch ≤ 0 ∧ n.getMatchThreshold ≤ 0) ∨
      -- all that the object matches is listed without weight too, and the demands are met
      ((∃ i ∈ n.getInterests, Matched i.1 d.getAttributes = true ∧ i.2 ≠ 0) ∧
        (∀ i ∈ n.getInterests, Matched i.1 d.getAttributes = true →
          isStar i.1 = false ∧ (i.1, 0) ∈ n.getInterests) ∧
        n.Reached exclude d.getAttributes minAttrMatch))

section Nodes

variable {s : MemoryCache} {objects : List AbstractDataObject} {nodes : List AbstractNode}
variable {n : AbstractNode} {d : AbstractDataObject}

theorem computeSatisfaction_eq (ho : ObjectsIndexed s objects) (hn : NodesIndexed s nodes)
    (hmem : n ∈ nodes) (hd : d ∈ objects) :
    s.computeSatisfaction n.id d.id =
      n.satisfaction s.excludeZeroWeightAttributes d.getAttributes := by
  unfold computeSatisfaction
  rw [hn.find.mpr ⟨hmem, rfl⟩]
  unfold nodeSatisfaction
  rw [ho.hasAttr hd]
  rfl

theorem isSome_acceptSatisfaction {minAttrMatch threshold : Int} {sat : Degree × Int} :
    (acceptSatisfaction minAttrMatch threshold sat).isSome = true ↔
      minAttrMatch ≤ sat.2 ∧ sat.1.reaches .double threshold = true := by
  unfold acceptSatisfaction
  split
  · next h => simpa using h
  · next h => simpa using h

/-- An id belongs to one object. -/
theorem ObjectsIndexed.exists_id_iff (ho : ObjectsIndexed s objects) (hd : d ∈ objects)
    {P : AbstractDataObject → Prop} : (∃ d' ∈ objects, d'.id = d.id ∧ P d') ↔ P d := by
  constructor
  · rintro ⟨d', hd', hid, h⟩
    rw [List.inj_on_of_nodup_map ho.ids hd' hd hid] at h
    exact h
  · intro h
    exact ⟨d, hd, rfl, h⟩

/-- The node's way: it asks, and is satisfied. -/
theorem mem_getDataObjectIdsForNode (ho : ObjectsIndexed s objects) (hn : NodesIndexed s nodes)
    (hmem : n ∈ nodes) (hd : d ∈ objects) (minAttrMatch : Int) :
    d.id ∈ s.getDataObjectIdsForNode n.id minAttrMatch 0 (-1) ↔
      Asks s.excludeZeroWeightAttributes n d.getAttributes ∧
        n.Reached s.excludeZeroWeightAttributes d.getAttributes minAttrMatch := by
  unfold getDataObjectIdsForNode
  rw [hn.find.mpr ⟨hmem, rfl⟩]
  dsimp only
  rw [if_neg (show ¬ (0 : Int) ≤ -1 by decide), show decide ((0 : Int) ≠ 0) = false from rfl,
    mem_limited_collect, ho.mem_objectCandidates, computeSatisfaction_eq ho hn hmem hd,
    isSome_acceptSatisfaction]
  refine and_congr_left fun _ => ?_
  exact ho.exists_id_iff hd

/-- The object's way: it is led to the node, and satisfies it. -/
theorem mem_getNodeIdsForDataObject (ho : ObjectsIndexed s objects) (hn : NodesIndexed s nodes)
    (hmem : n ∈ nodes) (hd : d ∈ objects) (minAttrMatch : Int) :
    n.id ∈ s.getNodeIdsForDataObject d.id minAttrMatch 0 ↔
      Leads s.excludeZeroWeightAttributes n d.getAttributes ∧
        n.Reached s.excludeZeroWeightAttributes d.getAttributes minAttrMatch := by
  unfold getNodeIdsForDataObject
  rw [ho.find.mpr ⟨hd, rfl⟩]
  dsimp only
  rw [if_neg (show ¬ (0 : Int) < 0 by decide), show decide ((0 : Int) < 0) = false from rfl,
    mem_limited_collect, hn.mem_nodeCandidates hmem]
  unfold acceptNode
  rw [hn.find.mpr ⟨hmem, rfl⟩]
  dsimp only
  rw [computeSatisfaction_eq ho hn hmem hd, isSome_acceptSatisfaction]
  rfl

/-- With nothing left out, both ways find the node. -/
theorem asks_iff_leads {attrs : List CString} : Asks false n attrs ↔ Leads false n attrs := by
  simp [Asks, Leads]

/-- A node that does not ask is satisfied to no degree. -/
theorem reached_of_not_asks {exclude : Bool} {attrs : List CString} (h : ¬ Asks exclude n attrs)
    (minAttrMatch : Int) :
    n.Reached exclude attrs minAttrMatch ↔ minAttrMatch ≤ 0 ∧ n.getMatchThreshold ≤ 0 := by
  have hnone : ∀ i ∈ n.getInterests.filter (fun i => !(exclude && i.2 = 0)),
      Matched i.1 attrs = false := by
    intro i hi
    rw [List.mem_filter] at hi
    by_contra hmatched
    exact h ⟨i, hi.1, (Bool.not_eq_true' _).mp hi.2, by simpa using hmatched⟩
  have hsum : (tally (fun keyval => Matched keyval attrs)
      (n.getInterests.filter (fun i => !(exclude && i.2 = 0)))).sum = 0 :=
    tally_sum_eq_zero _ (fun i hi hmatched => by simp [hnone i hi] at hmatched)
  have hcount := tally_matchCount_eq_zero (fun keyval => Matched keyval attrs) hnone
  have hdegree : (n.satisfaction exclude attrs).1 = .fin 0 := by
    unfold AbstractNode.satisfaction
    dsimp only
    split
    · rfl
    · next hpos =>
        unfold Degree.quotient
        rw [hsum, if_neg (by omega)]
        simp [Arithmetic.round_zero]
  unfold AbstractNode.Reached
  rw [hdegree, reaches_zero]
  unfold AbstractNode.satisfaction
  dsimp only
  rw [hcount]

/-- **Where the two ways come apart.** -/
theorem asymmetric_iff {minAttrMatch : Int} {exclude : Bool} :
    (Asks exclude n d.getAttributes ∧ n.Reached exclude d.getAttributes minAttrMatch ↔
      Leads exclude n d.getAttributes ∧ n.Reached exclude d.getAttributes minAttrMatch) ↔
    ¬ Asymmetric exclude n d minAttrMatch := by
  cases exclude with
  | false =>
      rw [asks_iff_leads]
      simp [Asymmetric]
  | true =>
      by_cases hasks : Asks true n d.getAttributes
      · -- the node asks: it must be led to, unless it is not satisfied
        obtain ⟨i, hi, hweight, hmatched⟩ := hasks
        have hpos : i.2 ≠ 0 := by simpa using hweight
        have hfirst : ¬ ∀ i ∈ n.getInterests, Matched i.1 d.getAttributes = true → i.2 = 0 :=
          fun hall => hpos (hall i hi hmatched)
        have hleads : ¬ Leads true n d.getAttributes ↔
            ∀ i ∈ n.getInterests, Matched i.1 d.getAttributes = true →
              isStar i.1 = false ∧ (i.1, 0) ∈ n.getInterests := by
          unfold Leads
          simp only [not_exists, not_and, not_or, true_implies, not_not, Bool.not_eq_true]
        constructor
        · rintro hiff ⟨-, ⟨hall, -⟩ | ⟨-, hall, hreached⟩⟩
          · exact hfirst hall
          · exact hleads.mpr hall (hiff.mp ⟨⟨i, hi, hweight, hmatched⟩, hreached⟩).1
        · intro hnot
          constructor
          · rintro ⟨-, hreached⟩
            refine ⟨?_, hreached⟩
            by_contra hlead
            exact hnot ⟨rfl, Or.inr ⟨⟨i, hi, hmatched, hpos⟩, hleads.mp hlead, hreached⟩⟩
          · exact fun hboth => ⟨⟨i, hi, hweight, hmatched⟩, hboth.2⟩
      · -- the node does not ask: it must not be led to, unless it is not satisfied
        have hzero : ∀ i ∈ n.getInterests, Matched i.1 d.getAttributes = true → i.2 = 0 := by
          intro i hi hmatched
          by_contra hpos
          exact hasks ⟨i, hi, by simpa using hpos, hmatched⟩
        have hleads : Leads true n d.getAttributes ↔
            ∃ i ∈ n.getInterests, Matched i.1 d.getAttributes = true ∧ isStar i.1 = true := by
          constructor
          · rintro ⟨i, hi, hmatched, hstar | hnot⟩
            · exact ⟨i, hi, hmatched, hstar⟩
            · refine absurd ?_ (hnot rfl)
              rw [← hzero i hi hmatched]
              exact hi
          · rintro ⟨i, hi, hmatched, hstar⟩
            exact ⟨i, hi, hmatched, Or.inl hstar⟩
        rw [reached_of_not_asks hasks, hleads]
        constructor
        · rintro hiff ⟨-, ⟨-, hstar, hdemands⟩ | ⟨⟨i, hi, hmatched, hpos⟩, -⟩⟩
          · exact hasks (hiff.mpr ⟨hstar, hdemands⟩).1
          · exact hpos (hzero i hi hmatched)
        · intro hnot
          constructor
          · exact fun hboth => absurd hboth.1 hasks
          · exact fun hboth => absurd ⟨rfl, Or.inl ⟨hzero, hboth.1, hboth.2⟩⟩ hnot

end Nodes

/--
**Matching is symmetric for nodes, but where `Asymmetric` says otherwise**: in every state
that a cache can reach, for every node, every object and every number of attributes demanded.
-/
theorem node_matching_symmetric_iff (e : Bool) (ops : List Op) (nodeId dobjId : CString)
    (minAttrMatch : Int) :
    (dobjId ∈ (after e ops).getDataObjectIdsForNode nodeId minAttrMatch 0 (-1) ↔
      nodeId ∈ (after e ops).getNodeIdsForDataObject dobjId minAttrMatch 0) ↔
    ∀ n d, (after e ops).getNodeFromId nodeId = some n →
      (after e ops).getDataObjectFromId dobjId = some d →
      ¬ Asymmetric (after e ops).excludeZeroWeightAttributes n d minAttrMatch := by
  have ho := objectsIndexed_after e ops
  have hn := nodesIndexed_after e ops
  unfold getNodeFromId getDataObjectFromId
  cases hnode : (after e ops).nodeIdToNode.find nodeId with
  | none =>
      -- no such node: it asks for nothing, and nothing accepts it
      have hleft : dobjId ∉ (after e ops).getDataObjectIdsForNode nodeId minAttrMatch 0 (-1) := by
        unfold getDataObjectIdsForNode
        simp [hnode]
      have hright : nodeId ∉ (after e ops).getNodeIdsForDataObject dobjId minAttrMatch 0 := by
        unfold getNodeIdsForDataObject
        cases (after e ops).doIdToDo.find dobjId with
        | none => simp
        | some d =>
            dsimp only
            rw [if_neg (show ¬ (0 : Int) < 0 by decide),
              show decide ((0 : Int) < 0) = false from rfl, mem_limited_collect]
            unfold acceptNode
            simp [hnode]
      simp [hleft, hright]
  | some n =>
      obtain ⟨hmem, rfl⟩ := hn.find.mp hnode
      cases hobject : (after e ops).doIdToDo.find dobjId with
      | none =>
          have hmissing := ho.find_none.mp hobject
          have hleft : dobjId ∉ (after e ops).getDataObjectIdsForNode n.id minAttrMatch 0 (-1) := by
            unfold getDataObjectIdsForNode
            rw [hnode]
            dsimp only
            rw [show decide ((0 : Int) ≠ 0) = false from rfl, mem_limited_collect,
              ho.mem_objectCandidates]
            rintro ⟨⟨d, hd, hid, -⟩, -⟩
            exact hmissing d hd hid
          have hright : n.id ∉ (after e ops).getNodeIdsForDataObject dobjId minAttrMatch 0 := by
            unfold getNodeIdsForDataObject
            simp [hobject]
          simp [hleft, hright]
      | some d =>
          obtain ⟨hd, rfl⟩ := ho.find.mp hobject
          rw [mem_getDataObjectIdsForNode ho hn hmem hd, mem_getNodeIdsForDataObject ho hn hmem hd,
            asymmetric_iff]
          simp

/-- A peer that will take anything named `k`, but gives it no weight and demands nothing. -/
def indifferent : AbstractNode := ⟨lit "n", [], [⟨lit "k", lit "*", 0⟩], 10, 0, .peer, none⟩

/-- An object named `k`. -/
def objectK : AbstractDataObject := ⟨lit "d", [⟨lit "k", lit "v", 1⟩], none⟩

/-- The object is led to the node, which does not ask for it. -/
theorem weightless_wildcard_one_way :
    let s := after true [.setExcludeZeroWeightAttributes true, .cacheDataObject objectK,
      .cacheNode indifferent]
    s.getDataObjectIdsForNode (lit "n") 0 0 (-1) = [] ∧
      s.getNodeIdsForDataObject (lit "d") 0 0 = [lit "n"] := by
  decide +kernel

/-! ## Filters -/

/-- The satisfaction of a filter by joined attributes. -/
def filterDegree (arithmetic : Arithmetic) (interests : List (CString × Int))
    (attrs : List CString) : Degree :=
  Degree.quotient arithmetic (tally (fun keyval => Matched keyval attrs) interests).sum
    (totalWeight interests)

/-- The way in which the directions come apart: only attributes without weight are matched. -/
def FilterAsymmetric (exclude : Bool) (f : Filter) (interests : List (CString × Int))
    (d : AbstractDataObject) : Prop :=
  exclude = true ∧ f.matchThreshold ≤ 0 ∧ totalWeight interests ≠ 0 ∧
    (∃ i ∈ interests, Matched i.1 d.getAttributes = true) ∧
    ∀ i ∈ interests, Matched i.1 d.getAttributes = true → i.2 = 0

section Filters

variable {s : MemoryCache} {objects : List AbstractDataObject}
variable {d : AbstractDataObject}
variable {interests : List (CString × Int)}
  {attributes : List FilterAttribute} {arithmetic : Arithmetic}

theorem computeFilterSatisfaction_eq (ho : ObjectsIndexed s objects) (hd : d ∈ objects)
    (filterId : Int) :
    (s.computeFilterSatisfaction arithmetic filterId d.id).1 =
      filterDegree arithmetic (s.filterInterests filterId) d.getAttributes := by
  unfold computeFilterSatisfaction filterDegree
  dsimp only
  rw [ho.hasAttr hd, tally_total]

/-- A list of what passes a test, each once. -/
theorem mem_foldl_unique {p : Int → Bool} {x : Int} : ∀ (cs l : List Int),
    x ∈ cs.foldl (fun l c => if c ∉ l ∧ p c then l ++ [c] else l) l ↔
      x ∈ l ∨ x ∈ cs ∧ p x = true
  | [], l => by simp
  | c :: cs, l => by
      rw [List.foldl_cons, mem_foldl_unique cs, List.mem_cons]
      by_cases hc : c ∉ l ∧ p c = true
      · rw [if_pos hc, List.mem_append, List.mem_singleton]
        constructor
        · rintro ((h | rfl) | h)
          · exact Or.inl h
          · exact Or.inr ⟨Or.inl rfl, hc.2⟩
          · exact Or.inr ⟨Or.inr h.1, h.2⟩
        · rintro (h | ⟨rfl | h, hp⟩)
          · exact Or.inl (Or.inl h)
          · exact Or.inl (Or.inr rfl)
          · exact Or.inr ⟨h, hp⟩
      · rw [if_neg hc]
        constructor
        · rintro (h | h)
          · exact Or.inl h
          · exact Or.inr ⟨Or.inr h.1, h.2⟩
        · rintro (h | ⟨rfl | h, hp⟩)
          · exact Or.inl h
          · exact Or.inl (by by_contra hmem; exact hc ⟨hmem, hp⟩)
          · exact Or.inr ⟨h, hp⟩

/-- The filter's way: some attribute that is not left out is matched. -/
theorem mem_getDataObjectIdsForFilter (ho : ObjectsIndexed s objects) {filterId : Int} {f : Filter}
    (hf : s.filters.find filterId = some f) (hlimit : f.maxMatches ≤ 0) (hd : d ∈ objects) :
    d.id ∈ s.getDataObjectIdsForFilterBy arithmetic filterId ↔
      (∃ i ∈ s.filterInterests filterId,
        s.excludes i.2 = false ∧ Matched i.1 d.getAttributes = true) ∧
      (filterDegree arithmetic (s.filterInterests filterId) d.getAttributes).reaches arithmetic
        f.matchThreshold =
        true := by
  unfold getDataObjectIdsForFilterBy
  rw [hf]
  dsimp only
  rw [decide_eq_false (Int.not_lt.mpr hlimit), mem_limited_collect, ho.mem_objectCandidates]
  unfold acceptForFilter
  rw [computeFilterSatisfaction_eq ho hd]
  refine and_congr ?_ ?_
  · exact ho.exists_id_iff hd
  · dsimp only
    split
    · next h => simpa using h
    · next h => simpa using h

/-- The object's way: some attribute is matched. -/
theorem mem_getFiltersForDataObjectId (ho : ObjectsIndexed s objects)
    (hfilters : FiltersIndexed s attributes) {filterId : Int} {f : Filter}
    (hf : s.filters.find filterId = some f) (hd : d ∈ objects) :
    filterId ∈ s.getFiltersForDataObjectIdBy arithmetic d.id ↔
      (∃ i ∈ s.filterInterests filterId, Matched i.1 d.getAttributes = true) ∧
      (filterDegree arithmetic (s.filterInterests filterId) d.getAttributes).reaches arithmetic
        f.matchThreshold =
        true := by
  unfold getFiltersForDataObjectIdBy
  rw [ho.find.mpr ⟨hd, rfl⟩]
  dsimp only
  rw [mem_foldl_unique, hfilters.mem_filterCandidates]
  unfold acceptFilter
  rw [hf]
  dsimp only
  rw [computeFilterSatisfaction_eq ho hd]
  simp

/-- Where only attributes without weight are matched, the degree is zero, or none. -/
theorem filterDegree_weightless {attrs : List CString}
    (h : ∀ i ∈ interests, Matched i.1 attrs = true → i.2 = 0) (threshold : Int) :
    (filterDegree arithmetic interests attrs).reaches arithmetic threshold = true ↔
      threshold ≤ 0 ∧ totalWeight interests ≠ 0 := by
  unfold filterDegree
  rw [tally_sum_eq_zero (fun keyval => Matched keyval attrs) h]
  unfold Degree.quotient
  by_cases htotal : totalWeight interests = 0
  · rw [if_pos htotal, if_pos rfl]
    simp [Degree.reaches, htotal]
  · rw [if_neg htotal]
    simpa [htotal, arithmetic.round_zero] using reaches_zero arithmetic threshold

/-- **Where the two ways come apart.** -/
theorem filterAsymmetric_iff {f : Filter} :
    ((∃ i ∈ interests, s.excludes i.2 = false ∧ Matched i.1 d.getAttributes = true) ∧
        (filterDegree arithmetic interests d.getAttributes).reaches arithmetic f.matchThreshold = true ↔
      (∃ i ∈ interests, Matched i.1 d.getAttributes = true) ∧
        (filterDegree arithmetic interests d.getAttributes).reaches arithmetic
          f.matchThreshold = true) ↔
    ¬ FilterAsymmetric s.excludeZeroWeightAttributes f interests d := by
  by_cases hasks : ∃ i ∈ interests, s.excludes i.2 = false ∧ Matched i.1 d.getAttributes = true
  · obtain ⟨i, hi, hex, hmatched⟩ := hasks
    constructor
    · rintro - ⟨hexclude, -, -, -, hall⟩
      simp [excludes, hexclude, hall i hi hmatched] at hex
    · intro _
      constructor
      · exact fun hboth => ⟨⟨i, hi, hmatched⟩, hboth.2⟩
      · exact fun hboth => ⟨⟨i, hi, hex, hmatched⟩, hboth.2⟩
  · by_cases hmatch : ∃ i ∈ interests, Matched i.1 d.getAttributes = true
    · -- what is matched is left out, so it has no weight
      have hall : ∀ i ∈ interests, Matched i.1 d.getAttributes = true →
          s.excludeZeroWeightAttributes = true ∧ i.2 = 0 := by
        intro i hi hmatched
        by_contra hnot
        refine hasks ⟨i, hi, ?_, hmatched⟩
        unfold excludes
        by_contra hex
        exact hnot (by simpa using hex)
      have hexclude : s.excludeZeroWeightAttributes = true := by
        obtain ⟨i, hi, hmatched⟩ := hmatch
        exact (hall i hi hmatched).1
      have hzero : ∀ i ∈ interests, Matched i.1 d.getAttributes = true → i.2 = 0 :=
        fun i hi hmatched => (hall i hi hmatched).2
      rw [filterDegree_weightless hzero]
      constructor
      · rintro hiff ⟨-, hthreshold, htotal, -⟩
        exact hasks (hiff.mpr ⟨hmatch, hthreshold, htotal⟩).1
      · intro hnot
        constructor
        · exact fun hboth => absurd hboth.1 hasks
        · exact fun hboth =>
            absurd ⟨hexclude, hboth.2.1, hboth.2.2, hmatch, hzero⟩ hnot
    · constructor
      · rintro - ⟨-, -, -, hmatch', -⟩
        exact hmatch hmatch'
      · intro _
        constructor
        · exact fun hboth => absurd hboth.1 hasks
        · exact fun hboth => absurd hboth.1 hmatch

end Filters

/--
**Matching is symmetric for filters, but where `FilterAsymmetric` says otherwise**: in every
state that a cache can reach by putting in plain filter attributes, for every filter without
a limit and every object. It does not depend on the arithmetic: with exact quotients it holds as
it does in doubles.
-/
theorem filter_matching_symmetric_iff (arithmetic : Arithmetic) (e : Bool) (ops : List Op)
    (hplain : ∀ op ∈ ops, Contents.PlainOp op) (filterId : Int)
    (hlimit : ∀ f, (after e ops).filters.find filterId = some f → f.maxMatches ≤ 0)
    (dobjId : CString) :
    (dobjId ∈ (after e ops).getDataObjectIdsForFilterBy arithmetic filterId ↔
      filterId ∈ (after e ops).getFiltersForDataObjectIdBy arithmetic dobjId) ↔
    ∀ f d, (after e ops).filters.find filterId = some f →
      (after e ops).getDataObjectFromId dobjId = some d →
      ¬ FilterAsymmetric (after e ops).excludeZeroWeightAttributes f
        ((after e ops).filterInterests filterId) d := by
  have ho := objectsIndexed_after e ops
  have hfilters := filtersIndexed_after e hplain
  unfold getDataObjectFromId
  cases hf : (after e ops).filters.find filterId with
  | none =>
      -- without the filter neither side has an answer
      have hleft : dobjId ∉ (after e ops).getDataObjectIdsForFilterBy arithmetic filterId := by
        unfold getDataObjectIdsForFilterBy
        simp [hf]
      have hright : filterId ∉ (after e ops).getFiltersForDataObjectIdBy arithmetic dobjId := by
        unfold getFiltersForDataObjectIdBy
        cases (after e ops).doIdToDo.find dobjId with
        | none => simp
        | some d =>
            dsimp only
            rw [mem_foldl_unique]
            unfold acceptFilter
            simp [hf]
      simp [hleft, hright]
  | some f =>
      have hnolimit := hlimit f hf
      cases hobject : (after e ops).doIdToDo.find dobjId with
      | none =>
          -- without the object neither side has an answer
          have hmissing := ho.find_none.mp hobject
          have hleft : dobjId ∉ (after e ops).getDataObjectIdsForFilterBy arithmetic filterId := by
            unfold getDataObjectIdsForFilterBy
            rw [hf]
            dsimp only
            rw [decide_eq_false (Int.not_lt.mpr hnolimit), mem_limited_collect,
              ho.mem_objectCandidates]
            rintro ⟨⟨d, hd, hid, -⟩, -⟩
            exact hmissing d hd hid
          have hright : filterId ∉ (after e ops).getFiltersForDataObjectIdBy arithmetic dobjId := by
            unfold getFiltersForDataObjectIdBy
            simp [hobject]
          simp [hleft, hright]
      | some d =>
          obtain ⟨hd, rfl⟩ := ho.find.mp hobject
          rw [mem_getDataObjectIdsForFilter ho hf hnolimit hd,
            mem_getFiltersForDataObjectId ho hfilters hf hd, filterAsymmetric_iff]
          simp

/-- A filter of one attribute without weight and one with. -/
def halfWeightless : List Op :=
  [.setExcludeZeroWeightAttributes true, .cacheDataObject objectK,
    .cacheFilter 1 (lit "k") (lit "v") 0, .cacheFilter 1 (lit "x") (lit "y") 1,
    .setFilterSettings 1 0 0]

/--
The object matches the one without weight: it finds the filter, and the filter not the object,
with exact quotients and in doubles.
-/
theorem weightless_attribute_one_way :
    ((after true halfWeightless).getDataObjectIdsForFilterBy .exact 1 = [] ∧
      (after true halfWeightless).getFiltersForDataObjectIdBy .exact (lit "d") = [1]) ∧
    (after true halfWeightless).getDataObjectIdsForFilter 1 = [] ∧
      (after true halfWeightless).getFiltersForDataObjectId (lit "d") = [1] := by
  decide +kernel

/-- An attribute with a weight that the object matches: both find each other. -/
theorem filter_matching_symmetric_weighted :
    let s := after true [.setExcludeZeroWeightAttributes true, .cacheDataObject objectK,
      .cacheFilter 1 (lit "k") (lit "v") 1]
    lit "d" ∈ s.getDataObjectIdsForFilterBy .exact 1 ∧
      (lit "d" ∈ s.getDataObjectIdsForFilterBy .exact 1 ↔
        1 ∈ s.getFiltersForDataObjectIdBy .exact (lit "d")) := by
  refine ⟨by decide +kernel, ?_⟩
  have hfind : (after true [.setExcludeZeroWeightAttributes true, .cacheDataObject objectK,
      .cacheFilter 1 (lit "k") (lit "v") 1]).filters.find 1 = some ⟨100, 0⟩ := by decide +kernel
  refine (filter_matching_symmetric_iff .exact true _ (by decide +kernel) 1 ?_ (lit "d")).mpr ?_
  · intro f hf
    rw [hfind] at hf
    injection hf with hf
    rw [← hf]
  · rintro f d hf - ⟨-, hthreshold, -⟩
    rw [hfind] at hf
    injection hf with hf
    rw [← hf] at hthreshold
    exact absurd hthreshold (by decide)

end Encoders.Store
