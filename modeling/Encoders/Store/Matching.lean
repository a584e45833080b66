import Encoders.Lib.Double
import Encoders.Store.MemoryCache

/-!
# The queries of the memory cache

`computeSatisfaction` and `computeFilterSatisfaction` go through the interests of a node or a
filter, sum up their weights, and the weights of those that an object matches; the quotient
is the degree of satisfaction, a `double`, and a hundred times of it is compared with a
threshold. A filter whose weights sum up to zero has no degree at all, which compares like the
`NaN` it is in the source. The queries about filters are written for any `Arithmetic`, so that
what holds of them can be told apart from what the rounding does; the code's is `double`.

The four queries have one shape: a list of candidates in the order the loops meet them, each
considered once, and put in its place by satisfaction if it reaches the threshold. They
differ in how candidates are found.
-/

namespace Encoders.Store

open Encoders.Lib Encoders.Container Encoders.Data

/-! ## Degrees -/

/-- How the results of divisions and multiplications are rounded. -/
structure Arithmetic where
  round : ℚ → ℚ
  /-- zero is not moved -/
  round_zero : round 0 = 0

/-- As the code computes: to the nearest `double`. -/
def Arithmetic.double : Arithmetic := ⟨nearestDouble, nearestDouble_zero⟩

/-- Not rounded at all. -/
def Arithmetic.exact : Arithmetic := ⟨id, rfl⟩

/-- What a quotient of two integers can be. -/
inductive Degree where
  | nan
  | negInf
  | fin (q : ℚ)
  | posInf
deriving DecidableEq

namespace Degree

/-- `sum / (double) total` -/
def quotient (arithmetic : Arithmetic) (sum total : Int) : Degree :=
  if total = 0 then if sum = 0 then .nan else if sum < 0 then .negInf else .posInf
  else .fin (arithmetic.round (sum / total))

/-- `sat * 100 >= threshold` -/
def reaches (sat : Degree) (arithmetic : Arithmetic) (threshold : Int) : Bool :=
  match sat with
  | nan => false
  | negInf => false
  | fin q => (threshold : ℚ) ≤ arithmetic.round (q * 100)
  | posInf => true

/-- `>` -/
def gt : Degree → Degree → Bool
  | nan, _ => false
  | _, nan => false
  | fin q, fin r => r < q
  | negInf, _ => false
  | _, negInf => true
  | _, posInf => false
  | posInf, _ => true

theorem gt_self (a : Degree) : a.gt a = false := by
  cases a with
  | fin q => simp [gt]
  | _ => rfl

/-- What is better than a degree is better than all that is not better than it. -/
theorem gt_trans {a b c : Degree} (hab : a.gt b = true) (hcb : c.gt b = false) :
    c.gt a = false := by
  cases a with
  | nan => simp [gt] at hab
  | negInf => cases b <;> simp [gt] at hab
  | posInf => cases c <;> rfl
  | fin q =>
      cases b with
      | nan => simp [gt] at hab
      | posInf => simp [gt] at hab
      | negInf => cases c <;> simp_all [gt]
      | fin r =>
          cases c with
          | nan => rfl
          | negInf => rfl
          | posInf => simp [gt] at hcb
          | fin p =>
              simp only [gt, decide_eq_true_eq, decide_eq_false_iff_not, not_lt] at *
              exact le_trans hcb (le_of_lt hab)

end Degree

/-- `sortedStringListInsert`: before the first one that is worse. -/
def sortedStringListInsert (dobjId : CString) (metric : Degree) :
    List (CString × Degree) → List (CString × Degree)
  | [] => [(dobjId, metric)]
  | e :: l =>
      if metric.gt e.2 then (dobjId, metric) :: e :: l
      else e :: sortedStringListInsert dobjId metric l

/-! ## Satisfaction -/

/-- What the loops over interests count; `int` wraps around. -/
structure Tally where
  total : Int
  sum : Int
  matchCount : Int

/-- One round of the loop: an interest of a weight, which is matched or not. -/
def Tally.count (t : Tally) (weight : Int) (hasAttr : Bool) : Tally where
  total := (t.total + weight).bmod 4294967296
  sum := if hasAttr then (t.sum + weight).bmod 4294967296 else t.sum
  matchCount := if hasAttr then t.matchCount + 1 else t.matchCount

/-- The whole loop. -/
def tally (hasAttr : CString → Bool) (interests : List (CString × Int)) : Tally :=
  interests.foldl (fun t i => t.count i.2 (hasAttr i.1)) ⟨0, 0, 0⟩

namespace MemoryCache

variable {accept : CString → Option Degree}
variable {id : CString} {e : CString × Degree} {candidates : List CString}

/-- Does the object have an attribute that the interest asks for? -/
def hasAttr (s : MemoryCache) (dobjId keyval : CString) : Bool :=
  if isStar keyval then s.keyStarToDoIds.starHas (extractKey keyval) dobjId
  else dobjId ∈ s.keyvalToDoId.values keyval

/-- The attributes of a filter, as its queries go through them. -/
def filterInterests (s : MemoryCache) (filterId : Int) : List (CString × Int) :=
  (s.filterIdToAttribute.values filterId).map (fun a => (a.keyval, a.weight))

/-- `computeFilterSatisfaction` -/
def computeFilterSatisfaction (s : MemoryCache) (arithmetic : Arithmetic) (filterId : Int)
    (dobjId : CString) : Degree × Int :=
  let t := tally (s.hasAttr dobjId) (s.filterInterests filterId)
  (Degree.quotient arithmetic t.sum t.total, t.matchCount)

/-- Is an interest of this weight left out? -/
def excludes (s : MemoryCache) (weight : Int) : Bool :=
  s.excludeZeroWeightAttributes && weight = 0

/-- `computeSatisfaction`, for a node that was found. -/
def nodeSatisfaction (s : MemoryCache) (node : AbstractNode) (dobjId : CString) : Degree × Int :=
  let t := tally (s.hasAttr dobjId) (node.getInterests.filter (fun i => !s.excludes i.2))
  (if t.total ≤ 0 then .fin 0 else Degree.quotient .double t.sum t.total, t.matchCount)

/-- `computeSatisfaction` -/
def computeSatisfaction (s : MemoryCache) (nodeId dobjId : CString) : Degree × Int :=
  match s.nodeIdToNode.find nodeId with
  | none => (.fin 0, 0)
  | some node => s.nodeSatisfaction node dobjId

/-! ## Lists of matches -/

/-- A candidate that is new and reaches the threshold is put in its place. -/
def consider (accept : CString → Option Degree) (matchList : List (CString × Degree))
    (id : CString) : List (CString × Degree) :=
  if id ∈ matchList.map Prod.fst then matchList
  else
    match accept id with
    | none => matchList
    | some sat => sortedStringListInsert id sat matchList

/-- All candidates, one after the other. -/
def collect (accept : CString → Option Degree) (candidates : List CString) :
    List (CString × Degree) :=
  candidates.foldl (consider accept) []

/-- The ids of the first so many matches, or of all. -/
def limited (enableMaxMatches : Bool) (maxMatch : Int) (matchList : List (CString × Degree)) :
    List CString :=
  if enableMaxMatches then (matchList.map Prod.fst).take maxMatch.toNat
  else matchList.map Prod.fst

/-- The objects that the index of an interest lists. -/
def objectsOf (s : MemoryCache) (keyval : CString) : List CString :=
  if isStar keyval then s.keyStarToDoIds.starIds (extractKey keyval)
  else s.keyvalToDoId.values keyval

/-- The objects that the loops over a list of interests meet. -/
def objectCandidates (s : MemoryCache) (interests : List (CString × Int)) : List CString :=
  interests.flatMap (fun i => if s.excludes i.2 then [] else s.objectsOf i.1)

/-! ## Filters -/

/-- A filter that reaches its threshold. -/
def acceptFilter (s : MemoryCache) (arithmetic : Arithmetic) (dobjId : CString)
    (filterId : Int) : Bool :=
  match s.filters.find filterId with
  | none => false
  | some f =>
      (s.computeFilterSatisfaction arithmetic filterId dobjId).1.reaches arithmetic
        f.matchThreshold

/-- The filters that the loops over the attributes of an object meet. -/
def filterCandidates (s : MemoryCache) (attrs : List CString) : List Int :=
  attrs.flatMap (fun keyval =>
    s.keyvalToFilterId.values keyval ++ s.keyStarToFilterId.starIds (extractKey keyval))

/-- `getFiltersForDataObjectId`, in any arithmetic. -/
def getFiltersForDataObjectIdBy (s : MemoryCache) (arithmetic : Arithmetic) (dobjId : CString) :
    List Int :=
  match s.doIdToDo.find dobjId with
  | none => []
  | some dobj =>
      (s.filterCandidates dobj.getAttributes).foldl
        (fun filterIds filterId =>
          if filterId ∉ filterIds ∧ s.acceptFilter arithmetic dobjId filterId then
            filterIds ++ [filterId]
          else filterIds) []

/-- `getFiltersForDataObjectId` -/
def getFiltersForDataObjectId (s : MemoryCache) (dobjId : CString) : List Int :=
  s.getFiltersForDataObjectIdBy .double dobjId

/-- An object that reaches the threshold of a filter. -/
def acceptForFilter (s : MemoryCache) (arithmetic : Arithmetic) (filterId : Int) (f : Filter)
    (dobjId : CString) : Option Degree :=
  let sat := (s.computeFilterSatisfaction arithmetic filterId dobjId).1
  if sat.reaches arithmetic f.matchThreshold then some sat else none

/-- `getDataObjectIdsForFilter`, in any arithmetic. -/
def getDataObjectIdsForFilterBy (s : MemoryCache) (arithmetic : Arithmetic) (filterId : Int) :
    List CString :=
  match s.filters.find filterId with
  | none => []
  | some f =>
      limited (0 < f.maxMatches) f.maxMatches
        (collect (s.acceptForFilter arithmetic filterId f)
          (s.objectCandidates (s.filterInterests filterId)))

/-- `getDataObjectIdsForFilter` -/
def getDataObjectIdsForFilter (s : MemoryCache) (filterId : Int) : List CString :=
  s.getDataObjectIdsForFilterBy .double filterId

/-! ## Nodes -/

/-- `getNodeDataObjectIdsForNode` -/
def getNodeDataObjectIdsForNode (s : MemoryCache) (nodeId : CString) : List CString :=
  s.nodeIdToDoId.values nodeId

/-- A satisfaction that has enough matching attributes and reaches a threshold. -/
def acceptSatisfaction (minAttrMatch threshold : Int) (sat : Degree × Int) : Option Degree :=
  if minAttrMatch ≤ sat.2 ∧ sat.1.reaches .double threshold then some sat.1 else none

/-- `getDataObjectIdsForNode` -/
def getDataObjectIdsForNode (s : MemoryCache) (nodeId : CString)
    (minAttrMatch maxMatches threshold : Int) : List CString :=
  match s.nodeIdToNode.find nodeId with
  | none => []
  | some node =>
      let matchThreshold := if 0 ≤ threshold then threshold else node.getMatchThreshold
      let maxMatch := if 0 < maxMatches then maxMatches else node.getMaxDataObjectsInMatch
      limited (maxMatches ≠ 0) maxMatch
        (collect
          (fun dobjId =>
            acceptSatisfaction minAttrMatch matchThreshold (s.computeSatisfaction nodeId dobjId))
          (s.objectCandidates node.getInterests))

/-- A node that lists the attribute with no weight is skipped, if such are left out. -/
def skipInterest (s : MemoryCache) (node : AbstractNode) (keyval : CString) : Bool :=
  s.excludeZeroWeightAttributes && node.getInterests.any (fun i => keyval = i.1 && i.2 = 0)

/-- The nodes that the loops over the attributes of an object meet. -/
def nodeCandidates (s : MemoryCache) (attrs : List CString) : List CString :=
  attrs.flatMap (fun keyval =>
    (s.keyvalToNodeId.values keyval).filter (fun nodeId =>
      match s.nodeIdToNode.find nodeId with
      | none => false
      | some node => !s.skipInterest node keyval)
    ++ s.keyStarToNodeIds.starIds (extractKey keyval))

/-- A node whose own threshold is reached. -/
def acceptNode (s : MemoryCache) (dobjId : CString) (minAttrMatch : Int) (nodeId : CString) :
    Option Degree :=
  match s.nodeIdToNode.find nodeId with
  | none => none
  | some node =>
      acceptSatisfaction minAttrMatch node.getMatchThreshold (s.computeSatisfaction nodeId dobjId)

/-- `getNodeIdsForDataObject` -/
def getNodeIdsForDataObject (s : MemoryCache) (dobjId : CString)
    (minAttrMatch maxMatches : Int) : List CString :=
  let maxMatches := if maxMatches < 0 then s.maxNodesToMatch else maxMatches
  match s.doIdToDo.find dobjId with
  | none => []
  | some dobj =>
      limited (0 < maxMatches) maxMatches
        (collect (s.acceptNode dobjId minAttrMatch) (s.nodeCandidates dobj.getAttributes))

/-! ## What a list of matches holds -/

theorem mem_sortedStringListInsert {sat : Degree} :
    ∀ {l : List (CString × Degree)},
      e ∈ sortedStringListInsert id sat l ↔ e = (id, sat) ∨ e ∈ l
  | [] => by simp [sortedStringListInsert]
  | f :: l => by
      unfold sortedStringListInsert
      split
      · rw [List.mem_cons]
      · rw [List.mem_cons, mem_sortedStringListInsert, List.mem_cons, or_left_comm]

/-- One candidate more. -/
theorem mem_consider {l : List (CString × Degree)} (hl : ∀ e ∈ l, accept e.1 = some e.2) :
    e ∈ consider accept l id ↔ e ∈ l ∨ e.1 = id ∧ accept id = some e.2 := by
  unfold consider
  by_cases hid : id ∈ l.map Prod.fst
  · rw [if_pos hid]
    refine ⟨Or.inl, ?_⟩
    rintro (he | ⟨rfl, he⟩)
    · exact he
    · obtain ⟨f, hf, hfe⟩ := List.mem_map.mp hid
      have hsat := hl f hf
      rw [hfe, he] at hsat
      injection hsat with hsat
      rw [show e = f from Prod.ext hfe.symm hsat]
      exact hf
  · rw [if_neg hid]
    cases hsat : accept id with
    | none => simp
    | some sat =>
        dsimp only
        rw [mem_sortedStringListInsert, or_comm]
        constructor
        · rintro (he | rfl)
          · exact Or.inl he
          · exact Or.inr ⟨rfl, rfl⟩
        · rintro (he | ⟨rfl, he⟩)
          · exact Or.inl he
          · injection he with he
            exact Or.inr (Prod.ext rfl he.symm)

/-- **The list of matches is the candidates that are accepted**, with their satisfaction. -/
theorem mem_collect : e ∈ collect accept candidates ↔ e.1 ∈ candidates ∧ accept e.1 = some e.2 := by
  suffices hgen : ∀ (cs : List CString) (l : List (CString × Degree)),
      (∀ f ∈ l, accept f.1 = some f.2) →
      (e ∈ cs.foldl (consider accept) l ↔ e ∈ l ∨ e.1 ∈ cs ∧ accept e.1 = some e.2) by
    have := hgen candidates [] (by simp)
    simpa [collect] using this
  intro cs
  induction cs with
  | nil => intro l _; simp
  | cons id cs ih =>
      intro l hl
      have hl' : ∀ f ∈ consider accept l id, accept f.1 = some f.2 := by
        intro f hf
        rcases (mem_consider hl).mp hf with hf | ⟨rfl, hf⟩
        · exact hl f hf
        · exact hf
      rw [List.foldl_cons, ih _ hl', mem_consider hl, List.mem_cons, or_assoc]
      constructor
      · rintro (he | ⟨rfl, he⟩ | he)
        · exact Or.inl he
        · exact Or.inr ⟨Or.inl rfl, he⟩
        · exact Or.inr ⟨Or.inr he.1, he.2⟩
      · rintro (he | ⟨rfl | hmem, he⟩)
        · exact Or.inl he
        · exact Or.inr (Or.inl ⟨rfl, he⟩)
        · exact Or.inr (Or.inr ⟨hmem, he⟩)

theorem perm_sortedStringListInsert (id : CString) (sat : Degree) :
    ∀ l : List (CString × Degree), (sortedStringListInsert id sat l).Perm ((id, sat) :: l)
  | [] => List.Perm.refl _
  | e :: l => by
      unfold sortedStringListInsert
      split
      · exact List.Perm.refl _
      · exact ((perm_sortedStringListInsert id sat l).cons e).trans (List.Perm.swap _ _ _)

/-- No candidate is listed twice. -/
theorem nodup_collect (accept : CString → Option Degree) (candidates : List CString) :
    ((collect accept candidates).map Prod.fst).Nodup := by
  unfold collect
  refine List.foldlRecOn (motive := fun l : List (CString × Degree) => (l.map Prod.fst).Nodup)
    candidates _ List.nodup_nil ?_
  intro l hl id _
  unfold consider
  split
  · exact hl
  · next hid =>
      cases accept id with
      | none => exact hl
      | some sat =>
          refine (((perm_sortedStringListInsert id sat l).map Prod.fst).nodup_iff).mpr ?_
          exact List.nodup_cons.mpr ⟨hid, hl⟩

theorem pairwise_sortedStringListInsert (id : CString) (sat : Degree) :
    ∀ {l : List (CString × Degree)}, l.Pairwise (fun e e' => e'.2.gt e.2 = false) →
      (sortedStringListInsert id sat l).Pairwise (fun e e' => e'.2.gt e.2 = false)
  | [], _ => List.pairwise_singleton _ _
  | e :: l, h => by
      rw [List.pairwise_cons] at h
      unfold sortedStringListInsert
      split
      · next hgt =>
          refine List.pairwise_cons.mpr ⟨?_, List.pairwise_cons.mpr h⟩
          intro f hf
          rcases List.mem_cons.mp hf with rfl | hf
          · exact Degree.gt_trans hgt (Degree.gt_self f.2)
          · exact Degree.gt_trans hgt (h.1 f hf)
      · next hgt =>
          refine List.pairwise_cons.mpr ⟨?_, pairwise_sortedStringListInsert id sat h.2⟩
          intro f hf
          rcases mem_sortedStringListInsert.mp hf with rfl | hf
          · simpa using hgt
          · exact h.1 f hf

/-- **The best come first.** -/
theorem pairwise_collect (accept : CString → Option Degree) (candidates : List CString) :
    (collect accept candidates).Pairwise (fun e e' => e'.2.gt e.2 = false) := by
  unfold collect
  refine List.foldlRecOn
    (motive := fun l : List (CString × Degree) => l.Pairwise (fun e e' => e'.2.gt e.2 = false))
    candidates _ List.Pairwise.nil ?_
  intro l hl id _
  unfold consider
  split
  · exact hl
  · cases accept id with
    | none => exact hl
    | some sat => exact pairwise_sortedStringListInsert id sat hl

/-- Without a limit, a query lists the candidates it accepts. -/
theorem mem_limited_collect {maxMatch : Int} :
    id ∈ limited false maxMatch (collect accept candidates) ↔
      id ∈ candidates ∧ (accept id).isSome = true := by
  unfold limited
  simp only [Bool.false_eq_true, if_false, List.mem_map, Prod.exists, exists_and_right,
    exists_eq_right, mem_collect, Option.isSome_iff_exists, exists_and_left]

end MemoryCache

end Encoders.Store
