import Mathlib.Algebra.Order.BigOperators.Group.List
import Encoders.Store.Symmetry

/-!
# Matching as it is meant

An interest of a node is matched by an attribute of the same name whose value it asks for, or
any value if it asks for `*`. An object qualifies for a node if it matches some interest that
counts, enough of them, and enough of their weight. `getDataObjectIdsForNode` is meant to list
the objects that qualify, the best first, or the first so many of them.

It does, where the joined strings are not ambiguous, the weights fit into an `int`, and no
object is on a threshold that rounding takes away. An interest in `a:*` is taken for one in any
value, of the name with `:a` behind it; an attribute whose value has a colon is found under the
wrong name by an interest in any value; and two names can be joined with two values to one
string. None of this happens to values without a colon. The quotient of the weights and a
hundred times it are rounded to doubles: that keeps the order of the objects, and `percent` says
which thresholds it keeps.
-/

namespace Encoders.Store

open Encoders.Lib Encoders.Container Encoders.Data MemoryCache

variable {d : AbstractDataObject} {n : AbstractNode} {exclude : Bool}
variable {a : Attribute}

/-! ## What is meant -/

/-- An interest is matched by an attribute: the same name, and its value or any. -/
def Asked (a b : Attribute) : Bool :=
  a.name = b.name && (a.value = b.value || a.value = wildcard)

/-- The interests that count. -/
def AbstractNode.counted (n : AbstractNode) (exclude : Bool) : List Attribute :=
  n.attributes.filter (fun a => !(exclude && a.weight = 0))

/-- The interests that count and that an object matches. -/
def AbstractNode.matchedBy (n : AbstractNode) (exclude : Bool) (d : AbstractDataObject) :
    List Attribute :=
  (n.counted exclude).filter (fun a => d.attributes.any (Asked a))

/-- The weight of some interests. -/
def weightSum (interests : List Attribute) : Nat := (interests.map (fun a => a.weight.toNat)).sum

/-- Matched weight over total weight. -/
def AbstractNode.degree (n : AbstractNode) (exclude : Bool) (d : AbstractDataObject) : ℚ :=
  (weightSum (n.matchedBy exclude d) : ℚ) / (weightSum (n.counted exclude) : ℚ)

/-- An object qualifies for a node. -/
def Qualifies (exclude : Bool) (n : AbstractNode) (d : AbstractDataObject)
    (minAttrMatch threshold : Int) : Prop :=
  n.matchedBy exclude d ≠ [] ∧ minAttrMatch ≤ (n.matchedBy exclude d).length ∧
    (threshold : ℚ) ≤ n.degree exclude d * 100

/-- The object is on the threshold, and loses it to the rounding of its satisfaction. -/
def LostByRounding (exclude : Bool) (n : AbstractNode) (d : AbstractDataObject)
    (threshold : Int) : Prop :=
  n.degree exclude d * 100 = threshold ∧ FallsShort threshold

/-- The threshold that is asked for, or the node's own. -/
def AbstractNode.threshold (n : AbstractNode) (threshold : Int) : Int :=
  if 0 ≤ threshold then threshold else n.getMatchThreshold

/-- As many as are asked for, or as the node takes; none is no limit. -/
def AbstractNode.limit (n : AbstractNode) (maxMatches : Int) : Option Nat :=
  if maxMatches = 0 then none
  else some (if 0 < maxMatches then maxMatches else n.getMaxDataObjectsInMatch).toNat

/-- The first so many, or all. -/
def upTo {α : Type} (limit : Option Nat) (l : List α) : List α :=
  match limit with
  | none => l
  | some k => l.take k

/-! ## Joined strings -/

/-- Joined to strings, an interest and an attribute are told apart. -/
structure Unambiguous (a b : Attribute) : Prop where
  /-- an interest in one value is not taken for one in any -/
  value : a.value ≠ wildcard → isStar (createHash a.name a.value) = false
  /-- for an interest in any value, the name of the attribute is what stands before the last colon -/
  name : a.value = wildcard → (extractKey (createHash b.name b.value) = a.name ↔ b.name = a.name)
  /-- for an interest in one value, another name does not make the same string -/
  joined : a.value ≠ wildcard → createHash a.name a.value = createHash b.name b.value →
    a.name = b.name

theorem createHash_cancel {key val val' : CString} (h : createHash key val = createHash key val') :
    val = val' := by
  rw [createHash_eq, createHash_eq] at h
  exact (List.cons.inj (List.append_cancel_left h)).2

/-- Values without a colon leave nothing ambiguous, whatever the names are. -/
theorem unambiguous_of_no_colon {b : Attribute} (ha : 58 ∉ a.value) (hb : 58 ∉ b.value) :
    Unambiguous a b where
  value := by
    intro hvalue
    unfold isStar
    rw [extractVal_createHash a.name ha, decide_eq_false hvalue]
  name := by
    intro _
    rw [extractKey_createHash b.name hb]
  joined := by
    intro _ heq
    rw [← extractKey_createHash a.name ha, heq, extractKey_createHash b.name hb]

/-- **An interest that is unambiguous is matched by the joined strings as it is meant to be.** -/
theorem matched_eq_asked (h : ∀ b ∈ d.attributes, Unambiguous a b) :
    Matched (createHash a.name a.value) d.getAttributes = d.attributes.any (Asked a) := by
  rw [Bool.eq_iff_iff, matched_iff, List.any_eq_true]
  unfold AbstractDataObject.getAttributes
  simp only [List.mem_map, exists_exists_and_eq_and]
  by_cases hvalue : a.value = wildcard
  · -- any value: the names before the last colon are compared
    have hstar : isStar (createHash a.name a.value) = true := by
      unfold isStar
      rw [hvalue, extractVal_createHash a.name (by decide), decide_eq_true rfl]
    have hkey : extractKey (createHash a.name a.value) = a.name := by
      rw [hvalue, extractKey_createHash a.name (by decide)]
    simp only [hstar, hkey, true_and, Bool.true_eq_false, false_and, or_false]
    refine exists_congr fun b => and_congr_right fun hb => ?_
    rw [(h b hb).name hvalue]
    simp [Asked, hvalue, eq_comm]
  · by_cases hnone : d.attributes = []
    · simp [hnone]
    · obtain ⟨b₀, hb₀⟩ := List.exists_mem_of_ne_nil _ hnone
      have hstar := (h b₀ hb₀).value hvalue
      simp only [hstar, Bool.false_eq_true, false_and, true_and, false_or]
      refine exists_congr fun b => and_congr_right fun hb => ?_
      constructor
      · intro heq
        have hname := (h b hb).joined hvalue heq.symm
        rw [hname] at heq
        simp [Asked, hname, createHash_cancel heq]
      · intro hasked
        simp only [Asked, Bool.and_eq_true, decide_eq_true_eq, Bool.or_eq_true] at hasked
        rw [hasked.1, hasked.2.resolve_right hvalue]

/-! ## Sums that fit -/

theorem toInt_eq {w : UInt64} (h : w.toNat < 2147483648) : toInt w = (w.toNat : Int) := by
  unfold toInt
  rw [Int.bmod_eq_of_le (by omega) (by omega)]

theorem weightSum_cons (a : Attribute) (l : List Attribute) :
    weightSum (a :: l) = a.weight.toNat + weightSum l := by
  unfold weightSum
  rw [List.map_cons, List.sum_cons]

/-- The matched weight is part of the whole. -/
theorem weightSum_matchedBy_le (n : AbstractNode) (exclude : Bool) (d : AbstractDataObject) :
    weightSum (n.matchedBy exclude d) ≤ weightSum (n.counted exclude) :=
  (List.filter_sublist.map _).sum_le_sum (fun _ _ => Nat.zero_le _)

theorem weight_le_weightSum {l : List Attribute} (ha : a ∈ l) : a.weight.toNat ≤ weightSum l :=
  List.single_le_sum (by simp) _ (List.mem_map_of_mem ha)

/-- Weights that fit are summed up as they are. -/
theorem tally_fits (has : CString → Bool) : ∀ (l : List Attribute) (T S : Nat) (C : Int),
    S ≤ T → T + weightSum l < 2147483648 →
    (l.map (fun a => (createHash a.name a.value, toInt a.weight))).foldl
        (fun (t : Tally) i => t.count i.2 (has i.1)) ⟨T, S, C⟩ =
      Tally.mk (T + weightSum l : Nat)
        (S + weightSum (l.filter (fun a => has (createHash a.name a.value))) : Nat)
        (C + (l.filter (fun a => has (createHash a.name a.value))).length)
  | [], T, S, C, _, _ => by simp [weightSum]
  | a :: l, T, S, C, hST, hfits => by
      rw [weightSum_cons] at hfits
      have hw : toInt a.weight = (a.weight.toNat : Int) := toInt_eq (by omega)
      rw [List.map_cons, List.foldl_cons, List.filter_cons, weightSum_cons]
      -- the fields are ints, and below the bound nothing wraps
      have htotal : ((T : Int) + a.weight.toNat).bmod 4294967296 =
          ((T + a.weight.toNat : Nat) : Int) := by
        rw [Int.bmod_eq_of_le (by omega) (by omega)]
        omega
      have hsum : ((S : Int) + a.weight.toNat).bmod 4294967296 =
          ((S + a.weight.toNat : Nat) : Int) := by
        rw [Int.bmod_eq_of_le (by omega) (by omega)]
        omega
      have hcount : Tally.count ⟨T, S, C⟩ (toInt a.weight) (has (createHash a.name a.value)) =
          if has (createHash a.name a.value) then
            ⟨(T + a.weight.toNat : Nat), (S + a.weight.toNat : Nat), C + 1⟩
          else ⟨(T + a.weight.toNat : Nat), S, C⟩ := by
        unfold Tally.count
        dsimp only
        rw [hw, htotal, hsum]
        split <;> rfl
      rw [hcount]
      -- a matched attribute adds to the sum as well, any other to the total only
      cases hhas : has (createHash a.name a.value) with
      | true =>
          rw [if_pos rfl, if_pos rfl, tally_fits has l _ _ _ (by omega) (by omega), weightSum_cons,
            List.length_cons]
          simp only [Tally.mk.injEq]
          exact ⟨by omega, by omega, by omega⟩
      | false =>
          rw [if_neg (by simp), if_neg (by simp), tally_fits has l _ _ _ (by omega) (by omega)]
          simp only [Tally.mk.injEq]
          exact ⟨by omega, trivial, trivial⟩

theorem toInt_eq_zero {w : UInt64} (h : w.toNat < 2147483648) : toInt w = 0 ↔ w = 0 := by
  rw [toInt_eq h, Int.natCast_eq_zero]
  exact UInt64.toNat_inj (b := 0)

/-- The interests that count, as the loops see them. -/
theorem getInterests_counted (hfits : weightSum (n.counted exclude) < 2147483648) :
    n.getInterests.filter (fun i => !(exclude && i.2 = 0)) =
      (n.counted exclude).map (fun a => (createHash a.name a.value, toInt a.weight)) := by
  unfold AbstractNode.getInterests
  rw [List.filter_map]
  refine congrArg (List.map _) (List.filter_congr ?_)
  intro a ha
  cases exclude with
  | false => simp only [Function.comp_apply, Bool.false_and]
  | true =>
      -- a weight that counts fits, so it is not taken for zero
      have hsmall : a.weight.toNat < 2147483648 := by
        by_cases hzero : a.weight = 0
        · rw [hzero]
          decide
        · have hmem : a ∈ n.counted true := List.mem_filter.mpr ⟨ha, by simp [hzero]⟩
          have hle := weight_le_weightSum hmem
          omega
      rw [Function.comp_apply, Bool.true_and, Bool.true_and,
        decide_eq_decide.mpr (toInt_eq_zero hsmall)]

/-- **The satisfaction that is computed is the one that is meant**, as a double. -/
theorem satisfaction_eq (hclear : ∀ a ∈ n.counted exclude, ∀ b ∈ d.attributes, Unambiguous a b)
    (hfits : weightSum (n.counted exclude) < 2147483648) :
    n.satisfaction exclude d.getAttributes =
      (Degree.fin (toDouble (n.degree exclude d)), ((n.matchedBy exclude d).length : Int)) := by
  have hmatched : (n.counted exclude).filter
      (fun a => Matched (createHash a.name a.value) d.getAttributes) = n.matchedBy exclude d := by
    unfold AbstractNode.matchedBy
    refine List.filter_congr ?_
    intro a ha
    exact matched_eq_asked (hclear a ha)
  have htally : tally (fun keyval => Matched keyval d.getAttributes)
      ((n.counted exclude).map (fun a => (createHash a.name a.value, toInt a.weight))) =
      ⟨(weightSum (n.counted exclude) : Nat), (weightSum (n.matchedBy exclude d) : Nat),
        ((n.matchedBy exclude d).length : Int)⟩ := by
    have hfold := tally_fits (fun keyval => Matched keyval d.getAttributes)
      (n.counted exclude) 0 0 0 (Nat.le_refl 0) (by omega)
    rw [hmatched] at hfold
    simpa [tally] using hfold
  unfold AbstractNode.satisfaction
  rw [getInterests_counted hfits, htally]
  dsimp only
  congr 1
  unfold AbstractNode.degree
  by_cases hzero : weightSum (n.counted exclude) = 0
  · rw [if_pos (by omega), hzero]
    simp
  · rw [if_neg (by omega)]
    unfold Degree.quotient Arithmetic.double
    rw [if_neg (by omega)]
    dsimp only
    rw [Int.cast_natCast, Int.cast_natCast, nearestDouble_of_nonneg (by positivity)]

theorem degree_nonneg (n : AbstractNode) (exclude : Bool) (d : AbstractDataObject) :
    0 ≤ n.degree exclude d := by
  unfold AbstractNode.degree
  positivity

/-- **A rounded degree reaches what the degree reaches**, if it is not lost. -/
theorem reaches_degree_iff (hfits : weightSum (n.counted exclude) < 2147483648)
    (d : AbstractDataObject) (threshold : Int) :
    (Degree.fin (toDouble (n.degree exclude d))).reaches .double threshold = true ↔
      (threshold : ℚ) ≤ n.degree exclude d * 100 ∧ ¬ LostByRounding exclude n d threshold := by
  have hround : Arithmetic.double.round (toDouble (n.degree exclude d) * 100) =
      toDouble (toDouble (n.degree exclude d) * 100) :=
    nearestDouble_of_nonneg (mul_nonneg (toDouble_nonneg (degree_nonneg n exclude d)) (by norm_num))
  unfold Degree.reaches LostByRounding
  dsimp only
  rw [hround, decide_eq_true_iff, not_and]
  exact le_percent_iff hfits (weightSum_matchedBy_le n exclude d)

/-- Rounding keeps the order of the objects. -/
theorem toDouble_degree_lt (hfits : weightSum (n.counted exclude) < 2147483648)
    {d' : AbstractDataObject} (h : n.degree exclude d < n.degree exclude d') :
    toDouble (n.degree exclude d) < toDouble (n.degree exclude d') := by
  unfold AbstractNode.degree at *
  rcases Nat.eq_zero_or_pos (weightSum (n.counted exclude)) with hzero | hpos
  · -- without a total there is one degree only
    rw [hzero] at h
    simp at h
  · rw [div_lt_div_iff_of_pos_right (by exact_mod_cast hpos)] at h
    exact toDouble_div_lt (by omega) (weightSum_matchedBy_le n exclude d') (by exact_mod_cast h)

/-- An unambiguous node asks for what it is meant to. -/
theorem asks_iff (hclear : ∀ a ∈ n.counted exclude, ∀ b ∈ d.attributes, Unambiguous a b)
    (hfits : weightSum (n.counted exclude) < 2147483648) :
    Asks exclude n d.getAttributes ↔ n.matchedBy exclude d ≠ [] := by
  have hinterests : Asks exclude n d.getAttributes ↔
      ∃ i ∈ n.getInterests.filter (fun i => !(exclude && i.2 = 0)),
        Matched i.1 d.getAttributes = true := by
    unfold Asks
    simp only [List.mem_filter, Bool.not_eq_true', and_assoc]
  rw [hinterests, getInterests_counted hfits]
  constructor
  · rintro ⟨i, hi, hmatched⟩ hnone
    obtain ⟨a, ha, rfl⟩ := List.mem_map.mp hi
    rw [matched_eq_asked (hclear a ha)] at hmatched
    have hmem : a ∈ n.matchedBy exclude d := List.mem_filter.mpr ⟨ha, hmatched⟩
    rw [hnone] at hmem
    cases hmem
  · intro hne
    obtain ⟨a, ha⟩ := List.exists_mem_of_ne_nil _ hne
    obtain ⟨hcounted, hasked⟩ := List.mem_filter.mp ha
    refine ⟨_, List.mem_map_of_mem hcounted, ?_⟩
    rw [matched_eq_asked (hclear a hcounted)]
    exact hasked

/-! ## The query -/

/-- A list of pairs, each of them of a record that is fit, is a list of fit records. -/
theorem exists_records {α β : Type} {f : α → β} {P : α → Prop} : ∀ {l : List β},
    (∀ e ∈ l, ∃ x, P x ∧ f x = e) → ∃ xs : List α, xs.map f = l ∧ ∀ x ∈ xs, P x
  | [], _ => ⟨[], rfl, by simp⟩
  | e :: l, h => by
      obtain ⟨x, hx, rfl⟩ := h e List.mem_cons_self
      obtain ⟨xs, rfl, hxs⟩ := exists_records (fun e he => h e (List.mem_cons_of_mem _ he))
      exact ⟨x :: xs, rfl, by simpa using ⟨hx, hxs⟩⟩

/-- The matches of a node, with their degrees, before any limit. -/
def matchesOf (s : MemoryCache) (n : AbstractNode) (minAttrMatch threshold : Int) :
    List (CString × Degree) :=
  collect
    (fun dobjId => acceptSatisfaction minAttrMatch threshold (s.computeSatisfaction n.id dobjId))
    (s.objectCandidates n.getInterests)

theorem getDataObjectIdsForNode_eq {s : MemoryCache} (hnode : s.nodeIdToNode.find n.id = some n)
    (minAttrMatch maxMatches threshold : Int) :
    s.getDataObjectIdsForNode n.id minAttrMatch maxMatches threshold =
      upTo (n.limit maxMatches)
        ((matchesOf s n minAttrMatch (n.threshold threshold)).map Prod.fst) := by
  unfold getDataObjectIdsForNode AbstractNode.limit AbstractNode.threshold upTo limited matchesOf
  rw [hnode]
  by_cases hzero : maxMatches = 0
  · simp [hzero]
  · simp [hzero]

section Query

variable {s : MemoryCache} {objects : List AbstractDataObject} {nodes : List AbstractNode}
  {n : AbstractNode}

/-- **A match is an object that qualifies and is not lost**, with its degree. -/
theorem mem_matchesOf (ho : ObjectsIndexed s objects) (hn : NodesIndexed s nodes) (hmem : n ∈ nodes)
    (hclear : ∀ a ∈ n.counted s.excludeZeroWeightAttributes,
      ∀ d ∈ objects, ∀ b ∈ d.attributes, Unambiguous a b)
    (hfits : weightSum (n.counted s.excludeZeroWeightAttributes) < 2147483648)
    (minAttrMatch threshold : Int) {f : CString × Degree} :
    f ∈ matchesOf s n minAttrMatch threshold ↔
      ∃ d ∈ objects, (Qualifies s.excludeZeroWeightAttributes n d minAttrMatch threshold ∧
          ¬ LostByRounding s.excludeZeroWeightAttributes n d threshold) ∧
        (d.id, Degree.fin (toDouble (n.degree s.excludeZeroWeightAttributes d))) = f := by
  -- what the cache counts is what the plain sums say, short of rounding
  have haccept : ∀ d ∈ objects, ∀ sat,
      acceptSatisfaction minAttrMatch threshold (s.computeSatisfaction n.id d.id) = some sat ↔
        (minAttrMatch ≤ (n.matchedBy s.excludeZeroWeightAttributes d).length ∧
          (threshold : ℚ) ≤ n.degree s.excludeZeroWeightAttributes d * 100 ∧
          ¬ LostByRounding s.excludeZeroWeightAttributes n d threshold) ∧
        Degree.fin (toDouble (n.degree s.excludeZeroWeightAttributes d)) = sat := by
    intro d hd sat
    rw [computeSatisfaction_eq ho hn hmem hd,
      satisfaction_eq (fun a ha b hb => hclear a ha d hd b hb) hfits]
    unfold acceptSatisfaction
    dsimp only
    rw [Option.ite_none_right_eq_some, reaches_degree_iff hfits, Option.some_inj]
  have hasks : ∀ d ∈ objects, Asks s.excludeZeroWeightAttributes n d.getAttributes ↔
      n.matchedBy s.excludeZeroWeightAttributes d ≠ [] := fun d hd =>
    asks_iff (fun a ha b hb => hclear a ha d hd b hb) hfits
  unfold matchesOf
  rw [mem_collect, ho.mem_objectCandidates]
  constructor
  · rintro ⟨⟨d, hd, hid, hcandidate⟩, hsat⟩
    rw [← hid] at hsat
    obtain ⟨⟨hcount, hreached, hkept⟩, hdegree⟩ := (haccept d hd f.2).mp hsat
    exact ⟨d, hd, ⟨⟨(hasks d hd).mp hcandidate, hcount, hreached⟩, hkept⟩, Prod.ext hid hdegree⟩
  · rintro ⟨d, hd, ⟨⟨hmatched, hcount, hreached⟩, hkept⟩, rfl⟩
    exact ⟨⟨d, hd, rfl, (hasks d hd).mpr hmatched⟩,
      (haccept d hd _).mpr ⟨⟨hcount, hreached, hkept⟩, rfl⟩⟩

end Query

/--
**The query lists what is meant**, in every state that a cache can reach: there is a list of
all cached objects that qualify, each once and the best first, and the query returns the ids
of all of it, or of the first so many. The node's interests that count must be unambiguous
against the attributes of cached objects, their weights must fit into an `int`, and no object that
qualifies may be on a threshold and lose it to the rounding.
-/
theorem indexed_matching_naive (e : Bool) (ops : List Op) (nodeId : CString) (n : AbstractNode)
    (hnode : (after e ops).getNodeFromId nodeId = some n)
    (hclear : ∀ a ∈ n.counted (after e ops).excludeZeroWeightAttributes,
      ∀ d ∈ (Contents.after ops).objects, ∀ b ∈ d.attributes, Unambiguous a b)
    (hfits : weightSum (n.counted (after e ops).excludeZeroWeightAttributes) < 2147483648)
    (minAttrMatch maxMatches threshold : Int)
    (hkept : ∀ d ∈ (Contents.after ops).objects,
      Qualifies (after e ops).excludeZeroWeightAttributes n d minAttrMatch
        (n.threshold threshold) →
      ¬ LostByRounding (after e ops).excludeZeroWeightAttributes n d (n.threshold threshold)) :
    ∃ all : List AbstractDataObject,
      (all.map AbstractDataObject.id).Nodup ∧
      all.Pairwise (fun d d' => n.degree (after e ops).excludeZeroWeightAttributes d' ≤
        n.degree (after e ops).excludeZeroWeightAttributes d) ∧
      (∀ d, d ∈ all ↔ d ∈ (Contents.after ops).objects ∧
        Qualifies (after e ops).excludeZeroWeightAttributes n d minAttrMatch
          (n.threshold threshold)) ∧
      (after e ops).getDataObjectIdsForNode nodeId minAttrMatch maxMatches threshold =
        upTo (n.limit maxMatches) (all.map AbstractDataObject.id) := by
  have ho := objectsIndexed_after e ops
  have hn := nodesIndexed_after e ops
  obtain ⟨hmem, rfl⟩ := hn.find.mp hnode
  have hmatches := fun f => mem_matchesOf ho hn hmem hclear hfits minAttrMatch
    (n.threshold threshold) (f := f)
  obtain ⟨all, hall, hobjects⟩ := exists_records
    (f := fun d =>
      (d.id, Degree.fin (toDouble (n.degree (after e ops).excludeZeroWeightAttributes d))))
    (P := fun d => d ∈ (Contents.after ops).objects ∧
      Qualifies (after e ops).excludeZeroWeightAttributes n d minAttrMatch (n.threshold threshold))
    (fun f hf => by
      obtain ⟨d, hd, ⟨hqualifies, -⟩, hpair⟩ := (hmatches f).mp hf
      exact ⟨d, ⟨hd, hqualifies⟩, hpair⟩)
  have hids : all.map AbstractDataObject.id =
      (matchesOf (after e ops) n minAttrMatch (n.threshold threshold)).map Prod.fst := by
    rw [← hall, List.map_map]
    rfl
  refine ⟨all, ?_, ?_, ?_, ?_⟩
  · rw [hids]
    exact nodup_collect _ _
  · have hpairwise : (matchesOf (after e ops) n minAttrMatch (n.threshold threshold)).Pairwise
        (fun f f' => f'.2.gt f.2 = false) := pairwise_collect _ _
    rw [← hall, List.pairwise_map] at hpairwise
    refine hpairwise.imp ?_
    intro d d' hgt
    -- a better one behind would be better as a double too
    by_contra hworse
    have hlt := toDouble_degree_lt hfits (not_le.mp hworse)
    simp [Degree.gt, hlt] at hgt
  · intro d
    refine ⟨hobjects d, ?_⟩
    rintro ⟨hd, hqualifies⟩
    have hlisted := (hmatches _).mpr ⟨d, hd, ⟨hqualifies, hkept d hd hqualifies⟩, rfl⟩
    rw [← hall, List.mem_map] at hlisted
    obtain ⟨d', hd', heq⟩ := hlisted
    -- an id is the id of one object only
    injection heq with hid
    rw [← List.inj_on_of_nodup_map ho.ids (hobjects d' hd').1 hd hid]
    exact hd'
  · rw [getDataObjectIdsForNode_eq hnode, hids]

/-- A peer interested in `k=v` and, three times as much, in anything named `l`. -/
def choosy : AbstractNode :=
  ⟨lit "n", [], [⟨lit "k", lit "v", 1⟩, ⟨lit "l", lit "*", 3⟩], 10, 25, .peer, none⟩

/-- Two objects for it: one matches the first interest, the other both. -/
def twoObjects : List Op :=
  [.cacheDataObject ⟨lit "d", [⟨lit "k", lit "v", 1⟩], none⟩,
    .cacheDataObject ⟨lit "e", [⟨lit "k", lit "v", 1⟩, ⟨lit "l", lit "w", 1⟩], none⟩,
    .cacheNode choosy]

/-- Both qualify, and the better one comes first; asked for one, it is the answer. -/
theorem indexed_matching_naive_choosy :
    (after true twoObjects).getDataObjectIdsForNode (lit "n") 1 0 (-1) = [lit "e", lit "d"] ∧
      ∃ all : List AbstractDataObject,
        (∀ d, d ∈ all ↔ d ∈ (Contents.after twoObjects).objects ∧
          Qualifies false choosy d 1 25) ∧
        (after true twoObjects).getDataObjectIdsForNode (lit "n") 1 1 (-1) =
          (all.map AbstractDataObject.id).take 1 := by
  refine ⟨by decide +kernel, ?_⟩
  have hclear : ∀ a ∈ choosy.counted (after true twoObjects).excludeZeroWeightAttributes,
      ∀ d ∈ (Contents.after twoObjects).objects, ∀ b ∈ d.attributes, Unambiguous a b := by
    have hno : (∀ a ∈ choosy.counted (after true twoObjects).excludeZeroWeightAttributes,
        58 ∉ a.value) ∧
        ∀ d ∈ (Contents.after twoObjects).objects, ∀ b ∈ d.attributes, 58 ∉ b.value := by
      decide +kernel
    exact fun a ha d hd b hb => unambiguous_of_no_colon (hno.1 a ha) (hno.2 d hd b hb)
  obtain ⟨all, -, -, hall, hanswer⟩ := indexed_matching_naive true twoObjects (lit "n") choosy
    (by decide +kernel) hclear (by decide +kernel) 1 1 (-1) (by
      -- a threshold of 25 is not taken from anybody
      rintro d - - ⟨-, hshort⟩
      exact absurd hshort (by decide +kernel))
  have hexclude : (after true twoObjects).excludeZeroWeightAttributes = false := by decide +kernel
  have hthreshold : choosy.threshold (-1) = 25 := by decide +kernel
  have hlimit : choosy.limit 1 = some 1 := by decide +kernel
  rw [hlimit] at hanswer
  simp only [hexclude, hthreshold] at hall
  exact ⟨all, hall, hanswer⟩

/-- An object whose value has a colon qualifies for an interest in any value, and is not listed. -/
theorem colon_in_value_missed :
    let d : AbstractDataObject := ⟨lit "d", [⟨lit "l", lit "a:b", 1⟩], none⟩
    let n : AbstractNode := ⟨lit "n", [], [⟨lit "l", lit "*", 1⟩], 10, 0, .peer, none⟩
    let ops := [Op.cacheDataObject d, Op.cacheNode n]
    d ∈ (Contents.after ops).objects ∧ Qualifies false n d 1 100 ∧
      (after true ops).excludeZeroWeightAttributes = false ∧
      (after true ops).getDataObjectIdsForNode (lit "n") 1 0 100 = [] := by
  intro d n ops
  refine ⟨by decide +kernel, ?_, by decide +kernel, by decide +kernel⟩
  unfold Qualifies
  decide +kernel

/-- A weight of 29 in a hundred is just what is asked for, and is rounded down twice. -/
example :
    let ops := [Op.cacheDataObject ⟨lit "d", [⟨lit "k", lit "v", 1⟩], none⟩,
      .cacheNode ⟨lit "n", [], [⟨lit "k", lit "v", 29⟩, ⟨lit "x", lit "y", 71⟩], 10, 29, .peer,
        none⟩]
    (after true ops).getDataObjectIdsForNode (lit "n") 1 0 28 = [lit "d"] ∧
      (after true ops).getDataObjectIdsForNode (lit "n") 1 0 29 = [] := by
  decide +kernel

end Encoders.Store
