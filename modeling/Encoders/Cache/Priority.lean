import Mathlib.Data.List.Nodup
import Encoders.Cache.TotalOrder

/-!
# Replacement by several criteria

`CacheReplacementPriority.cpp`. Several replacements are asked in turn, the most important one
first, which of the stored objects a new one takes the place of. The next one is asked only about
the objects that all before it called equivalent. So the answer is lexicographic: an object is in
the class that the first replacement with an opinion of its own puts it in.

A replacement that is not responsible for the new object has no say, and an object is left alone if
it is not in the scope of exactly those that are. With no replacement responsible nothing is
answered, also not that all objects are equivalent.

Objects are equal if their ids are, and a replacement answers the same as long as the store does.
-/

namespace Encoders.Cache

open Encoders.Lib Encoders.Data

variable {δ : Type}

/-! ## The replacements -/

/-- What a replacement says of the stored objects related to a new one. -/
structure Organized (δ : Type) where
  subsumed : List δ
  equiv : List δ
  nonsubsumed : List δ

/-- `class CacheReplacement`, while the data store does not change. -/
structure CacheReplacement (δ : Type) where
  isResponsibleForDataObject : δ → Bool
  getOrganizedDataObjectsByNewDataObject : δ → Organized δ
  /-- The database is too slow to answer for this object. -/
  databaseTimeout : δ → Bool

/-- `sortedReplacementListInsert` -/
def sortedReplacementListInsert :
    List (CacheReplacement δ × Int) → CacheReplacement δ → Int → List (CacheReplacement δ × Int)
  | [], replacement, priority => [(replacement, priority)]
  | e :: list, replacement, priority =>
      if priority > e.2 then (replacement, priority) :: e :: list
      else e :: sortedReplacementListInsert list replacement priority

theorem mem_sortedReplacementListInsert {replacement : CacheReplacement δ} {priority : Int}
    {x : CacheReplacement δ × Int} : ∀ {list : List (CacheReplacement δ × Int)},
      x ∈ sortedReplacementListInsert list replacement priority ↔
        x = (replacement, priority) ∨ x ∈ list
  | [] => by simp [sortedReplacementListInsert]
  | e :: list => by
      rw [sortedReplacementListInsert]
      split
      · exact List.mem_cons
      · rw [List.mem_cons, mem_sortedReplacementListInsert, List.mem_cons]
        exact or_left_comm

/-- Higher priorities stay in front. -/
theorem pairwise_sortedReplacementListInsert (replacement : CacheReplacement δ) (priority : Int) :
    ∀ {list : List (CacheReplacement δ × Int)}, list.Pairwise (fun a b => b.2 ≤ a.2) →
      (sortedReplacementListInsert list replacement priority).Pairwise (fun a b => b.2 ≤ a.2)
  | [], _ => List.pairwise_singleton ..
  | e :: list, h => by
      obtain ⟨he, hlist⟩ := List.pairwise_cons.mp h
      rw [sortedReplacementListInsert]
      by_cases hgt : priority > e.2
      · rw [if_pos hgt]
        refine List.pairwise_cons.mpr ⟨fun b hb => ?_, h⟩
        rcases List.mem_cons.mp hb with rfl | hb
        · exact le_of_lt hgt
        · exact le_trans (he b hb) (le_of_lt hgt)
      · rw [if_neg hgt]
        refine List.pairwise_cons.mpr
          ⟨fun b hb => ?_, pairwise_sortedReplacementListInsert _ _ hlist⟩
        rcases mem_sortedReplacementListInsert.mp hb with rfl | hb
        · exact not_lt.mp hgt
        · exact he b hb

/-- `class CacheReplacementPriority`, its list in the order of the priorities. -/
structure CacheReplacementPriority (δ : Type) where
  sortedReplacementList : List (CacheReplacement δ × Int)
  inOrder : sortedReplacementList.Pairwise (fun a b => b.2 ≤ a.2)

/-- `onConfig`, for one element that names a replacement and a priority. -/
def CacheReplacementPriority.insert (p : CacheReplacementPriority δ)
    (replacement : CacheReplacement δ) (priority : Int) : CacheReplacementPriority δ where
  sortedReplacementList := sortedReplacementListInsert p.sortedReplacementList replacement priority
  inOrder := pairwise_sortedReplacementListInsert replacement priority p.inOrder

/-! ## Their lists -/

section Lists

variable [DecidableEq δ]
variable {a b : List δ}

/-- `intersectDataObjectList` -/
def intersectDataObjectList (a b : List δ) : List δ :=
  a.flatMap (fun itA => (b.filter (fun itB => itB = itA)).map (fun _ => itA))

/-- `unionDataObjectList` -/
def unionDataObjectList (a b : List δ) : List δ :=
  a ++ b.filter (fun itB => !a.any (fun itA => itB = itA))

theorem mem_intersectDataObjectList {o : δ} : o ∈ intersectDataObjectList a b ↔ o ∈ a ∧ o ∈ b := by
  unfold intersectDataObjectList
  simp only [List.mem_flatMap, List.mem_map, List.mem_filter, decide_eq_true_eq]
  constructor
  · rintro ⟨x, hx, y, ⟨hy, rfl⟩, rfl⟩
    exact ⟨hx, hy⟩
  · rintro ⟨ha, hb⟩
    exact ⟨o, ha, o, ⟨hb, rfl⟩, rfl⟩

/-- `inA` after the inner loop. -/
theorem any_eq_decide_mem (a : List δ) (o : δ) : a.any (fun x => o = x) = decide (o ∈ a) := by
  rw [Bool.eq_iff_iff, List.any_eq_true, decide_eq_true_iff]
  constructor
  · rintro ⟨x, hx, heq⟩
    rw [of_decide_eq_true heq]
    exact hx
  · exact fun ho => ⟨o, ho, decide_eq_true rfl⟩

theorem mem_unionDataObjectList {o : δ} : o ∈ unionDataObjectList a b ↔ o ∈ a ∨ o ∈ b := by
  unfold unionDataObjectList
  simp only [any_eq_decide_mem, List.mem_append, List.mem_filter, Bool.not_eq_true',
    decide_eq_false_iff_not]
  by_cases ha : o ∈ a <;> simp [ha]

/-- In a list without duplicates an object is met at most once. -/
theorem nodup_intersectDataObjectList (ha : a.Nodup) (hb : b.Nodup) :
    (intersectDataObjectList a b).Nodup := by
  refine List.nodup_flatMap.mpr ⟨fun x _ => ?_, ?_⟩
  · have hone : (b.filter (fun y => y = x)).length ≤ 1 := by
      have hcount := List.nodup_iff_count_le_one.mp hb x
      rw [List.count_eq_length_filter] at hcount
      exact hcount
    rw [List.map_const']
    exact List.nodup_replicate.mpr hone
  · refine List.Pairwise.imp_of_mem (fun _ _ hne => ?_) ha
    intro o hx hy
    obtain ⟨_, -, rfl⟩ := List.mem_map.mp hx
    obtain ⟨_, -, heq⟩ := List.mem_map.mp hy
    exact hne heq.symm

theorem nodup_unionDataObjectList (ha : a.Nodup) (hb : b.Nodup) :
    (unionDataObjectList a b).Nodup := by
  refine List.nodup_append'.mpr ⟨ha, hb.filter _, ?_⟩
  intro o hoa hob
  have hnot := (List.mem_filter.mp hob).2
  rw [any_eq_decide_mem, decide_eq_true hoa] at hnot
  exact Bool.noConfusion hnot

end Lists

/-! ## Scopes -/

/-- `anyRelevant` -/
def anyRelevant (dObj : δ) (replacements : List (CacheReplacement δ)) : Bool :=
  replacements.any (fun replacement => replacement.isResponsibleForDataObject dObj)

/-- `allRelevant`, which asks for at least one. -/
def allRelevant (dObj : δ) (replacements : List (CacheReplacement δ)) : Bool :=
  !replacements.isEmpty &&
    replacements.all (fun replacement => replacement.isResponsibleForDataObject dObj)

/-- `filterDataObjectListByReplacementList` -/
def filterDataObjectListByReplacementList (a : List δ)
    (relevantReplacements irrelevantReplacements : List (CacheReplacement δ)) : List δ :=
  a.filter (fun dObj =>
    allRelevant dObj relevantReplacements && !anyRelevant dObj irrelevantReplacements)

namespace CacheReplacementPriority

variable (p : CacheReplacementPriority δ)

/-- The replacements, the most important one first. -/
def replacements : List (CacheReplacement δ) := p.sortedReplacementList.map Prod.fst

/-- `isResponsibleForDataObject` -/
def isResponsibleForDataObject (dObj : δ) : Bool := anyRelevant dObj p.replacements

/-- `filterRelevantReplacementListByDataObject` -/
def relevantReplacements (dObj : δ) : List (CacheReplacement δ) :=
  p.replacements.filter (fun replacement => replacement.isResponsibleForDataObject dObj)

/-- `filterIrrelevantReplacementListByDataObject` -/
def irrelevantReplacements (dObj : δ) : List (CacheReplacement δ) :=
  p.replacements.filter (fun replacement => !replacement.isResponsibleForDataObject dObj)

end CacheReplacementPriority

/-! ## The answer -/

/-- The three filters in the loop. -/
def Organized.filtered (current : Organized δ)
    (relevantReplacements irrelevantReplacements : List (CacheReplacement δ)) : Organized δ where
  subsumed := filterDataObjectListByReplacementList current.subsumed relevantReplacements
    irrelevantReplacements
  equiv := filterDataObjectListByReplacementList current.equiv relevantReplacements
    irrelevantReplacements
  nonsubsumed := filterDataObjectListByReplacementList current.nonsubsumed relevantReplacements
    irrelevantReplacements

variable [DecidableEq δ]

/-- What becomes of the answer so far when the next replacement has been asked. -/
def Organized.refine (acc current : Organized δ) : Organized δ where
  subsumed := unionDataObjectList acc.subsumed
    (intersectDataObjectList acc.equiv current.subsumed)
  equiv := intersectDataObjectList acc.equiv current.equiv
  nonsubsumed := unionDataObjectList acc.nonsubsumed
    (intersectDataObjectList acc.equiv current.nonsubsumed)

namespace CacheReplacementPriority

/-- The loop over the relevant replacements. -/
def organize (relevant irrelevant : List (CacheReplacement δ)) (dObj : δ) :
    List (CacheReplacement δ) → Bool → Organized δ → Bool → Organized δ × Bool
  | [], _, acc, isDatabaseTimeout => (acc, isDatabaseTimeout)
  | replacement :: rest, firstIteration, acc, isDatabaseTimeout =>
      let isDatabaseTimeout := isDatabaseTimeout || replacement.databaseTimeout dObj
      let current := (replacement.getOrganizedDataObjectsByNewDataObject dObj).filtered
        relevant irrelevant
      if !firstIteration then organize relevant irrelevant dObj rest true current isDatabaseTimeout
      else organize relevant irrelevant dObj rest true (acc.refine current) isDatabaseTimeout

/-- `getOrganizedDataObjectsByNewDataObject`, with `isDatabaseTimeout` as it goes in. -/
def getOrganizedDataObjectsByNewDataObject (p : CacheReplacementPriority δ) (dObj : δ)
    (isDatabaseTimeout : Bool) : Organized δ × Bool :=
  organize (p.relevantReplacements dObj) (p.irrelevantReplacements dObj) dObj
    (p.relevantReplacements dObj) false ⟨[], [], []⟩ isDatabaseTimeout

/-- The answer to a new object. -/
def organized (p : CacheReplacementPriority δ) (dObj : δ) : Organized δ :=
  (p.getOrganizedDataObjectsByNewDataObject dObj false).1

/-- A replacement by priorities is a replacement. -/
def toCacheReplacement (p : CacheReplacementPriority δ) : CacheReplacement δ where
  isResponsibleForDataObject := p.isResponsibleForDataObject
  getOrganizedDataObjectsByNewDataObject := p.organized
  databaseTimeout dObj := (p.getOrganizedDataObjectsByNewDataObject dObj false).2

end CacheReplacementPriority

variable {side : Organized δ → List δ}

/-! ## Lexicographic order -/

/-- Three lists that no object is in twice. -/
structure Organized.Splits (l : Organized δ) : Prop where
  subsumed : l.subsumed.Nodup
  equiv : l.equiv.Nodup
  nonsubsumed : l.nonsubsumed.Nodup
  subsumed_equiv : l.subsumed.Disjoint l.equiv
  subsumed_nonsubsumed : l.subsumed.Disjoint l.nonsubsumed
  equiv_nonsubsumed : l.equiv.Disjoint l.nonsubsumed

/--
The first answer that does not call the object equivalent puts it on a side: one of the answers
does, and all before it call it equivalent.
-/
def FirstPuts (side : Organized δ → List δ) (answers : List (Organized δ)) (o : δ) : Prop :=
  ∃ pre l post, answers = pre ++ l :: post ∧ (∀ l' ∈ pre, o ∈ l'.equiv) ∧ o ∈ side l

omit [DecidableEq δ] in
theorem not_firstPuts_nil (side : Organized δ → List δ) (o : δ) : ¬ FirstPuts side [] o := by
  rintro ⟨pre, l, post, heq, -⟩
  simp at heq

omit [DecidableEq δ] in
theorem firstPuts_cons {l : Organized δ} {answers : List (Organized δ)} {o : δ} :
    FirstPuts side (l :: answers) o ↔
      o ∈ side l ∨ (o ∈ l.equiv ∧ FirstPuts side answers o) := by
  constructor
  · rintro ⟨pre, l', post, heq, hpre, hside⟩
    cases pre with
    | nil =>
        obtain ⟨rfl, -⟩ := List.cons.inj heq
        exact Or.inl hside
    | cons x pre =>
        obtain ⟨rfl, hrest⟩ := List.cons.inj heq
        obtain ⟨hx, hpre⟩ := List.forall_mem_cons.mp hpre
        exact Or.inr ⟨hx, pre, l', post, hrest, hpre, hside⟩
  · rintro (hside | ⟨hequiv, pre, l', post, rfl, hpre, hside⟩)
    · exact ⟨[], l, answers, rfl, List.forall_mem_nil _, hside⟩
    · exact ⟨l :: pre, l', post, rfl, List.forall_mem_cons.mpr ⟨hequiv, hpre⟩, hside⟩

/-- Refining keeps the three lists apart. -/
theorem Organized.Splits.refine {acc current : Organized δ} (h : acc.Splits)
    (hcurrent : current.Splits) : (acc.refine current).Splits where
  subsumed := nodup_unionDataObjectList h.subsumed
    (nodup_intersectDataObjectList h.equiv hcurrent.subsumed)
  equiv := nodup_intersectDataObjectList h.equiv hcurrent.equiv
  nonsubsumed := nodup_unionDataObjectList h.nonsubsumed
    (nodup_intersectDataObjectList h.equiv hcurrent.nonsubsumed)
  subsumed_equiv := by
    intro o hs he
    obtain ⟨he, he'⟩ := mem_intersectDataObjectList.mp he
    rcases mem_unionDataObjectList.mp hs with hs | hs
    · exact h.subsumed_equiv hs he
    · exact hcurrent.subsumed_equiv (mem_intersectDataObjectList.mp hs).2 he'
  subsumed_nonsubsumed := by
    intro o hs hn
    rcases mem_unionDataObjectList.mp hs with hs | hs <;>
      rcases mem_unionDataObjectList.mp hn with hn | hn
    · exact h.subsumed_nonsubsumed hs hn
    · exact h.subsumed_equiv hs (mem_intersectDataObjectList.mp hn).1
    · exact h.equiv_nonsubsumed (mem_intersectDataObjectList.mp hs).1 hn
    · exact hcurrent.subsumed_nonsubsumed (mem_intersectDataObjectList.mp hs).2
        (mem_intersectDataObjectList.mp hn).2
  equiv_nonsubsumed := by
    intro o he hn
    obtain ⟨he, he'⟩ := mem_intersectDataObjectList.mp he
    rcases mem_unionDataObjectList.mp hn with hn | hn
    · exact h.equiv_nonsubsumed he hn
    · exact hcurrent.equiv_nonsubsumed he' (mem_intersectDataObjectList.mp hn).2

/-! ## The loop -/

/-- A side that grows by what the next answer says of the objects equivalent so far. -/
def Grows (side : Organized δ → List δ) : Prop :=
  ∀ acc current o, o ∈ side (acc.refine current) ↔ o ∈ side acc ∨ (o ∈ acc.equiv ∧ o ∈ side current)

theorem grows_subsumed : Grows (@Organized.subsumed δ) := by
  intro acc current o
  exact mem_unionDataObjectList.trans (or_congr_right mem_intersectDataObjectList)

theorem grows_nonsubsumed : Grows (@Organized.nonsubsumed δ) := by
  intro acc current o
  exact mem_unionDataObjectList.trans (or_congr_right mem_intersectDataObjectList)

theorem mem_foldl_refine (hgrows : Grows side) {o : δ} :
    ∀ (answers : List (Organized δ)) (acc : Organized δ),
      o ∈ side (answers.foldl Organized.refine acc) ↔
        o ∈ side acc ∨ (o ∈ acc.equiv ∧ FirstPuts side answers o)
  | [], acc => by simp [not_firstPuts_nil]
  | l :: answers, acc => by
      have hequiv : o ∈ (acc.refine l).equiv ↔ o ∈ acc.equiv ∧ o ∈ l.equiv :=
        mem_intersectDataObjectList
      rw [List.foldl_cons, mem_foldl_refine hgrows answers, hgrows, firstPuts_cons, hequiv]
      tauto

theorem mem_equiv_foldl_refine {o : δ} : ∀ (answers : List (Organized δ)) (acc : Organized δ),
    o ∈ (answers.foldl Organized.refine acc).equiv ↔ o ∈ acc.equiv ∧ ∀ l ∈ answers, o ∈ l.equiv
  | [], acc => by simp
  | l :: answers, acc => by
      have hequiv : o ∈ (acc.refine l).equiv ↔ o ∈ acc.equiv ∧ o ∈ l.equiv :=
        mem_intersectDataObjectList
      rw [List.foldl_cons, mem_equiv_foldl_refine answers, hequiv, List.forall_mem_cons, and_assoc]

theorem splits_foldl_refine : ∀ (answers : List (Organized δ)) {acc : Organized δ}, acc.Splits →
    (∀ l ∈ answers, l.Splits) → (answers.foldl Organized.refine acc).Splits
  | [], _, h, _ => h
  | l :: answers, _, h, hall => by
      obtain ⟨hl, hall⟩ := List.forall_mem_cons.mp hall
      exact splits_foldl_refine answers (h.refine hl) hall

namespace CacheReplacementPriority

variable {side : Organized δ → List δ}

/-- Once there is an answer, the loop refines it. -/
theorem organize_true (relevant irrelevant : List (CacheReplacement δ)) (dObj : δ) :
    ∀ (rest : List (CacheReplacement δ)) (acc : Organized δ) (isDatabaseTimeout : Bool),
      (organize relevant irrelevant dObj rest true acc isDatabaseTimeout).1 =
        (rest.map (fun r => (r.getOrganizedDataObjectsByNewDataObject dObj).filtered
          relevant irrelevant)).foldl Organized.refine acc
  | [], _, _ => rfl
  | _ :: rest, _, _ => organize_true relevant irrelevant dObj rest _ _

variable (p : CacheReplacementPriority δ) (dObj : δ)

/-- What the relevant replacements answer, in their order. -/
def answers : List (Organized δ) :=
  (p.relevantReplacements dObj).map (fun r => r.getOrganizedDataObjectsByNewDataObject dObj)

/-- The same answers, about the objects in the right scope only. -/
def filteredAnswers : List (Organized δ) :=
  (p.answers dObj).map (fun l =>
    l.filtered (p.relevantReplacements dObj) (p.irrelevantReplacements dObj))

/-- The result by the answers: nothing without any, else the first one refined by the others. -/
theorem getOrganized_eq (isDatabaseTimeout : Bool) :
    (p.getOrganizedDataObjectsByNewDataObject dObj isDatabaseTimeout).1 =
      match p.filteredAnswers dObj with
      | [] => ⟨[], [], []⟩
      | l :: rest => rest.foldl Organized.refine l := by
  unfold getOrganizedDataObjectsByNewDataObject filteredAnswers answers
  generalize hirrelevant : p.irrelevantReplacements dObj = irrelevant
  generalize hrelevant : p.relevantReplacements dObj = relevant
  cases relevant with
  | nil => rfl
  | cons r rest =>
      rw [organize]
      simp only [Bool.not_false, if_true, organize_true, List.map_cons, List.map_map,
        Function.comp_def]

/-- The replacements that are responsible for the object are those for the new one. -/
def SameScope (o : δ) : Prop :=
  ∀ r ∈ p.replacements, r.isResponsibleForDataObject o = r.isResponsibleForDataObject dObj

omit [DecidableEq δ] in
/-- The filter of the loop, if there is a relevant replacement. -/
theorem filter_iff_sameScope (hrelevant : p.relevantReplacements dObj ≠ []) (o : δ) :
    (allRelevant o (p.relevantReplacements dObj) &&
      !anyRelevant o (p.irrelevantReplacements dObj)) = true ↔ p.SameScope dObj o := by
  unfold allRelevant anyRelevant SameScope
  have hempty : (p.relevantReplacements dObj).isEmpty = false := by simpa using hrelevant
  rw [hempty]
  simp only [relevantReplacements, irrelevantReplacements, Bool.not_false, Bool.true_and,
    Bool.and_eq_true, List.all_eq_true, List.mem_filter, Bool.not_eq_true', List.any_eq_false,
    and_imp]
  constructor
  · rintro ⟨hall, hnone⟩ r hr
    cases hd : r.isResponsibleForDataObject dObj with
    | true => exact hall r hr hd
    | false => exact Bool.eq_false_iff.mpr (hnone r hr hd)
  · intro hsame
    refine ⟨fun r hr hd => (hsame r hr).trans hd, fun r hr hd ho => ?_⟩
    rw [hsame r hr, hd] at ho
    exact Bool.noConfusion ho

omit [DecidableEq δ] in
theorem mem_filtered (hrelevant : p.relevantReplacements dObj ≠ []) {a : List δ} {o : δ} :
    o ∈ filterDataObjectListByReplacementList a (p.relevantReplacements dObj)
        (p.irrelevantReplacements dObj) ↔ o ∈ a ∧ p.SameScope dObj o := by
  rw [filterDataObjectListByReplacementList, List.mem_filter, p.filter_iff_sameScope dObj hrelevant]

omit [DecidableEq δ] in
/-- The filter asks for the scope; then the answers decide as they are. -/
theorem firstPuts_filtered {f : List δ → List δ} {o : δ} {scope : Prop}
    {g : Organized δ → Organized δ} (hside : ∀ l, side (g l) = f (side l))
    (hequiv : ∀ l, (g l).equiv = f l.equiv) (hf : ∀ a, o ∈ f a ↔ o ∈ a ∧ scope) :
    ∀ l : List (Organized δ), FirstPuts side (l.map g) o ↔ scope ∧ FirstPuts side l o
  | [] => by simp [not_firstPuts_nil]
  | l :: rest => by
      rw [List.map_cons, firstPuts_cons, firstPuts_cons, hside, hequiv, hf, hf,
        firstPuts_filtered hside hequiv hf rest]
      tauto

/-- A side of the result, if the loop makes it grow and the filter is on it. -/
theorem mem_side_iff (hgrows : Grows side) (hempty : side ⟨[], [], []⟩ = [])
    (hside : ∀ l : Organized δ, side (l.filtered (p.relevantReplacements dObj)
      (p.irrelevantReplacements dObj)) = filterDataObjectListByReplacementList (side l)
        (p.relevantReplacements dObj) (p.irrelevantReplacements dObj)) (isDatabaseTimeout : Bool)
    (o : δ) :
    o ∈ side (p.getOrganizedDataObjectsByNewDataObject dObj isDatabaseTimeout).1 ↔
      p.SameScope dObj o ∧ FirstPuts side (p.answers dObj) o := by
  by_cases hrelevant : p.relevantReplacements dObj = []
  · have hnone : p.answers dObj = [] := by rw [answers, hrelevant, List.map_nil]
    rw [getOrganized_eq, filteredAnswers, hnone, List.map_nil]
    simp [hempty, not_firstPuts_nil]
  · rw [← firstPuts_filtered hside (fun _ => rfl) (fun _ => p.mem_filtered dObj hrelevant),
      getOrganized_eq, ← filteredAnswers]
    cases hanswers : p.filteredAnswers dObj with
    | nil => simp [hempty, not_firstPuts_nil]
    | cons l rest => rw [firstPuts_cons, ← mem_foldl_refine hgrows rest l]

theorem mem_equiv_iff (isDatabaseTimeout : Bool) (o : δ) :
    o ∈ (p.getOrganizedDataObjectsByNewDataObject dObj isDatabaseTimeout).1.equiv ↔
      p.SameScope dObj o ∧ p.answers dObj ≠ [] ∧ ∀ l ∈ p.answers dObj, o ∈ l.equiv := by
  by_cases hrelevant : p.relevantReplacements dObj = []
  · have hnone : p.answers dObj = [] := by rw [answers, hrelevant, List.map_nil]
    rw [getOrganized_eq, filteredAnswers, hnone, List.map_nil]
    simp
  · have hsome : p.answers dObj ≠ [] := by
      rw [answers]
      exact fun h => hrelevant (List.map_eq_nil_iff.mp h)
    have hall : (∀ l ∈ p.filteredAnswers dObj, o ∈ l.equiv) ↔
        p.SameScope dObj o ∧ ∀ l ∈ p.answers dObj, o ∈ l.equiv := by
      rw [filteredAnswers, List.forall_mem_map]
      constructor
      · intro h
        refine ⟨?_, fun l hl => ((p.mem_filtered dObj hrelevant).mp (h l hl)).1⟩
        obtain ⟨l, hl⟩ := List.exists_mem_of_ne_nil _ hsome
        exact ((p.mem_filtered dObj hrelevant).mp (h l hl)).2
      · rintro ⟨hscope, h⟩ l hl
        exact (p.mem_filtered dObj hrelevant).mpr ⟨h l hl, hscope⟩
    rw [and_iff_right hsome, ← hall, getOrganized_eq]
    cases hanswers : p.filteredAnswers dObj with
    | nil => exact absurd (List.map_eq_nil_iff.mp hanswers) hsome
    | cons l rest => rw [mem_equiv_foldl_refine, List.forall_mem_cons]

omit [DecidableEq δ] in
theorem splits_filtered {l : Organized δ} (h : l.Splits)
    (relevant irrelevant : List (CacheReplacement δ)) :
    (l.filtered relevant irrelevant).Splits where
  subsumed := h.subsumed.filter _
  equiv := h.equiv.filter _
  nonsubsumed := h.nonsubsumed.filter _
  subsumed_equiv _ hs he := h.subsumed_equiv (List.mem_filter.mp hs).1 (List.mem_filter.mp he).1
  subsumed_nonsubsumed _ hs hn :=
    h.subsumed_nonsubsumed (List.mem_filter.mp hs).1 (List.mem_filter.mp hn).1
  equiv_nonsubsumed _ he hn :=
    h.equiv_nonsubsumed (List.mem_filter.mp he).1 (List.mem_filter.mp hn).1

/-- Answers that split make a result that splits. -/
theorem splits_organized (h : ∀ l ∈ p.answers dObj, l.Splits) (isDatabaseTimeout : Bool) :
    (p.getOrganizedDataObjectsByNewDataObject dObj isDatabaseTimeout).1.Splits := by
  have hfiltered : ∀ l ∈ p.filteredAnswers dObj, l.Splits :=
    List.forall_mem_map.mpr (fun l hl => splits_filtered (h l hl) _ _)
  rw [getOrganized_eq]
  cases hanswers : p.filteredAnswers dObj with
  | nil => exact ⟨.nil, .nil, .nil, List.disjoint_nil_left _, List.disjoint_nil_left _,
      List.disjoint_nil_left _⟩
  | cons l rest =>
      rw [hanswers] at hfiltered
      obtain ⟨hl, hrest⟩ := List.forall_mem_cons.mp hfiltered
      exact splits_foldl_refine rest hl hrest

end CacheReplacementPriority

variable {store : List CacheObject}

/-! ## Replacement in a total order as one of them -/

theorem perm_addDataObject (d : CacheObject) (m : Nat) : ∀ (l : List (CacheObject × Nat)),
    (addDataObject d m l).Perm ((d, m) :: l)
  | [] => List.Perm.refl _
  | e :: l => by
      rw [addDataObject]
      split
      · exact List.Perm.refl _
      · exact ((perm_addDataObject d m l).cons e).trans (List.Perm.swap _ _ _)

theorem perm_foldl_addDataObject : ∀ (l acc : List (CacheObject × Nat)),
    (l.foldl (fun l e => addDataObject e.1 e.2 l) acc).Perm (l ++ acc)
  | [], _ => List.Perm.refl _
  | e :: l, acc => by
      rw [List.foldl_cons]
      refine (perm_foldl_addDataObject l _).trans ?_
      exact ((perm_addDataObject e.1 e.2 acc).append_left l).trans List.perm_middle

/-- If each object has one number at most, it is in the answer once at most. -/
theorem nodup_queryTotalOrder {kind : DataStore} {c : TotalOrder} {idFieldValue : CString}
    (hstore : store.Nodup) (hone : ∀ d ∈ store, (c.storedMetrics kind d).length ≤ 1) :
    ((queryTotalOrder kind c idFieldValue store).map Prod.fst).Nodup := by
  unfold queryTotalOrder
  rw [((perm_foldl_addDataObject _ _).map Prod.fst).nodup_iff, List.append_nil, List.map_flatMap]
  refine List.nodup_flatMap.mpr ⟨fun d hd => ?_, ?_⟩
  · have hlength := hone d (List.mem_filter.mp hd).1
    have hconst : ((c.storedMetrics kind d).map (fun m => (d, m))).map Prod.fst =
        List.replicate (c.storedMetrics kind d).length d := by
      rw [List.map_map, ← List.map_const']
      rfl
    rw [hconst]
    exact List.nodup_replicate.mpr hlength
  · refine List.Pairwise.imp_of_mem (fun _ _ hne => ?_) (hstore.filter _)
    intro o hx hy
    simp only [List.map_map, List.mem_map, Function.comp_apply] at hx hy
    obtain ⟨_, -, rfl⟩ := hx
    obtain ⟨_, -, heq⟩ := hy
    exact hne heq.symm

/-- Three lists, under their names. -/
def Organized.ofLists (lists : List δ × List δ × List δ) : Organized δ :=
  ⟨lists.1, lists.2.1, lists.2.2⟩

/-- A replacement in a total order, over a store. -/
def TotalOrder.toCacheReplacement (kind : DataStore) (c : TotalOrder) (store : List CacheObject) :
    CacheReplacement CacheObject where
  isResponsibleForDataObject := c.isResponsibleForDataObject
  getOrganizedDataObjectsByNewDataObject d :=
    .ofLists (Cache.getOrganizedDataObjectsByNewDataObject kind c d store)
  databaseTimeout _ := false

/-- There is nothing to answer, or the answer is in three parts. -/
theorem getOrganized_parts (kind : DataStore) (c : TotalOrder) (d : CacheObject)
    (store : List CacheObject) :
    Cache.getOrganizedDataObjectsByNewDataObject kind c d store = ([], [], []) ∨
      ∃ idv newDOMetric, Cache.getOrganizedDataObjectsByNewDataObject kind c d store =
        ((((queryTotalOrder kind c idv store).filter (fun e => newDOMetric > e.2)).map
            Prod.fst).reverse,
          (((queryTotalOrder kind c idv store).filter (fun e => newDOMetric = e.2)).map
            Prod.fst).reverse,
          (((queryTotalOrder kind c idv store).filter (fun e => newDOMetric < e.2)).map
            Prod.fst).reverse) := by
  unfold Cache.getOrganizedDataObjectsByNewDataObject
  cases c.newMetric d <;> cases d.getAttribute c.idField wildcard
  case some.some newDOMetric attr => exact Or.inr ⟨attr.value, newDOMetric, rfl⟩
  all_goals exact Or.inl rfl

/-- Parts of a list by exclusive tests have no element in common. -/
theorem disjoint_parts {l : List (CacheObject × Nat)} (h : (l.map Prod.fst).Nodup)
    {s t : CacheObject × Nat → Bool} (hst : ∀ e, s e = true → t e = true → False) :
    List.Disjoint ((l.filter s).map Prod.fst).reverse ((l.filter t).map Prod.fst).reverse := by
  intro o hs ht
  obtain ⟨e, he, rfl⟩ := List.mem_map.mp (List.mem_reverse.mp hs)
  obtain ⟨e', he', heq⟩ := List.mem_map.mp (List.mem_reverse.mp ht)
  obtain ⟨he, hse⟩ := List.mem_filter.mp he
  obtain ⟨he', hte⟩ := List.mem_filter.mp he'
  have hsame : e' = e := List.inj_on_of_nodup_map h he' he heq
  exact hst e hse (hsame ▸ hte)

/-- It splits the objects of its answer, if each has one number at most. -/
theorem TotalOrder.splits {kind : DataStore} {c : TotalOrder} (hstore : store.Nodup)
    (hone : ∀ d ∈ store, (c.storedMetrics kind d).length ≤ 1) (d : CacheObject) :
    ((c.toCacheReplacement kind store).getOrganizedDataObjectsByNewDataObject d).Splits := by
  unfold TotalOrder.toCacheReplacement
  dsimp only
  rcases getOrganized_parts kind c d store with hnone | ⟨idv, new, hparts⟩
  · rw [hnone]
    exact ⟨.nil, .nil, .nil, List.disjoint_nil_left _, List.disjoint_nil_left _,
      List.disjoint_nil_left _⟩
  · rw [hparts]
    have hquery : ((queryTotalOrder kind c idv store).map Prod.fst).Nodup :=
      nodup_queryTotalOrder hstore hone
    have hpart : ∀ s : CacheObject × Nat → Bool,
        (((queryTotalOrder kind c idv store).filter s).map Prod.fst).reverse.Nodup :=
      fun s => List.nodup_reverse.mpr (hquery.sublist (List.filter_sublist.map _))
    refine ⟨hpart _, hpart _, hpart _, ?_, ?_, ?_⟩ <;>
      refine disjoint_parts hquery (fun e hs ht => ?_) <;>
      have hs := of_decide_eq_true hs <;> have ht := of_decide_eq_true ht <;> omega

/-- `MemoryDataStore` has one number at most for every object. -/
theorem length_storedMetrics_memory (c : TotalOrder) (d : CacheObject) :
    (c.storedMetrics .memory d).length ≤ 1 := by
  unfold TotalOrder.storedMetrics
  rw [List.length_map]
  exact Option.length_toList_le

/--
**Replacement by priorities is lexicographic.** An object is subsumed exactly if the replacements
responsible for it are those for the new object and the first of them that does not call it
equivalent calls it subsumed; the same with those that are not subsumed. It is equivalent exactly
if there are such replacements and all of them say so. And no object is in the result twice.
-/
theorem replacement_lexicographic (p : CacheReplacementPriority δ) (dObj : δ)
    (isDatabaseTimeout : Bool) (hsplits : ∀ l ∈ p.answers dObj, l.Splits) :
    (∀ o, o ∈ (p.getOrganizedDataObjectsByNewDataObject dObj isDatabaseTimeout).1.subsumed ↔
      p.SameScope dObj o ∧ FirstPuts Organized.subsumed (p.answers dObj) o) ∧
    (∀ o, o ∈ (p.getOrganizedDataObjectsByNewDataObject dObj isDatabaseTimeout).1.nonsubsumed ↔
      p.SameScope dObj o ∧ FirstPuts Organized.nonsubsumed (p.answers dObj) o) ∧
    (∀ o, o ∈ (p.getOrganizedDataObjectsByNewDataObject dObj isDatabaseTimeout).1.equiv ↔
      p.SameScope dObj o ∧ p.answers dObj ≠ [] ∧ ∀ l ∈ p.answers dObj, o ∈ l.equiv) ∧
    (p.getOrganizedDataObjectsByNewDataObject dObj isDatabaseTimeout).1.Splits :=
  ⟨p.mem_side_iff dObj grows_subsumed rfl (fun _ => rfl) isDatabaseTimeout,
    p.mem_side_iff dObj grows_nonsubsumed rfl (fun _ => rfl) isDatabaseTimeout,
    p.mem_equiv_iff dObj isDatabaseTimeout, p.splits_organized dObj hsplits isDatabaseTimeout⟩

/-- Reports of all origins, by sequence number. -/
def allReports : TotalOrder := ⟨lit "SeqNo", lit "Kind", lit "Kind", lit "Report"⟩

/-- Reports replace each other by origin first, then all of them. -/
def byOrigin (store : List CacheObject) : CacheReplacementPriority CacheObject :=
  ((⟨[], .nil⟩ : CacheReplacementPriority CacheObject).insert
    (allReports.toCacheReplacement .memory store) 1).insert
      (reports.toCacheReplacement .memory store) 2

theorem replacement_lexicographic_reports :
    (report true "7" ∈ ((byOrigin [report true "7"]).getOrganizedDataObjectsByNewDataObject
          (report true "9") false).1.subsumed ↔
      (byOrigin [report true "7"]).SameScope (report true "9") (report true "7") ∧
        FirstPuts Organized.subsumed ((byOrigin [report true "7"]).answers (report true "9"))
          (report true "7")) ∧
    report true "7" ∈ ((byOrigin [report true "7"]).getOrganizedDataObjectsByNewDataObject
      (report true "9") false).1.subsumed := by
  refine ⟨(replacement_lexicographic (byOrigin [report true "7"]) (report true "9") false ?_).1 _,
    by decide +kernel⟩
  intro l hl
  obtain ⟨r, hr, rfl⟩ := List.mem_map.mp hl
  have hr := (List.mem_filter.mp hr).1
  have hone : ∀ (c : TotalOrder), ∀ d ∈ [report true "7"], (c.storedMetrics .memory d).length ≤ 1 :=
    fun c d _ => length_storedMetrics_memory c d
  have hor : r = reports.toCacheReplacement .memory [report true "7"] ∨
      r = allReports.toCacheReplacement .memory [report true "7"] := by
    simpa [byOrigin, CacheReplacementPriority.insert, CacheReplacementPriority.replacements,
      sortedReplacementListInsert] using hr
  rcases hor with rfl | rfl
  · exact TotalOrder.splits (List.nodup_singleton _) (hone reports) _
  · exact TotalOrder.splits (List.nodup_singleton _) (hone allReports) _

/-- An object that no replacement is responsible for. -/
def remark (persistent : Bool) : CacheObject := ⟨[⟨lit "Kind", lit "Remark", 1⟩], [], persistent⟩

/--
With no replacement responsible, all of those that are call every object equivalent. The result is
empty nevertheless.
-/
theorem remark_not_equivalent :
    ¬ (remark true ∈ ((byOrigin [remark true]).getOrganizedDataObjectsByNewDataObject
          (remark false) false).1.equiv ↔
        (byOrigin [remark true]).SameScope (remark false) (remark true) ∧
          ∀ l ∈ (byOrigin [remark true]).answers (remark false), remark true ∈ l.equiv) := by
  intro h
  have hanswers : (byOrigin [remark true]).answers (remark false) = [] := by
    rw [CacheReplacementPriority.answers, List.map_eq_nil_iff, ← List.length_eq_zero_iff]
    decide +kernel
  have hscope : (byOrigin [remark true]).SameScope (remark false) (remark true) := by
    unfold CacheReplacementPriority.SameScope
    decide +kernel
  have hin := h.mpr ⟨hscope, by simp [hanswers]⟩
  exact absurd hin (by decide +kernel)

end Encoders.Cache
