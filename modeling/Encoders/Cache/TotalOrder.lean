import Encoders.Data.Object
import Encoders.Lib.Text

/-!
# Replacement in a total order

`CacheReplacementTotalOrder.cpp` under `CacheStrategyReplacementPurger.cpp`. Objects with a
tag and one id replace each other by a number in some attribute: an object that arrives
takes the place of all that have a smaller number, is stored beside its equals, and is
dropped if there are only greater ones.

The numbers are read twice. The replacement reads that of the new object with `atol`. Those
of the stored objects come with the answer of the data store, and there `MemoryDataStore`
reads the same attribute with `atol`, while `SQLDataStore` has a row for every attribute of
the name and reads it with `strtoull` in base zero, for which `010` is eight.

The query returns the stored objects with tag and id, and everything an arrival sets off is
done before the next one. An object is what its id is a hash of; node descriptions, which
have a place of their own in memory, are not here. Nor are the purges that may follow.
-/

namespace Encoders.Cache

open Encoders.Lib Encoders.Data

/-! ## Numbers in texts -/

/-- A digit, in bases up to sixteen. -/
def digitValue (c : Char) : Option Nat :=
  if c.isDigit then some (c.toNat - '0'.toNat)
  else if 'a' ≤ c ∧ c ≤ 'f' then some (c.toNat - 'a'.toNat + 10)
  else if 'A' ≤ c ∧ c ≤ 'F' then some (c.toNat - 'A'.toNat + 10)
  else none

/-- The digits of a base at the front of a text. -/
def leadingIn (base : Nat) : List Char → Nat → Nat
  | [], value => value
  | c :: cs, value =>
      match digitValue c with
      | some d => if d < base then leadingIn base cs (value * base + d) else value
      | none => value

/-- `strtoull(text, NULL, 0)` without the sign: the prefix says what the base is. -/
def unsignedValue : List Char → Nat
  | '0' :: 'x' :: rest => leadingIn 16 rest 0
  | '0' :: 'X' :: rest => leadingIn 16 rest 0
  | '0' :: rest => leadingIn 8 rest 0
  | text => leadingIn 10 text 0

/-- `strtoull(text, NULL, 0)` -/
def strtoull (text : List Char) : Nat :=
  let (negative, body) :=
    match text.dropWhile isspace with
    | '-' :: rest => (true, rest)
    | '+' :: rest => (false, rest)
    | rest => (false, rest)
  let value := unsignedValue body
  if 18446744073709551615 < value then 18446744073709551615
  else if negative then (18446744073709551616 - value) % 18446744073709551616
  else value

/-- `unsigned long metric = atol(text)` -/
def atolUnsigned (text : List Char) : Nat := (strtol text % 18446744073709551616).toNat

/-! ## Objects and the data store -/

/-- A data object, as far as replacement reads it; `rest` is what else its id is a hash of. -/
structure CacheObject where
  attrs : List Attribute
  rest : CString
  persistent : Bool
deriving DecidableEq

/-- `class CacheReplacementTotalOrder` -/
structure TotalOrder where
  metricField : CString
  idField : CString
  tagField : CString
  tagFieldValue : CString

/-- The two data stores. -/
inductive DataStore where
  | memory
  | sql
deriving DecidableEq

/-- `getAttribute` -/
def CacheObject.getAttribute (d : CacheObject) (name value : CString) : Option Attribute :=
  find d.attrs ⟨name, value, 1⟩

namespace TotalOrder

variable (c : TotalOrder)

/-- `isResponsibleForDataObject` -/
def isResponsibleForDataObject (d : CacheObject) : Bool :=
  if (d.getAttribute c.tagField c.tagFieldValue).isNone then false
  else if (d.getAttribute c.metricField wildcard).isNone then false
  else if (d.getAttribute c.idField wildcard).isNone then false
  else true

/-- The number of a new object. -/
def newMetric (d : CacheObject) : Option Nat :=
  (d.getAttribute c.metricField wildcard).map (fun a => atolUnsigned (chars a.value))

/-- The numbers a data store has for an object, one for each time it is in the answer. -/
def storedMetrics : DataStore → CacheObject → List Nat
  | .memory, d =>
      (d.getAttribute c.metricField wildcard).toList.map (fun a => atolUnsigned (chars a.value))
  | .sql, d =>
      (d.attrs.filter (fun a => a.name = c.metricField)).map (fun a => strtoull (chars a.value))

/-- The object has the tag and the id. -/
def matching (idFieldValue : CString) (d : CacheObject) : Bool :=
  (d.getAttribute c.tagField c.tagFieldValue).isSome &&
    (d.getAttribute c.idField idFieldValue).isSome

end TotalOrder

variable {d : CacheObject} {idv : CString} {store : List CacheObject}
variable {kind : DataStore}

/-- `addDataObject` of the answer, which is kept in order. -/
def addDataObject (d : CacheObject) (metric : Nat) :
    List (CacheObject × Nat) → List (CacheObject × Nat)
  | [] => [(d, metric)]
  | e :: l => if metric < e.2 then (d, metric) :: e :: l else e :: addDataObject d metric l

/-- `_doDataObjectQueryForReplacementTotalOrder` -/
def queryTotalOrder (kind : DataStore) (c : TotalOrder) (idFieldValue : CString)
    (store : List CacheObject) : List (CacheObject × Nat) :=
  ((store.filter (c.matching idFieldValue)).flatMap
    (fun d => (c.storedMetrics kind d).map (fun m => (d, m)))).foldl
    (fun l e => addDataObject e.1 e.2 l) []

/-- `getOrganizedDataObjectsByNewDataObject`: subsumed, equivalent, and neither. -/
def getOrganizedDataObjectsByNewDataObject (kind : DataStore) (c : TotalOrder) (d : CacheObject)
    (store : List CacheObject) : List CacheObject × List CacheObject × List CacheObject :=
  match c.newMetric d, d.getAttribute c.idField wildcard with
  | some newDOMetric, some attr =>
      let related := queryTotalOrder kind c attr.value store
      (((related.filter (fun e => newDOMetric > e.2)).map Prod.fst).reverse,
        ((related.filter (fun e => newDOMetric = e.2)).map Prod.fst).reverse,
        ((related.filter (fun e => newDOMetric < e.2)).map Prod.fst).reverse)
  | _, _ => ([], [], [])

/-- `insertDataObjectIntoDataStore`: what is not persistent goes through and is not kept, and
what is there already stays. -/
def insertDataObjectIntoDataStore (d : CacheObject) (store : List CacheObject) :
    List CacheObject :=
  if d.persistent then if d ∈ store then store else store ++ [d]
  else store.filter (fun x => x ≠ d)

/-- `_handleNewDataObject`; `purger` tells which objects the purger is responsible for. -/
def handleNewDataObject (kind : DataStore) (c : TotalOrder) (purger : CacheObject → Bool)
    (store : List CacheObject) (d : CacheObject) : List CacheObject :=
  if c.isResponsibleForDataObject d then
    let (subsumed, equiv, nonsubsumed) := getOrganizedDataObjectsByNewDataObject kind c d store
    if (subsumed ≠ [] ∨ equiv ≠ []) ∨ (subsumed = [] ∧ equiv = [] ∧ nonsubsumed = []) then
      insertDataObjectIntoDataStore d (store.filter (fun x => x ∉ subsumed))
    else store
  else if purger d then insertDataObjectIntoDataStore d store
  else store

/-! ## Maxima -/

/-- One of the elements with the greatest key. -/
def IsMaximal {α : Type} (f : α → Nat) (l : List α) (x : α) : Prop := x ∈ l ∧ ∀ y ∈ l, f y ≤ f x

/-- One element more. -/
theorem isMaximal_snoc {α : Type} {f : α → Nat} {l : List α} {d x : α} :
    IsMaximal f (l ++ [d]) x ↔
      (IsMaximal f l x ∧ f d ≤ f x) ∨ (x = d ∧ ∀ y ∈ l, f y ≤ f d) := by
  unfold IsMaximal
  constructor
  · intro h
    obtain ⟨hmem, hmax⟩ := h
    rcases List.mem_append.mp hmem with hold | hnew
    · exact Or.inl ⟨⟨hold, fun y hy => hmax y (List.mem_append_left _ hy)⟩,
        hmax d (List.mem_append_right _ List.mem_cons_self)⟩
    · have hx := List.mem_singleton.mp hnew
      refine Or.inr ⟨hx, fun y hy => ?_⟩
      rw [← hx]
      exact hmax y (List.mem_append_left _ hy)
  · intro h
    rcases h with ⟨⟨hold, hmax⟩, hle⟩ | ⟨hx, hmax⟩
    · refine ⟨List.mem_append_left _ hold, fun y hy => ?_⟩
      rcases List.mem_append.mp hy with hy | hy
      · exact hmax y hy
      · rw [List.mem_singleton.mp hy]
        exact hle
    · rw [hx]
      refine ⟨List.mem_append_right _ List.mem_cons_self, fun y hy => ?_⟩
      rcases List.mem_append.mp hy with hy | hy
      · exact hmax y hy
      · rw [List.mem_singleton.mp hy]

theorem exists_isMaximal {α : Type} (f : α → Nat) : ∀ {l : List α}, l ≠ [] →
    ∃ x, IsMaximal f l x
  | [], h => absurd rfl h
  | [a], _ => ⟨a, List.mem_cons_self, by
      intro y hy
      rw [List.mem_singleton.mp hy]⟩
  | a :: b :: l, _ => by
      obtain ⟨x, hx, hmax⟩ := exists_isMaximal f (List.cons_ne_nil b l)
      rcases Nat.le_total (f a) (f x) with hle | hle
      · refine ⟨x, List.mem_cons_of_mem a hx, fun y hy => ?_⟩
        rcases List.mem_cons.mp hy with hy | hy
        · rw [hy]
          exact hle
        · exact hmax y hy
      · refine ⟨a, List.mem_cons_self, fun y hy => ?_⟩
        rcases List.mem_cons.mp hy with hy | hy
        · rw [hy]
        · exact Nat.le_trans (hmax y hy) hle

/-! ## What the answer of the data store says -/

theorem mem_addDataObject {m : Nat} {e : CacheObject × Nat} :
    ∀ {l : List (CacheObject × Nat)}, e ∈ addDataObject d m l ↔ e = (d, m) ∨ e ∈ l
  | [] => by simp [addDataObject]
  | f :: l => by
      unfold addDataObject
      split
      · rw [List.mem_cons]
      · rw [List.mem_cons, mem_addDataObject, List.mem_cons, or_left_comm]

theorem mem_foldl_addDataObject {e : CacheObject × Nat} :
    ∀ {l acc : List (CacheObject × Nat)},
      e ∈ l.foldl (fun l e => addDataObject e.1 e.2 l) acc ↔ e ∈ l ∨ e ∈ acc
  | [], acc => by simp
  | f :: l, acc => by
      rw [List.foldl_cons, mem_foldl_addDataObject, mem_addDataObject, List.mem_cons]
      constructor
      · intro h
        rcases h with hl | hf | hacc
        · exact Or.inl (Or.inr hl)
        · exact Or.inl (Or.inl hf)
        · exact Or.inr hacc
      · intro h
        rcases h with (hf | hl) | hacc
        · exact Or.inr (Or.inl hf)
        · exact Or.inl hl
        · exact Or.inr (Or.inr hacc)

theorem mem_queryTotalOrder {c : TotalOrder} {x : CacheObject} {m : Nat} :
    (x, m) ∈ queryTotalOrder kind c idv store ↔
      x ∈ store ∧ c.matching idv x = true ∧ m ∈ c.storedMetrics kind x := by
  unfold queryTotalOrder
  rw [mem_foldl_addDataObject, List.mem_flatMap]
  constructor
  · intro h
    rcases h with hin | habs
    · obtain ⟨d, hd, hm⟩ := hin
      obtain ⟨n, hn, heq⟩ := List.mem_map.mp hm
      injection heq with hdx hnm
      rw [hdx] at hd hn
      obtain ⟨hmem, hmatch⟩ := List.mem_filter.mp hd
      exact ⟨hmem, hmatch, hnm ▸ hn⟩
    · cases habs
  · intro h
    obtain ⟨hmem, hmatch, hm⟩ := h
    exact Or.inl ⟨x, List.mem_filter.mpr ⟨hmem, hmatch⟩, List.mem_map.mpr ⟨m, hm, rfl⟩⟩

/-! ## Objects that are read the same twice -/

/-- The number of an object, as the replacement reads it when the object is new. -/
def TotalOrder.metric (c : TotalOrder) (d : CacheObject) : Nat := (c.newMetric d).getD 0

/-- The object carries the tag, and the id. -/
structure Carries (c : TotalOrder) (idFieldValue : CString) (d : CacheObject) : Prop where
  tag : (d.getAttribute c.tagField c.tagFieldValue).isSome = true
  id : (d.getAttribute c.idField wildcard).map Attribute.value = some idFieldValue

/-- The object is kept, has a number, and the data store reads the number as it was read. -/
structure Agreeing (kind : DataStore) (c : TotalOrder) (d : CacheObject) : Prop where
  kept : d.persistent = true
  hasMetric : (d.getAttribute c.metricField wildcard).isSome = true
  stored : ∀ m ∈ c.storedMetrics kind d, m = c.metric d

theorem Carries.matching {c : TotalOrder} (h : Carries c idv d) : c.matching idv d = true := by
  obtain ⟨a, ha, hvalue⟩ := Option.map_eq_some_iff.mp h.id
  have hid : (d.getAttribute c.idField idv).isSome = true := by
    unfold CacheObject.getAttribute find at ha ⊢
    rw [List.find?_isSome]
    refine ⟨a, List.mem_of_find?_eq_some ha, ?_⟩
    have heq := List.find?_some ha
    unfold Attribute.eq at heq ⊢
    rw [Bool.and_eq_true] at heq ⊢
    exact ⟨heq.1, by simp [hvalue]⟩
  unfold TotalOrder.matching
  rw [h.tag, hid]
  rfl

theorem Carries.responsible {c : TotalOrder} (h : Carries c idv d)
    (hmetric : (d.getAttribute c.metricField wildcard).isSome = true) :
    c.isResponsibleForDataObject d = true := by
  obtain ⟨a, ha, _⟩ := Option.map_eq_some_iff.mp h.id
  have htag : (d.getAttribute c.tagField c.tagFieldValue).isNone = false := by
    rw [Option.isNone_eq_false_iff]
    exact h.tag
  have hnum : (d.getAttribute c.metricField wildcard).isNone = false := by
    rw [Option.isNone_eq_false_iff]
    exact hmetric
  unfold TotalOrder.isResponsibleForDataObject
  rw [htag, hnum, ha]
  rfl

/-- An object with a number has one in the data store. -/
theorem storedMetrics_ne_nil {kind : DataStore} {c : TotalOrder} {d : CacheObject}
    (hmetric : (d.getAttribute c.metricField wildcard).isSome = true) :
    c.storedMetrics kind d ≠ [] := by
  obtain ⟨a, ha⟩ := Option.isSome_iff_exists.mp hmetric
  cases kind with
  | memory =>
      simp only [TotalOrder.storedMetrics]
      rw [ha]
      exact List.cons_ne_nil _ _
  | sql =>
      simp only [TotalOrder.storedMetrics]
      unfold CacheObject.getAttribute find at ha
      have heq := List.find?_some ha
      unfold Attribute.eq at heq
      rw [Bool.and_eq_true, decide_eq_true_eq] at heq
      have hmem : a ∈ d.attrs.filter (fun a => a.name = c.metricField) :=
        List.mem_filter.mpr ⟨List.mem_of_find?_eq_some ha, by simpa using heq.1.symm⟩
      exact List.ne_nil_of_mem (List.mem_map_of_mem hmem)

theorem Agreeing.mem_storedMetrics {c : TotalOrder} (h : Agreeing kind c d) {m : Nat} :
    m ∈ c.storedMetrics kind d ↔ m = c.metric d := by
  constructor
  · exact h.stored m
  · intro hm
    obtain ⟨n, hn⟩ := List.exists_mem_of_ne_nil _ (@storedMetrics_ne_nil kind _ _ h.hasMetric)
    rw [hm, ← h.stored n hn]
    exact hn

/-! ## One arrival -/

/-- The object is in the store, and the query finds it. -/
def Related (c : TotalOrder) (idv : CString) (store : List CacheObject) (x : CacheObject) : Prop :=
  x ∈ store ∧ c.matching idv x = true

/-- The three lists are what they are called. -/
theorem getOrganized_spec {c : TotalOrder} (hd : Carries c idv d) (had : Agreeing kind c d)
    (hstore : ∀ x, Related c idv store x → Agreeing kind c x) :
    ∃ subsumed equiv nonsubsumed,
      getOrganizedDataObjectsByNewDataObject kind c d store = (subsumed, equiv, nonsubsumed) ∧
      (∀ x, x ∈ subsumed ↔ Related c idv store x ∧ c.metric x < c.metric d) ∧
      (∀ x, x ∈ equiv ↔ Related c idv store x ∧ c.metric x = c.metric d) ∧
      (∀ x, x ∈ nonsubsumed ↔ Related c idv store x ∧ c.metric d < c.metric x) := by
  obtain ⟨a, ha, hvalue⟩ := Option.map_eq_some_iff.mp hd.id
  obtain ⟨b, hb⟩ := Option.isSome_iff_exists.mp had.hasMetric
  have hnew : c.newMetric d = some (c.metric d) := by
    unfold TotalOrder.metric TotalOrder.newMetric
    rw [hb]
    rfl
  -- the three lists are one query, filtered by how the metric compares
  have hpick : ∀ (test : Nat → Bool) (x : CacheObject),
      x ∈ (((queryTotalOrder kind c idv store).filter (fun e => test e.2)).map Prod.fst).reverse ↔
        Related c idv store x ∧ test (c.metric x) = true := by
    intro test x
    rw [List.mem_reverse, List.mem_map]
    constructor
    · intro h
      obtain ⟨⟨y, m⟩, he, hy⟩ := h
      obtain ⟨hquery, htest⟩ := List.mem_filter.mp he
      simp only at hy htest
      rw [hy] at hquery
      obtain ⟨hmem, hmatch, hm⟩ := mem_queryTotalOrder.mp hquery
      have hrel : Related c idv store x := ⟨hmem, hmatch⟩
      rw [(hstore x hrel).stored m hm] at htest
      exact ⟨hrel, htest⟩
    · intro h
      obtain ⟨hrel, htest⟩ := h
      refine ⟨(x, c.metric x), List.mem_filter.mpr ⟨mem_queryTotalOrder.mpr ?_, htest⟩, rfl⟩
      exact ⟨hrel.1, hrel.2, (hstore x hrel).mem_storedMetrics.mpr rfl⟩
  unfold getOrganizedDataObjectsByNewDataObject
  rw [hnew, ha]
  simp only [hvalue]
  refine ⟨_, _, _, rfl, ?_, ?_, ?_⟩
  · intro x
    have h := hpick (fun m => decide (c.metric d > m)) x
    rw [decide_eq_true_eq] at h
    exact h
  · intro x
    have h := hpick (fun m => decide (c.metric d = m)) x
    rw [decide_eq_true_eq] at h
    rw [eq_comm]
    exact h
  · intro x
    have h := hpick (fun m => decide (c.metric d < m)) x
    rw [decide_eq_true_eq] at h
    exact h

/-- What is kept comes in, once. -/
theorem mem_insertDataObject {x : CacheObject} (hkept : d.persistent = true) :
    x ∈ insertDataObjectIntoDataStore d store ↔ x = d ∨ x ∈ store := by
  unfold insertDataObjectIntoDataStore
  rw [if_pos hkept]
  by_cases hmem : d ∈ store
  · rw [if_pos hmem]
    constructor
    · exact fun h => Or.inr h
    · intro h
      rcases h with hx | hx
      · rw [hx]
        exact hmem
      · exact hx
  · rw [if_neg hmem, List.mem_append, List.mem_singleton, or_comm]

/-- There are related objects in the store, and all of them are greater. -/
def ShutOut (c : TotalOrder) (idv : CString) (store : List CacheObject) (d : CacheObject) : Prop :=
  (∃ y, Related c idv store y) ∧ ∀ y, Related c idv store y → c.metric d < c.metric y

/-- Only greater ones keep an object out. Otherwise it comes in, and the smaller ones go. -/
theorem handleNewDataObject_spec {kind : DataStore} {c : TotalOrder} {idv : CString}
    {purger : CacheObject → Bool} {d : CacheObject} {store : List CacheObject}
    (hd : Carries c idv d) (had : Agreeing kind c d)
    (hstore : ∀ x, Related c idv store x → Agreeing kind c x) :
    (ShutOut c idv store d → handleNewDataObject kind c purger store d = store) ∧
    (¬ ShutOut c idv store d → ∀ x, x ∈ handleNewDataObject kind c purger store d ↔
      x = d ∨ (x ∈ store ∧ ¬ (Related c idv store x ∧ c.metric x < c.metric d))) := by
  obtain ⟨subsumed, equiv, nonsubsumed, heq, hsub, hequiv, hnon⟩ :=
    getOrganized_spec hd had hstore
  unfold handleNewDataObject
  rw [if_pos (hd.responsible had.hasMetric), heq]
  simp only
  constructor
  · intro hout
    obtain ⟨⟨y, hy⟩, hall⟩ := hout
    have hsubnil : subsumed = [] := by
      refine List.eq_nil_iff_forall_not_mem.mpr (fun z hz => ?_)
      obtain ⟨hrel, hlt⟩ := (hsub z).mp hz
      have := hall z hrel
      omega
    have hequivnil : equiv = [] := by
      refine List.eq_nil_iff_forall_not_mem.mpr (fun z hz => ?_)
      obtain ⟨hrel, hz⟩ := (hequiv z).mp hz
      have := hall z hrel
      omega
    have hnonne : nonsubsumed ≠ [] := List.ne_nil_of_mem ((hnon y).mpr ⟨hy, hall y hy⟩)
    rw [if_neg]
    simp [hsubnil, hequivnil, hnonne]
  · intro hout x
    rw [if_pos]
    · rw [mem_insertDataObject had.kept, List.mem_filter, decide_eq_true_eq, hsub]
    · by_cases hsome : subsumed ≠ [] ∨ equiv ≠ []
      · exact Or.inl hsome
      · rw [not_or, not_not, not_not] at hsome
        refine Or.inr ⟨hsome.1, hsome.2, List.eq_nil_iff_forall_not_mem.mpr (fun z hz => ?_)⟩
        -- a greater one and none smaller or equal: that is the other case
        refine hout ⟨⟨z, ((hnon z).mp hz).1⟩, fun y hy => ?_⟩
        rcases Nat.lt_trichotomy (c.metric y) (c.metric d) with hlt | heq | hgt
        · have hmem := (hsub y).mpr ⟨hy, hlt⟩
          rw [hsome.1] at hmem
          cases hmem
        · have hmem := (hequiv y).mpr ⟨hy, heq⟩
          rw [hsome.2] at hmem
          cases hmem
        · exact hgt

/-! ## Many arrivals -/

/-- The related objects of the store are the maxima of the arrivals so far. -/
theorem maxima_step {c : TotalOrder} {purger : CacheObject → Bool} {ds : List CacheObject}
    (hd : Carries c idv d) (had : Agreeing kind c d) (hds : ∀ x ∈ ds, Agreeing kind c x)
    (h : ∀ x, Related c idv store x ↔ IsMaximal c.metric ds x) (x : CacheObject) :
    Related c idv (handleNewDataObject kind c purger store d) x ↔
      IsMaximal c.metric (ds ++ [d]) x := by
  obtain ⟨hstays, hcomes⟩ := @handleNewDataObject_spec kind c idv purger d store hd had
    (fun y hy => hds y ((h y).mp hy).1)
  have hle : ∀ y z, Related c idv store z → y ∈ ds → c.metric y ≤ c.metric z :=
    fun y z hz hy => ((h z).mp hz).2 y hy
  rw [isMaximal_snoc, ← h]
  unfold Related
  by_cases hout : ShutOut c idv store d
  · rw [hstays hout]
    obtain ⟨⟨y, hy⟩, hall⟩ := hout
    constructor
    · intro hx
      exact Or.inl ⟨hx, Nat.le_of_lt (hall x hx)⟩
    · intro hx
      rcases hx with ⟨hx, _⟩ | ⟨_, hmax⟩
      · exact hx
      · have hlt := hall y hy
        have hge := hmax y ((h y).mp hy).1
        omega
  · rw [hcomes hout]
    constructor
    · intro hx
      obtain ⟨hnew | ⟨hmem, hkept⟩, hmatch⟩ := hx
      · refine Or.inr ⟨hnew, fun y hy => ?_⟩
        -- some related one is not above `d`, and all of them are alike
        obtain ⟨m, hm⟩ := exists_isMaximal c.metric (List.ne_nil_of_mem hy)
        have hrel := (h m).mpr hm
        by_contra hlt
        refine hout ⟨⟨m, hrel⟩, fun z hz => ?_⟩
        have hyz := hle y z hz hy
        omega
      · refine Or.inl ⟨⟨hmem, hmatch⟩, ?_⟩
        by_contra hlt
        exact hkept ⟨⟨hmem, hmatch⟩, by omega⟩
    · intro hx
      rcases hx with ⟨⟨hmem, hmatch⟩, hge⟩ | ⟨hnew, _⟩
      · exact ⟨Or.inr ⟨hmem, fun hlt => by omega⟩, hmatch⟩
      · exact ⟨Or.inl hnew, by rw [hnew]; exact hd.matching⟩

/--
**Arrivals that are read the same twice leave their maxima**, whatever their order and
however often they come, in a store that had none of them.
-/
theorem arrivals_leave_maxima (kind : DataStore) (c : TotalOrder) (purger : CacheObject → Bool)
    (idv : CString) (store ds : List CacheObject)
    (hnone : ∀ x ∈ store, c.matching idv x = false)
    (hcarries : ∀ d ∈ ds, Carries c idv d) (hagree : ∀ d ∈ ds, Agreeing kind c d)
    (x : CacheObject) :
    (x ∈ ds.foldl (handleNewDataObject kind c purger) store ∧ c.matching idv x = true) ↔
      (x ∈ ds ∧ ∀ y ∈ ds, c.metric y ≤ c.metric x) := by
  -- at any point of the run, the maxima of what has arrived are stored
  have hrun : ∀ (later before s : List CacheObject), before ++ later = ds →
      (∀ x, Related c idv s x ↔ IsMaximal c.metric before x) →
      ∀ x, Related c idv (later.foldl (handleNewDataObject kind c purger) s) x ↔
        IsMaximal c.metric ds x := by
    intro later
    induction later with
    | nil =>
        intro before s hsplit h
        rw [List.append_nil] at hsplit
        rw [hsplit] at h
        exact h
    | cons d later ih =>
        intro before s hsplit h
        have hd : d ∈ ds := by
          rw [← hsplit]
          exact List.mem_append_right _ List.mem_cons_self
        refine ih (before ++ [d]) _ (by rw [← hsplit]; simp) ?_
        refine maxima_step (hcarries d hd) (hagree d hd) ?_ h
        intro y hy
        refine hagree y ?_
        rw [← hsplit]
        exact List.mem_append_left _ hy
  refine hrun ds [] store rfl ?_ x
  intro y
  constructor
  · intro hy
    have hfalse := hnone y hy.1
    rw [hy.2] at hfalse
    cases hfalse
  · intro hy
    cases hy.1

/-- A configuration: reports of one origin, by sequence number. -/
def reports : TotalOrder := ⟨lit "SeqNo", lit "Origin", lit "Kind", lit "Report"⟩

/-- A report. -/
def report (persistent : Bool) (seqNo : String) : CacheObject :=
  ⟨[⟨lit "Kind", lit "Report", 1⟩, ⟨lit "Origin", lit "a", 1⟩, ⟨lit "SeqNo", lit seqNo, 1⟩], [],
    persistent⟩

theorem carries_report (persistent : Bool) (seqNo : String) :
    Carries reports (lit "a") (report persistent seqNo) := ⟨rfl, rfl⟩

theorem arrivals_leave_maxima_reports :
    (report true "9" ∈ [report true "7", report true "9", report true "7", report true "9"].foldl
        (handleNewDataObject .sql reports (fun _ => false)) [] ∧
      reports.matching (lit "a") (report true "9") = true) ↔
    (report true "9" ∈ [report true "7", report true "9", report true "7", report true "9"] ∧
      ∀ y ∈ [report true "7", report true "9", report true "7", report true "9"],
        reports.metric y ≤ reports.metric (report true "9")) := by
  refine arrivals_leave_maxima .sql reports (fun _ => false) (lit "a") [] _ (by simp) ?_ ?_ _
  · intro d hd
    simp only [List.mem_cons, List.not_mem_nil, or_false] at hd
    rcases hd with hd | hd | hd | hd <;> rw [hd] <;> exact carries_report _ _
  · intro d hd
    simp only [List.mem_cons, List.not_mem_nil, or_false] at hd
    rcases hd with hd | hd | hd | hd <;> rw [hd] <;> exact ⟨rfl, rfl, by decide +kernel⟩

/--
The number `010` is ten when it arrives and eight when it is stored, so that the later one
of `010` and `9` stays, whichever it is. And an object that is not kept drives out those
that are smaller.
-/
theorem later_report_stays :
    (∀ d ∈ [report true "010", report true "9", report true "5", report false "6"],
      Carries reports (lit "a") d) ∧
    [report true "010", report true "9"].foldl
      (handleNewDataObject .sql reports (fun _ => false)) [] = [report true "9"] ∧
    [report true "9", report true "010"].foldl
      (handleNewDataObject .sql reports (fun _ => false)) [] = [report true "010"] ∧
    [report true "5", report false "6"].foldl
      (handleNewDataObject .memory reports (fun _ => false)) [] = [] := by
  refine ⟨?_, by decide +kernel, by decide +kernel, by decide +kernel⟩
  intro d hd
  simp only [List.mem_cons, List.not_mem_nil, or_false] at hd
  rcases hd with hd | hd | hd | hd <;> rw [hd] <;> exact carries_report _ _

end Encoders.Cache
