import Encoders.Container.HashMap

/-!
# The tables of the memory cache

Each index of `MemoryCache` is a `HashMap` with a counter beside it, the number of pairs put
in since it was last compacted. `compact` copies a table into a new one when the counter says
that it has become half empty; the counter is a `long` and the size is unsigned, so that a
small counter asks for a copy every time.

An index of wildcards is a table of tables: under a key, a map from ids. It is made when the
first id comes and taken out when the last one goes.

`Holds` and `StarHolds` say what an index is an index of: a list of entries, in the order
they came in. Everything the cache does to a table is an edit of that list.
-/

namespace Encoders.Store

open Encoders.Lib Encoders.Container

/-- A hash table, and its `_max_size`. -/
structure Table (κ ν : Type) [Hash κ] where
  map : HashMap κ ν
  maxSize : Nat

/-- `compactHashTable` -/
def compactHashTable {κ ν : Type} [DecidableEq κ] [Hash κ] (big : HashMap κ ν) : HashMap κ ν :=
  big.toList.foldl (fun small e => small.insert e.1 e.2) HashMap.empty

namespace Table

variable {κ ν ι : Type} [DecidableEq κ] [Hash κ] [DecidableEq ι] [Hash ι]
variable {t : Table κ (HashMap ι ν)} {entries : List (κ × ι × ν)}
variable {key : κ} {f : ν → κ} {l : List ν}

/-- A new table. -/
def empty : Table κ ν := ⟨HashMap.empty, 0⟩

/-- What a loop from `find` on visits. -/
def values (t : Table κ ν) (k : κ) : List ν := t.map.values k

/-- `find` -/
def find (t : Table κ ν) (k : κ) : Option ν := (t.values k).head?

/-- `insert`, and one more in the counter. -/
def insert (t : Table κ ν) (k : κ) (v : ν) : Table κ ν := ⟨t.map.insert k v, t.maxSize + 1⟩

/-- A loop from `find` on that erases the pairs whose value passes a test. -/
def eraseAll (t : Table κ ν) (k : κ) (p : ν → Bool) : Table κ ν :=
  { t with map := t.map.eraseAll k p }

/-- A loop from `find` on that erases the first pair whose value passes a test, and stops. -/
def eraseOne (t : Table κ ν) (k : κ) (p : ν → Bool) : Table κ ν :=
  { t with map := t.map.eraseOne k p }

/-- `erase(find(k))` -/
def eraseFirst (t : Table κ ν) (k : κ) : Table κ ν := { t with map := t.map.eraseFirst k }

/-- The part of `compact` about one table. -/
def compact (t : Table κ ν) : Table κ ν :=
  if (t.map.size : Int) < ((t.maxSize : Int) / 2 - 5) % 18446744073709551616 then
    ⟨compactHashTable t.map, (compactHashTable t.map).size⟩
  else t

/-! ## Tables of tables -/

/-- Put an id under a key, whose map is made if there is none. -/
def starInsert (t : Table κ (HashMap ι ν)) (key : κ) (id : ι) (v : ν) : Table κ (HashMap ι ν) :=
  match t.find key with
  | none => t.insert key (HashMap.empty.insert id v)
  | some _ => { t with map := t.map.update key (fun ids => ids.insert id v) }

/-- The map under a key is changed, and taken out if nothing is left in it. -/
def starPut (t : Table κ (HashMap ι ν)) (key : κ) (ids : HashMap ι ν) : Table κ (HashMap ι ν) :=
  if ids.size = 0 then t.eraseFirst key else { t with map := t.map.update key (fun _ => ids) }

/-- Take every pair of an id out of the map of a key. -/
def starEraseAll (t : Table κ (HashMap ι ν)) (key : κ) (id : ι) : Table κ (HashMap ι ν) :=
  match t.find key with
  | none => t
  | some ids => t.starPut key (ids.eraseAll id (fun _ => true))

/-- Take the first pair of an id out of the map of a key. -/
def starEraseOne (t : Table κ (HashMap ι ν)) (key : κ) (id : ι) : Table κ (HashMap ι ν) :=
  match t.find key with
  | none => t
  | some ids =>
      match ids.find id with
      | none => t
      | some _ => t.starPut key (ids.eraseFirst id)

/-- What a loop over the map of a key visits. -/
def starIds (t : Table κ (HashMap ι ν)) (key : κ) : List ι :=
  match t.find key with
  | none => []
  | some ids => ids.toList.map Prod.fst

/-- Is there a pair of an id in the map of a key? -/
def starHas (t : Table κ (HashMap ι ν)) (key : κ) (id : ι) : Bool :=
  match t.find key with
  | none => false
  | some ids => (ids.find id).isSome

/-! ## What the operations do -/

@[simp] theorem values_empty (k : κ) : (empty : Table κ ν).values k = [] :=
  HashMap.values_empty k

theorem values_insert (t : Table κ ν) (k : κ) (v : ν) (k' : κ) :
    (t.insert k v).values k' = if k' = k then t.values k ++ [v] else t.values k' :=
  HashMap.values_insert t.map k v k'

theorem values_eraseAll (t : Table κ ν) (k : κ) (p : ν → Bool) (k' : κ) :
    (t.eraseAll k p).values k' =
      if k' = k then (t.values k).filter (fun v => !p v) else t.values k' :=
  HashMap.values_eraseAll t.map k p k'

theorem values_eraseOne (t : Table κ ν) (k : κ) (p : ν → Bool) (k' : κ) :
    (t.eraseOne k p).values k' = if k' = k then (t.values k).eraseP p else t.values k' :=
  HashMap.values_eraseOne t.map k p k'

theorem values_eraseFirst (t : Table κ ν) (k : κ) (k' : κ) :
    (t.eraseFirst k).values k' = if k' = k then (t.values k).tail else t.values k' :=
  HashMap.values_eraseFirst t.map k k'

/-- **Compacting a table changes nothing that can be looked up in it.** -/
@[simp] theorem values_compact (t : Table κ ν) (k : κ) : t.compact.values k = t.values k := by
  unfold compact
  split
  · unfold values compactHashTable
    rw [HashMap.values_foldl (fun m k v k' => HashMap.values_insert m k v k'),
      HashMap.values_empty, List.nil_append, HashMap.atKey_toList]
  · rfl

theorem values_starInsert (t : Table κ (HashMap ι ν)) (key : κ) (id : ι) (v : ν) (k : κ) :
    (t.starInsert key id v).values k =
      if k = key then
        if t.values key = [] then [HashMap.empty.insert id v]
        else (t.values key).modifyHead (fun ids => ids.insert id v)
      else t.values k := by
  unfold starInsert find
  cases hvalues : t.values key with
  | nil =>
      rw [List.head?_nil, values_insert, hvalues, if_pos rfl]
      rfl
  | cons ids rest =>
      rw [List.head?_cons, if_neg (List.cons_ne_nil ids rest), ← hvalues]
      exact HashMap.values_update t.map key (fun ids => ids.insert id v) k

omit [DecidableEq ι] in
theorem values_starPut (t : Table κ (HashMap ι ν)) (key : κ) (ids : HashMap ι ν) (k : κ) :
    (t.starPut key ids).values k =
      if k = key then
        if ids.size = 0 then (t.values key).tail else (t.values key).modifyHead (fun _ => ids)
      else t.values k := by
  unfold starPut
  by_cases hsize : ids.size = 0
  · rw [if_pos hsize, if_pos hsize]
    exact values_eraseFirst t key k
  · rw [if_neg hsize, if_neg hsize]
    exact HashMap.values_update t.map key (fun _ => ids) k

/-! ## Indices -/

/-- The table holds these entries, and under each key in this order. -/
def Holds (t : Table κ ν) (entries : List (κ × ν)) : Prop := ∀ k, t.values k = atKey k entries

/-- The map of a key holds the entries of the key, if there are any. -/
def StarHolds (t : Table κ (HashMap ι ν)) (entries : List (κ × ι × ν)) : Prop :=
  ∀ key, (t.values key = [] ∧ atKey key entries = []) ∨
    ∃ ids, t.values key = [ids] ∧ atKey key entries ≠ [] ∧
      ∀ id, ids.values id = atKey id (atKey key entries)

theorem holds_empty : Holds (empty : Table κ ν) [] := by
  intro k
  rw [values_empty, atKey_nil]

theorem starHolds_empty : StarHolds (empty : Table κ (HashMap ι ν)) [] := by
  intro key
  exact Or.inl ⟨values_empty key, rfl⟩

theorem Holds.compact {t : Table κ ν} {entries : List (κ × ν)} (h : Holds t entries) :
    Holds t.compact entries := by
  intro k
  rw [values_compact]
  exact h k

theorem StarHolds.compact (h : StarHolds t entries) : StarHolds t.compact entries := by
  intro key
  rw [values_compact]
  exact h key

theorem Holds.insert {t : Table κ ν} {entries : List (κ × ν)} (h : Holds t entries) (k : κ)
    (v : ν) : Holds (t.insert k v) (entries ++ [(k, v)]) := by
  intro k'
  rw [values_insert, atKey_append, h k, h k', atKey_cons]
  by_cases hk : k' = k
  · simp [hk]
  · simp [hk, Ne.symm hk]

theorem Holds.eraseAll {t : Table κ ν} {entries : List (κ × ν)} (h : Holds t entries) (k : κ)
    (p : ν → Bool) :
    Holds (t.eraseAll k p) (entries.filter (fun e => !(decide (e.1 = k) && p e.2))) := by
  intro k'
  rw [values_eraseAll, atKey_filter_at, h k, h k']

theorem Holds.eraseOne {t : Table κ ν} {entries : List (κ × ν)} (h : Holds t entries) (k : κ)
    (p : ν → Bool) :
    Holds (t.eraseOne k p) (entries.eraseP (fun e => decide (e.1 = k) && p e.2)) := by
  intro k'
  rw [values_eraseOne, atKey_eraseP_at, h k, h k']

/-- Whether a key has a map is whether it has entries. -/
theorem StarHolds.find_none (h : StarHolds t entries) :
    t.find key = none ↔ atKey key entries = [] := by
  unfold find
  rcases h key with ⟨hvalues, hnone⟩ | ⟨ids, hvalues, hsome, _⟩
  · simp [hvalues, hnone]
  · simp [hvalues, hsome]

theorem StarHolds.insert (h : StarHolds t entries) (key : κ) (id : ι) (v : ν) :
    StarHolds (t.starInsert key id v) (entries ++ [(key, id, v)]) := by
  intro k
  rw [values_starInsert, atKey_append, atKey_cons]
  by_cases hk : k = key
  · subst hk
    right
    rw [if_pos rfl, if_pos rfl, atKey_nil]
    rcases h k with ⟨hvalues, hnone⟩ | ⟨ids, hvalues, _, hids⟩
    · refine ⟨HashMap.empty.insert id v, by rw [if_pos hvalues], by simp, ?_⟩
      intro id'
      rw [hnone, List.nil_append, HashMap.values_insert, atKey_cons, atKey_nil]
      by_cases hid : id' = id
      · simp [hid]
      · simp [hid, Ne.symm hid]
    · refine ⟨ids.insert id v, by simp [hvalues], by simp, ?_⟩
      intro id'
      rw [HashMap.values_insert, atKey_append, hids, hids, atKey_cons, atKey_nil]
      by_cases hid : id' = id
      · simp [hid]
      · simp [hid, Ne.symm hid]
  · rw [if_neg hk, if_neg (Ne.symm hk), atKey_nil, List.append_nil]
    exact h k

/-- The map of a key replaced by one that holds what is to be left of its entries. -/
theorem StarHolds.put {t : Table κ (HashMap ι ν)} {entries left : List (κ × ι × ν)}
    (h : StarHolds t entries) {key : κ} {ids ids' : HashMap ι ν} (hfind : t.find key = some ids)
    (hother : ∀ k, k ≠ key → atKey k left = atKey k entries)
    (hids : ∀ id, ids'.values id = atKey id (atKey key left)) :
    StarHolds (t.starPut key ids') left := by
  intro k
  rw [values_starPut]
  by_cases hk : k = key
  · subst hk
    obtain ⟨hvalues, -⟩ | ⟨ids₀, hvalues, -⟩ := h k
    · simp [find, hvalues] at hfind
    · rw [if_pos rfl, hvalues]
      by_cases hsize : ids'.size = 0
      · left
        rw [if_pos hsize]
        refine ⟨rfl, ?_⟩
        by_contra hne
        obtain ⟨e, he⟩ := List.exists_mem_of_ne_nil _ hne
        have hmem : e.2 ∈ atKey e.1 (atKey k left) := mem_atKey.mpr he
        rw [← hids, HashMap.size_eq_zero.mp hsize] at hmem
        cases hmem
      · right
        refine ⟨ids', by simp [hsize], ?_, hids⟩
        intro hnil
        refine hsize (HashMap.size_eq_zero.mpr ?_)
        intro id
        rw [hids, hnil, atKey_nil]
  · rw [if_neg hk, hother k hk]
    exact h k

theorem StarHolds.values_of_find (h : StarHolds t entries) {ids : HashMap ι ν}
    (hfind : t.find key = some ids) (id : ι) : ids.values id = atKey id (atKey key entries) := by
  obtain ⟨hvalues, -⟩ | ⟨ids₀, hvalues, -, hids⟩ := h key
  · simp [find, hvalues] at hfind
  · simp only [find, hvalues, List.head?_cons, Option.some.injEq] at hfind
    exact hfind ▸ hids id

/-- Where there is no map of a key, what would take some of its entries takes none. -/
theorem StarHolds.absent {left : List (κ × ι × ν)} (h : StarHolds t entries)
    (hfind : t.find key = none) {erase : List (ι × ν) → List (ι × ν)}
    (hat : ∀ k, atKey k left = if k = key then erase (atKey key entries) else atKey k entries)
    (hnil : erase [] = []) : StarHolds t left := by
  intro k
  rw [hat k]
  by_cases hk : k = key
  · rw [if_pos hk, h.find_none.mp hfind]
    left
    refine ⟨?_, hnil⟩
    rw [hk]
    simpa [find] using hfind
  · rw [if_neg hk]
    exact h k

theorem StarHolds.eraseAll (h : StarHolds t entries) (key : κ) (id : ι) :
    StarHolds (t.starEraseAll key id)
      (entries.filter (fun e => !(decide (e.1 = key) && decide (e.2.1 = id)))) := by
  have hat := atKey_filter_at key (fun e : ι × ν => decide (e.1 = id)) entries
  unfold starEraseAll
  cases hfind : t.find key with
  | none => exact h.absent hfind hat rfl
  | some ids =>
      refine h.put hfind (fun k hk => by rw [hat k, if_neg hk]) ?_
      intro id'
      rw [hat key, if_pos rfl, HashMap.values_eraseAll, h.values_of_find hfind,
        h.values_of_find hfind]
      have hone := atKey_filter_at id (fun _ : ν => true) (atKey key entries) id'
      simp only [Bool.and_true] at hone
      rw [hone]

theorem StarHolds.eraseOne (h : StarHolds t entries) (key : κ) (id : ι) :
    StarHolds (t.starEraseOne key id)
      (entries.eraseP (fun e => decide (e.1 = key) && decide (e.2.1 = id))) := by
  have hat := atKey_eraseP_at key (fun e : ι × ν => decide (e.1 = id)) entries
  have hone := atKey_eraseP_at id (fun _ : ν => true) (atKey key entries)
  simp only [Bool.and_true] at hone
  unfold starEraseOne
  cases hfind : t.find key with
  | none => exact h.absent hfind hat rfl
  | some ids =>
      dsimp only
      cases hid : ids.find id with
      | none =>
          -- the entries of the key have none of the id, and nothing is erased
          have hnil : atKey id (atKey key entries) = [] := by
            rw [← h.values_of_find hfind]
            simpa [HashMap.find] using hid
          have hsame : entries.eraseP (fun e => decide (e.1 = key) && decide (e.2.1 = id)) =
              entries := by
            refine List.eraseP_of_forall_not ?_
            intro e he hboth
            simp only [Bool.and_eq_true, decide_eq_true_eq] at hboth
            have hmem : e.2 ∈ atKey key entries := mem_atKey.mpr (by rw [← hboth.1]; exact he)
            exact atKey_eq_nil.mp hnil e.2 hmem hboth.2
          rw [hsame]
          exact h
      | some v =>
          refine h.put hfind (fun k hk => by rw [hat k, if_neg hk]) ?_
          intro id'
          rw [hat key, if_pos rfl, HashMap.values_eraseFirst, h.values_of_find hfind,
            h.values_of_find hfind, hone]
          by_cases hid' : id' = id
          · rw [if_pos hid', if_pos hid']
            cases atKey id (atKey key entries) <;> simp
          · rw [if_neg hid', if_neg hid']

/-! ## Loops over a table -/

theorem Holds.foldl_insert {α : Type} {t : Table κ ν} {entries : List (κ × ν)}
    (h : Holds t entries) (k : α → κ) (v : α → ν) (l : List α) :
    Holds (l.foldl (fun t x => t.insert (k x) (v x)) t)
      (entries ++ l.map (fun x => (k x, v x))) := by
  induction l generalizing t entries with
  | nil => simpa using h
  | cons x l ih =>
      rw [List.foldl_cons, List.map_cons]
      simpa using ih (h.insert (k x) (v x))

theorem StarHolds.foldl_insert {α : Type} (h : StarHolds t entries) (k : α → κ) (id : α → ι)
    (v : α → ν) (l : List α) :
    StarHolds (l.foldl (fun t x => t.starInsert (k x) (id x) (v x)) t)
      (entries ++ l.map (fun x => (k x, id x, v x))) := by
  induction l generalizing t entries with
  | nil => simpa using h
  | cons x l ih =>
      rw [List.foldl_cons, List.map_cons]
      simpa using ih (h.insert (k x) (id x) (v x))

theorem Holds.foldl_eraseAll {t : Table κ ν} {entries : List (κ × ν)} (h : Holds t entries)
    (p : ν → Bool) (ks : List κ) :
    Holds (ks.foldl (fun t k => t.eraseAll k p) t)
      (entries.filter (fun e => !(decide (e.1 ∈ ks) && p e.2))) := by
  rw [← foldl_filter_eq_filter Prod.fst (fun e => p e.2)]
  exact List.foldl_rel h (fun k _ _ _ h => h.eraseAll k p)

theorem StarHolds.foldl_eraseAll (h : StarHolds t entries) (id : ι) (ks : List κ) :
    StarHolds (ks.foldl (fun t k => t.starEraseAll k id) t)
      (entries.filter (fun e => !(decide (e.1 ∈ ks) && decide (e.2.1 = id)))) := by
  rw [← foldl_filter_eq_filter Prod.fst (fun e : κ × ι × ν => decide (e.2.1 = id))]
  exact List.foldl_rel h (fun k _ _ _ h => h.eraseAll k id)

theorem Holds.foldl_eraseOne {t : Table κ ν} {entries : List (κ × ν)} (h : Holds t entries)
    (p : ν → Bool) (ks : List κ)
    (hcount : ∀ k, entries.countP (fun e => decide (e.1 = k) && p e.2) ≤ ks.count k) :
    Holds (ks.foldl (fun t k => t.eraseOne k p) t) (entries.filter (fun e => !p e.2)) := by
  rw [← foldl_eraseP_eq_filter ks entries hcount]
  exact List.foldl_rel h (fun k _ _ _ h => h.eraseOne k p)

theorem StarHolds.foldl_eraseOne (h : StarHolds t entries) (id : ι) (ks : List κ)
    (hcount : ∀ k, entries.countP (fun e => decide (e.1 = k) && decide (e.2.1 = id)) ≤
      ks.count k) :
    StarHolds (ks.foldl (fun t k => t.starEraseOne k id) t)
      (entries.filter (fun e => !decide (e.2.1 = id))) := by
  rw [← foldl_eraseP_eq_filter ks entries hcount]
  exact List.foldl_rel h (fun k _ _ _ h => h.eraseOne k id)

/-- Taking out the first of a key, once for every time it is named. -/
theorem values_foldl_eraseFirst (t : Table κ ν) (ks : List κ) (k : κ) :
    (ks.foldl (fun t k => t.eraseFirst k) t).values k = (t.values k).drop (ks.count k) := by
  induction ks generalizing t with
  | nil => simp
  | cons k' ks ih =>
      rw [List.foldl_cons, ih, values_eraseFirst, List.count_cons]
      by_cases hk : k = k'
      · subst hk
        simp
      · simp [hk, Ne.symm hk]

/-! ## Looking things up -/

/-- In a table of records by their keys, what is found is the record of the key. -/
theorem Holds.find_record {t : Table κ ν} (h : Holds t (l.map (fun x => (f x, x))))
    (hnodup : (l.map f).Nodup) {k : κ} {x : ν} : t.find k = some x ↔ x ∈ l ∧ f x = k := by
  unfold find
  rw [h k, atKey_records]
  constructor
  · intro hhead
    have hmem := List.mem_of_mem_head? hhead
    rw [List.mem_filter] at hmem
    exact ⟨hmem.1, of_decide_eq_true hmem.2⟩
  · rintro ⟨hx, rfl⟩
    rw [filter_key_eq hnodup hx]
    rfl

theorem Holds.find_record_none {t : Table κ ν} (h : Holds t (l.map (fun x => (f x, x)))) {k : κ} :
    t.find k = none ↔ ∀ x ∈ l, f x ≠ k := by
  unfold find
  rw [h k, atKey_records]
  simp

/-- Taking out the record of a key. -/
theorem Holds.eraseFirst_record {t : Table κ ν} (h : Holds t (l.map (fun x => (f x, x))))
    (hnodup : (l.map f).Nodup) {x : ν} (hx : x ∈ l) :
    Holds (t.eraseFirst (f x)) ((l.filter (fun y => f y ≠ f x)).map (fun y => (f y, y))) := by
  intro k
  rw [values_eraseFirst, h (f x), h k, atKey_records, atKey_records, atKey_records,
    filter_key_eq hnodup hx, List.filter_filter]
  by_cases hk : k = f x
  · rw [if_pos hk, List.tail_cons, eq_comm, List.filter_eq_nil_iff]
    intro y _ hboth
    simp only [Bool.and_eq_true, decide_eq_true_eq] at hboth
    exact hboth.2 (hboth.1.trans hk)
  · rw [if_neg hk]
    refine List.filter_congr ?_
    intro y _
    by_cases hy : f y = k
    · simp [hy, hk]
    · simp [hy]

/-- The ids that a loop over the map of a key visits. -/
theorem StarHolds.mem_starIds (h : StarHolds t entries) {id : ι} :
    id ∈ t.starIds key ↔ ∃ v, (key, id, v) ∈ entries := by
  have hentry : (∃ v, (key, id, v) ∈ entries) ↔ atKey id (atKey key entries) ≠ [] := by
    constructor
    · rintro ⟨v, hv⟩ hnil
      exact atKey_eq_nil.mp hnil (id, v) (mem_atKey.mpr hv) rfl
    · intro hne
      obtain ⟨v, hv⟩ := List.exists_mem_of_ne_nil _ hne
      exact ⟨v, mem_atKey.mp (mem_atKey.mp hv)⟩
  rw [hentry]
  unfold starIds
  cases hfind : t.find key with
  | none => simp [h.find_none.mp hfind]
  | some ids =>
      simp only [List.mem_map, Prod.exists, exists_and_right, exists_eq_right,
        HashMap.mem_toList, h.values_of_find hfind]
      constructor
      · rintro ⟨v, hv⟩ hnil
        rw [hnil] at hv
        cases hv
      · exact List.exists_mem_of_ne_nil _

theorem StarHolds.starHas_iff (h : StarHolds t entries) {id : ι} :
    t.starHas key id = true ↔ ∃ v, (key, id, v) ∈ entries := by
  rw [← h.mem_starIds]
  unfold starHas starIds
  cases hfind : t.find key with
  | none => simp
  | some ids =>
      simp only [HashMap.find, List.isSome_head?, List.mem_map, Prod.exists, exists_and_right,
        exists_eq_right, HashMap.mem_toList]
      constructor
      · exact List.exists_mem_of_ne_nil _
      · rintro ⟨v, hv⟩ hnil
        rw [hnil] at hv
        cases hv

end Table

end Encoders.Store
