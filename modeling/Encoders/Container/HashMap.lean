import Encoders.Lib.CString
import Encoders.Lib.Grouped

/-!
# `HashMap`

libcpphaggle's hash table, a multimap: a table of chains, as many as one of a list of
primes. A pair goes to the chain its hash points at, behind the pairs of its key, and the
table grows when there are more pairs than chains.

A `HashMap` cannot be built wrong: every pair is in its own chain, and the pairs of a key
are side by side in it, which is what the loops of its users rely on. What a map holds
under a key is `values`, the pairs that a loop from `find` on visits, in their order; every
operation is described by what it does to `values`. The order of a walk over the whole
table is left open, but it sees under every key what `values` says.
-/

namespace Encoders.Container

open Encoders.Lib

/-- `struct Hash`: one function for every type of key. -/
class Hash (κ : Type) where
  hash : κ → Nat

/-- One step of `generic_hash`, on 32 bits, with a signed `char`. -/
def hashByte (hashValue : UInt32) (b : UInt8) : UInt32 :=
  let c : UInt32 := if b < 128 then b.toUInt32 else b.toUInt32 + 0xFFFFFF00
  let hashValue := hashValue * 16 + c
  let i := hashValue &&& 0xF0000000
  if i ≠ 0 then (hashValue ^^^ (i >>> 24)) &&& 0x0FFFFFFF else hashValue

/-- `generic_hash` -/
def genericHash (bytes : List UInt8) : UInt32 := bytes.foldl hashByte 0

/-- Strings are hashed by their characters. -/
instance instHashCString : Hash CString where
  hash s := (genericHash s).toNat

/-- A `long`, by its eight bytes. -/
def longBytes (n : Int) : List UInt8 :=
  (List.range 8).map (fun i => UInt8.ofNat ((n / (Nat.pow 256 i : Nat)) % 256).toNat)

/-- Numbers are hashed by their bytes. -/
instance instHashLong : Hash Int where
  hash n := (genericHash (longBytes n)).toNat

/-- `ms_primes` -/
def msPrimes : List Nat :=
  [7, 13, 29, 53, 97, 193, 389, 769, 1543, 3079, 6151, 12289, 24593, 49157, 98317, 196613,
    393241, 786433, 1572869, 3145739, 6291469, 12582917, 25165843, 50331653, 100663319,
    201326611, 402653189, 805306457, 1610612741, 3221225473, 4294967291]

/-- `getPrime` -/
def getPrime (n : Nat) : Nat := (msPrimes.find? (fun p => n < p)).getD 0

/-- The sizes a table can have: growing asks for the next prime twice, and takes every second. -/
def tableSizes : List Nat :=
  [7, 29, 97, 389, 1543, 6151, 24593, 98317, 393241, 1572869, 6291469, 25165843, 100663319,
    402653189, 1610612741, 4294967291]

theorem getPrime_tableSizes : ∀ n ∈ tableSizes, getPrime (n + 1) ≠ 0 →
    getPrime (getPrime (n + 1)) ∈ tableSizes := by decide

theorem tableSizes_pos : ∀ n ∈ tableSizes, 0 < n := by decide

/-- The hash table, with its order of pairs. -/
structure HashMap (κ ν : Type) [Hash κ] where
  table : List (List (κ × ν))
  sized : table.length ∈ tableSizes
  placed : ∀ (i : Nat) (chain : List (κ × ν)), table[i]? = some chain →
    ∀ e ∈ chain, Hash.hash e.1 % table.length = i
  grouped : ∀ (i : Nat) (chain : List (κ × ν)), table[i]? = some chain → Grouped chain

namespace HashMap

variable {κ ν : Type} [DecidableEq κ] [Hash κ]
variable {m : HashMap κ ν}

omit [DecidableEq κ] in
/-- The empty table of a size. -/
def ofSize (n : Nat) (h : n ∈ tableSizes) : HashMap κ ν where
  table := List.replicate n []
  sized := by rw [List.length_replicate]; exact h
  placed := by
    intro i chain hi e he
    rw [List.getElem?_replicate] at hi
    split at hi
    · injection hi with hi
      rw [← hi] at he
      cases he
    · cases hi
  grouped := by
    intro i chain hi
    rw [List.getElem?_replicate] at hi
    split at hi
    · injection hi with hi
      rw [← hi]
      trivial
    · cases hi

/-- `HashMap()` -/
def empty : HashMap κ ν := ofSize 7 (by decide)

/-- `getIndex` -/
def getIndex (m : HashMap κ ν) (k : κ) : Nat := Hash.hash k % m.table.length

/-- The chain of a key. -/
def chain (m : HashMap κ ν) (k : κ) : List (κ × ν) := (m.table[m.getIndex k]?).getD []

/-- What a loop from `find` on visits, while the key is the same. -/
def values (m : HashMap κ ν) (k : κ) : List ν := runAt k (m.chain k)

/-- `find` -/
def find (m : HashMap κ ν) (k : κ) : Option ν := (m.values k).head?

/-- What a loop from `begin` on visits. -/
def toList (m : HashMap κ ν) : List (κ × ν) := m.table.flatten

/-- `size`: the member `_size` goes with every pair put in and taken out. -/
def size (m : HashMap κ ν) : Nat := m.toList.length

/-- Change the chain of a key, in a way that leaves every pair where it belongs. -/
def change (m : HashMap κ ν) (k : κ) (f : List (κ × ν) → List (κ × ν))
    (hkeys : ∀ chain, ∀ e ∈ f chain, e.1 = k ∨ ∃ e' ∈ chain, e'.1 = e.1)
    (hgrouped : ∀ chain, Grouped chain → Grouped (f chain)) : HashMap κ ν where
  table := m.table.modify (m.getIndex k) f
  sized := by rw [List.length_modify]; exact m.sized
  placed := by
    intro i chain hi e he
    rw [List.getElem?_modify] at hi
    rw [List.length_modify]
    split at hi
    · next hindex =>
        cases hold : m.table[i]? with
        | none =>
            rw [hold] at hi
            cases hi
        | some old =>
            rw [hold] at hi
            simp only [Option.map_eq_map, Option.map_some, Option.some.injEq] at hi
            subst hi
            rcases hkeys old e he with hk | ⟨e', he', hk⟩
            · rw [hk]
              exact hindex
            · rw [← hk]
              exact m.placed i old hold e' he'
    · simp only [Option.map_eq_map, Option.map_id_fun', id_eq] at hi
      exact m.placed i chain hi e he
  grouped := by
    intro i chain hi
    rw [List.getElem?_modify] at hi
    split at hi
    · cases hold : m.table[i]? with
      | none =>
          rw [hold] at hi
          cases hi
      | some old =>
          rw [hold] at hi
          simp only [Option.map_eq_map, Option.map_some, Option.some.injEq] at hi
          subst hi
          exact hgrouped old (m.grouped i old hold)
    · simp only [Option.map_eq_map, Option.map_id_fun', id_eq] at hi
      exact m.grouped i chain hi

/-- The part of `insert` behind the call of `grow`. -/
def put (m : HashMap κ ν) (k : κ) (v : ν) : HashMap κ ν :=
  m.change k (putAt k v)
    (fun _ e he => (mem_putAt.mp he).elim (fun h => Or.inl (by rw [h])) (fun h => Or.inr ⟨e, h, rfl⟩))
    (fun _ h => grouped_putAt h)

/-- `grow`: the larger table has room for all pairs, so putting them there does not grow it. -/
def grow (m : HashMap κ ν) : HashMap κ ν :=
  if h : getPrime (m.table.length + 1) ≠ 0 ∧ m.table.length < getPrime (m.table.length + 1) then
    m.toList.foldl (fun larger e => larger.put e.1 e.2)
      (ofSize (getPrime (getPrime (m.table.length + 1)))
        (getPrime_tableSizes _ m.sized h.1))
  else m

/-- `insert` -/
def insert (m : HashMap κ ν) (k : κ) (v : ν) : HashMap κ ν :=
  if m.table.length < m.size + 1 then m.grow.put k v else m.put k v

/-- A loop from `find` on that erases the pairs whose value passes a test. -/
def eraseAll (m : HashMap κ ν) (k : κ) (p : ν → Bool) : HashMap κ ν :=
  m.change k (eraseAt k p)
    (fun chain e he => Or.inr ⟨e, (eraseAt_sublist k p chain).subset he, rfl⟩)
    (fun chain h => h.sublist (eraseAt_sublist k p chain))

/-- A loop from `find` on that erases the first pair whose value passes a test, and stops. -/
def eraseOne (m : HashMap κ ν) (k : κ) (p : ν → Bool) : HashMap κ ν :=
  m.change k (eraseOneAt k p)
    (fun chain e he => Or.inr ⟨e, (eraseOneAt_sublist k p chain).subset he, rfl⟩)
    (fun chain h => h.sublist (eraseOneAt_sublist k p chain))

/-- `erase(find(k))` -/
def eraseFirst (m : HashMap κ ν) (k : κ) : HashMap κ ν := m.eraseOne k (fun _ => true)

/-- A change of what the first pair of a key points at. -/
def update (m : HashMap κ ν) (k : κ) (f : ν → ν) : HashMap κ ν :=
  m.change k (updateAt k f)
    (fun chain e he => by
      have hmem : e.1 ∈ chain.map Prod.fst := by
        rw [← keys_updateAt k f chain]
        exact List.mem_map_of_mem he
      obtain ⟨e', he', hk⟩ := List.mem_map.mp hmem
      exact Or.inr ⟨e', he', hk⟩)
    (fun chain h => h.of_keys (keys_updateAt k f chain))

/-! ## What a map holds -/

omit [DecidableEq κ] in
theorem grouped_chain (m : HashMap κ ν) (k : κ) : Grouped (m.chain k) := by
  unfold chain
  cases h : m.table[m.getIndex k]? with
  | none => trivial
  | some c => exact m.grouped _ c h

/-- The loop sees everything the chain has under the key. -/
theorem values_eq_atKey (m : HashMap κ ν) (k : κ) : m.values k = atKey k (m.chain k) :=
  runAt_eq_atKey (m.grouped_chain k)

omit [DecidableEq κ] in
theorem getIndex_lt (m : HashMap κ ν) (k : κ) : m.getIndex k < m.table.length :=
  Nat.mod_lt _ (tableSizes_pos _ m.sized)

/-- **A change that acts under its key only is seen under its key only.** -/
theorem values_change {k : κ} {f : List (κ × ν) → List (κ × ν)}
    {hkeys : ∀ chain, ∀ e ∈ f chain, e.1 = k ∨ ∃ e' ∈ chain, e'.1 = e.1}
    {hgrouped : ∀ chain, Grouped chain → Grouped (f chain)} {g : List ν → List ν}
    (hf : ∀ c, Grouped c → ∀ k', atKey k' (f c) = if k' = k then g (atKey k c) else atKey k' c)
    (k' : κ) : (m.change k f hkeys hgrouped).values k' =
      if k' = k then g (m.values k) else m.values k' := by
  have hindex : (m.change k f hkeys hgrouped).getIndex k' = m.getIndex k' := by
    unfold getIndex change
    rw [List.length_modify]
  have hlookup : (m.change k f hkeys hgrouped).table[m.getIndex k']? =
      if m.getIndex k = m.getIndex k' then (m.table[m.getIndex k']?).map f
      else m.table[m.getIndex k']? := by
    unfold change
    rw [List.getElem?_modify]
    split
    · rfl
    · exact Option.map_id'
  rw [values_eq_atKey, values_eq_atKey, values_eq_atKey]
  unfold chain
  rw [hindex, hlookup]
  by_cases hsame : m.getIndex k = m.getIndex k'
  · rw [if_pos hsame, ← hsame]
    have hlt := m.getIndex_lt k
    rw [List.getElem?_eq_getElem hlt]
    simp only [Option.map_some, Option.getD_some]
    exact hf _ (m.grouped _ _ (List.getElem?_eq_getElem hlt)) k'
  · rw [if_neg hsame, if_neg]
    intro hcon
    exact hsame (by rw [hcon])

theorem values_put (m : HashMap κ ν) (k : κ) (v : ν) (k' : κ) :
    (m.put k v).values k' = if k' = k then m.values k ++ [v] else m.values k' :=
  values_change (g := fun l => l ++ [v]) (fun _ h => atKey_putAt h) k'

/-- What is inserted one by one comes behind what was there. -/
theorem values_foldl {step : HashMap κ ν → κ → ν → HashMap κ ν}
    (hstep : ∀ m k v k', (step m k v).values k' =
      if k' = k then m.values k ++ [v] else m.values k') (k : κ) :
    ∀ (l : List (κ × ν)) (m : HashMap κ ν),
      (l.foldl (fun m e => step m e.1 e.2) m).values k = m.values k ++ atKey k l
  | [], m => by simp
  | e :: l, m => by
      rw [List.foldl_cons, values_foldl hstep k l, hstep, atKey_cons]
      by_cases hk : e.1 = k
      · simp [hk]
      · simp [hk, Ne.symm hk]

@[simp] theorem values_ofSize {n : Nat} (h : n ∈ tableSizes) (k : κ) :
    (ofSize n h : HashMap κ ν).values k = [] := by
  rw [values_eq_atKey]
  unfold chain ofSize
  rw [List.getElem?_replicate]
  split <;> rfl

@[simp] theorem values_empty (k : κ) : (empty : HashMap κ ν).values k = [] := values_ofSize _ k

omit [Hash κ] in
/-- Chains that have nothing under a key but one. -/
theorem atKey_flatten {k : κ} : ∀ (chains : List (List (κ × ν))) (i j : Nat),
    (∀ n c, chains[n]? = some c → ∀ e ∈ c, e.1 = k → n + i = j) → i ≤ j →
    atKey k chains.flatten = atKey k ((chains[j - i]?).getD [])
  | [], i, j, _, _ => by simp
  | c :: chains, i, j, h, hij => by
      rw [List.flatten_cons, atKey_append]
      rcases Nat.lt_or_ge i j with hlt | hge
      · have hc : atKey k c = [] := by
          rw [atKey_eq_nil]
          intro e he hk
          have := h 0 c rfl e he hk
          omega
        have hrest := atKey_flatten chains (i + 1) j
          (fun n c' hn e he hk => by have := h (n + 1) c' hn e he hk; omega) (by omega)
        rw [hc, List.nil_append, hrest, show j - i = (j - (i + 1)) + 1 by omega,
          List.getElem?_cons_succ]
      · have hij' : j - i = 0 := by omega
        have hrest : atKey k chains.flatten = [] := by
          rw [atKey_eq_nil]
          intro e he hk
          obtain ⟨c', hc', he'⟩ := List.mem_flatten.mp he
          obtain ⟨n, hn⟩ := List.mem_iff_getElem?.mp hc'
          have := h (n + 1) c' hn e he' hk
          omega
        rw [hij', hrest, List.append_nil]
        rfl

/-- **A walk over the whole table sees what the loops see.** -/
theorem atKey_toList (m : HashMap κ ν) (k : κ) : atKey k m.toList = m.values k := by
  rw [values_eq_atKey]
  unfold toList chain
  rw [atKey_flatten m.table 0 (m.getIndex k) ?_ (Nat.zero_le _), Nat.sub_zero]
  intro n c hn e he hk
  rw [Nat.add_zero, ← m.placed n c hn e he, hk]
  rfl

theorem mem_toList {k : κ} {v : ν} : (k, v) ∈ m.toList ↔ v ∈ m.values k := by
  rw [← atKey_toList, mem_atKey]

theorem values_grow (m : HashMap κ ν) (k : κ) : m.grow.values k = m.values k := by
  unfold grow
  split
  · rw [values_foldl (fun m k v k' => values_put m k v k'), values_ofSize, List.nil_append,
      atKey_toList]
  · rfl

/-- **`insert` puts a value last under its key.** -/
theorem values_insert (m : HashMap κ ν) (k : κ) (v : ν) (k' : κ) :
    (m.insert k v).values k' = if k' = k then m.values k ++ [v] else m.values k' := by
  unfold insert
  split
  · rw [values_put, values_grow, values_grow]
  · exact values_put m k v k'

theorem values_eraseAll (m : HashMap κ ν) (k : κ) (p : ν → Bool) (k' : κ) :
    (m.eraseAll k p).values k' =
      if k' = k then (m.values k).filter (fun v => !p v) else m.values k' :=
  values_change (g := fun l => l.filter (fun v => !p v)) (fun _ h => atKey_eraseAt p h) k'

theorem values_eraseOne (m : HashMap κ ν) (k : κ) (p : ν → Bool) (k' : κ) :
    (m.eraseOne k p).values k' = if k' = k then (m.values k).eraseP p else m.values k' :=
  values_change (g := fun l => l.eraseP p) (fun _ h => atKey_eraseOneAt p h) k'

theorem values_eraseFirst (m : HashMap κ ν) (k : κ) (k' : κ) :
    (m.eraseFirst k).values k' = if k' = k then (m.values k).tail else m.values k' := by
  unfold eraseFirst
  rw [values_eraseOne]
  congr 1
  cases m.values k <;> simp

theorem values_update (m : HashMap κ ν) (k : κ) (f : ν → ν) (k' : κ) :
    (m.update k f).values k' =
      if k' = k then (m.values k).modifyHead f else m.values k' :=
  values_change (g := fun l => l.modifyHead f) (fun c _ => atKey_updateAt k f c) k'

/-- An empty map is one with nothing under any key. -/
theorem size_eq_zero : m.size = 0 ↔ ∀ k, m.values k = [] := by
  unfold size
  rw [List.length_eq_zero_iff]
  constructor
  · intro h k
    rw [← atKey_toList, h]
    rfl
  · intro h
    by_contra hne
    obtain ⟨⟨k, v⟩, he⟩ := List.exists_mem_of_ne_nil _ hne
    have hv := mem_toList.mp he
    rw [h k] at hv
    cases hv

end HashMap

end Encoders.Container
