import Mathlib.Data.Multiset.UnionInter
import Encoders.Bloom.Counting

/-!
# A counting filter without collisions is a set

Suppose no two hashes of the keys in play fall on one bin. Then a bin belongs to one key,
a check says exactly whether its key is in the filter, and a filter to which a key is
added only when it is not there never counts further than one.

`contents` reads the set off the operations done so far. `Exact` ties it to the filter, with
one lemma for a check, one for an addition and one for a removal.
-/

namespace Encoders.Bloom

open Encoders.Lib

/-- The keys in the filter after these operations. -/
def contents (log : List FilterOp) : Multiset Key := log.foldl ledger 0

/-- No two hashes of the keys fall on one bin, and every key falls on some bin. -/
structure NoCollision (sha1 : Digest) (m : UInt32) (salts : List UInt32) (keys : List Key) :
    Prop where
  salted : salts ≠ []
  range : ∀ key ∈ keys, InRange sha1 m salts key
  single : ∀ key ∈ keys, ∀ j, hits sha1 m salts key j ≤ 1
  apart : ∀ key ∈ keys, ∀ other ∈ keys, key ≠ other →
    ∀ j, hits sha1 m salts key j = 0 ∨ hits sha1 m salts other j = 0

/-- The filter holds the contents of the log, each key once. -/
structure Exact (sha1 : Digest) (keys : List Key) (bf : CountingBloomfilter)
    (log : List FilterOp) : Prop where
  free : NoCollision sha1 bf.m bf.salts.toList keys
  legal : Legal log
  tallies : Tallies sha1 bf (contents log)
  nodup : (contents log).Nodup
  known : ∀ key ∈ contents log, key ∈ keys

/-! ## What is in the log -/

theorem contents_snoc (log : List FilterOp) (op : FilterOp) :
    contents (log ++ [op]) = ledger (contents log) op := by
  rw [contents, List.foldl_append]
  rfl

theorem mem_contents_add {log : List FilterOp} {key other : Key} :
    other ∈ contents (log ++ [.add key]) ↔ other = key ∨ other ∈ contents log := by
  rw [contents_snoc]
  exact Multiset.mem_cons

theorem mem_contents_remove {log : List FilterOp} (h : (contents log).Nodup) {key other : Key} :
    other ∈ contents (log ++ [.remove key]) ↔ other ≠ key ∧ other ∈ contents log := by
  rw [contents_snoc]
  exact h.mem_erase_iff

theorem Legal.snoc {log : List FilterOp} (h : Legal log) {op : FilterOp}
    (hop : ∀ key, op = .remove key → log.count (.remove key) < log.count (.add key)) :
    Legal (log ++ [op]) := by
  intro pre key post heq
  -- the removal asked about is the last operation or one before it
  rcases List.eq_nil_or_concat post with hnil | ⟨init, last, hlast⟩
  · rw [hnil] at heq
    obtain ⟨hpre, hkey⟩ := List.append_inj' heq rfl
    rw [← hpre]
    exact hop key (List.singleton_inj.mp hkey)
  · rw [hlast, List.concat_eq_append, ← List.cons_append, ← List.append_assoc] at heq
    exact h pre key init (List.append_inj' heq rfl).1

/-- In a legal log a key is in the filter when it was added more often than removed. -/
theorem mem_contents_iff {log : List FilterOp} (h : Legal log) (key : Key) :
    key ∈ contents log ↔ log.count (.remove key) < log.count (.add key) := by
  have hcount := ledger_count log h key
  rw [← Multiset.count_pos]
  unfold contents
  omega

/-! ## The operations -/

section Operations

variable {sha1 : Digest} {m : UInt32} {key : Key} {keys : List Key}

/-- A check fails when one bin the key falls on is empty. -/
theorem checkLoop_empty :
    ∀ (salts : List UInt32) (bins : Vector UInt16 m.toNat) (removed : UInt16),
    InRange sha1 m salts key →
    (∃ j : Fin m.toNat, 0 < hits sha1 m salts key j ∧ bins.get j = 0) →
    operationLoop sha1 m key .check salts bins removed = some (false, bins, removed)
  | [], _, _, _, hj => by
      obtain ⟨j, hpos, _⟩ := hj
      exact absurd hpos (Nat.lt_irrefl 0)
  | salt :: salts, bins, removed, hr, hj => by
      obtain ⟨i, hi⟩ := Option.isSome_iff_exists.mp (hr salt (by simp))
      rw [operationLoop, hi]
      simp only [Option.bind_eq_bind, Option.bind_some]
      by_cases hzero : bins[i] = 0
      · rw [if_pos hzero]
      · rw [if_neg hzero]
        refine checkLoop_empty salts bins removed (fun s hs => hr s (by simp [hs])) ?_
        obtain ⟨j, hpos, hempty⟩ := hj
        refine ⟨j, ?_, hempty⟩
        -- the bin of this salt is not the empty one
        have hne : i ≠ j := fun hij => hzero (hij ▸ hempty)
        rw [hits_cons hi, if_neg hne] at hpos
        exact hpos

theorem NoCollision.exists_hit (h : NoCollision sha1 m salts keys) (hk : key ∈ keys) :
    ∃ j, 0 < hits sha1 m salts key j := by
  obtain ⟨salt, rest, hsalts⟩ := List.exists_cons_of_ne_nil h.salted
  have hmem : salt ∈ salts := hsalts ▸ List.mem_cons_self
  obtain ⟨j, hj⟩ := Option.isSome_iff_exists.mp (h.range key hk salt hmem)
  refine ⟨j, List.countP_pos_iff.mpr ⟨salt, hmem, ?_⟩⟩
  rw [hj]
  exact decide_eq_true rfl

/-- An operation changes bins and count only. -/
theorem step_shape {bf bf' : CountingBloomfilter} {op : FilterOp}
    (h : bf.step sha1 op = some bf') : ∃ bins n, bf' = { bf with bins := bins, n := n } := by
  cases op with
  | add key =>
      unfold CountingBloomfilter.step countingAdd countingOperation at h
      obtain ⟨r, hr, rfl⟩ := Option.map_eq_some_iff.mp h
      obtain ⟨⟨done, bins, removed⟩, -, hr⟩ := Option.bind_eq_some_iff.mp hr
      cases done with
      | true => exact ⟨bins, _, (congrArg Prod.fst (Option.some.inj hr)).symm⟩
      | false => exact ⟨bins, _, (congrArg Prod.fst (Option.some.inj hr)).symm⟩
  | remove key =>
      unfold CountingBloomfilter.step countingRemove countingOperation at h
      obtain ⟨r, hr, rfl⟩ := Option.map_eq_some_iff.mp h
      obtain ⟨⟨done, bins, removed⟩, -, hr⟩ := Option.bind_eq_some_iff.mp hr
      cases done with
      | true => exact ⟨bins, _, (congrArg Prod.fst (Option.some.inj hr)).symm⟩
      | false => exact ⟨bins, _, (congrArg Prod.fst (Option.some.inj hr)).symm⟩

end Operations

namespace Exact

variable {sha1 : Digest} {keys : List Key} {bf : CountingBloomfilter} {log : List FilterOp}
  {key : Key}

/-- A new filter holds nothing. -/
theorem init (hfresh : bf.Fresh) (hfree : NoCollision sha1 bf.m bf.salts.toList keys) :
    Exact sha1 keys bf [] where
  free := hfree
  legal := fun pre key post heq => by simp at heq
  tallies := by
    refine ⟨fun key hk => absurd hk (Multiset.notMem_zero key), ?_⟩
    intro j
    rw [hfresh j]
    rfl
  nodup := Multiset.nodup_zero
  known := fun key hk => absurd hk (Multiset.notMem_zero key)

/-- The bins of a key that is not in the filter are empty. -/
theorem bin_empty (h : Exact sha1 keys bf log) (hk : key ∈ keys) (hout : key ∉ contents log)
    {j : Fin bf.m.toNat} (hj : 0 < hits sha1 bf.m bf.salts.toList key j) : bf.bins.get j = 0 := by
  have hsum := h.tallies.sum j
  have hzero : ((contents log).map (fun k => hits sha1 bf.m bf.salts.toList k j)).sum = 0 := by
    refine Multiset.sum_eq_zero ?_
    intro x hx
    obtain ⟨other, hother, rfl⟩ := Multiset.mem_map.mp hx
    have hne : other ≠ key := fun heq => hout (heq ▸ hother)
    rcases h.free.apart other (h.known other hother) key hk hne j with h0 | h0
    · exact h0
    · omega
  rw [hzero] at hsum
  exact UInt16.toNat_inj.mp hsum

/-- **A check tells whether the key is in the filter.** -/
theorem check (h : Exact sha1 keys bf log) (hk : key ∈ keys) :
    countingCheck sha1 bf key = some (if key ∈ contents log then 1 else 0) := by
  by_cases hin : key ∈ contents log
  · rw [if_pos hin]
    exact h.tallies.check hin
  · rw [if_neg hin]
    obtain ⟨j, hj⟩ := h.free.exists_hit hk
    have hloop := checkLoop_empty bf.salts.toList bf.bins 0 (h.free.range key hk)
      ⟨j, hj, h.bin_empty hk hin hj⟩
    simp [countingCheck, countingOperation, hloop]

/-- Adding a key that is not there. -/
theorem add (h : Exact sha1 keys bf log) (hk : key ∈ keys) (hout : key ∉ contents log) :
    ∃ bf', bf.step sha1 (.add key) = some bf' ∧ Exact sha1 keys bf' (log ++ [.add key]) := by
  have hroom : bf.NoWrap sha1 (.add key) := by
    refine ⟨h.free.range key hk, ?_⟩
    intro j
    have hone := h.free.single key hk j
    by_cases hj : 0 < hits sha1 bf.m bf.salts.toList key j
    · rw [h.bin_empty hk hout hj]
      show 0 + _ ≤ 65535
      omega
    · have := (bf.bins.get j).toNat_lt
      omega
  obtain ⟨bf', hstep, htallies⟩ := tallies_step bf (contents log) (.add key) h.tallies hroom
    (fun k hop => by simp at hop)
  obtain ⟨bins, n, rfl⟩ := step_shape hstep
  refine ⟨_, hstep, h.free, h.legal.snoc (fun k hop => by simp at hop), ?_, ?_, ?_⟩
  · rw [contents_snoc]
    exact htallies
  · rw [contents_snoc]
    exact Multiset.nodup_cons.mpr ⟨hout, h.nodup⟩
  · intro other hother
    rcases mem_contents_add.mp hother with rfl | hother
    · exact hk
    · exact h.known other hother

/-- Removing a key that is there. -/
theorem remove (h : Exact sha1 keys bf log) (hin : key ∈ contents log) :
    ∃ bf', bf.step sha1 (.remove key) = some bf' ∧
      Exact sha1 keys bf' (log ++ [.remove key]) := by
  have hheld : ∀ k, FilterOp.remove key = .remove k → k ∈ contents log := by
    intro k hop
    injection hop with hop
    exact hop ▸ hin
  obtain ⟨bf', hstep, htallies⟩ := tallies_step bf (contents log) (.remove key) h.tallies
    trivial hheld
  obtain ⟨bins, n, rfl⟩ := step_shape hstep
  refine ⟨_, hstep, h.free, h.legal.snoc ?_, ?_, ?_, ?_⟩
  · intro k hop
    exact (mem_contents_iff h.legal k).mp (hheld k hop)
  · rw [contents_snoc]
    exact htallies
  · rw [contents_snoc]
    exact h.nodup.erase key
  · intro other hother
    exact h.known other ((mem_contents_remove h.nodup).mp hother).2

/-- Removals never outnumber additions. -/
theorem count_le (h : Exact sha1 keys bf log) (key : Key) :
    log.count (.remove key) ≤ log.count (.add key) := by
  have := ledger_count log h.legal key
  omega

/-- After the removal of a key that is not there they do. -/
theorem count_lt (h : Exact sha1 keys bf log) (hout : key ∉ contents log) :
    (log ++ [FilterOp.remove key]).count (.add key) <
      (log ++ [FilterOp.remove key]).count (.remove key) := by
  have hno := mt (mem_contents_iff h.legal key).mpr hout
  have hle := h.count_le key
  rw [List.count_append, List.count_append, List.count_singleton, List.count_singleton]
  simp only [beq_iff_eq, reduceCtorEq, if_false, if_true]
  omega

end Exact

end Encoders.Bloom
