import Mathlib.Algebra.BigOperators.Group.Multiset.Basic
import Encoders.Lib.Run
import Encoders.Bloom.Filter

/-!
# The counting filter has no false negatives while no counter wraps

A bin is shared: several of the `k` hashes of one key can fall on it, and so can
those of other keys. The invariant says that a bin counts every such hash of every
key that is in the filter, with multiplicity. As long as it holds, removing a key
finds all its counters positive, and so does a check.

Counters have 16 bits and `bins[index]++` does not look. An addition that takes a
counter past 65535 makes it start again at zero, and then the filter forgets keys
it holds. `NoWrap` excludes exactly that step.
-/

namespace Encoders.Bloom

open Encoders.Lib

/-- The operations a client of the filter makes. -/
inductive FilterOp where
  | add (key : Key)
  | remove (key : Key)
deriving DecidableEq

/-- One operation. -/
def CountingBloomfilter.step (sha1 : Digest) (bf : CountingBloomfilter) :
    FilterOp → Option CountingBloomfilter
  | .add key => countingAdd sha1 bf key
  | .remove key => countingRemove sha1 bf key

/-- The number of salts under which `key` falls on bin `j`. -/
def hits (sha1 : Digest) (m : UInt32) (salts : List UInt32) (key : Key) (j : Fin m.toNat) : Nat :=
  salts.countP (fun salt => index m (hash sha1 key salt) = some j)

/-- Every hash of the key is a bin of the filter. -/
def InRange (sha1 : Digest) (m : UInt32) (salts : List UInt32) (key : Key) : Prop :=
  ∀ salt ∈ salts, (index m (hash sha1 key salt)).isSome

/-- Adding a key takes no counter past 65535. -/
def CountingBloomfilter.NoWrap (sha1 : Digest) (bf : CountingBloomfilter) : FilterOp → Prop
  | .add key =>
      InRange sha1 bf.m bf.salts.toList key ∧
        ∀ j : Fin bf.m.toNat, (bf.bins.get j).toNat + hits sha1 bf.m bf.salts.toList key j ≤ 65535
  | .remove _ => True

instance (sha1 : Digest) (m : UInt32) (salts : List UInt32) (key : Key) :
    Decidable (InRange sha1 m salts key) :=
  List.decidableBAll _ salts

instance (sha1 : Digest) (bf : CountingBloomfilter) (op : FilterOp) :
    Decidable (bf.NoWrap sha1 op) :=
  match op with
  | .add _ => @instDecidableAnd _ _ _ (Nat.decidableForallFin _)
  | .remove _ => isTrue trivial

/-! ## One operation -/

section Loop

variable {sha1 : Digest} {m : UInt32} {key : Key}

theorem hits_cons {salt : UInt32} {salts : List UInt32} {i : Fin m.toNat}
    (hi : index m (hash sha1 key salt) = some i) (j : Fin m.toNat) :
    hits sha1 m (salt :: salts) key j = hits sha1 m salts key j + if i = j then 1 else 0 := by
  simp only [hits, List.countP_cons, hi, Option.some.injEq, decide_eq_true_eq]

theorem toNat_set {bins : Vector UInt16 m.toNat} (i j : Fin m.toNat) (v : UInt16) :
    ((bins.set i v i.isLt).get j).toNat = if i = j then v.toNat else (bins.get j).toNat := by
  have hget : (bins.set i v i.isLt).get j = if i.val = j.val then v else bins.get j :=
    Vector.getElem_set i.isLt j.isLt
  rw [hget]
  by_cases h : i = j
  · rw [if_pos h, if_pos (congrArg Fin.val h)]
  · rw [if_neg h, if_neg (fun hv => h (Fin.ext hv))]

/-- Adding counts every hash of the key. -/
theorem addLoop_spec : ∀ (salts : List UInt32) (bins : Vector UInt16 m.toNat) (removed : UInt16),
    InRange sha1 m salts key →
    (∀ j : Fin m.toNat, (bins.get j).toNat + hits sha1 m salts key j ≤ 65535) →
    ∃ bins', operationLoop sha1 m key .add salts bins removed = some (true, bins', removed) ∧
      ∀ j : Fin m.toNat, (bins'.get j).toNat = (bins.get j).toNat + hits sha1 m salts key j
  | [], bins, removed, _, _ => ⟨bins, rfl, fun j => rfl⟩
  | salt :: salts, bins, removed, hr, hle => by
      obtain ⟨i, hi⟩ := Option.isSome_iff_exists.mp (hr salt (by simp))
      have hinc : (bins.get i + 1).toNat = (bins.get i).toNat + 1 := by
        have := hle i
        rw [hits_cons hi, if_pos rfl] at this
        rw [UInt16.toNat_add, UInt16.toNat_one, Nat.mod_eq_of_lt (by omega)]
      have hset : ∀ j : Fin m.toNat, ((bins.set i (bins.get i + 1) i.isLt).get j).toNat =
          (bins.get j).toNat + if i = j then 1 else 0 := by
        intro j
        rw [toNat_set]
        split
        · next h => rw [hinc, h]
        · rfl
      obtain ⟨bins', hrun, hbins⟩ := addLoop_spec salts (bins.set i (bins.get i + 1) i.isLt) removed
        (fun s hs => hr s (by simp [hs]))
        (fun j => by have := hle j; rw [hits_cons hi] at this; rw [hset j]; omega)
      refine ⟨bins', ?_, ?_⟩
      · rw [operationLoop, hi]; exact hrun
      · intro j
        rw [hbins j, hset j, hits_cons hi]; omega

/-- Removing finds every counter positive if it counted the key's hashes. -/
theorem removeLoop_spec :
    ∀ (salts : List UInt32) (bins : Vector UInt16 m.toNat) (removed : UInt16),
    InRange sha1 m salts key →
    (∀ j : Fin m.toNat, hits sha1 m salts key j ≤ (bins.get j).toNat) →
    ∃ bins' removed',
      operationLoop sha1 m key .remove salts bins removed = some (true, bins', removed') ∧
      ∀ j : Fin m.toNat, (bins'.get j).toNat + hits sha1 m salts key j = (bins.get j).toNat
  | [], bins, removed, _, _ => ⟨bins, removed, rfl, fun j => rfl⟩
  | salt :: salts, bins, removed, hr, hle => by
      obtain ⟨i, hi⟩ := Option.isSome_iff_exists.mp (hr salt (by simp))
      -- the counter has room for this hash, and the later ones are still covered
      have hpos : 0 < (bins.get i).toNat := by
        have := hle i
        rw [hits_cons hi, if_pos rfl] at this
        omega
      have hdec : (bins.get i - 1).toNat = (bins.get i).toNat - 1 :=
        UInt16.toNat_sub_of_le _ _ (UInt16.le_iff_toNat_le.mpr hpos)
      have hset : ∀ j : Fin m.toNat, ((bins.set i (bins.get i - 1) i.isLt).get j).toNat =
          (bins.get j).toNat - if i = j then 1 else 0 := by
        intro j
        rw [toNat_set]
        split
        · next h => rw [hdec, h]
        · rfl
      obtain ⟨bins', removed', hrun, hbins⟩ := removeLoop_spec salts
        (bins.set i (bins.get i - 1) i.isLt) (removed + 1) (fun s hs => hr s (by simp [hs]))
        (fun j => by have := hle j; rw [hits_cons hi] at this; rw [hset j]; omega)
      refine ⟨bins', removed', ?_, ?_⟩
      · rw [operationLoop, hi]
        simp only [Option.bind_eq_bind, Option.bind_some]
        rw [if_pos (show 0 < bins[i] from UInt16.lt_iff_toNat_lt.mpr hpos)]
        exact hrun
      · intro j
        have h1 := hbins j
        have h2 := hle j
        rw [hset j] at h1
        rw [hits_cons hi] at h2 ⊢
        omega

/-- A check passes when every bin the key falls on is positive. -/
theorem checkLoop_positive :
    ∀ (salts : List UInt32) (bins : Vector UInt16 m.toNat) (removed : UInt16),
    InRange sha1 m salts key →
    (∀ j : Fin m.toNat, hits sha1 m salts key j ≤ (bins.get j).toNat) →
    operationLoop sha1 m key .check salts bins removed = some (true, bins, removed)
  | [], _, _, _, _ => rfl
  | salt :: salts, bins, removed, hr, hle => by
      obtain ⟨i, hi⟩ := Option.isSome_iff_exists.mp (hr salt (by simp))
      have hpos : bins.get i ≠ 0 := by
        intro h0
        have := hle i
        rw [hits_cons hi, if_pos rfl, h0] at this
        simp at this
      rw [operationLoop, hi]
      simp only [Option.bind_eq_bind, Option.bind_some]
      rw [if_neg (show ¬ bins[i] = 0 from hpos)]
      refine checkLoop_positive salts bins removed (fun s hs => hr s (by simp [hs])) ?_
      intro j
      have := hle j
      rw [hits_cons hi] at this
      omega

end Loop

variable {bf : CountingBloomfilter}

/-! ## The invariant -/

/-- The keys in the filter, with multiplicity. -/
def ledger (held : Multiset Key) : FilterOp → Multiset Key
  | .add key => key ::ₘ held
  | .remove key => held.erase key

/-- Each bin counts the hashes that fall on it, over all keys held. -/
structure Tallies (sha1 : Digest) (bf : CountingBloomfilter) (held : Multiset Key) : Prop where
  range : ∀ key ∈ held, InRange sha1 bf.m bf.salts.toList key
  sum : ∀ j : Fin bf.m.toNat,
    (bf.bins.get j).toNat = (held.map (fun key => hits sha1 bf.m bf.salts.toList key j)).sum

theorem Tallies.hits_le {sha1 : Digest} {held : Multiset Key} (h : Tallies sha1 bf held) {key : Key}
    (hk : key ∈ held) (j : Fin bf.m.toNat) :
    hits sha1 bf.m bf.salts.toList key j ≤ (bf.bins.get j).toNat := by
  rw [h.sum j, ← Multiset.cons_erase hk, Multiset.map_cons, Multiset.sum_cons]
  omega

/-- One operation keeps the tally. -/
theorem tallies_step {sha1 : Digest} (bf : CountingBloomfilter) (held : Multiset Key)
    (op : FilterOp) (h : Tallies sha1 bf held) (hok : bf.NoWrap sha1 op)
    (hheld : ∀ key, op = .remove key → key ∈ held) :
    ∃ bf', bf.step sha1 op = some bf' ∧ Tallies sha1 bf' (ledger held op) := by
  cases op with
  | add key =>
      obtain ⟨bins', hrun, hbins⟩ := addLoop_spec bf.salts.toList bf.bins 0 hok.1 hok.2
      refine ⟨{ bf with bins := bins', n := bf.n + 1 }, ?_, ?_, ?_⟩
      · simp only [CountingBloomfilter.step, countingAdd, countingOperation, hrun,
          Option.bind_eq_bind, Option.bind_some, if_true, Option.map_some]
      · intro key' hk'
        rcases Multiset.mem_cons.mp hk' with rfl | hk'
        · exact hok.1
        · exact h.range key' hk'
      · intro j
        simp only [ledger, Multiset.map_cons, Multiset.sum_cons]
        rw [hbins j, h.sum j, Nat.add_comm]
  | remove key =>
      -- the key is held, so that each of its hashes has been counted
      have hk := hheld key rfl
      obtain ⟨bins', removed', hrun, hbins⟩ := removeLoop_spec bf.salts.toList bf.bins 0
        (h.range key hk) (h.hits_le hk)
      refine ⟨{ bf with bins := bins', n := if 0 < removed' then bf.n - 1 else bf.n }, ?_, ?_, ?_⟩
      · simp only [CountingBloomfilter.step, countingRemove, countingOperation, hrun,
          Option.bind_eq_bind, Option.bind_some, if_true, Option.map_some]
      · intro key' hk'
        exact h.range key' (Multiset.mem_of_mem_erase hk')
      · intro j
        have hsum := h.sum j
        rw [← Multiset.cons_erase hk, Multiset.map_cons, Multiset.sum_cons] at hsum
        have := hbins j
        simp only [ledger]
        omega

theorem Tallies.check {sha1 : Digest} {held : Multiset Key} (h : Tallies sha1 bf held) {key : Key}
    (hk : key ∈ held) : countingCheck sha1 bf key = some 1 := by
  simp only [countingCheck, countingOperation,
    checkLoop_positive bf.salts.toList bf.bins 0 (h.range key hk) (h.hits_le hk),
    Option.bind_eq_bind, Option.bind_some, if_true, Option.map_some]

/-! ## Whole runs -/

/-- Each remove is of a key whose adds so far outnumber its removes. -/
def Legal (ops : List FilterOp) : Prop :=
  ∀ pre key post, ops = pre ++ .remove key :: post →
    pre.count (.remove key) < pre.count (.add key)

theorem Legal.left {xs ys : List FilterOp} (h : Legal (xs ++ ys)) : Legal xs := by
  intro pre key post heq
  refine h pre key (post ++ ys) ?_
  rw [heq, List.append_assoc, List.cons_append]

/-- In a legal run the ledger is what adds minus removes say. -/
theorem ledger_count (ops : List FilterOp) (h : Legal ops) (key : Key) :
    (ops.foldl ledger 0).count key + ops.count (.remove key) = ops.count (.add key) := by
  induction ops using List.reverseRecOn with
  | nil => rfl
  | append_singleton pre op ih =>
      have ihp := ih h.left
      rw [List.foldl_append, List.count_append, List.count_append]
      cases op with
      | add key' =>
          simp only [List.foldl_cons, List.foldl_nil, ledger, Multiset.count_cons,
            List.count_singleton, beq_iff_eq, reduceCtorEq, if_false, FilterOp.add.injEq]
          by_cases hk : key' = key
          · subst hk; simp only [if_true]; omega
          · simp only [hk, Ne.symm hk, if_false]; omega
      | remove key' =>
          simp only [List.foldl_cons, List.foldl_nil, ledger, List.count_singleton, beq_iff_eq,
            reduceCtorEq, if_false, FilterOp.remove.injEq]
          by_cases hk : key' = key
          · subst hk
            have hlt := h pre key' [] rfl
            rw [Multiset.count_erase_self, if_pos rfl]; omega
          · rw [Multiset.count_erase_of_ne (Ne.symm hk), if_neg hk]; omega

/-- Counters all zero: a filter as it is made. -/
def CountingBloomfilter.Fresh (bf : CountingBloomfilter) : Prop :=
  ∀ j : Fin bf.m.toNat, bf.bins.get j = 0

instance (bf : CountingBloomfilter) : Decidable bf.Fresh :=
  Nat.decidableForallFin _

/--
**No false negatives.** In every legal run that takes no counter past its limit,
the filter afterwards reports every key that was added more often than removed.
-/
theorem counting_no_false_negative (sha1 : Digest) (bf : CountingBloomfilter) (hbf : bf.Fresh)
    (ops : List FilterOp) (hlegal : Legal ops)
    (hok : Guarded (CountingBloomfilter.step sha1) (CountingBloomfilter.NoWrap sha1) bf ops) :
    ∃ bf', run (CountingBloomfilter.step sha1) bf ops = some bf' ∧
      ∀ key, ops.count (.remove key) < ops.count (.add key) →
        countingCheck sha1 bf' key = some 1 := by
  have hinit : Tallies sha1 bf 0 := by
    refine ⟨fun key hk => absurd hk (Multiset.notMem_zero key), ?_⟩
    intro j
    rw [hbf j, Multiset.map_zero, Multiset.sum_zero]; rfl
  have hheld : Guarded (fun a op => some (ledger a op))
      (fun a op => ∀ key, op = .remove key → key ∈ a) 0 ops := by
    refine (guarded_iff _ _ ops 0).mpr ?_
    intro pre op post heq a ha key hop
    rw [run_total, Option.some.injEq] at ha
    subst ha hop
    have hlt := hlegal pre key post heq
    have hcount := ledger_count pre (Legal.left (heq ▸ hlegal)) key
    exact Multiset.count_pos.mp (by omega)
  obtain ⟨bf', hrun, ht⟩ := run_simulates_guarded (@tallies_step sha1) ops bf 0 hinit
    hok hheld
  refine ⟨bf', hrun, ?_⟩
  intro key hlt
  have hcount := ledger_count ops hlegal key
  exact ht.check (Multiset.count_pos.mp (by omega))

/-! ## The limit is real -/

/-- A digest that sends everything to bin zero. -/
def flatDigest : Digest := fun _ => Vector.replicate 5 0

/-- One hash function and eight bins, the first of which has been hit. -/
def tinyFilter (count : UInt16) (n : UInt32) : CountingBloomfilter :=
  ⟨1, 8, n, #v[0], #v[count, 0, 0, 0, 0, 0, 0, 0]⟩

theorem tinyFilter_add (count : UInt16) (n : UInt32) :
    (tinyFilter count n).step flatDigest (.add []) = some (tinyFilter (count + 1) (n + 1)) := by
  have hidx : index 8 (hash flatDigest [] 0) = some ⟨0, by decide⟩ := by decide
  simp only [CountingBloomfilter.step, countingAdd, countingOperation, tinyFilter,
    Vector.toList_mk, operationLoop, hidx]
  rfl

theorem run_tinyFilter : ∀ t : Nat,
    run (CountingBloomfilter.step flatDigest) (tinyFilter 0 0) (List.replicate t (.add [])) =
      some (tinyFilter (UInt16.ofNat t) (UInt32.ofNat t))
  | 0 => rfl
  | t + 1 => by
      rw [List.replicate_succ', run_append, run_tinyFilter t, Option.bind_some, run,
        tinyFilter_add, Option.bind_some, run, UInt16.ofNat_add, UInt32.ofNat_add]
      rfl

/-- A run below the limit: two adds, one remove, and the key is still there. -/
theorem counting_no_false_negative_tiny :
    ∃ bf', run (CountingBloomfilter.step flatDigest) (tinyFilter 0 0)
        [.add [1], .add [1], .remove [1]] = some bf' ∧
      ∀ key, [FilterOp.add [1], .add [1], .remove [1]].count (.remove key) <
          [FilterOp.add [1], .add [1], .remove [1]].count (.add key) →
        countingCheck flatDigest bf' key = some 1 := by
  refine counting_no_false_negative flatDigest (tinyFilter 0 0) (by decide) _ ?_
    (by decide +kernel)
  rintro pre key post heq
  rcases pre with _ | ⟨a, _ | ⟨b, _ | ⟨c, pre⟩⟩⟩
  · simp at heq
  · simp at heq
  · simp only [List.cons_append, List.nil_append, List.cons.injEq] at heq
    obtain ⟨rfl, rfl, hkey, -⟩ := heq
    injection hkey with hkey
    subst hkey
    decide
  · simp at heq

/--
After 65536 additions of one key and no removal its counter is zero again, and
the filter denies the key.
-/
theorem counting_false_negative_after_wrap :
    ¬ ∃ bf', run (CountingBloomfilter.step flatDigest) (tinyFilter 0 0)
        (List.replicate 65536 (.add [])) = some bf' ∧
      ∀ key, (List.replicate 65536 (FilterOp.add [])).count (.remove key) <
          (List.replicate 65536 (FilterOp.add [])).count (.add key) →
        countingCheck flatDigest bf' key = some 1 := by
  rintro ⟨bf', hrun, hcheck⟩
  rw [run_tinyFilter, Option.some.injEq] at hrun
  have h1 := hcheck [] (by rw [List.count_replicate, List.count_replicate]; decide)
  rw [← hrun] at h1
  have h0 : countingCheck flatDigest (tinyFilter (UInt16.ofNat 65536) (UInt32.ofNat 65536)) [] =
      some 0 := by decide +kernel
  rw [h0] at h1
  exact absurd h1 (by decide)

end Encoders.Bloom
