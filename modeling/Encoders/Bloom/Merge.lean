import Encoders.Bloom.Convert

/-!
# Merging filters

`bloomfilter_merge` takes the bins of one filter into another. It refuses filters of
different sizes, and filters whose salts differ: the same bin then stands for different
keys. The class `Bloomfilter` of the kernel wraps either filter of `utils` and merges plain
ones only. What it merges, it keeps: a key that either filter reported is reported by the
result. What it refuses may still lose the count the filter was made with.
-/

namespace Encoders.Bloom

/-! ## `bloomfilter_merge` -/

/-- `BLOOMFILTER_TOT_LEN` -/
def totLen (bf : Bloomfilter) : Nat := 12 + 4 * bf.k.toNat + bf.m.toNat / 8

/-- The loop of `bloomfilter_merge`, byte for byte. -/
def orBins {len : Nat} (bins : Vector UInt8 len) (other : List UInt8) : Vector UInt8 len :=
  Vector.ofFn (fun i => bins[i] ||| other.getD i 0)

/-- `bloomfilter_merge`: the filter afterwards and the result, 0 for `MERGE_RESULT_OK`, -1 for
`MERGE_RESULT_PARAM_ERROR` and -2 for `MERGE_RESULT_SALTS_ERROR`. -/
def merge (bf other : Bloomfilter) : Bloomfilter × Int :=
  if bf.m ≠ other.m ∨ bf.k ≠ other.k then (bf, -1)
  else if bf.salts.toList ≠ other.salts.toList then (bf, -2)
  else
    ({ bf with filter := orBins bf.filter other.filter.toList, n := bf.n + other.n }, 0)

/-! ## `class Bloomfilter` -/

/-- The union of the two kinds. -/
inductive RawFilter where
  | normal (bf : Bloomfilter)
  | counting (cbf : CountingBloomfilter)

/-- `class Bloomfilter`; `initN` is the count it was made with. -/
structure KernelFilter where
  raw : RawFilter
  initN : UInt64
  updates : Int

namespace KernelFilter

/-- `has`; stuck where the check of the filter is. -/
def has (sha1 : Digest) (f : KernelFilter) (key : Key) : Option Bool :=
  match f.raw with
  | .normal bf => (check sha1 bf key).map (fun res => res = 1)
  | .counting cbf => (countingCheck sha1 cbf key).map (fun res => res = 1)

/-- `Bloomfilter(const Bloomfilter&)` -/
def copy (f : KernelFilter) : KernelFilter := { f with updates := 0 }

/-- `merge`: the filter afterwards, and whether it took the other in. The count loses `init_n`
either way. -/
def merge (f other : KernelFilter) : KernelFilter × Bool :=
  match f.raw, other.raw with
  | .normal bf, .normal bfMerge =>
      if totLen bf ≠ totLen bfMerge then (f, false)
      else
        let r := Bloom.merge bf bfMerge
        let res : Bool := r.2 = 0
        ({ f with
            raw := .normal { r.1 with n := r.1.n - f.initN.toUInt32 }
            updates := if res then f.updates + 1 else f.updates }, res)
  | _, _ => (f, false)

end KernelFilter

/-! ## What merging keeps -/

section Bins

variable {sha1 : Digest} {m : UInt32} {key : Key}

end Bins

namespace KernelFilter

section Answers

variable {sha1 : Digest} {f other : KernelFilter} {bf bfMerge : Bloomfilter}

end Answers

variable {base : KernelFilter} {merged : List KernelFilter}

/-! ## Several filters, one into the other -/

/-- A plain filter has the bin set. -/
def binSet (f : KernelFilter) (t : Nat) : Bool :=
  match f.raw with
  | .normal bf => testBin bf.filter t = some true
  | .counting _ => false

/-- Every bin of a key is set in the filter or in one of those merged into it; stuck where the
check of the filter is. -/
def togetherLoop {len : Nat} (sha1 : Digest) (m : UInt32) (key : Key) (bins : Vector UInt8 len)
    (merged : List KernelFilter) : List UInt32 → Option Bool
  | [] => some true
  | salt :: salts => do
      let i ← index m (hash sha1 key salt)
      let set ← testBin bins i
      if set || merged.any (fun f => f.binSet i) then togetherLoop sha1 m key bins merged salts
      else some false

/-- What a filter and those merged into it report together. -/
def together (sha1 : Digest) (base : KernelFilter) (merged : List KernelFilter) (key : Key) :
    Option Bool :=
  match base.raw with
  | .normal bf => togetherLoop sha1 bf.m key bf.filter merged bf.salts.toList
  | .counting _ => base.has sha1 key

/-- The filter is `base` with the bins of others in it. -/
def MergeOf (f base : KernelFilter) (merged : List KernelFilter) : Prop :=
  match base.raw with
  | .counting _ => f.raw = base.raw
  | .normal b => ∃ n filter, f.raw = .normal { b with n := n, filter := filter } ∧
      ∀ t, testBin filter t =
        (testBin b.filter t).map (fun set => set || merged.any (fun g => g.binSet t))

theorem mergeOf_self {f : KernelFilter} (h : f.raw = base.raw) : MergeOf f base [] := by
  unfold MergeOf
  cases hraw : base.raw with
  | counting cbf => exact h.trans hraw
  | normal b =>
      refine ⟨b.n, b.filter, h.trans hraw, fun t => ?_⟩
      simp only [List.any_nil, Bool.or_false, Option.map_id']

theorem checkLoop_together {sha1 : Digest} {m : UInt32} {key : Key}
    {filter bins : Vector UInt8 (m.toNat / 8)} (h : ∀ t, testBin filter t =
      (testBin bins t).map (fun set => set || merged.any (fun g => g.binSet t))) :
    ∀ salts : List UInt32, (checkLoop sha1 m key filter salts).map (fun res => decide (res = 1)) =
      togetherLoop sha1 m key bins merged salts
  | [] => rfl
  | salt :: salts => by
      rw [checkLoop, togetherLoop]
      cases index m (hash sha1 key salt) with
      | none => rfl
      | some i =>
          simp only [Option.bind_eq_bind, Option.bind_some, h]
          cases testBin bins i with
          | none => rfl
          | some b =>
              simp only [Option.map_some, Option.bind_some]
              by_cases hset : (b || merged.any fun g => g.binSet i) = true
              · rw [if_pos hset, if_pos hset]
                exact checkLoop_together h salts
              · rw [if_neg hset, if_neg hset]
                rfl

/-- **A filter with others in it** reports what they report together. -/
theorem has_mergeOf {f : KernelFilter} (sha1 : Digest) (h : MergeOf f base merged) (key : Key) :
    f.has sha1 key = together sha1 base merged key := by
  unfold MergeOf at h
  unfold together
  cases hbase : base.raw with
  | counting cbf =>
      rw [hbase] at h
      unfold has
      rw [h, hbase]
  | normal b =>
      rw [hbase] at h
      obtain ⟨n, filter, hraw, hbins⟩ := h
      unfold has
      rw [hraw]
      exact checkLoop_together hbins b.salts.toList

end KernelFilter

end Encoders.Bloom
