import Mathlib.Data.Nat.Bitwise

/-!
# The two Bloom filters

`utils/bloomfilter.c` keeps one bit per bin and packs eight of them in a byte;
`utils/counting_bloomfilter.c` keeps a 16-bit counter per bin. Both are one block
of memory: a header `k`, `m`, `n`, then `k` salts, then the bins. The structures
below carry the two lengths in their types, so that a filter whose header
disagrees with its contents cannot be written down.

Both hash a key the same way: for each salt, the five words of the SHA-1 digest
of key and salt are combined by exclusive or and taken modulo `m`. The digest is
a parameter. The bin index is then a C `int`; for `m` above `2 ^ 31` it can come
out negative, and the access falls outside the filter. Functions that make such
an access, or divide by `m = 0`, are stuck and return `none`.
-/

namespace Encoders.Bloom

/-- A key, as the bytes handed to the filter. -/
abbrev Key := List UInt8

/-- SHA-1, as the five words of its digest. -/
abbrev Digest := List UInt8 → Vector UInt32 5

/-! ## Hashing -/

/-- A salt as it lies in memory, least significant byte first. -/
def saltBytes (salt : UInt32) : List UInt8 :=
  [salt.toUInt8, (salt >>> 8).toUInt8, (salt >>> 16).toUInt8, (salt >>> 24).toUInt8]

/-- `hash ^= md[j]` over the digest of the salted key. -/
def hash (sha1 : Digest) (key : Key) (salt : UInt32) : UInt32 :=
  (sha1 (key ++ saltBytes salt)).foldl (fun h w => h ^^^ w) 0

/-- `index = hash % m`, an `int`: negative from `2 ^ 31` on. -/
def index (m h : UInt32) : Option (Fin m.toNat) :=
  if hm : 0 < m.toNat then
    if h.toNat % m.toNat < 2 ^ 31 then some ⟨h.toNat % m.toNat, Nat.mod_lt _ hm⟩ else none
  else none

/-! ## The counting filter -/

/-- `struct counting_bloomfilter` with what follows it in memory. -/
structure CountingBloomfilter where
  k : UInt32
  m : UInt32
  n : UInt32
  salts : Vector UInt32 k.toNat
  bins : Vector UInt16 m.toNat

/-- `enum counting_bf_op` -/
inductive CountingOp where
  | check
  | add
  | remove
deriving DecidableEq, Repr

/--
The loop of `counting_bloomfilter_operation` over the salts that are left. The
flag is false when the loop was left by `goto out`; `removed` is an
`unsigned short`.
-/
def operationLoop (sha1 : Digest) (m : UInt32) (key : Key) (op : CountingOp) :
    List UInt32 → Vector UInt16 m.toNat → UInt16 →
      Option (Bool × Vector UInt16 m.toNat × UInt16)
  | [], bins, removed => some (true, bins, removed)
  | salt :: salts, bins, removed => do
      let i ← index m (hash sha1 key salt)
      match op with
      | .check =>
          if bins[i] = 0 then some (false, bins, removed)
          else operationLoop sha1 m key op salts bins removed
      | .add => operationLoop sha1 m key op salts (bins.set i (bins[i] + 1)) removed
      | .remove =>
          if 0 < bins[i] then
            operationLoop sha1 m key op salts (bins.set i (bins[i] - 1)) (removed + 1)
          else operationLoop sha1 m key op salts bins removed

/-- `counting_bloomfilter_operation`: the filter afterwards, and `res`. -/
def countingOperation (sha1 : Digest) (bf : CountingBloomfilter) (key : Key) (op : CountingOp) :
    Option (CountingBloomfilter × Int) := do
  let (done, bins, removed) ← operationLoop sha1 bf.m key op bf.salts.toList bf.bins 0
  if done then
    match op with
    | .check => some ({ bf with bins := bins }, 1)
    | .add => some ({ bf with bins := bins, n := bf.n + 1 }, 1)
    | .remove =>
        some ({ bf with bins := bins, n := if 0 < removed then bf.n - 1 else bf.n }, 1)
  else some ({ bf with bins := bins }, 0)

/-- `counting_bloomfilter_check` -/
def countingCheck (sha1 : Digest) (bf : CountingBloomfilter) (key : Key) : Option Int :=
  (countingOperation sha1 bf key .check).map Prod.snd

/-- `counting_bloomfilter_add` -/
def countingAdd (sha1 : Digest) (bf : CountingBloomfilter) (key : Key) :
    Option CountingBloomfilter :=
  (countingOperation sha1 bf key .add).map Prod.fst

/-- `counting_bloomfilter_remove` -/
def countingRemove (sha1 : Digest) (bf : CountingBloomfilter) (key : Key) :
    Option CountingBloomfilter :=
  (countingOperation sha1 bf key .remove).map Prod.fst

/-! ## The plain filter -/

/-- `struct bloomfilter` with what follows it: `m / 8` bytes of bins. -/
structure Bloomfilter where
  k : UInt32
  m : UInt32
  n : UInt32
  salts : Vector UInt32 k.toNat
  filter : Vector UInt8 (m.toNat / 8)
deriving DecidableEq

/-- `1 << (i % 8)`, as the byte it is combined with. -/
def bitMask (i : Nat) : UInt8 := 1 <<< UInt8.ofNat (i % 8)

/-- `BLOOMFILTER_GET_FILTER(bf)[i / 8] & (1 << (i % 8))`, stuck behind the last byte. -/
def testBin {len : Nat} (filter : Vector UInt8 len) (i : Nat) : Option Bool :=
  (filter[i / 8]?).map (fun b => b &&& bitMask i ≠ 0)

/-- The check loop of `bloomfilter_operation`. -/
def checkLoop (sha1 : Digest) (m : UInt32) (key : Key) (filter : Vector UInt8 (m.toNat / 8)) :
    List UInt32 → Option Int
  | [] => some 1
  | salt :: salts => do
      let i ← index m (hash sha1 key salt)
      let set ← testBin filter i
      if set then checkLoop sha1 m key filter salts else some 0

/-- `bloomfilter_check` -/
def check (sha1 : Digest) (bf : Bloomfilter) (key : Key) : Option Int :=
  checkLoop sha1 bf.m key bf.filter bf.salts.toList

/-! ## Geometry -/

end Encoders.Bloom
