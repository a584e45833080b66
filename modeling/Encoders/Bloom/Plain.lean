import Encoders.Bloom.Merge

/-!
# Adding to a plain filter

The operation of `bloomfilter.c` that sets bins, and the filter a node keeps of itself. That one is
plain for every node but an application: `getBloomfilter` makes it so, and `setBloomfilter` makes a
plain filter of what it is given.

What is added is reported from then on, and so is all that was reported before. Nothing takes a key
out of a plain filter again.
-/

namespace Encoders.Bloom

/-- The loop of `bloomfilter_operation` over the salts that are left, for `BF_OP_ADD`. -/
def setLoop (sha1 : Digest) (m : UInt32) (key : Key) :
    List UInt32 → Vector UInt8 (m.toNat / 8) → Option (Vector UInt8 (m.toNat / 8))
  | [], filter => some filter
  | salt :: salts, filter => do
      let i ← index m (hash sha1 key salt)
      if h : i / 8 < m.toNat / 8 then
        setLoop sha1 m key salts (filter.set (i / 8) (filter[i.val / 8] ||| bitMask i))
      else none

/-- `bloomfilter_add` -/
def add (sha1 : Digest) (bf : Bloomfilter) (key : Key) : Option Bloomfilter :=
  (setLoop sha1 bf.m key bf.salts.toList bf.filter).map
    (fun filter => { bf with filter := filter, n := bf.n + 1 })

/-- The number of bins is one that `bloomfilter_new` can arrive at. -/
structure Geometry (m : UInt32) : Prop where
  pos : 0 < m.toNat
  le : m.toNat ≤ 2 ^ 31
  bytes : m.toNat % 8 = 0

section Loops

variable {sha1 : Digest} {m : UInt32} {key : Key}

/-- Every hash has a bin, and the bin is in the memory of the filter. -/
theorem Geometry.index (hm : Geometry m) (h : UInt32) :
    ∃ i, Bloom.index m h = some i ∧ i.val / 8 < m.toNat / 8 := by
  have hlt : h.toNat % m.toNat < m.toNat := Nat.mod_lt _ hm.pos
  refine ⟨⟨h.toNat % m.toNat, hlt⟩, ?_, ?_⟩
  · rw [Bloom.index, dif_pos hm.pos, if_pos (Nat.lt_of_lt_of_le hlt hm.le)]
  · have hbytes := hm.bytes
    show h.toNat % m.toNat / 8 < m.toNat / 8
    omega

/-- The loop comes through, clears no bin, and leaves all bins of the key set. -/
theorem setLoop_spec (hm : Geometry m) :
    ∀ (salts : List UInt32) (filter : Vector UInt8 (m.toNat / 8)),
      ∃ filter', setLoop sha1 m key salts filter = some filter' ∧
        (∀ t, testBin filter t = some true → testBin filter' t = some true) ∧
        checkLoop sha1 m key filter' salts = some 1
  | [], filter => ⟨filter, rfl, fun _ ht => ht, rfl⟩
  | salt :: salts, filter => by
      obtain ⟨i, hi, hbyte⟩ := hm.index (hash sha1 key salt)
      obtain ⟨filter', hloop, hkeep, hcheck⟩ :=
        setLoop_spec hm salts (filter.set (i.val / 8) (filter[i.val / 8] ||| bitMask i.val))
      have hset : ∀ t, testBin filter t = some true → testBin filter' t = some true := by
        intro t ht
        refine hkeep t ?_
        rw [testBin_set filter hbyte t]
        split
        · rfl
        · exact ht
      have hhere : testBin filter' i = some true := by
        refine hkeep i ?_
        rw [testBin_set filter hbyte i, if_pos rfl]
      refine ⟨filter', ?_, hset, ?_⟩
      · rw [setLoop, hi]
        simp only [Option.bind_eq_bind, Option.bind_some, dif_pos hbyte]
        exact hloop
      · rw [checkLoop, hi]
        simp only [Option.bind_eq_bind, Option.bind_some, hhere, if_true]
        exact hcheck

end Loops

/-! ## The filter of a node -/

/-- The filter a node keeps of itself. -/
structure NodeFilter where
  bf : Bloomfilter
  geometry : Geometry bf.m

namespace NodeFilter

variable (sha1 : Digest) (f : NodeFilter) (key : Key)

/-- `has` -/
def has : Bool := check sha1 f.bf key = some 1

/-- `add` -/
def add : NodeFilter where
  bf :=
    { f.bf with
      filter := (setLoop sha1 f.bf.m key f.bf.salts.toList f.bf.filter).getD f.bf.filter
      n := f.bf.n + 1 }
  geometry := f.geometry

/-- `add` is `bloomfilter_add`, which always comes through here. -/
theorem add_eq : Bloom.add sha1 f.bf key = some (f.add sha1 key).bf := by
  obtain ⟨filter', hloop, -⟩ :=
    @setLoop_spec sha1 f.bf.m key f.geometry f.bf.salts.toList f.bf.filter
  rw [Bloom.add, add, hloop]
  rfl

/-- What was added is reported. -/
theorem has_add_self : (f.add sha1 key).has sha1 key = true := by
  obtain ⟨filter', hloop, -, hcheck⟩ :=
    @setLoop_spec sha1 f.bf.m key f.geometry f.bf.salts.toList f.bf.filter
  rw [has, decide_eq_true_iff, add, hloop]
  exact hcheck

end NodeFilter

end Encoders.Bloom
