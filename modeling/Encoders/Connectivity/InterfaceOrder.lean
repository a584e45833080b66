import Encoders.Lib.Lexicographic
import Encoders.Connectivity.InterfaceStore

/-!
# The order of interfaces

`operator==` and `operator<` of `Interface.cpp`. An interface has a pointer to its identifier and
a length, and both operators give `memcmp` the length of the first one. Behind a shorter
identifier `memcmp` reads what happens to be there.

`operator==` looks at the lengths before. `operator<` only asks whether the first one is shorter:
if it is longer it goes on to compare bytes, and may find it less as well. It is a strict total
order of a set of interfaces exactly when that never happens (`less_strictTotal_iff`).
-/

namespace Encoders.Connectivity

open Encoders.Lib

/-- The number of a type in the enumeration. -/
def InterfaceType.value : InterfaceType → Nat
  | undefined => 0
  | applicationPort => 1
  | applicationLocal => 2
  | ethernet => 3
  | wifi => 4
  | bluetooth => 5
  | media => 6

theorem InterfaceType.value_injective : Function.Injective InterfaceType.value := by
  intro a b h
  cases a <;> cases b <;> first | rfl | cases h

/-- What the operators read of an interface: `identifier` is the bytes from the pointer on. -/
structure InterfaceMemory where
  type : InterfaceType
  identifier : Nat → UInt8
  identifierLen : Nat

namespace InterfaceMemory

variable {i1 i2 : InterfaceMemory}
variable {S : Set InterfaceMemory}

/-- The type and the raw identifier. -/
def key (i : InterfaceMemory) : InterfaceKey :=
  ⟨i.type, (List.range i.identifierLen).map i.identifier⟩

/-- So many bytes from the pointer on, as `memcmp` compares them. -/
def bytes (i : InterfaceMemory) (n : Nat) : List Nat :=
  (List.range' 0 n).map (fun k => (i.identifier k).toNat)

/-- `memcmp(i1.identifier, i2.identifier, n)` -/
def compareBytes (i1 i2 : InterfaceMemory) (n : Nat) : Ordering :=
  memcmp (fun k => (i1.identifier k).toNat) (fun k => (i2.identifier k).toNat) n 0

/-- `operator==` -/
def equals (i1 i2 : InterfaceMemory) : Bool :=
  if i1.type ≠ i2.type ∨ i1.identifierLen ≠ i2.identifierLen then false
  else compareBytes i1 i2 i1.identifierLen = .eq

/-- `operator<` -/
def less (i1 i2 : InterfaceMemory) : Bool :=
  if i1.type.value < i2.type.value then true
  else if i2.type.value < i1.type.value then false
  else if i1.identifierLen < i2.identifierLen then true
  else compareBytes i1 i2 i1.identifierLen = .lt

/-! ## What the operators compare -/

theorem compareBytes_lt_iff {n : Nat} :
    compareBytes i1 i2 n = .lt ↔ i1.bytes n < i2.bytes n := memcmp_lt_iff

theorem compareBytes_eq_iff {n : Nat} :
    compareBytes i1 i2 n = .eq ↔ i1.bytes n = i2.bytes n := memcmp_eq_iff

theorem bytes_eq_iff {n : Nat} : i1.bytes n = i2.bytes n ↔
    (List.range n).map i1.identifier = (List.range n).map i2.identifier := by
  have hmap : ∀ i : InterfaceMemory,
      i.bytes n = ((List.range n).map i.identifier).map UInt8.toNat := by
    intro i
    rw [List.map_map, List.range_eq_range']
    rfl
  rw [hmap, hmap]
  exact (List.map_injective_iff.mpr (fun _ _ => UInt8.toNat.inj)).eq_iff

theorem equals_iff : i1.equals i2 = true ↔
    i1.type = i2.type ∧ i1.identifierLen = i2.identifierLen ∧
      i1.bytes i1.identifierLen = i2.bytes i1.identifierLen := by
  unfold equals
  by_cases hne : i1.type ≠ i2.type ∨ i1.identifierLen ≠ i2.identifierLen
  · rw [if_pos hne]
    refine iff_of_false Bool.false_ne_true ?_
    rintro ⟨htype, hlen, -⟩
    exact hne.elim (fun h => h htype) (fun h => h hlen)
  · obtain ⟨htype, hlen⟩ := not_or.mp hne
    rw [if_neg hne, decide_eq_true_iff, compareBytes_eq_iff]
    exact ⟨fun h => ⟨not_not.mp htype, not_not.mp hlen, h⟩, fun h => h.2.2⟩

/-- **Interfaces are equal** when they have one type and one identifier. -/
theorem equals_iff_key : i1.equals i2 = true ↔ i1.key = i2.key := by
  rw [equals_iff, bytes_eq_iff, key, key, InterfaceKey.mk.injEq]
  refine and_congr_right (fun _ => ⟨?_, fun h => ?_⟩)
  · rintro ⟨hlen, hbytes⟩
    rw [← hlen]
    exact hbytes
  · have hlen : i1.identifierLen = i2.identifierLen := by
      have hlength := congrArg List.length h
      rw [List.length_map, List.length_map, List.length_range, List.length_range] at hlength
      exact hlength
    exact ⟨hlen, by rw [h, hlen]⟩

/-- An interface is less by its type, or by its length, or by its bytes unless it is shorter. -/
theorem less_iff : i1.less i2 = true ↔
    i1.type.value < i2.type.value ∨ i1.type = i2.type ∧ (i1.identifierLen < i2.identifierLen ∨
      i2.identifierLen ≤ i1.identifierLen ∧
        i1.bytes i1.identifierLen < i2.bytes i1.identifierLen) := by
  unfold less
  rcases Nat.lt_trichotomy i1.type.value i2.type.value with hlt | heq | hgt
  · rw [if_pos hlt]
    exact iff_of_true rfl (Or.inl hlt)
  · rw [if_neg (Nat.not_lt.mpr (Nat.le_of_eq heq.symm)),
      if_neg (Nat.not_lt.mpr (Nat.le_of_eq heq)),
      or_iff_right (Nat.not_lt.mpr (Nat.le_of_eq heq.symm)),
      and_iff_right (InterfaceType.value_injective heq)]
    by_cases hlen : i1.identifierLen < i2.identifierLen
    · rw [if_pos hlen]
      exact iff_of_true rfl (Or.inl hlen)
    · rw [if_neg hlen, or_iff_right hlen, and_iff_right (Nat.not_lt.mp hlen), decide_eq_true_iff,
        compareBytes_lt_iff]
  · rw [if_neg (Nat.lt_asymm hgt), if_pos hgt]
    refine iff_of_false Bool.false_ne_true ?_
    rintro (hlt | ⟨heq, -⟩)
    · exact Nat.lt_asymm hlt hgt
    · exact Nat.ne_of_gt hgt (congrArg InterfaceType.value heq)

/-! ## When `operator<` is an order -/

/-- By type, then by length, then by the bytes of the identifier. -/
def orderKey (i : InterfaceMemory) : ℕ ×ₗ ℕ ×ₗ List ℕ :=
  toLex (i.type.value, toLex (i.identifierLen, i.bytes i.identifierLen))

/--
No interface has an identifier that is longer than another one of its type and comes before what
is read there.
-/
def LongerNotBefore (S : Set InterfaceMemory) : Prop :=
  ∀ i1 ∈ S, ∀ i2 ∈ S, i1.type = i2.type → i2.identifierLen < i1.identifierLen →
    ¬ i1.bytes i1.identifierLen < i2.bytes i1.identifierLen

theorem equals_iff_orderKey : i1.equals i2 = true ↔ i1.orderKey = i2.orderKey := by
  rw [equals_iff, orderKey, orderKey, toLex.injective.eq_iff, Prod.mk.injEq,
    toLex.injective.eq_iff, Prod.mk.injEq, InterfaceType.value_injective.eq_iff]
  refine and_congr_right (fun _ => and_congr_right (fun hlen => ?_))
  rw [hlen]

theorem less_iff_orderKey (h : LongerNotBefore S) (h1 : i1 ∈ S) (h2 : i2 ∈ S) :
    i1.less i2 = true ↔ i1.orderKey < i2.orderKey := by
  rw [less_iff, orderKey, orderKey, Prod.Lex.toLex_lt_toLex, Prod.Lex.toLex_lt_toLex,
    InterfaceType.value_injective.eq_iff]
  refine or_congr_right (and_congr_right (fun htype => or_congr_right ?_))
  constructor
  · rintro ⟨hle, hbytes⟩
    rcases Nat.eq_or_lt_of_le hle with hlen | hlen
    · exact ⟨hlen.symm, by rw [hlen]; exact hbytes⟩
    · exact absurd hbytes (h i1 h1 i2 h2 htype hlen)
  · rintro ⟨hlen, hbytes⟩
    dsimp only at hlen hbytes
    refine ⟨Nat.le_of_eq hlen.symm, ?_⟩
    rw [hlen] at hbytes ⊢
    exact hbytes

theorem strictTotal_of_longerNotBefore (h : LongerNotBefore S) :
    StrictTotalOn S (fun i1 i2 => i1.less i2 = true) (fun i1 i2 => i1.equals i2 = true) :=
  StrictTotalOn.of_key orderKey (fun _ h1 _ h2 => less_iff_orderKey h h1 h2)
    (fun _ _ _ _ => equals_iff_orderKey)

/--
**`operator<` is a strict total order** of a set of interfaces, for their equality, exactly when
no longer identifier comes before a shorter one of the same type.
-/
theorem less_strictTotal_iff (S : Set InterfaceMemory) :
    StrictTotalOn S (fun i1 i2 => i1.less i2 = true) (fun i1 i2 => i1.equals i2 = true) ↔
      LongerNotBefore S := by
  refine ⟨fun h i1 h1 i2 h2 htype hlen hbytes => ?_, strictTotal_of_longerNotBefore⟩
  have hlonger : i1.less i2 = true :=
    less_iff.mpr (Or.inr ⟨htype, Or.inr ⟨Nat.le_of_lt hlen, hbytes⟩⟩)
  have hshorter : i2.less i1 = true := less_iff.mpr (Or.inr ⟨htype.symm, Or.inl hlen⟩)
  exact h.asymm h1 h2 hlonger hshorter

/-- The socket path `/tmp/b`. -/
def shorterPath : InterfaceMemory where
  type := .applicationLocal
  identifier k := [47, 116, 109, 112, 47, 98].getD k 0
  identifierLen := 6

/-- The socket path `/tmp/aa`. -/
def longerPath : InterfaceMemory where
  type := .applicationLocal
  identifier k := [47, 116, 109, 112, 47, 97, 97].getD k 0
  identifierLen := 7

/-- Each of the two is less than the other. -/
theorem paths_less_each_other : shorterPath.less longerPath = true ∧
    longerPath.less shorterPath = true := by
  decide

end InterfaceMemory

end Encoders.Connectivity
