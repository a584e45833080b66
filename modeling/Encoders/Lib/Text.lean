import Mathlib.Data.List.TakeWhile
import Mathlib.Algebra.Order.Group.Int

/-!
# Numbers as text

The part of the C library that programs pass numbers through: `%d` of `sprintf`,
`strtol` in base ten and `strtok` with one delimiter. `strtol` skips blanks, takes
a sign and digits up to the first character that is none, and stops at the limits
of a `long`. What `%d` writes comes back, and so does a list of such texts joined
by a delimiter that none of them holds.
-/

namespace Encoders.Lib

/-- `sprintf(buf, "%d", i)` -/
def sprintfD (i : Int) : List Char :=
  if i < 0 then '-' :: Nat.toDigits 10 i.natAbs else Nat.toDigits 10 i.natAbs

/-- `isspace` -/
def isspace (c : Char) : Bool := c.isWhitespace || c == '\x0b' || c == '\x0c'

/-- The digits at the front. -/
def leadingNumber (text : List Char) : Nat := Nat.ofDigitChars 10 (text.takeWhile Char.isDigit) 0

/-- `strtol(text, NULL, 10)`, and `atol(text)`. -/
def strtol (text : List Char) : Int :=
  let value : Int :=
    match text.dropWhile isspace with
    | '-' :: digits => -(leadingNumber digits : Int)
    | '+' :: digits => leadingNumber digits
    | digits => leadingNumber digits
  max (-9223372036854775808) (min 9223372036854775807 value)

/-- The tokens `strtok` returns one after the other: no empty ones. -/
def strtok (delim : Char) (text : List Char) : List (List Char) :=
  (text.splitOn delim).filter (fun token => !token.isEmpty)

/-! ## Digits -/

theorem isDigit_toDigits {n : Nat} {c : Char} (h : c ∈ Nat.toDigits 10 n) : c.isDigit = true :=
  Nat.isDigit_of_mem_toDigits (by decide) (by decide) h

theorem leadingNumber_toDigits (n : Nat) : leadingNumber (Nat.toDigits 10 n) = n := by
  unfold leadingNumber
  rw [List.takeWhile_eq_self_iff.mpr (fun c hc => isDigit_toDigits hc)]
  exact Nat.ofDigitChars_ten_toDigits

theorem toDigits_cons (n : Nat) : ∃ c ds, Nat.toDigits 10 n = c :: ds ∧ c.isDigit = true := by
  cases h : Nat.toDigits 10 n with
  | nil => exact absurd h Nat.toDigits_ne_nil
  | cons c ds => exact ⟨c, ds, rfl, isDigit_toDigits (by rw [h]; exact List.mem_cons_self)⟩

/-- A digit is neither a blank nor a sign. -/
theorem isDigit_plain {c : Char} (h : c.isDigit = true) :
    isspace c = false ∧ c ≠ '-' ∧ c ≠ '+' ∧ c ≠ ',' := by
  have hrange : 48 ≤ c.toNat ∧ c.toNat ≤ 57 := by
    simpa [Char.isDigit, UInt32.le_iff_toNat_le] using h
  have hne : ∀ d : Char, d.toNat < 48 → c ≠ d := by
    intro d hd heq
    rw [heq] at hrange
    omega
  refine ⟨?_, hne '-' (by decide), hne '+' (by decide), hne ',' (by decide)⟩
  simp only [isspace, Char.isWhitespace, Bool.or_eq_false_iff, decide_eq_false_iff_not,
    beq_eq_false_iff_ne]
  exact ⟨⟨⟨⟨⟨hne ' ' (by decide), hne '\t' (by decide)⟩, hne '\r' (by decide)⟩,
    hne '\n' (by decide)⟩, hne '\x0b' (by decide)⟩, hne '\x0c' (by decide)⟩

/-- `strtol` reads back what `%d` wrote. -/
theorem strtol_sprintfD {i : Int} (hlo : -9223372036854775808 ≤ i) (hhi : i ≤ 9223372036854775807) :
    strtol (sprintfD i) = i := by
  have hvalue : ∀ v : Int, v = i → max (-9223372036854775808) (min 9223372036854775807 v) = i := by
    intro v hv
    omega
  unfold strtol sprintfD
  by_cases hneg : i < 0
  · rw [if_pos hneg, List.dropWhile_cons_of_neg (by decide)]
    apply hvalue
    simp only [leadingNumber_toDigits]
    omega
  · rw [if_neg hneg]
    obtain ⟨c, ds, hcons, hc⟩ := toDigits_cons i.natAbs
    obtain ⟨hws, hminus, hplus, _⟩ := isDigit_plain hc
    have hnum : leadingNumber (c :: ds) = i.natAbs := by
      rw [← hcons]
      exact leadingNumber_toDigits i.natAbs
    rw [hcons, List.dropWhile_cons_of_neg (by simp [hws])]
    apply hvalue
    split
    · next heq => exact absurd (List.cons.inj heq).1 hminus
    · next heq => exact absurd (List.cons.inj heq).1 hplus
    · rw [hnum]
      omega

/-! ## Lists of texts -/

/-- Every text followed by the delimiter, and the last delimiter dropped. -/
theorem dropLast_joined (delim : Char) : ∀ texts : List (List Char), 
    (texts.flatMap (fun t => t ++ [delim])).dropLast = [delim].intercalate texts
  | [] => rfl
  | [t] => by simp
  | t :: u :: rest => by
      have hne : (u :: rest).flatMap (fun t => t ++ [delim]) ≠ [] := by simp
      rw [List.flatMap_cons, List.dropLast_append_of_ne_nil hne, dropLast_joined delim (u :: rest),
        List.intercalate_cons_cons]

/-- `strtok` takes a joined list apart again. -/
theorem strtok_intercalate {delim : Char} {texts : List (List Char)}
    (hdelim : ∀ t ∈ texts, delim ∉ t) (hne : ∀ t ∈ texts, t ≠ []) :
    strtok delim ([delim].intercalate texts) = texts := by
  unfold strtok
  cases texts with
  | nil => rfl
  | cons t rest =>
      rw [List.splitOn_intercalate delim hdelim (by simp), List.filter_eq_self]
      intro u hu
      cases u with
      | nil => exact absurd rfl (hne [] hu)
      | cons c cs => rfl

end Encoders.Lib
