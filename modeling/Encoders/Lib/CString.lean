import Mathlib.Data.List.Induction
import Mathlib.Data.List.Lex
import Encoders.Lib.Text

/-!
# Strings of bytes

A C string is a list of bytes, compared the way `strcmp` does: as unsigned bytes,
at the first difference, a proper prefix before what it is a prefix of. Numbers
enter and leave such strings as ASCII text, through buffers of a fixed size:
`snprintf` writes what fits and drops the rest without a word.
-/

namespace Encoders.Lib

/-- The bytes of a string. -/
abbrev CString := List UInt8

/-- Bytes are compared as values, and so are strings. -/
instance instLawfulBEqByte : LawfulBEq UInt8 := inferInstance

instance instLawfulBEqBytes : LawfulBEq (List UInt8) := inferInstance

/-- Bytes in their order as numbers, which makes strings ordered as `strcmp` has it. -/
instance instLinearOrderByte : LinearOrder UInt8 where
  le_refl a := UInt8.le_refl a
  le_trans _ _ _ h h' := UInt8.le_trans h h'
  le_antisymm _ _ h h' := UInt8.le_antisymm h h'
  le_total a b := UInt8.le_total a b
  lt_iff_le_not_ge a b := by
    rw [UInt8.lt_iff_toNat_lt, UInt8.le_iff_toNat_le, UInt8.le_iff_toNat_le]
    omega
  toDecidableLE := fun a b => inferInstanceAs (Decidable (a ≤ b))
  toDecidableLT := fun a b => inferInstanceAs (Decidable (a < b))
  toDecidableEq := fun a b => inferInstanceAs (Decidable (a = b))

/-- A text as bytes. -/
def ascii (text : List Char) : CString := text.map (fun c => UInt8.ofNat c.toNat)

/-- Bytes as a text. -/
def chars (s : CString) : List Char := s.map (fun b => Char.ofNat b.toNat)

/-- `snprintf(buf, size, ...)`: what is left of the text in a buffer of `size` bytes. -/
def snprintf (size : Nat) (text : List Char) : List Char := text.take (size - 1)

/-- `strtoul(text, NULL, 10)` -/
def strtoul (text : List Char) : Nat :=
  match text.dropWhile isspace with
  | '-' :: digits =>
      if leadingNumber digits < 18446744073709551616 then
        (18446744073709551616 - leadingNumber digits) % 18446744073709551616
      else 18446744073709551615
  | '+' :: digits => min 18446744073709551615 (leadingNumber digits)
  | digits => min 18446744073709551615 (leadingNumber digits)

/-! ## ASCII text -/

theorem toNat_isDigit {c : Char} (h : c.isDigit = true) : 48 ≤ c.toNat ∧ c.toNat ≤ 57 := by
  simpa [Char.isDigit, UInt32.le_iff_toNat_le] using h

/-- ASCII characters survive being bytes. -/
theorem chars_ascii {text : List Char} (h : ∀ c ∈ text, c.toNat < 128) :
    chars (ascii text) = text := by
  unfold chars ascii
  rw [List.map_map]
  conv_rhs => rw [← List.map_id text]
  refine List.map_congr_left ?_
  intro c hc
  have hlt := h c hc
  have hbyte : (UInt8.ofNat c.toNat).toNat = c.toNat := by
    rw [UInt8.toNat_ofNat']
    omega
  simp only [Function.comp_apply, hbyte, id_eq]
  exact Char.ofNat_toNat c

theorem ascii_injective {s t : List Char} (hs : ∀ c ∈ s, c.toNat < 128)
    (ht : ∀ c ∈ t, c.toNat < 128) (h : ascii s = ascii t) : s = t := by
  rw [← chars_ascii hs, ← chars_ascii ht, h]

/-! ## Numbers -/

/-- Digits with nothing before or after them are read as the number they write. -/
theorem strtoul_digits {digits : List Char} (h : ∀ c ∈ digits, c.isDigit = true) :
    strtoul digits = min 18446744073709551615 (Nat.ofDigitChars 10 digits 0) := by
  have hnum : leadingNumber digits = Nat.ofDigitChars 10 digits 0 := by
    unfold leadingNumber
    rw [List.takeWhile_eq_self_iff.mpr h]
  unfold strtoul
  cases digits with
  | nil =>
      rw [← hnum]
      rfl
  | cons c ds =>
      obtain ⟨hws, hminus, hplus, _⟩ := isDigit_plain (h c List.mem_cons_self)
      rw [List.dropWhile_cons_of_neg (by simp [hws])]
      split
      · next heq => exact absurd (List.cons.inj heq).1 hminus
      · next heq => exact absurd (List.cons.inj heq).1 hplus
      · rw [hnum]

/-- A number of so many digits is below the power of ten. -/
theorem ofDigitChars_lt {digits : List Char} (h : ∀ c ∈ digits, c.isDigit = true) :
    Nat.ofDigitChars 10 digits 0 < Nat.pow 10 digits.length := by
  induction digits using List.reverseRecOn with
  | nil => decide
  | append_singleton ds c ih =>
      have hlt := ih (fun d hd => h d (List.mem_append_left _ hd))
      have hc := toNat_isDigit (h c (by simp))
      have hzero : '0'.toNat = 48 := rfl
      have hpow : Nat.pow 10 (ds.length + 1) = Nat.pow 10 ds.length * 10 := rfl
      rw [Nat.ofDigitChars_append, Nat.ofDigitChars_cons, Nat.ofDigitChars_nil, List.length_append,
        List.length_singleton, hpow, hzero]
      omega

/-- Only zeros make a zero. -/
theorem ofDigitChars_eq_zero {digits : List Char} (h : ∀ c ∈ digits, c.isDigit = true) :
    Nat.ofDigitChars 10 digits 0 = 0 ↔ ∀ c ∈ digits, c = '0' := by
  have hzero : '0'.toNat = 48 := rfl
  have hdigit : ∀ c : Char, c.isDigit = true → c.toNat - 48 = 0 → c = '0' := by
    intro c hc hnat
    obtain ⟨hlo, hhi⟩ := toNat_isDigit hc
    rw [← Char.ofNat_toNat c, show c.toNat = 48 by omega]
  induction digits with
  | nil => simp
  | cons c ds ih =>
      have hrest := ih (fun d hd => h d (List.mem_cons_of_mem _ hd))
      have hc := h c List.mem_cons_self
      rw [Nat.ofDigitChars_cons, Nat.ofDigitChars_eq_ofDigitChars_zero, hzero, Nat.mul_zero,
        Nat.zero_add, List.forall_mem_cons]
      have hpos : 0 < 10 ^ ds.length := Nat.pow_pos (by decide)
      constructor
      · intro hsum
        obtain ⟨hhead, htail⟩ := Nat.add_eq_zero_iff.mp hsum
        rcases Nat.mul_eq_zero.mp hhead with hp | hnat
        · omega
        · exact ⟨hdigit c hc hnat, hrest.mp htail⟩
      · intro hboth
        obtain ⟨rfl, htail⟩ := hboth
        rw [hrest.mpr htail, hzero]
        omega

/-- The whole number from the two parts of its text. -/
theorem ofDigitChars_split (ds es : List Char) :
    Nat.ofDigitChars 10 (ds ++ es) 0 =
      Nat.pow 10 es.length * Nat.ofDigitChars 10 ds 0 + Nat.ofDigitChars 10 es 0 := by
  rw [Nat.ofDigitChars_append, Nat.ofDigitChars_eq_ofDigitChars_zero]
  rfl

end Encoders.Lib
