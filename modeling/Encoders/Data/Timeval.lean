import Encoders.Lib.CString

/-!
# `Timeval`

`libcpphaggle/Timeval.cpp`, as far as data objects use it. A time travels as text:
seconds, a point and six digits of microseconds, in a buffer of twenty bytes. That
is enough for twelve digits of seconds. Beyond, the microseconds lose digits from
the right, and `sscanf` takes the digits that are left for the whole number; with
none left it leaves its variable as it found it, which is the `none` of `ofString`.
-/

namespace Encoders.Data

open Encoders.Lib

/-- `class Timeval`: every constructor brings the microseconds into range. -/
structure Timeval where
  sec : Int
  usec : Nat
  sec_lo : -9223372036854775808 ≤ sec
  sec_hi : sec ≤ 9223372036854775807
  usec_lt : usec < 1000000
deriving DecidableEq

/-- `%06ld` of a number that is not negative. -/
def sprintf06 (n : Nat) : List Char :=
  List.replicate (6 - (Nat.toDigits 10 n).length) '0' ++ Nat.toDigits 10 n

/-- `%ld` of `sscanf`: the number, and what follows it. -/
def scanLong (text : List Char) : Option (Int × List Char) :=
  let (negative, body) :=
    match text.dropWhile isspace with
    | '-' :: rest => (true, rest)
    | '+' :: rest => (false, rest)
    | rest => (false, rest)
  let digits := body.takeWhile Char.isDigit
  if digits = [] then none
  else
    let value : Int := Nat.ofDigitChars 10 digits 0
    let value := if negative then -value else value
    some (max (-9223372036854775808) (min 9223372036854775807 value), body.drop digits.length)

/-- `sscanf(text, "%ld.%06ld", ...)`: both numbers, if both are there. -/
def sscanfTime (text : List Char) : Option (Int × Int) :=
  match scanLong text with
  | some (sec, '.' :: rest) =>
      match scanLong ((rest.dropWhile isspace).take 6) with
      | some (usec, _) => some (sec, usec)
      | none => none
  | _ => none

namespace Timeval

variable {t₁ t₂ : Timeval}

/-- `Timeval(seconds, microseconds)` with `adjust`. -/
def ofLongs (sec usec : Int) : Option Timeval :=
  if h : -9223372036854775808 ≤ sec + usec / 1000000 ∧
      sec + usec / 1000000 ≤ 9223372036854775807 then
    some ⟨sec + usec / 1000000, (usec % 1000000).toNat, h.1, h.2, by omega⟩
  else none

/-- `Timeval(str)` -/
def ofString (str : CString) : Option Timeval :=
  (sscanfTime (chars str)).bind (fun p => ofLongs p.1 p.2)

/-- `isValid` -/
def isValid (t : Timeval) : Bool := 0 ≤ t.sec

/-- `operator<` -/
def lt (t₁ t₂ : Timeval) : Bool :=
  t₁.sec < t₂.sec || (t₁.sec == t₂.sec && t₁.usec < t₂.usec)

/-- `operator<=` -/
def le (t₁ t₂ : Timeval) : Bool :=
  t₁.sec < t₂.sec || (t₁.sec == t₂.sec && t₁.usec ≤ t₂.usec)

theorem le_iff : t₁.le t₂ = true ↔ t₁.sec < t₂.sec ∨ t₁.sec = t₂.sec ∧ t₁.usec ≤ t₂.usec := by
  simp [le]

theorem le_refl (t : Timeval) : t.le t = true := le_iff.mpr (Or.inr ⟨rfl, Nat.le_refl _⟩)

theorem le_trans {t₃ : Timeval} (h : t₁.le t₂ = true) (h' : t₂.le t₃ = true) : t₁.le t₃ = true := by
  rw [le_iff] at *
  omega

theorem le_of_lt (h : t₁.lt t₂ = true) : t₁.le t₂ = true := by
  simp only [lt, Bool.or_eq_true, Bool.and_eq_true, decide_eq_true_eq, beq_iff_eq] at h
  rw [le_iff]
  omega

/-- One of two times is not after the other. -/
theorem not_lt_iff : t₁.lt t₂ = false ↔ t₂.le t₁ = true := by
  rw [le_iff]
  simp only [lt, Bool.or_eq_false_iff, Bool.and_eq_false_iff, decide_eq_false_iff_not,
    beq_eq_false_iff_ne]
  omega

theorem invalid_lo : -9223372036854775808 ≤ (-1 : Int) := by omega

theorem invalid_hi : (-1 : Int) ≤ 9223372036854775807 := by omega

theorem whole_usec : 0 < 1000000 := by omega

/-- `Timeval(-1)`, which no clock reads. -/
def invalid : Timeval := ⟨-1, 0, invalid_lo, invalid_hi, whole_usec⟩

/-- The text `getAsString` prints before it is cut to its buffer. -/
def text (t : Timeval) : List Char :=
  if t.sec < 0 then
    '-' :: (sprintfD (-(t.sec - 1)) ++ '.' :: sprintf06 (1000000 - t.usec))
  else sprintfD t.sec ++ '.' :: sprintf06 t.usec

/-- `getAsString` -/
def getAsString (t : Timeval) : CString := ascii (snprintf 20 t.text)

end Timeval

variable {t : Timeval}
variable {rest : List Char}

/-! ## Printing and reading -/

theorem isDigit_sprintf06 {n : Nat} {c : Char} (h : c ∈ sprintf06 n) : c.isDigit = true := by
  unfold sprintf06 at h
  rcases List.mem_append.mp h with hpad | hdigit
  · rw [List.eq_of_mem_replicate hpad]
    rfl
  · exact isDigit_toDigits hdigit

theorem length_sprintf06 {n : Nat} (h : n < 1000000) : (sprintf06 n).length = 6 := by
  have hle : (Nat.toDigits 10 n).length ≤ 6 :=
    (Nat.length_toDigits_le_iff (by decide) (by decide)).mpr h
  unfold sprintf06
  rw [List.length_append, List.length_replicate]
  omega

theorem value_sprintf06 (n : Nat) : Nat.ofDigitChars 10 (sprintf06 n) 0 = n := by
  unfold sprintf06
  rw [Nat.ofDigitChars_append, Nat.ofDigitChars_replicate_zero, Nat.mul_zero]
  exact Nat.ofDigitChars_ten_toDigits

theorem takeWhile_digits {digits : List Char} (h : ∀ c ∈ digits, c.isDigit = true)
    (hrest : ∀ c ∈ rest.head?, c.isDigit = false) :
    (digits ++ rest).takeWhile Char.isDigit = digits := by
  rw [List.takeWhile_append_of_pos h]
  cases rest with
  | nil => simp
  | cons c cs => rw [List.takeWhile_cons_of_neg (by simp [hrest c rfl]), List.append_nil]

/-- Digits up to something that is none are read as they stand. -/
theorem scanLong_digits {digits rest : List Char} (hne : digits ≠ [])
    (h : ∀ c ∈ digits, c.isDigit = true) (hrest : ∀ c ∈ rest.head?, c.isDigit = false)
    (hlt : Nat.ofDigitChars 10 digits 0 < 9223372036854775808) :
    scanLong (digits ++ rest) = some ((Nat.ofDigitChars 10 digits 0 : Int), rest) := by
  have htake := takeWhile_digits h hrest
  cases hdigits : digits with
  | nil => exact absurd hdigits hne
  | cons c ds =>
      obtain ⟨hws, hminus, hplus, _⟩ := isDigit_plain (h c (by rw [hdigits]; exact List.mem_cons_self))
      rw [← hdigits]
      unfold scanLong
      have hdrop : (digits ++ rest).dropWhile isspace = digits ++ rest := by
        rw [hdigits, List.cons_append, List.dropWhile_cons_of_neg (by simp [hws])]
      have hsign : (match digits ++ rest with
          | '-' :: rest => (true, rest)
          | '+' :: rest => (false, rest)
          | rest => (false, rest)) = (false, digits ++ rest) := by
        rw [hdigits, List.cons_append]
        split
        · next heq => exact absurd (List.cons.inj heq).1 hminus
        · next heq => exact absurd (List.cons.inj heq).1 hplus
        · rfl
      rw [hdrop, hsign]
      simp only [htake, if_neg hne, List.drop_left, Bool.false_eq_true, if_false]
      congr 2
      omega

/-! ## Times that arrive as they were sent -/

/-- The digits of the seconds. -/
def secondsDigits (t : Timeval) : List Char := Nat.toDigits 10 t.sec.toNat

/-- The digits of the microseconds that the buffer has room for. -/
def keptDigits (t : Timeval) : List Char :=
  (sprintf06 t.usec).take (18 - (secondsDigits t).length)

/--
The seconds have at most twelve digits; or at most seventeen, and what is left of the
microseconds is all zeros.
-/
def Timeval.Travels (t : Timeval) : Prop :=
  t.sec < 1000000000000 ∨
    (t.sec < 100000000000000000 ∧ ∀ c ∈ keptDigits t, c = '0')

theorem text_of_valid (h : t.isValid = true) :
    t.text = secondsDigits t ++ '.' :: sprintf06 t.usec := by
  have hsec : 0 ≤ t.sec := by simpa [Timeval.isValid] using h
  unfold Timeval.text secondsDigits sprintfD
  rw [if_neg (by omega), if_neg (by omega), show t.sec.natAbs = t.sec.toNat by omega]

theorem length_secondsDigits_le (k : Nat) (hk : 0 < k) :
    (secondsDigits t).length ≤ k ↔ t.sec.toNat < Nat.pow 10 k :=
  Nat.length_toDigits_le_iff (by decide) hk

theorem length_secondsDigits_le_twelve (t : Timeval) :
    (secondsDigits t).length ≤ 12 ↔ t.sec < 1000000000000 := by
  rw [length_secondsDigits_le 12 (by decide), show Nat.pow 10 12 = 1000000000000 from rfl]
  omega

theorem length_secondsDigits_le_seventeen (t : Timeval) :
    (secondsDigits t).length ≤ 17 ↔ t.sec < 100000000000000000 := by
  rw [length_secondsDigits_le 17 (by decide), show Nat.pow 10 17 = 100000000000000000 from rfl]
  omega

/-- The seconds are read up to whatever follows them. -/
theorem scanLong_seconds (h : t.isValid = true) (hrest : ∀ c ∈ rest.head?, c.isDigit = false) :
    scanLong (secondsDigits t ++ rest) = some (t.sec, rest) := by
  have hsec : 0 ≤ t.sec := by simpa [Timeval.isValid] using h
  have hhi := t.sec_hi
  have hvalue : Nat.ofDigitChars 10 (secondsDigits t) 0 = t.sec.toNat :=
    Nat.ofDigitChars_ten_toDigits
  have hdigits : ∀ c ∈ secondsDigits t, c.isDigit = true := fun c hc => isDigit_toDigits hc
  have hne : secondsDigits t ≠ [] := Nat.toDigits_ne_nil
  rw [scanLong_digits hne hdigits hrest (by rw [hvalue]; omega), hvalue, Int.toNat_of_nonneg hsec]

theorem isDigit_keptDigits {c : Char} (h : c ∈ keptDigits t) : c.isDigit = true :=
  isDigit_sprintf06 (List.mem_of_mem_take h)

/-- What is printed, cut to the buffer, while there is room for the point and a digit. -/
theorem snprintf_text (h : t.isValid = true) (hlen : (secondsDigits t).length ≤ 17) :
    snprintf 20 t.text = secondsDigits t ++ '.' :: keptDigits t := by
  unfold snprintf keptDigits
  rw [text_of_valid h, List.take_append, List.take_of_length_le (by omega),
    show 20 - 1 - (secondsDigits t).length = (18 - (secondsDigits t).length) + 1 by omega,
    List.take_succ_cons]

theorem ascii_of_digits_and_point {s : List Char} (h : ∀ c ∈ s, c.isDigit = true ∨ c = '.') :
    ∀ c ∈ s, c.toNat < 128 := by
  intro c hc
  rcases h c hc with hdigit | hpoint
  · have := toNat_isDigit hdigit
    omega
  · rw [hpoint]
    decide

theorem isAscii_snprintf_text (h : t.isValid = true) : ∀ c ∈ snprintf 20 t.text, c.toNat < 128 := by
  refine ascii_of_digits_and_point ?_
  intro c hc
  unfold snprintf at hc
  have hmem := List.mem_of_mem_take hc
  rw [text_of_valid h] at hmem
  rcases List.mem_append.mp hmem with hsec | hrest
  · exact Or.inl (isDigit_toDigits hsec)
  · rcases List.mem_cons.mp hrest with hpoint | husec
    · exact Or.inr hpoint
    · exact Or.inl (isDigit_sprintf06 husec)

/-- The number the reader makes of the kept digits. -/
def keptUsec (t : Timeval) : Nat := Nat.ofDigitChars 10 (keptDigits t) 0

theorem keptUsec_lt (t : Timeval) : keptUsec t < 1000000 := by
  have hlen : (keptDigits t).length ≤ 6 := by
    unfold keptDigits
    rw [List.length_take, length_sprintf06 t.usec_lt]
    omega
  have hlt := @ofDigitChars_lt (keptDigits t) (fun c hc => isDigit_keptDigits hc)
  have hpow : Nat.pow 10 (keptDigits t).length ≤ Nat.pow 10 6 :=
    Nat.pow_le_pow_right (by decide) hlen
  unfold keptUsec
  exact Nat.lt_of_lt_of_le hlt hpow

/-- What the reader makes of the text. -/
theorem ofString_getAsString (h : t.isValid = true) (hlen : (secondsDigits t).length ≤ 17) :
    Timeval.ofString t.getAsString =
      some ⟨t.sec, keptUsec t, t.sec_lo, t.sec_hi, keptUsec_lt t⟩ := by
  have hsec : 0 ≤ t.sec := by simpa [Timeval.isValid] using h
  have hhi := t.sec_hi
  have hlt := keptUsec_lt t
  have hkept : keptDigits t ≠ [] := by
    have hlength := length_sprintf06 t.usec_lt
    intro hnil
    have hzero : (keptDigits t).length = 0 := by rw [hnil]; rfl
    unfold keptDigits at hzero
    rw [List.length_take] at hzero
    omega
  -- the seconds are read up to the dot, and the digits behind it to the end
  have hfirst : scanLong (secondsDigits t ++ '.' :: keptDigits t) =
      some (t.sec, '.' :: keptDigits t) := by
    refine scanLong_seconds h ?_
    intro c hc
    injection hc with hc
    rw [← hc]
    rfl
  have hsecond : scanLong (((keptDigits t).dropWhile isspace).take 6) =
      some ((keptUsec t : Int), []) := by
    have hdrop : (keptDigits t).dropWhile isspace = keptDigits t := by
      cases hd : keptDigits t with
      | nil => rfl
      | cons c cs =>
          have hc : c.isDigit = true := isDigit_keptDigits (by rw [hd]; exact List.mem_cons_self)
          rw [List.dropWhile_cons_of_neg (by simp [(isDigit_plain hc).1])]
    have htake : (keptDigits t).take 6 = keptDigits t := by
      refine List.take_of_length_le ?_
      unfold keptDigits
      rw [List.length_take, length_sprintf06 t.usec_lt]
      omega
    have hscan := @scanLong_digits (keptDigits t) [] hkept (fun c hc => isDigit_keptDigits hc)
      (by simp) (by unfold keptUsec at hlt; omega)
    rw [hdrop, htake]
    rw [List.append_nil] at hscan
    exact hscan
  unfold Timeval.ofString Timeval.getAsString
  rw [chars_ascii (isAscii_snprintf_text h), snprintf_text h hlen]
  unfold sscanfTime
  simp only [hfirst, hsecond, Option.bind_some]
  unfold Timeval.ofLongs
  have hdiv : (keptUsec t : Int) / 1000000 = 0 := by omega
  have hmod : ((keptUsec t : Int) % 1000000).toNat = keptUsec t := by omega
  simp only [hdiv, hmod, Int.add_zero]
  rw [dif_pos ⟨t.sec_lo, t.sec_hi⟩]

/-- Without a digit behind the point there is nothing to read. -/
theorem ofString_long (h : t.isValid = true) (hlen : 17 < (secondsDigits t).length) :
    Timeval.ofString t.getAsString = none := by
  have hhi := t.sec_hi
  have hmax : (secondsDigits t).length ≤ 19 := by
    rw [length_secondsDigits_le 19 (by decide), show Nat.pow 10 19 = 10000000000000000000 from rfl]
    omega
  have htext : snprintf 20 t.text = secondsDigits t ++ ['.'].take (19 - (secondsDigits t).length) := by
    unfold snprintf
    rw [text_of_valid h, List.take_append, List.take_of_length_le (by omega)]
    congr 1
    rcases Nat.lt_or_ge (secondsDigits t).length 19 with h18 | h19
    · rw [show 20 - 1 - (secondsDigits t).length = 1 by omega]
      rfl
    · rw [show 20 - 1 - (secondsDigits t).length = 0 by omega]
      rfl
  have hscan : scanLong (secondsDigits t ++ ['.'].take (19 - (secondsDigits t).length)) =
      some (t.sec, ['.'].take (19 - (secondsDigits t).length)) := by
    refine scanLong_seconds h ?_
    intro c hc
    have hmem := List.mem_of_mem_take (List.mem_of_mem_head? hc)
    rw [List.mem_singleton.mp hmem]
    rfl
  unfold Timeval.ofString Timeval.getAsString
  rw [chars_ascii (isAscii_snprintf_text h), htext]
  unfold sscanfTime
  rw [hscan]
  rcases Nat.lt_or_ge (secondsDigits t).length 19 with h18 | h19
  · rw [show 19 - (secondsDigits t).length = 1 by omega]
    rfl
  · rw [show 19 - (secondsDigits t).length = 0 by omega]
    rfl

/-- The reader's time prints the same if no digit was lost, or only zeros are left. -/
theorem keptDigits_again {t' : Timeval} (hsec : t'.sec = t.sec) (husec : t'.usec = keptUsec t)
    (hlen : (secondsDigits t).length ≤ 17) :
    keptDigits t' = keptDigits t ↔
      (secondsDigits t).length ≤ 12 ∨ ∀ c ∈ keptDigits t, c = '0' := by
  have hsecs : secondsDigits t' = secondsDigits t := by
    unfold secondsDigits
    rw [hsec]
  have hlen6 := length_sprintf06 t.usec_lt
  have hlen6' := length_sprintf06 t'.usec_lt
  have hvalue' : Nat.ofDigitChars 10 (sprintf06 t'.usec) 0 = keptUsec t := by
    rw [value_sprintf06, husec]
  rcases Nat.lt_or_ge 12 (secondsDigits t).length with hlong | hshort
  · constructor
    · intro hsame
      refine Or.inr ((ofDigitChars_eq_zero (fun c hc => isDigit_keptDigits hc)).mp ?_)
      -- the number starts with itself: it must be zero
      have hsplit := ofDigitChars_split ((sprintf06 t'.usec).take (18 - (secondsDigits t').length))
        ((sprintf06 t'.usec).drop (18 - (secondsDigits t').length))
      have hdrop : ((sprintf06 t'.usec).drop (18 - (secondsDigits t').length)).length =
          5 - (17 - (secondsDigits t).length) := by
        rw [List.length_drop, hlen6', hsecs]
        omega
      rw [List.take_append_drop, hvalue', hdrop] at hsplit
      have hkept : Nat.ofDigitChars 10 ((sprintf06 t'.usec).take
          (18 - (secondsDigits t').length)) 0 = keptUsec t := by
        unfold keptUsec
        rw [← hsame]
        rfl
      rw [hkept] at hsplit
      have hpow : Nat.pow 10 1 ≤ Nat.pow 10 (5 - (17 - (secondsDigits t).length)) :=
        Nat.pow_le_pow_right (by decide) (by omega)
      have hten : Nat.pow 10 1 = 10 := rfl
      rw [hten] at hpow
      have hmul := Nat.mul_le_mul_right (keptUsec t) hpow
      unfold keptUsec at hsplit hmul
      omega
    · intro hor
      rcases hor with h12 | hzeros
      · omega
      · have hzero : t'.usec = 0 := by
          rw [husec]
          exact (ofDigitChars_eq_zero (fun c hc => isDigit_keptDigits hc)).mpr hzeros
        have hkept : ∀ c ∈ keptDigits t', c = '0' := by
          intro c hc
          have hmem := List.mem_of_mem_take hc
          rw [hzero] at hmem
          exact List.eq_of_mem_replicate (show c ∈ List.replicate 6 '0' from hmem)
        rw [List.eq_replicate_iff.mpr ⟨rfl, hkept⟩, List.eq_replicate_iff.mpr ⟨rfl, hzeros⟩]
        congr 1
        unfold keptDigits
        rw [List.length_take, List.length_take, hlen6, hlen6', hsecs]
  · have hall : keptDigits t = sprintf06 t.usec := List.take_of_length_le (by omega)
    have hall' : keptDigits t' = sprintf06 t'.usec := by
      refine List.take_of_length_le ?_
      rw [hsecs]
      omega
    have heq : t'.usec = t.usec := by
      rw [husec]
      unfold keptUsec
      rw [hall]
      exact value_sprintf06 t.usec
    rw [hall, hall', heq]
    exact ⟨fun _ => Or.inl hshort, fun _ => rfl⟩

/-- **A valid time arrives with the text it was sent with exactly if it travels.** -/
theorem travels_iff (h : t.isValid = true) :
    (∃ t', Timeval.ofString t.getAsString = some t' ∧ t'.isValid = true ∧
      t'.getAsString = t.getAsString) ↔ t.Travels := by
  have hsec : 0 ≤ t.sec := by simpa [Timeval.isValid] using h
  have h12 := length_secondsDigits_le_twelve t
  have h17 := length_secondsDigits_le_seventeen t
  unfold Timeval.Travels
  rw [← h12, ← h17]
  rcases Nat.lt_or_ge 17 (secondsDigits t).length with hlong | hlen
  · -- eighteen digits fill the buffer, and nothing behind the dot is left
    rw [ofString_long h hlong]
    constructor
    · intro hex
      obtain ⟨_, hnone, _⟩ := hex
      cases hnone
    · intro hor
      rcases hor with hshort | ⟨hshort, _⟩
      · omega
      · omega
  · rw [ofString_getAsString h hlen]
    generalize hread : (⟨t.sec, keptUsec t, t.sec_lo, t.sec_hi, keptUsec_lt t⟩ : Timeval) = t'
    have hsec' : t'.sec = t.sec := by rw [← hread]
    have husec' : t'.usec = keptUsec t := by rw [← hread]
    have hvalid' : t'.isValid = true := by
      unfold Timeval.isValid at h ⊢
      rw [hsec']
      exact h
    have hsecs : secondsDigits t' = secondsDigits t := by
      unfold secondsDigits
      rw [hsec']
    -- the seconds are the same, so that only the digits behind the dot can differ
    have htext : t'.getAsString = t.getAsString ↔ keptDigits t' = keptDigits t := by
      unfold Timeval.getAsString
      constructor
      · intro heq
        have hlists := ascii_injective (isAscii_snprintf_text hvalid') (isAscii_snprintf_text h) heq
        rw [snprintf_text hvalid' (by rw [hsecs]; exact hlen), snprintf_text h hlen, hsecs] at hlists
        exact (List.cons.inj (List.append_cancel_left hlists)).2
      · intro heq
        rw [snprintf_text hvalid' (by rw [hsecs]; exact hlen), snprintf_text h hlen, hsecs, heq]
    have hagain := keptDigits_again hsec' husec' hlen
    constructor
    · intro hex
      obtain ⟨u, hu, _, heq⟩ := hex
      injection hu with hu
      subst hu
      rcases hagain.mp (htext.mp heq) with hshort | hzeros
      · exact Or.inl hshort
      · exact Or.inr ⟨hlen, hzeros⟩
    · intro hor
      refine ⟨t', rfl, hvalid', htext.mpr (hagain.mpr ?_)⟩
      rcases hor with hshort | ⟨_, hzeros⟩
      · exact Or.inl hshort
      · exact Or.inr hzeros

/-! ## Times that are read as they were -/

/-- The reader has the microseconds if no digit was lost, or if there are none. -/
theorem keptUsec_eq_iff (hlen : (secondsDigits t).length ≤ 17) :
    keptUsec t = t.usec ↔ (secondsDigits t).length ≤ 12 ∨ t.usec = 0 := by
  have hlen6 := length_sprintf06 t.usec_lt
  have hsplit := ofDigitChars_split (keptDigits t)
    ((sprintf06 t.usec).drop (18 - (secondsDigits t).length))
  have hdrop : ((sprintf06 t.usec).drop (18 - (secondsDigits t).length)).length =
      6 - (18 - (secondsDigits t).length) := by
    rw [List.length_drop, hlen6]
  have hwhole : keptDigits t ++ (sprintf06 t.usec).drop (18 - (secondsDigits t).length) =
      sprintf06 t.usec := List.take_append_drop _ _
  rw [hwhole, value_sprintf06, hdrop] at hsplit
  rcases Nat.lt_or_ge 12 (secondsDigits t).length with hlong | hshort
  · have hpow : Nat.pow 10 1 ≤ Nat.pow 10 (6 - (18 - (secondsDigits t).length)) :=
      Nat.pow_le_pow_right (by decide) (by omega)
    have hten : Nat.pow 10 1 = 10 := rfl
    rw [hten] at hpow
    have hmul := Nat.mul_le_mul_right (keptUsec t) hpow
    unfold keptUsec at hmul ⊢
    constructor
    · intro heq
      exact Or.inr (by omega)
    · intro hor
      rcases hor with h12 | hzero
      · omega
      · omega
  · have hall : keptDigits t = sprintf06 t.usec := List.take_of_length_le (by omega)
    unfold keptUsec
    rw [hall, value_sprintf06]
    exact ⟨fun _ => Or.inl hshort, fun _ => rfl⟩

/-- What a few characters are read as is small. -/
theorem scanLong_lt {text : List Char} {v : Int} (hlen : text.length ≤ 6)
    (h : scanLong text = some (v, rest)) : v < 1000000 := by
  have hbody : ∀ body : List Char, body.length ≤ 6 →
      Nat.ofDigitChars 10 (body.takeWhile Char.isDigit) 0 < 1000000 := by
    intro body hb
    have hdigits : ∀ c ∈ body.takeWhile Char.isDigit, c.isDigit = true :=
      fun c hc => List.all_eq_true.mp (List.all_takeWhile) c hc
    have hlt := ofDigitChars_lt hdigits
    have hle : (body.takeWhile Char.isDigit).length ≤ 6 :=
      Nat.le_trans (List.takeWhile_sublist _).length_le hb
    exact Nat.lt_of_lt_of_le hlt (Nat.pow_le_pow_right (by decide) hle)
  have hdrop : (text.dropWhile isspace).length ≤ 6 :=
    Nat.le_trans (List.dropWhile_sublist _).length_le hlen
  unfold scanLong at h
  -- a sign takes one character more, and no digit
  split at h
  next negative body heq =>
    have hlen : body.length ≤ 6 := by
      split at heq
      · next htail =>
          rw [htail, List.length_cons] at hdrop
          rw [← (Prod.mk.inj heq).2]
          omega
      · next htail =>
          rw [htail, List.length_cons] at hdrop
          rw [← (Prod.mk.inj heq).2]
          omega
      · rw [← (Prod.mk.inj heq).2]
        exact hdrop
    have hlt := hbody body hlen
    simp only at h
    split at h
    · cases h
    · have hv := (Prod.mk.inj (Option.some.inj h)).1
      cases negative with
      | true =>
          rw [if_pos rfl] at hv
          omega
      | false =>
          rw [if_neg Bool.false_ne_true] at hv
          omega

/-- Behind a minus sign there is no positive number. -/
theorem scanLong_minus {text : List Char} {v : Int} (h : scanLong ('-' :: text) = some (v, rest)) :
    v ≤ 0 := by
  unfold scanLong at h
  rw [List.dropWhile_cons_of_neg (by decide)] at h
  simp only at h
  split at h
  · cases h
  · have hv := (Prod.mk.inj (Option.some.inj h)).1
    rw [if_pos trivial] at hv
    omega

/-- A time before the epoch is not read as one after it. -/
theorem ofString_negative {u : Timeval} (h : t.sec < 0)
    (hread : Timeval.ofString t.getAsString = some u) : u.sec ≤ 0 := by
  obtain ⟨body, hbody⟩ : ∃ body, chars t.getAsString = '-' :: body := by
    unfold Timeval.getAsString Timeval.text snprintf
    rw [if_pos h]
    exact ⟨_, rfl⟩
  unfold Timeval.ofString at hread
  obtain ⟨⟨sec, usec⟩, hscan, hlongs⟩ := Option.bind_eq_some_iff.mp hread
  rw [hbody] at hscan
  unfold sscanfTime at hscan
  split at hscan
  · next sec' rest hfirst =>
      split at hscan
      · next usec' rest' hsecond =>
          obtain ⟨hs, hu⟩ := Prod.mk.inj (Option.some.inj hscan)
          have hsec := scanLong_minus hfirst
          have husec := scanLong_lt (List.length_take_le _ _) hsecond
          unfold Timeval.ofLongs at hlongs
          split at hlongs
          · rw [← Option.some.inj hlongs]
            dsimp only
            omega
          · cases hlongs
      · cases hscan
  · cases hscan

/-! ## Times before the epoch -/

/-- Digits behind a minus sign, up to something that is none. -/
theorem scanLong_minus_digits {digits rest : List Char} (hne : digits ≠ [])
    (h : ∀ c ∈ digits, c.isDigit = true) (hrest : ∀ c ∈ rest.head?, c.isDigit = false) :
    scanLong ('-' :: (digits ++ rest)) =
      some (max (-9223372036854775808)
        (min 9223372036854775807 (-(Nat.ofDigitChars 10 digits 0 : Int))), rest) := by
  have htake := takeWhile_digits h hrest
  unfold scanLong
  rw [List.dropWhile_cons_of_neg (by decide)]
  simp only [htake, if_neg hne, List.drop_left, if_true]

/-- The digits printed behind the minus sign of a time before the epoch. -/
def negativeDigits (t : Timeval) : List Char := Nat.toDigits 10 (1 - t.sec).toNat

theorem text_of_negative (h : t.sec < 0) :
    t.text = '-' :: (negativeDigits t ++ '.' :: sprintf06 (1000000 - t.usec)) := by
  unfold Timeval.text negativeDigits sprintfD
  rw [if_pos h, if_neg (by omega), show (-(t.sec - 1)).natAbs = (1 - t.sec).toNat by omega]

/-- **A time before the epoch is never read as it was**: a second more is printed. -/
theorem ofString_ne_of_negative (h : t.sec < 0) : Timeval.ofString t.getAsString ≠ some t := by
  intro hread
  have hdigits : ∀ c ∈ negativeDigits t, c.isDigit = true := fun c hc => isDigit_toDigits hc
  have hne : negativeDigits t ≠ [] := Nat.toDigits_ne_nil
  have hvalue : Nat.ofDigitChars 10 (negativeDigits t) 0 = (1 - t.sec).toNat :=
    Nat.ofDigitChars_ten_toDigits
  have hlo := t.sec_lo
  -- the buffer holds nineteen characters, the first of them the sign
  have hcut : snprintf 20 t.text =
      '-' :: (negativeDigits t ++ '.' :: sprintf06 (1000000 - t.usec)).take 18 := by
    unfold snprintf
    rw [text_of_negative h]
    rfl
  have hascii : ∀ c ∈ snprintf 20 t.text, c.toNat < 128 := by
    intro c hc
    have hmem := List.mem_of_mem_take hc
    rw [text_of_negative h] at hmem
    have hdigit : ∀ c : Char, c.isDigit = true → c.toNat < 128 := fun c hc => by
      have hrange := toNat_isDigit hc
      omega
    rcases List.mem_cons.mp hmem with rfl | hmem
    · decide
    · rcases List.mem_append.mp hmem with hmem | hmem
      · exact hdigit c (hdigits c hmem)
      · rcases List.mem_cons.mp hmem with rfl | hmem
        · decide
        · exact hdigit c (isDigit_sprintf06 hmem)
  unfold Timeval.ofString Timeval.getAsString at hread
  rw [chars_ascii hascii, hcut] at hread
  obtain ⟨⟨sec, usec⟩, hscan, hlongs⟩ := Option.bind_eq_some_iff.mp hread
  unfold sscanfTime at hscan
  rcases Nat.lt_or_ge 17 (negativeDigits t).length with hlong | hshort
  · -- no room for the point
    rw [List.take_append_of_le_length (by omega)] at hscan
    have hfirst := @scanLong_minus_digits ((negativeDigits t).take 18) [] (by
      intro hnil
      have hlen := congrArg List.length hnil
      rw [List.length_take, List.length_nil] at hlen
      omega) (fun c hc => hdigits c (List.mem_of_mem_take hc)) (by simp)
    rw [List.append_nil] at hfirst
    rw [hfirst] at hscan
    cases hscan
  · obtain ⟨k, hk⟩ : ∃ k, 18 - (negativeDigits t).length = k + 1 := ⟨17 - (negativeDigits t).length,
      by omega⟩
    rw [List.take_append, List.take_of_length_le (by omega), hk, List.take_succ_cons,
      scanLong_minus_digits hne hdigits (by
        intro c hc
        injection hc with hc
        rw [← hc]
        rfl), hvalue] at hscan
    have hpow : (1 - t.sec).toNat < Nat.pow 10 17 :=
      (Nat.length_toDigits_le_iff (by decide) (by decide)).mp hshort
    have h17 : Nat.pow 10 17 = 100000000000000000 := rfl
    simp only at hscan
    split at hscan
    · next usec' rest' hsecond =>
        obtain ⟨hs, hu⟩ := Prod.mk.inj (Option.some.inj hscan)
        have husec := scanLong_lt (List.length_take_le _ _) hsecond
        unfold Timeval.ofLongs at hlongs
        split at hlongs
        · have hsec := congrArg Timeval.sec (Option.some.inj hlongs)
          dsimp only at hsec
          omega
        · cases hlongs
    · cases hscan

/-- The seconds have at most twelve digits; or at most seventeen, and there are no microseconds. -/
def Timeval.Kept (t : Timeval) : Prop :=
  t.isValid = true ∧
    (t.sec < 1000000000000 ∨ t.sec < 100000000000000000 ∧ t.usec = 0)

theorem timeval_ext {t' : Timeval} (hsec : t.sec = t'.sec) (husec : t.usec = t'.usec) : t = t' := by
  cases t
  cases t'
  cases hsec
  cases husec
  rfl

/-- **A time is read as it was exactly if it is kept.** -/
theorem ofString_getAsString_iff (t : Timeval) :
    Timeval.ofString t.getAsString = some t ↔ t.Kept := by
  unfold Timeval.Kept
  by_cases hneg : t.sec < 0
  · refine iff_of_false (ofString_ne_of_negative hneg) (fun hkept => ?_)
    have hsec : 0 ≤ t.sec := by simpa [Timeval.isValid] using hkept.1
    omega
  · have hvalid : t.isValid = true := decide_eq_true (by omega)
    have h12 := length_secondsDigits_le_twelve t
    have h17 := length_secondsDigits_le_seventeen t
    rcases Nat.lt_or_ge 17 (secondsDigits t).length with hlong | hlen
    · rw [ofString_long hvalid hlong]
      refine iff_of_false (fun hnone => by cases hnone) (fun hkept => ?_)
      rcases hkept.2 with hlt | hlt
      · have hle := h12.mpr hlt
        omega
      · have hle := h17.mpr hlt.1
        omega
    · have hkept := keptUsec_eq_iff hlen
      have hlt := h17.mp hlen
      rw [h12] at hkept
      rw [ofString_getAsString hvalid hlen, Option.some.injEq]
      constructor
      · intro heq
        refine ⟨hvalid, ?_⟩
        rcases hkept.mp (congrArg Timeval.usec heq) with hsec | hzero
        · exact Or.inl hsec
        · exact Or.inr ⟨hlt, hzero⟩
      · intro hor
        refine timeval_ext rfl (hkept.mpr ?_)
        rcases hor.2 with hsec | hzero
        · exact Or.inl hsec
        · exact Or.inr hzero.2

end Encoders.Data
