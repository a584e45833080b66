import Encoders.Data.Timeval

/-!
# Adding and comparing times

`operator+`, `operator-` and the comparisons of `libcpphaggle/Timeval.cpp`. A time before the
epoch has negative seconds and microseconds that are not, so that a time is always the number of
its microseconds, written in seconds and a rest. The operations keep to that; only the text of a
time before the epoch does not, which is printed as if seconds and microseconds were both counted
back.
-/

namespace Encoders.Data

namespace Timeval

/-- The time in microseconds. -/
def micros (t : Timeval) : Int := t.sec * 1000000 + t.usec

/-- `operator==` -/
def eq (t₁ t₂ : Timeval) : Bool := t₁.sec == t₂.sec && t₁.usec == t₂.usec

/-- A `long`; beyond its range there is no result. -/
def long (n : Int) : Option Int :=
  if -9223372036854775808 ≤ n ∧ n ≤ 9223372036854775807 then some n else none

/-- Fields that are normalised. -/
def ofFields (sec usec : Int) : Option Timeval :=
  if h : (-9223372036854775808 ≤ sec ∧ sec ≤ 9223372036854775807) ∧ 0 ≤ usec ∧ usec < 1000000 then
    some ⟨sec, usec.toNat, h.1.1, h.1.2, (Int.toNat_lt h.2.1).mpr h.2.2⟩
  else none

/-- The two corrections that `operator+=` and `operator-=` end with. -/
def carry (sec usec : Int) : Option Timeval := do
  let sec' ← long (if usec < 0 then sec - 1 else sec)
  let usec' := if usec < 0 then usec + 1000000 else usec
  ofFields (if 1000000 ≤ usec' then sec' + 1 else sec')
    (if 1000000 ≤ usec' then usec' - 1000000 else usec')

/-- `operator+` -/
def plus (t₁ t₂ : Timeval) : Option Timeval := do
  let sec ← long (t₁.sec + t₂.sec)
  carry sec (t₁.usec + t₂.usec)

/-- `operator-` -/
def minus (t₁ t₂ : Timeval) : Option Timeval := do
  let sec ← long (t₁.sec - t₂.sec)
  carry sec (t₁.usec - t₂.usec)

/-! ## A time is the number of its microseconds -/

theorem micros_inj {t₁ t₂ : Timeval} (h : t₁.micros = t₂.micros) : t₁ = t₂ := by
  have h₁ := t₁.usec_lt
  have h₂ := t₂.usec_lt
  rw [micros, micros] at h
  exact timeval_ext (by omega) (by omega)

theorem lt_iff_micros (t₁ t₂ : Timeval) : t₁.lt t₂ = true ↔ t₁.micros < t₂.micros := by
  have h₁ := t₁.usec_lt
  have h₂ := t₂.usec_lt
  simp only [lt, micros, Bool.or_eq_true, Bool.and_eq_true, decide_eq_true_eq, beq_iff_eq]
  omega

theorem le_iff_micros (t₁ t₂ : Timeval) : t₁.le t₂ = true ↔ t₁.micros ≤ t₂.micros := by
  have h₁ := t₁.usec_lt
  have h₂ := t₂.usec_lt
  rw [le_iff, micros, micros]
  omega

theorem eq_iff_micros (t₁ t₂ : Timeval) : t₁.eq t₂ = true ↔ t₁.micros = t₂.micros := by
  have h₁ := t₁.usec_lt
  have h₂ := t₂.usec_lt
  simp only [eq, micros, Bool.and_eq_true, beq_iff_eq]
  omega

/-- Fields are a time if its seconds fit. -/
theorem ofFields_some {sec usec : Int} (hsec : -9223372036854775808 ≤ sec)
    (hsec' : sec ≤ 9223372036854775807) (husec : 0 ≤ usec) (husec' : usec < 1000000) :
    ∃ t, ofFields sec usec = some t ∧ t.micros = sec * 1000000 + usec := by
  rw [ofFields, dif_pos ⟨⟨hsec, hsec'⟩, husec, husec'⟩]
  refine ⟨_, rfl, ?_⟩
  rw [micros]
  dsimp only
  rw [Int.toNat_of_nonneg husec]

/-- **One correction is enough** for the sum or the difference of two rests. -/
theorem carry_some {sec usec : Int} (hsec : -9223372036854775808 < sec)
    (hsec' : sec < 9223372036854775807) (husec : -1000000 ≤ usec) (husec' : usec < 2000000) :
    ∃ t, carry sec usec = some t ∧ t.micros = sec * 1000000 + usec := by
  rw [carry]
  by_cases hneg : usec < 0
  · rw [if_pos hneg, if_pos hneg, long, if_pos (by omega), Option.bind_eq_bind, Option.bind_some]
    dsimp only
    rw [if_neg (by omega), if_neg (by omega)]
    obtain ⟨t, ht, hmicros⟩ := @ofFields_some (sec - 1) (usec + 1000000) (by omega) (by omega)
      (by omega) (by omega)
    exact ⟨t, ht, by omega⟩
  · rw [if_neg hneg, if_neg hneg, long, if_pos (by omega), Option.bind_eq_bind, Option.bind_some]
    dsimp only
    by_cases hover : 1000000 ≤ usec
    · rw [if_pos hover, if_pos hover]
      obtain ⟨t, ht, hmicros⟩ := @ofFields_some (sec + 1) (usec - 1000000) (by omega) (by omega)
        (by omega) (by omega)
      exact ⟨t, ht, by omega⟩
    · rw [if_neg hover, if_neg hover]
      exact ofFields_some (by omega) (by omega) (by omega) (by omega)

/-- **The sum is the sum of the microseconds**, if the sum of the seconds fits. -/
theorem plus_some {t₁ t₂ : Timeval} (hlo : -9223372036854775808 < t₁.sec + t₂.sec)
    (hhi : t₁.sec + t₂.sec < 9223372036854775807) :
    ∃ t, t₁.plus t₂ = some t ∧ t.micros = t₁.micros + t₂.micros := by
  have h₁ := t₁.usec_lt
  have h₂ := t₂.usec_lt
  obtain ⟨t, ht, hmicros⟩ := @carry_some (t₁.sec + t₂.sec) (t₁.usec + t₂.usec) hlo hhi (by omega)
    (by omega)
  refine ⟨t, ?_, ?_⟩
  · rw [plus, long, if_pos (by omega), Option.bind_eq_bind, Option.bind_some, ht]
  · rw [hmicros, micros, micros]
    omega

theorem minus_some {t₁ t₂ : Timeval} (hlo : -9223372036854775808 < t₁.sec - t₂.sec)
    (hhi : t₁.sec - t₂.sec < 9223372036854775807) :
    ∃ t, t₁.minus t₂ = some t ∧ t.micros = t₁.micros - t₂.micros := by
  have h₁ := t₁.usec_lt
  have h₂ := t₂.usec_lt
  obtain ⟨t, ht, hmicros⟩ := @carry_some (t₁.sec - t₂.sec) (t₁.usec - t₂.usec) hlo hhi (by omega)
    (by omega)
  refine ⟨t, ?_, ?_⟩
  · rw [minus, long, if_pos (by omega), Option.bind_eq_bind, Option.bind_some, ht]
  · rw [hmicros, micros, micros]
    omega

end Timeval

/-- What is asked of times: their text, sum and difference, and comparisons. -/
structure Calculates (t₁ t₂ : Timeval) : Prop where
  text : Timeval.ofString t₁.getAsString = some t₁
  plus : ∃ t, t₁.plus t₂ = some t ∧ t.micros = t₁.micros + t₂.micros ∧ t.minus t₂ = some t₁
  minus : ∃ t, t₁.minus t₂ = some t ∧ t.micros = t₁.micros - t₂.micros
  lt : t₁.lt t₂ = true ↔ t₁.micros < t₂.micros
  le : t₁.le t₂ = true ↔ t₁.micros ≤ t₂.micros
  eq : t₁.eq t₂ = true ↔ t₁.micros = t₂.micros

/-- What is added and taken away again. -/
theorem Timeval.plus_minus {t₁ t₂ : Timeval} (h₁ : t₁.sec.natAbs < 100000000000)
    (h₂ : t₂.sec.natAbs < 100000000000) :
    ∃ t, t₁.plus t₂ = some t ∧ t.micros = t₁.micros + t₂.micros ∧ t.minus t₂ = some t₁ := by
  obtain ⟨t, ht, hmicros⟩ := @plus_some t₁ t₂ (by omega) (by omega)
  have hsec : t.sec.natAbs < 200000000002 := by
    have husec := t.usec_lt
    have husec₁ := t₁.usec_lt
    have husec₂ := t₂.usec_lt
    rw [micros, micros, micros] at hmicros
    omega
  obtain ⟨t', ht', hmicros'⟩ := @minus_some t t₂ (by omega) (by omega)
  have hback : t' = t₁ := micros_inj (by omega)
  exact ⟨t, ht, hmicros, hback ▸ ht'⟩

/--
**Times calculate as their microseconds do, and those from the epoch on are read as they were
printed.** A time before the epoch never is.
-/
theorem calculates_iff {t₁ t₂ : Timeval} (h₁ : t₁.sec.natAbs < 100000000000)
    (h₂ : t₂.sec.natAbs < 100000000000) : Calculates t₁ t₂ ↔ 0 ≤ t₁.sec := by
  have hkept := ofString_getAsString_iff t₁
  constructor
  · intro h
    exact of_decide_eq_true (hkept.mp h.text).1
  · intro hsec
    refine ⟨hkept.mpr ⟨decide_eq_true hsec, Or.inl (by omega)⟩, Timeval.plus_minus h₁ h₂,
      Timeval.minus_some (by omega) (by omega), t₁.lt_iff_micros t₂, t₁.le_iff_micros t₂,
      t₁.eq_iff_micros t₂⟩

/-- Five and a quarter seconds after the epoch, and half a second before it. -/
theorem calculates_iff_parsed : ∃ t₁ t₂, Timeval.ofLongs 5 250000 = some t₁ ∧
    Timeval.ofLongs 0 (-500000) = some t₂ ∧ (Calculates t₁ t₂ ↔ 0 ≤ t₁.sec) :=
  ⟨_, _, rfl, rfl, calculates_iff (by decide) (by decide)⟩

/-- Half a second before the epoch is not read as it was printed. -/
theorem calculates_fails : ¬ ∀ t₁ t₂ : Timeval, t₁.sec.natAbs < 100000000000 →
    t₂.sec.natAbs < 100000000000 → Calculates t₁ t₂ := by
  intro h
  obtain ⟨t, ht, hsec⟩ : ∃ t, Timeval.ofLongs 0 (-500000) = some t ∧ t.sec = -1 := ⟨_, rfl, rfl⟩
  have hsmall : t.sec.natAbs < 100000000000 := by rw [hsec]; decide
  exact ofString_ne_of_negative (by rw [hsec]; decide) (h t t hsmall hsmall).text

end Encoders.Data
