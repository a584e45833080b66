import Encoders.Lib.Slice

/-!
# Strings in memory

`strcpy`, `strncpy`, `strlen` and `strncmp` as they go through a memory, one element after the
other. The memory is a state with a read and a write that may fail, so that a copy may read what
it has just written.

The rules for the copies ask for a property of the memory after so many elements. For `strcpy` it
must give the elements of the string and then the terminator.

A search goes through positions upwards or downwards with a test that may fail; what it returns is
the first position the test holds at.
-/

namespace Encoders.Lib

variable {σ β : Type} [DecidableEq β]

/-- `strcpy`: up to the terminator `z` and with it. `fuel` bounds the elements. -/
def strcpy (read : σ → Nat → Option β) (write : σ → Nat → β → Option σ) (z : β) :
    Nat → Nat → σ → Option σ
  | 0, _, _ => none
  | fuel + 1, k, s => do
      let c ← read s k
      let s ← write s k c
      if c = z then some s else strcpy read write z fuel (k + 1) s

/-- `strncpy`: so many elements, terminators from the first one on. -/
def strncpy (read : σ → Nat → Option β) (write : σ → Nat → β → Option σ) (z : β) :
    Nat → Nat → Bool → σ → Option σ
  | 0, _, _, s => some s
  | n + 1, k, ended, s => do
      let c ← (if ended then some z else read s k)
      let s ← write s k c
      strncpy read write z n (k + 1) (ended || c = z) s

/-- `strlen`: how many elements there are from `k` on before the terminator. -/
def strlen (read : Nat → Option β) (z : β) : Nat → Nat → Option Nat
  | 0, _ => none
  | fuel + 1, k => do
      let c ← read k
      if c = z then some 0 else (strlen read z fuel (k + 1)).map (· + 1)

variable {read : σ → Nat → Option β} {write : σ → Nat → β → Option σ} {z : β}

/-- **The rule for `strncpy`**, from the `k`-th element of a string on. -/
theorem strncpy_rule_from {P : Nat → σ → Prop} : ∀ {cs : List β} {k : Nat} {s : σ},
    (∀ c ∈ cs, c ≠ z) →
    (∀ (j : Nat) c s, cs[j]? = some c → P (k + j) s →
      read s (k + j) = some c ∧ ∃ s', write s (k + j) c = some s' ∧ P (k + j + 1) s') →
    P k s → ∃ s', strncpy read write z cs.length k false s = some s' ∧ P (k + cs.length) s'
  | [], k, s, _, _, h => ⟨s, rfl, h⟩
  | c :: cs, k, s, hne, hstep, h => by
      obtain ⟨hread, s₁, hwrite, h₁⟩ := hstep 0 c s rfl h
      rw [Nat.add_zero] at hread hwrite h₁
      obtain ⟨s', hs', h'⟩ := @strncpy_rule_from P cs (k + 1) s₁
        (fun d hd => hne d (List.mem_cons_of_mem _ hd)) (fun j d t hd ht => by
          rw [Nat.add_right_comm] at ht ⊢
          exact hstep (j + 1) d t hd ht) h₁
      refine ⟨s', ?_, ?_⟩
      · have hcz : (c = z) = False := eq_false (hne c List.mem_cons_self)
        simp only [List.length_cons, strncpy, Bool.false_eq_true, if_false, hread,
          Option.bind_eq_bind, Option.bind_some, hwrite, hcz, decide_false, Bool.or_false, hs']
      · rw [List.length_cons, ← Nat.add_assoc, Nat.add_right_comm]
        exact h'

theorem strncpy_rule {P : Nat → σ → Prop} {cs : List β} {s : σ} (hne : ∀ c ∈ cs, c ≠ z)
    (hstep : ∀ (k : Nat) c s, cs[k]? = some c → P k s →
      read s k = some c ∧ ∃ s', write s k c = some s' ∧ P (k + 1) s') (h : P 0 s) :
    ∃ s', strncpy read write z cs.length 0 false s = some s' ∧ P cs.length s' := by
  have hrule := @strncpy_rule_from σ β _ read write z P cs 0 s hne
    (fun j c s hc hs => by rw [Nat.zero_add] at hs ⊢; exact hstep j c s hc hs) h
  rwa [Nat.zero_add] at hrule

/-- **The rule for `strcpy`**, from the `k`-th element of a string on. -/
theorem strcpy_rule_from {P : Nat → σ → Prop} : ∀ {cs : List β} {fuel k : Nat} {s : σ},
    (∀ c ∈ cs, c ≠ z) → cs.length < fuel →
    (∀ (j : Nat) c s, (cs ++ [z])[j]? = some c → P (k + j) s →
      read s (k + j) = some c ∧ ∃ s', write s (k + j) c = some s' ∧ P (k + j + 1) s') →
    P k s → ∃ s', strcpy read write z fuel k s = some s' ∧ P (k + cs.length + 1) s'
  | [], fuel, k, s, _, hfuel, hstep, h => by
      obtain ⟨fuel, rfl⟩ := Nat.exists_eq_succ_of_ne_zero (Nat.ne_of_gt hfuel)
      obtain ⟨hread, s', hwrite, h'⟩ := hstep 0 z s rfl h
      rw [Nat.add_zero] at hread hwrite h'
      refine ⟨s', ?_, h'⟩
      rw [Nat.succ_eq_add_one, strcpy, hread, Option.bind_eq_bind, Option.bind_some, hwrite,
        Option.bind_eq_bind, Option.bind_some, if_pos rfl]
  | c :: cs, fuel, k, s, hne, hfuel, hstep, h => by
      obtain ⟨fuel, rfl⟩ := Nat.exists_eq_succ_of_ne_zero (Nat.ne_of_gt (Nat.zero_lt_of_lt hfuel))
      obtain ⟨hread, s₁, hwrite, h₁⟩ := hstep 0 c s rfl h
      rw [Nat.add_zero] at hread hwrite h₁
      obtain ⟨s', hs', h'⟩ := @strcpy_rule_from P cs fuel (k + 1) s₁
        (fun d hd => hne d (List.mem_cons_of_mem _ hd)) (Nat.lt_of_succ_lt_succ hfuel)
        (fun j d t hd ht => by
          rw [Nat.add_right_comm] at ht ⊢
          exact hstep (j + 1) d t hd ht) h₁
      refine ⟨s', ?_, ?_⟩
      · rw [Nat.succ_eq_add_one, strcpy, hread, Option.bind_eq_bind, Option.bind_some, hwrite,
          Option.bind_eq_bind, Option.bind_some, if_neg (hne c List.mem_cons_self), hs']
      · rw [List.length_cons, ← Nat.add_assoc, Nat.add_right_comm k]
        exact h'

theorem strcpy_rule {P : Nat → σ → Prop} {cs : List β} {fuel : Nat} {s : σ}
    (hne : ∀ c ∈ cs, c ≠ z) (hfuel : cs.length < fuel)
    (hstep : ∀ (k : Nat) c s, (cs ++ [z])[k]? = some c → P k s →
      read s k = some c ∧ ∃ s', write s k c = some s' ∧ P (k + 1) s') (h : P 0 s) :
    ∃ s', strcpy read write z fuel 0 s = some s' ∧ P (cs.length + 1) s' := by
  have hrule := @strcpy_rule_from σ β _ read write z P cs fuel 0 s hne hfuel
    (fun j c s hc hs => by rw [Nat.zero_add] at hs ⊢; exact hstep j c s hc hs) h
  rwa [Nat.zero_add] at hrule

/-- What every write keeps, a copy keeps. -/
theorem strcpy_keeps {P : σ → Prop} (hwrite : ∀ s k c s', P s → write s k c = some s' → P s') :
    ∀ (fuel k : Nat) (s s' : σ), P s → strcpy read write z fuel k s = some s' → P s'
  | 0, _, _, _, _, h => by cases h
  | fuel + 1, k, s, s', hs, h => by
      rw [strcpy] at h
      obtain ⟨c, -, h⟩ := Option.bind_eq_some_iff.mp h
      obtain ⟨t, ht, h⟩ := Option.bind_eq_some_iff.mp h
      have hkept := hwrite s k c t hs ht
      split at h
      · rw [← Option.some.inj h]
        exact hkept
      · exact strcpy_keeps hwrite fuel (k + 1) t s' hkept h

theorem strncpy_keeps {P : σ → Prop} (hwrite : ∀ s k c s', P s → write s k c = some s' → P s') :
    ∀ (n k : Nat) (ended : Bool) (s s' : σ), P s → strncpy read write z n k ended s = some s' → P s'
  | 0, _, _, _, _, hs, h => Option.some.inj h ▸ hs
  | n + 1, k, ended, s, s', hs, h => by
      rw [strncpy] at h
      obtain ⟨c, -, h⟩ := Option.bind_eq_some_iff.mp h
      obtain ⟨t, ht, h⟩ := Option.bind_eq_some_iff.mp h
      exact strncpy_keeps hwrite n (k + 1) _ t s' (hwrite s k c t hs ht) h

/-- The length of a string that lies in memory from `k` on. -/
theorem strlen_eq {read : Nat → Option β} : ∀ {cs : List β} {fuel k : Nat}, (∀ c ∈ cs, c ≠ z) →
    cs.length < fuel → (∀ (j : Nat) c, (cs ++ [z])[j]? = some c → read (k + j) = some c) →
    strlen read z fuel k = some cs.length
  | [], fuel, k, _, hfuel, hread => by
      obtain ⟨fuel, rfl⟩ := Nat.exists_eq_succ_of_ne_zero (Nat.ne_of_gt hfuel)
      rw [Nat.succ_eq_add_one, strlen, show read k = some z from hread 0 z rfl,
        Option.bind_eq_bind, Option.bind_some, if_pos rfl]
      rfl
  | c :: cs, fuel, k, hne, hfuel, hread => by
      obtain ⟨fuel, rfl⟩ := Nat.exists_eq_succ_of_ne_zero (Nat.ne_of_gt (Nat.zero_lt_of_lt hfuel))
      have hrest := @strlen_eq read cs fuel (k + 1)
        (fun d hd => hne d (List.mem_cons_of_mem _ hd)) (Nat.lt_of_succ_lt_succ hfuel)
        (fun j d hd => by rw [Nat.add_right_comm]; exact hread (j + 1) d hd)
      rw [Nat.succ_eq_add_one, strlen, show read k = some c from hread 0 c rfl,
        Option.bind_eq_bind, Option.bind_some, if_neg (hne c List.mem_cons_self), hrest]
      rfl

/-- `strncmp(...) == 0` -/
def strncmp (read₁ read₂ : Nat → Option β) (z : β) : Nat → Nat → Option Bool
  | 0, _ => some true
  | n + 1, k => do
      let c ← read₁ k
      let d ← read₂ k
      if c ≠ d then some false else if c = z then some true else strncmp read₁ read₂ z n (k + 1)

/-- Two strings of so many elements are compared to the end. -/
theorem strncmp_eq {read₁ read₂ : Nat → Option β} : ∀ {cs ds : List β} {k : Nat},
    (∀ c ∈ cs, c ≠ z) → ds.length = cs.length →
    (∀ (j : Nat) c, cs[j]? = some c → read₁ (k + j) = some c) →
    (∀ (j : Nat) d, ds[j]? = some d → read₂ (k + j) = some d) →
    strncmp read₁ read₂ z cs.length k = some (decide (cs = ds))
  | [], [], _, _, _, _, _ => rfl
  | c :: cs, d :: ds, k, hne, hlen, hread₁, hread₂ => by
      have hrest := @strncmp_eq read₁ read₂ cs ds (k + 1)
        (fun e he => hne e (List.mem_cons_of_mem _ he)) (Nat.succ.inj hlen)
        (fun j e he => by rw [Nat.add_right_comm]; exact hread₁ (j + 1) e he)
        (fun j e he => by rw [Nat.add_right_comm]; exact hread₂ (j + 1) e he)
      rw [List.length_cons, strncmp, show read₁ k = some c from hread₁ 0 c rfl,
        show read₂ k = some d from hread₂ 0 d rfl, Option.bind_eq_bind, Option.bind_some,
        Option.bind_some, if_neg (hne c List.mem_cons_self), hrest]
      by_cases hcd : c = d
      · rw [if_neg (not_not_intro hcd), hcd]
        simp only [List.cons.injEq, true_and]
      · rw [if_pos hcd]
        simp only [List.cons.injEq, hcd, false_and, decide_false]

/-! ## Searching -/

/-- Test so many positions from `pos` on, until one holds. -/
def scanUp (test : Nat → Option Bool) : Nat → Nat → Option (Option Nat)
  | 0, _ => some none
  | left + 1, pos => do
      let found ← test pos
      if found then some (some pos) else scanUp test left (pos + 1)

/-- Test the positions below `pos` downwards, until one holds. -/
def scanDown (test : Nat → Option Bool) : Nat → Option (Option Nat)
  | 0 => some none
  | pos + 1 => do
      let found ← test pos
      if found then some (some pos) else scanDown test pos

/-- The least position between bounds that has a property, if there is one. -/
def IsFirst (P : Nat → Prop) (lo hi : Nat) : Option Nat → Prop
  | some r => (lo ≤ r ∧ r < hi) ∧ P r ∧ ∀ k, lo ≤ k → k < r → ¬ P k
  | none => ∀ k, lo ≤ k → k < hi → ¬ P k

/-- The greatest position below a bound that has a property, if there is one. -/
def IsLast (P : Nat → Prop) (hi : Nat) : Option Nat → Prop
  | some r => r < hi ∧ P r ∧ ∀ k, r < k → k < hi → ¬ P k
  | none => ∀ k < hi, ¬ P k

/-- **The rule for a search upwards.** -/
theorem scanUp_first {test : Nat → Option Bool} {P : Nat → Prop} : ∀ {left pos : Nat},
    (∀ k, pos ≤ k → k < pos + left → ∃ b, test k = some b ∧ (b = true ↔ P k)) →
    ∃ r, scanUp test left pos = some r ∧ IsFirst P pos (pos + left) r
  | 0, pos, _ => ⟨none, rfl, fun k hle hlt => by omega⟩
  | left + 1, pos, htest => by
      obtain ⟨b, hb, hP⟩ := htest pos (Nat.le_refl pos) (by omega)
      rw [scanUp, hb, Option.bind_eq_bind, Option.bind_some]
      by_cases hfound : b = true
      · exact ⟨some pos, if_pos hfound, ⟨Nat.le_refl pos, by omega⟩, hP.mp hfound,
          fun k hle hlt => by omega⟩
      · obtain ⟨r, hr, hfirst⟩ := @scanUp_first test P left (pos + 1)
          (fun k hle hlt => htest k (by omega) (by omega))
        have hpos : ¬ P pos := fun hcon => hfound (hP.mpr hcon)
        rw [if_neg hfound]
        refine ⟨r, hr, ?_⟩
        cases r with
        | none =>
            intro k hle hlt
            rcases Nat.eq_or_lt_of_le hle with rfl | hgt
            · exact hpos
            · exact hfirst k hgt (by omega)
        | some r =>
            obtain ⟨⟨hle, hlt⟩, hr', hnone⟩ := hfirst
            refine ⟨⟨by omega, by omega⟩, hr', fun k hlo hhi => ?_⟩
            rcases Nat.eq_or_lt_of_le hlo with rfl | hgt
            · exact hpos
            · exact hnone k hgt hhi

/-- **The rule for a search downwards.** -/
theorem scanDown_last {test : Nat → Option Bool} {P : Nat → Prop} : ∀ {pos : Nat},
    (∀ k < pos, ∃ b, test k = some b ∧ (b = true ↔ P k)) →
    ∃ r, scanDown test pos = some r ∧ IsLast P pos r
  | 0, _ => ⟨none, rfl, fun k hlt => absurd hlt (Nat.not_lt_zero k)⟩
  | pos + 1, htest => by
      obtain ⟨b, hb, hP⟩ := htest pos (Nat.lt_succ_self pos)
      rw [scanDown, hb, Option.bind_eq_bind, Option.bind_some]
      by_cases hfound : b = true
      · exact ⟨some pos, if_pos hfound, Nat.lt_succ_self pos, hP.mp hfound,
          fun k hgt hlt => by omega⟩
      · obtain ⟨r, hr, hlast⟩ := @scanDown_last test P pos (fun k hlt => htest k (by omega))
        have hpos : ¬ P pos := fun hcon => hfound (hP.mpr hcon)
        rw [if_neg hfound]
        refine ⟨r, hr, ?_⟩
        cases r with
        | none =>
            intro k hlt
            rcases Nat.eq_or_lt_of_le (Nat.le_of_lt_succ hlt) with rfl | hk
            · exact hpos
            · exact hlast k hk
        | some r =>
            obtain ⟨hlt, hr', hnone⟩ := hlast
            refine ⟨by omega, hr', fun k hgt hk => ?_⟩
            rcases Nat.eq_or_lt_of_le (Nat.le_of_lt_succ hk) with rfl | hk'
            · exact hpos
            · exact hnone k hgt hk'

end Encoders.Lib
