import Mathlib.Data.Nat.Bitwise
import Mathlib.Tactic.IntervalCases

/-!
# Base64

`utils/base64.c`. The encoder turns three bytes into four characters and pads the
last group; the decoder works on groups of four, skips newlines between and inside
groups, and accepts padding only in the very last group.

Characters are bytes. The decoder's output buffer is bounded: it writes while there
is room and goes on without writing otherwise, so the state of a decoding is what
was written and the room that is left.
-/

namespace Encoders.Codec

/-- `b64str` -/
def alphabet : List UInt8 :=
  "ABCDEFGHIJKLMNOPQRSTUVWXYZabcdefghijklmnopqrstuvwxyz0123456789+/".toList.map
    (fun c => UInt8.ofNat c.toNat)

/-- The padding character `=`. -/
def pad : UInt8 := 61

/-- The newline character. -/
def newline : UInt8 := 10

/-- `b64str[i & 0x3f]` -/
def b64str (i : Nat) : UInt8 := alphabet.getD (i &&& 0x3f) 0

/-- The table `b64`, with `none` for its entries `-1`. -/
def b64 (c : UInt8) : Option Nat := alphabet.findIdx? (fun a => a = c)

/-! ## Encoding -/

/-- `base64_encode` into a buffer of the length `base64_encode_alloc` gives it. -/
def encode : List UInt8 → List UInt8
  | [] => []
  | [a] => [b64str (a.toNat >>> 2), b64str (a.toNat <<< 4), pad, pad]
  | [a, b] =>
      [b64str (a.toNat >>> 2), b64str ((a.toNat <<< 4) + (b.toNat >>> 4)),
        b64str (b.toNat <<< 2), pad]
  | a :: b :: c :: rest =>
      b64str (a.toNat >>> 2) :: b64str ((a.toNat <<< 4) + (b.toNat >>> 4)) ::
        b64str ((b.toNat <<< 2) + (c.toNat >>> 6)) :: b64str c.toNat :: encode rest

/-! ## Decoding -/

/-- The output buffer: bytes written, and the room left. -/
structure Out where
  bytes : List UInt8
  left : Nat

/-- `if (*outleft) { *out++ = b; --*outleft; }` -/
def Out.put (o : Out) (b : Nat) : Out :=
  if 0 < o.left then ⟨o.bytes ++ [UInt8.ofNat b], o.left - 1⟩ else o

/-- `decode_4` on all the input that is left; the flag is its return value. -/
def decode4 : List UInt8 → Out → Bool × Out
  | c0 :: c1 :: rest, o =>
      match b64 c0, b64 c1 with
      | some v0, some v1 =>
          let o := o.put ((v0 <<< 2) ||| (v1 >>> 4))
          match rest with
          | [] => (false, o)
          | c2 :: rest =>
              if c2 = pad then
                match rest with
                | [c3] => (c3 = pad, o)
                | _ => (false, o)
              else
                match b64 c2 with
                | none => (false, o)
                | some v2 =>
                    let o := o.put (((v1 <<< 4) &&& 0xf0) ||| (v2 >>> 2))
                    match rest with
                    | [] => (false, o)
                    | c3 :: rest =>
                        if c3 = pad then (rest.isEmpty, o)
                        else
                          match b64 c3 with
                          | none => (false, o)
                          | some v3 => (true, o.put (((v2 <<< 6) &&& 0xc0) ||| v3))
      | _, _ => (false, o)
  | _, o => (false, o)

/-- The inner loop of `base64_decode`: whole groups, as long as they decode. -/
def decodeGroups : List UInt8 → Out → List UInt8 × Out
  | c0 :: c1 :: c2 :: c3 :: rest, o =>
      match decode4 (c0 :: c1 :: c2 :: c3 :: rest) o with
      | (true, o') => decodeGroups rest o'
      -- `out` and `outleft` go back to what they were before this group
      | (false, _) => (c0 :: c1 :: c2 :: c3 :: rest, o)
  | input, o => (input, o)

/-- The copying loop of `get_4`: fill the context up to four, leaving newlines out. -/
def fill : List UInt8 → List UInt8 → List UInt8 × List UInt8
  | ctx, [] => (ctx, [])
  | ctx, c :: rest =>
      if c = newline then fill ctx rest
      else if ctx.length = 3 then (ctx ++ [c], rest)
      else fill (ctx ++ [c]) rest

/-- `get_4`: the context afterwards, the input left, and the characters to decode. -/
def get4 (ctx input : List UInt8) : List UInt8 × List UInt8 × List UInt8 :=
  let ctx := if ctx.length = 4 then [] else ctx
  if ctx = [] ∧ 4 ≤ input.length ∧ newline ∉ input.take 4 then
    (ctx, input.drop 4, input.take 4)
  else
    let (ctx, rest) := fill ctx input
    (ctx, rest, ctx)

/-- The outer loop of `base64_decode`, with a bound on its rounds. -/
def decodeLoop (flush : Bool) : Nat → List UInt8 → List UInt8 → Out → Option (Bool × Out)
  | 0, _, _, _ => none
  | fuel + 1, ctx, input, o =>
      let (input, o) := if ctx = [] ∧ ¬ flush then decodeGroups input o else (input, o)
      if input = [] ∧ ¬ flush then some (true, o)
      else if input.head? = some newline then decodeLoop flush fuel ctx input.tail o
      else
        let (ctx, rest, four) := get4 ctx input
        if four = [] ∨ (four.length < 4 ∧ ¬ flush) then some (true, o)
        else
          match decode4 four o with
          | (false, o) => some (false, o)
          | (true, o) => decodeLoop flush fuel ctx rest o

/-- `base64_decode_alloc` with a new context: the bytes, or `none` for invalid input. -/
def decode (input : List UInt8) : Option (List UInt8) := do
  let needlen := 3 * (input.length / 4) + 2
  let (valid, o) ← decodeLoop input.isEmpty (input.length + 1) [] input ⟨[], needlen⟩
  if valid then some o.bytes else none

/-! ## Round trip -/

/-- The table inverts the alphabet, which has neither padding nor newline in it. -/
theorem b64_b64str (i : Nat) : b64 (b64str i) = some (i % 64) ∧ b64str i ≠ pad := by
  have hall : ∀ j < 64, b64 (alphabet.getD j 0) = some j ∧ alphabet.getD j 0 ≠ pad := by
    decide +kernel
  have hmask : i &&& 0x3f = i % 64 := Nat.and_two_pow_sub_one_eq_mod i 6
  rw [b64str, hmask]
  exact hall (i % 64) (Nat.mod_lt i (by omega))

theorem Out.put_eq {o : Out} {b : Nat} (a : UInt8) (ho : 0 < o.left) (hb : b % 256 = a.toNat) :
    o.put b = ⟨o.bytes ++ [a], o.left - 1⟩ := by
  have ha : UInt8.ofNat b = a := by
    apply UInt8.toNat_inj.mp
    rw [UInt8.toNat_ofNat']; exact hb
  rw [Out.put, if_pos ho, ha]

/-! What `decode_4` makes of the four values of a group, in arithmetic. -/

theorem first_byte {v0 v1 : Nat} (h1 : v1 < 64) : (v0 <<< 2 ||| v1 >>> 4) = 4 * v0 + v1 / 16 := by
  have hlt : v1 >>> 4 < 2 ^ 2 := by rw [Nat.shiftRight_eq_div_pow]; omega
  rw [← Nat.shiftLeft_add_eq_or_of_lt hlt, Nat.shiftLeft_eq, Nat.shiftRight_eq_div_pow]
  omega

theorem second_byte {v1 v2 : Nat} (h1 : v1 < 64) (h2 : v2 < 64) :
    (v1 <<< 4 &&& 0xf0 ||| v2 >>> 2) = 16 * (v1 % 16) + v2 / 4 := by
  have hmask : ∀ v < 64, v <<< 4 &&& 0xf0 = (v % 16) <<< 4 := by decide
  have hlt : v2 >>> 2 < 2 ^ 4 := by rw [Nat.shiftRight_eq_div_pow]; omega
  rw [hmask v1 h1, ← Nat.shiftLeft_add_eq_or_of_lt hlt, Nat.shiftLeft_eq,
    Nat.shiftRight_eq_div_pow]
  omega

theorem third_byte {v2 v3 : Nat} (h2 : v2 < 64) (h3 : v3 < 64) :
    (v2 <<< 6 &&& 0xc0 ||| v3) = 64 * (v2 % 4) + v3 := by
  have hmask : ∀ v < 64, v <<< 6 &&& 0xc0 = (v % 4) <<< 6 := by decide
  rw [hmask v2 h2, ← Nat.shiftLeft_add_eq_or_of_lt (show v3 < 2 ^ 6 by omega), Nat.shiftLeft_eq]
  omega

/-- Groups decode to the bytes they were made from, if there is room for them. -/
theorem decodeGroups_encode : ∀ (bs : List UInt8) (o : Out), bs.length ≤ o.left →
    decodeGroups (encode bs) o = ([], ⟨o.bytes ++ bs, o.left - bs.length⟩)
  -- three bytes at a time; one or two are left at the end
  | [], o, _ => by simp [encode, decodeGroups]
  | [a], o, ho => by
      have ha := a.toNat_lt
      simp only [List.length_singleton] at ho
      simp only [encode, decodeGroups, decode4, (b64_b64str _).1]
      rw [first_byte (Nat.mod_lt _ (by omega)), Out.put_eq a (by omega)]
      · simp
      · simp only [Nat.shiftRight_eq_div_pow, Nat.shiftLeft_eq]; omega
  | [a, b], o, ho => by
      have ha := a.toNat_lt
      have hb := b.toNat_lt
      simp only [List.length_cons, List.length_nil] at ho
      simp only [encode, decodeGroups, decode4, (b64_b64str _).1, (b64_b64str _).2, if_false]
      rw [first_byte (Nat.mod_lt _ (by omega)),
        second_byte (Nat.mod_lt _ (by omega)) (Nat.mod_lt _ (by omega)),
        @Out.put_eq o _ a (by omega),
        @Out.put_eq ⟨o.bytes ++ [a], o.left - 1⟩ _ b (by simp only; omega)]
      · simp [Nat.sub_sub]
      · simp only [Nat.shiftRight_eq_div_pow, Nat.shiftLeft_eq]; omega
      · simp only [Nat.shiftRight_eq_div_pow, Nat.shiftLeft_eq]; omega
  | a :: b :: c :: rest, o, ho => by
      have ha := a.toNat_lt
      have hb := b.toNat_lt
      have hc := c.toNat_lt
      simp only [List.length_cons] at ho
      simp only [encode, decodeGroups, decode4, (b64_b64str _).1, (b64_b64str _).2, if_false]
      rw [first_byte (Nat.mod_lt _ (by omega)),
        second_byte (Nat.mod_lt _ (by omega)) (Nat.mod_lt _ (by omega)),
        third_byte (Nat.mod_lt _ (by omega)) (Nat.mod_lt _ (by omega)),
        @Out.put_eq o _ a (by omega),
        @Out.put_eq ⟨o.bytes ++ [a], o.left - 1⟩ _ b (by simp only; omega),
        @Out.put_eq ⟨o.bytes ++ [a] ++ [b], o.left - 1 - 1⟩ _ c (by simp only; omega)]
      · rw [decodeGroups_encode rest _ (by simp only; omega)]
        simp only [List.append_assoc, List.cons_append, List.nil_append, List.length_cons,
          Prod.mk.injEq, Out.mk.injEq, true_and]
        omega
      · simp only [Nat.shiftRight_eq_div_pow, Nat.shiftLeft_eq]; omega
      · simp only [Nat.shiftRight_eq_div_pow, Nat.shiftLeft_eq]; omega
      · simp only [Nat.shiftRight_eq_div_pow, Nat.shiftLeft_eq]; omega

theorem length_encode : ∀ bs : List UInt8, (encode bs).length = 4 * ((bs.length + 2) / 3)
  | [] => rfl
  | [a] => by simp [encode]
  | [a, b] => by simp [encode]
  | a :: b :: c :: rest => by
      simp only [encode, List.length_cons, length_encode rest]
      omega

/-- **Round trip**: what the encoder produced decodes to what it was given. -/
theorem decode_encode (bs : List UInt8) : decode (encode bs) = some bs := by
  have hlen := length_encode bs
  cases hbs : encode bs with
  | nil =>
      rw [hbs] at hlen
      rw [List.length_nil] at hlen
      have hnil : bs = [] := List.length_eq_zero_iff.mp (by omega)
      rw [hnil]; rfl
  | cons c cs =>
      have hroom : bs.length ≤ 3 * ((c :: cs).length / 4) + 2 := by rw [← hbs, hlen]; omega
      have hgroups := decodeGroups_encode bs ⟨[], 3 * ((c :: cs).length / 4) + 2⟩ hroom
      rw [hbs] at hgroups
      simp only [decode, decodeLoop, List.isEmpty_cons, hgroups]
      simp

end Encoders.Codec
