import Encoders.Text.StringRefines

/-!
# Searching a `String`

`find`, `find_first_of` and `find_last_of` of `libcpphaggle/String.cpp`. All of them are searches
through the positions of the string, behind a test of the arguments; `npos` stands for a search
that found nothing.

The test of `find` refuses a start at the last position where the pattern could be. That is the
one place where the searches and the string disagree.
-/

namespace Encoders.Text

open Encoders.Lib

/-- What `find` and its like look for: a string, or a `const char*`. -/
inductive Pattern where
  | string (j : Nat)
  | chars (t : Chars)

def Pattern.source : Pattern → Source
  | .string j => .buffer j 0
  | .chars t => t.source

def Pattern.textOf (t : Pattern) (f : Texts) : List Chr :=
  match t with
  | .string j => f j
  | .chars t => t.textOf f

/--
`&c`, of which `strlen` is taken as if it were a string: what lies behind the character in memory
is not known.
-/
def addressOf (c : UInt8) (behind : List Chr) : Source :=
  .text (if h : c ≠ 0 then ⟨c, h⟩ :: behind else [])

namespace Strings

/-- The length that goes with a pattern: `slen`, or `strlen`. -/
def lengthOf (w : Strings) : Pattern → Option Nat
  | .string j => some (w j).slen
  | .chars t => w.strlenOf t.source

/-- `find(const char*, pos, n)` -/
def findN (w : Strings) (i : Nat) (src : Source) (pos n : Nat) : Option Nat := do
  let len ← w.strlenOf src
  if len < n ∨ (w i).slen < n ∨ (w i).slen - n ≤ pos then some npos
  else
    let r ← scanUp (fun k => strncmp (w.read (.buffer i k)) (w.read src) 0 n 0)
      ((w i).slen - n + 1 - pos) pos
    some (r.getD npos)

/-- `find(const String&, pos)` and `find(const char*, pos)` -/
def find (w : Strings) (i : Nat) (t : Pattern) (pos : Nat) : Option Nat := do
  let n ← w.lengthOf t
  w.findN i t.source pos n

/-- `find(char, pos)` -/
def findChar (w : Strings) (i : Nat) (c : UInt8) (pos : Nat) : Option Nat :=
  if (w i).slen ≤ pos then some npos
  else do
    let r ← scanUp (fun k => ((w i).charAt k).map (· = c)) ((w i).slen - pos) pos
    some (r.getD npos)

/-- Is the character at a position among the first `n` of a pattern? -/
def among (w : Strings) (i : Nat) (src : Source) (n pos : Nat) : Option Bool := do
  let r ← scanUp (fun k => do
    let c ← (w i).charAt pos
    let d ← w.read src k
    some (c = d)) n 0
  some r.isSome

/-- `find_first_of(const char*, pos, n)` -/
def findFirstOfN (w : Strings) (i : Nat) (src : Source) (pos n : Nat) : Option Nat :=
  if (w i).slen ≤ pos then some npos
  else do
    let len ← w.strlenOf src
    if len < n then some npos
    else
      let r ← scanUp (w.among i src n) ((w i).slen - pos) pos
      some (r.getD npos)

/-- `find_first_of(const String&, pos)` and `find_first_of(const char*, pos)` -/
def findFirstOf (w : Strings) (i : Nat) (t : Pattern) (pos : Nat) : Option Nat := do
  let n ← w.lengthOf t
  w.findFirstOfN i t.source pos n

/-- `find_first_of(char, pos)` -/
def findFirstOfChar (w : Strings) (i : Nat) (c : UInt8) (behind : List Chr) (pos : Nat) :
    Option Nat :=
  w.findFirstOfN i (addressOf c behind) pos 1

/-- `find_last_of(const char*, pos, n)` -/
def findLastOfN (w : Strings) (i : Nat) (src : Source) (pos n : Nat) : Option Nat :=
  let pos := if pos = npos then wrap ((w i).slen + npos) else pos
  if (w i).slen < pos then some npos
  else do
    let len ← w.strlenOf src
    if len < n then some npos
    else
      let r ← scanDown (w.among i src n) (pos + 1)
      some (r.getD npos)

/-- `find_last_of(const String&, pos)` and `find_last_of(const char*, pos)` -/
def findLastOf (w : Strings) (i : Nat) (t : Pattern) (pos : Nat) : Option Nat := do
  let n ← w.lengthOf t
  w.findLastOfN i t.source pos n

/-- `find_last_of(char, pos)` -/
def findLastOfChar (w : Strings) (i : Nat) (c : UInt8) (behind : List Chr) (pos : Nat) :
    Option Nat :=
  w.findLastOfN i (addressOf c behind) pos 1

end Strings

variable {P : Nat → Prop}

/-! ## What a search is to find -/

/-- A text occurs in another one at a position. -/
def Occurs (s t : List Chr) (k : Nat) : Prop := k + t.length ≤ s.length ∧ slice s k t.length = t

/-- One of the characters of a text is at a position. -/
def OneOf (s t : List Chr) (k : Nat) : Prop := ∃ c ∈ t, s[k]? = some c

/-- The least position from `pos` on that has a property, or `npos`. -/
def Least (P : Nat → Prop) (pos r : Nat) : Prop :=
  (pos ≤ r ∧ P r ∧ ∀ k, pos ≤ k → k < r → ¬ P k) ∨ (r = npos ∧ ∀ k, pos ≤ k → ¬ P k)

/-- The greatest position up to `pos` that has a property, or `npos`. -/
def Greatest (P : Nat → Prop) (pos r : Nat) : Prop :=
  (r ≤ pos ∧ P r ∧ ∀ k, r < k → k ≤ pos → ¬ P k) ∨ (r = npos ∧ ∀ k ≤ pos, ¬ P k)

theorem oneOf_lt {s t : List Chr} {k : Nat} (h : OneOf s t k) : k < s.length := by
  obtain ⟨c, -, hc⟩ := h
  exact (List.getElem?_eq_some_iff.mp hc).1

/-- A character occurs where it is. -/
theorem occurs_singleton {s : List Chr} {c : Chr} {k : Nat} : Occurs s [c] k ↔ OneOf s [c] k := by
  have hslice : k < s.length → slice s k 1 = [s[k]?.getD c] := by
    intro hk
    rw [slice, List.take_one, List.head?_drop, List.getElem?_eq_getElem hk]
    rfl
  rw [Occurs, OneOf, List.length_singleton]
  constructor
  · rintro ⟨hk, heq⟩
    rw [hslice (by omega), List.getElem?_eq_getElem (by omega)] at heq
    refine ⟨c, List.mem_singleton_self c, ?_⟩
    rw [List.getElem?_eq_getElem (by omega)]
    exact congrArg some (List.cons.inj heq).1
  · rintro ⟨d, hd, hk⟩
    obtain rfl := List.mem_singleton.mp hd
    have hlt := (List.getElem?_eq_some_iff.mp hk).1
    exact ⟨hlt, by rw [hslice hlt, hk, Option.getD_some]⟩

theorem least_congr {Q : Nat → Prop} (h : ∀ k, P k ↔ Q k) (pos r : Nat) :
    Least P pos r ↔ Least Q pos r := by
  have heq : P = Q := funext fun k => propext (h k)
  rw [heq]

/-- What a search through all positions that come into question finds. -/
theorem least_of_first {pos hi : Nat} {r : Option Nat} (hhi : ∀ k, P k → k < hi)
    (h : IsFirst P pos hi r) : Least P pos (r.getD npos) := by
  cases r with
  | none => exact Or.inr ⟨rfl, fun k hle hP => h k hle (hhi k hP) hP⟩
  | some r => exact Or.inl ⟨h.1.1, h.2⟩

theorem greatest_of_last {pos hi : Nat} {r : Option Nat} (hle : hi ≤ pos + 1)
    (hhi : ∀ k, k ≤ pos → P k → k < hi) (h : IsLast P hi r) : Greatest P pos (r.getD npos) := by
  cases r with
  | none => exact Or.inr ⟨rfl, fun k hk hP => h k (hhi k hk hP) hP⟩
  | some r =>
      obtain ⟨hr, hP, hnone⟩ := h
      exact Or.inl ⟨by rw [Option.getD_some]; omega, hP,
        fun k hgt hk hcon => hnone k hgt (hhi k hk hcon) hcon⟩

/-- Nothing to be found where nothing comes into question any more. -/
theorem least_npos {pos : Nat} (h : ∀ k, pos ≤ k → ¬ P k) : Least P pos npos :=
  Or.inr ⟨rfl, h⟩

namespace Strings

variable {w : Strings} {f : Texts}
variable {i : Nat} {src : Source} {t : List Chr}

/-! ## The searches -/

/-- A pattern gives its text, and its length goes with it. -/
theorem Holds.pattern (h : w.Holds f) (t : Pattern) :
    w.lengthOf t = some (t.textOf f).length ∧ w.Gives t.source (t.textOf f) ∧
      w.strlenOf t.source = some (t.textOf f).length := by
  cases t with
  | string j => exact ⟨congrArg some (h j).length, h.chars (.cStr j)⟩
  | chars t => exact ⟨(h.chars t).2, h.chars t⟩

/-- A character of a string is read as it stands in its text. -/
theorem Holds.charAt (h : w.Holds f) {k : Nat} (hk : k < (f i).length) :
    (w i).charAt k = some (f i)[k].val := by
  rw [(h i).chars k hk.le, Text.terminated, List.getElem?_append_left (by rw [length_bytes]; exact hk),
    bytes, List.getElem?_map, List.getElem?_eq_getElem hk, Option.map_some]

theorem Gives.char (h : w.Gives src t) {k : Nat} (hk : k < t.length) :
    w.read src k = some t[k].val := by
  rw [h k hk.le, Text.terminated, List.getElem?_append_left (by rw [length_bytes]; exact hk), bytes,
    List.getElem?_map, List.getElem?_eq_getElem hk, Option.map_some]

/-- The test of `find`. -/
theorem Holds.strncmp_occurs {w : Strings} {f : Texts} (h : w.Holds f) {i k : Nat} {src : Source}
    {t : List Chr} (hgives : w.Gives src t) (hk : k + t.length ≤ (f i).length) :
    ∃ b, strncmp (w.read (.buffer i k)) (w.read src) 0 t.length 0 = some b ∧
      (b = true ↔ Occurs (f i) t k) := by
  have hlen : (bytes (Lib.slice (f i) k t.length)).length = t.length := by
    rw [length_bytes, Lib.slice, List.length_take_of_le (by rw [List.length_drop]; omega)]
  have hcmp := @strncmp_eq UInt8 _ 0 (w.read (.buffer i k)) (w.read src)
    (bytes (Lib.slice (f i) k t.length)) (bytes t) 0 (bytes_ne_zero _)
    (by rw [hlen, length_bytes]) (fun j c hc => by
      have hj := (List.getElem?_eq_some_iff.mp hc).1
      rw [bytes, List.getElem?_map, slice_getElem?, if_pos (by omega),
        List.getElem?_eq_getElem (by omega), Option.map_some] at hc
      rw [Nat.zero_add, read, h.charAt (by omega)]
      exact hc)
    (fun j d hd => by
      have hj := (List.getElem?_eq_some_iff.mp hd).1
      rw [length_bytes] at hj
      rw [bytes, List.getElem?_map, List.getElem?_eq_getElem hj, Option.map_some] at hd
      rw [Nat.zero_add, hgives.char hj]
      exact hd)
  rw [hlen] at hcmp
  refine ⟨_, hcmp, ?_⟩
  rw [decide_eq_true_iff]
  exact ⟨fun heq => ⟨hk, bytes_inj heq⟩, fun hocc => congrArg bytes hocc.2⟩

/-- **`find` finds what it scans for**; before the scan it tests where to start. -/
theorem Holds.findN (h : w.Holds f) (hgives : w.Gives src t) (hlen : w.strlenOf src = some t.length)
    (pos : Nat) :
    ∃ r, w.findN i src pos t.length = some r ∧
      ((f i).length < t.length ∨ (f i).length - t.length ≤ pos → r = npos) ∧
      (¬ ((f i).length < t.length ∨ (f i).length - t.length ≤ pos) →
        Least (Occurs (f i) t) pos r) := by
  rw [Strings.findN, hlen, Option.bind_eq_bind, Option.bind_some, (h i).length]
  by_cases hearly : (f i).length < t.length ∨ (f i).length - t.length ≤ pos
  · rw [if_pos (Or.inr hearly)]
    exact ⟨npos, rfl, fun _ => rfl, fun hcon => absurd hearly hcon⟩
  · rw [if_neg (fun hcon => hcon.elim (Nat.lt_irrefl _) hearly)]
    obtain ⟨r, hr, hfirst⟩ := @scanUp_first _ (Occurs (f i) t) ((f i).length - t.length + 1 - pos)
      pos (fun k hle hlt => @Holds.strncmp_occurs w f h i k src t hgives (by omega))
    refine ⟨r.getD npos, by rw [hr, Option.bind_eq_bind, Option.bind_some],
      fun hcon => absurd hcon hearly, fun _ => least_of_first (fun k hocc => ?_) hfirst⟩
    have hk := hocc.1
    omega

theorem Holds.find (h : w.Holds f) (i : Nat) (t : Pattern) (pos : Nat) :
    ∃ r, w.find i t pos = some r ∧
      ((f i).length < (t.textOf f).length ∨ (f i).length - (t.textOf f).length ≤ pos → r = npos) ∧
      (¬ ((f i).length < (t.textOf f).length ∨ (f i).length - (t.textOf f).length ≤ pos) →
        Least (Occurs (f i) (t.textOf f)) pos r) := by
  obtain ⟨hlength, hgives, hlen⟩ := h.pattern t
  rw [Strings.find, hlength, Option.bind_eq_bind, Option.bind_some]
  exact h.findN hgives hlen pos

theorem Holds.findChar (h : w.Holds f) (i : Nat) (c : Chr) (pos : Nat) :
    ∃ r, w.findChar i c.val pos = some r ∧ Least (OneOf (f i) [c]) pos r := by
  rw [Strings.findChar, (h i).length]
  by_cases hpos : (f i).length ≤ pos
  · rw [if_pos hpos]
    exact ⟨npos, rfl, least_npos (fun k hle hP => by have := oneOf_lt hP; omega)⟩
  · rw [if_neg hpos]
    obtain ⟨r, hr, hfirst⟩ := @scanUp_first (fun k => ((w i).charAt k).map (· = c.val))
      (OneOf (f i) [c]) ((f i).length - pos) pos (fun k hle hlt => by
        have hk : k < (f i).length := by omega
        refine ⟨decide ((f i)[k].val = c.val), by rw [h.charAt hk, Option.map_some], ?_⟩
        rw [decide_eq_true_iff, OneOf, List.getElem?_eq_getElem hk]
        constructor
        · exact fun heq => ⟨c, List.mem_singleton_self c, congrArg some (Subtype.ext heq)⟩
        · rintro ⟨d, hd, heq⟩
          rw [Option.some.inj heq, List.mem_singleton.mp hd])
    refine ⟨r.getD npos, by rw [hr, Option.bind_eq_bind, Option.bind_some], ?_⟩
    refine least_of_first (fun k hP => ?_) hfirst
    have hk := oneOf_lt hP
    omega

/-- Whether a character is one of a pattern's; the terminator is not. -/
theorem Holds.among (h : w.Holds f) {n pos : Nat} (hgives : w.Gives src t) (hn : n ≤ t.length)
    (hpos : pos ≤ (f i).length) :
    ∃ b, w.among i src n pos = some b ∧ (b = true ↔ OneOf (f i) (t.take n) pos) := by
  have hchar : (w i).charAt pos = some (((f i)[pos]?.map Subtype.val).getD 0) := by
    rcases Nat.lt_or_eq_of_le hpos with hlt | rfl
    · rw [h.charAt hlt, List.getElem?_eq_getElem hlt]
      -- past the last character comes the terminator, which is no character
      rfl
    · rw [(h i).chars _ (Nat.le_refl _), terminated_length, List.getElem?_eq_none (Nat.le_refl _)]
      rfl
  obtain ⟨r, hr, hfirst⟩ := @scanUp_first
    (fun k => do
      let c ← (w i).charAt pos
      let d ← w.read src k
      some (c = d)) (fun k => t[k]? = (f i)[pos]? ∧ k < t.length) n 0 (fun k _ hlt => by
    have hk : k < t.length := by omega
    refine ⟨_, by rw [hchar, Option.bind_eq_bind, Option.bind_some, hgives.char hk,
      Option.bind_some], ?_⟩
    rw [decide_eq_true_iff, List.getElem?_eq_getElem hk]
    cases hget : (f i)[pos]? with
    | none => exact ⟨fun heq => absurd heq.symm t[k].property, fun heq => by cases heq.1⟩
    | some c =>
        exact ⟨fun heq => ⟨congrArg some (Subtype.ext heq.symm), hk⟩,
          fun heq => congrArg Subtype.val (Option.some.inj heq.1).symm⟩)
  refine ⟨r.isSome, by rw [Strings.among, hr, Option.bind_eq_bind, Option.bind_some], ?_⟩
  cases r with
  | none =>
      refine ⟨fun hcon => absurd hcon Bool.false_ne_true, ?_⟩
      rintro ⟨c, hc, hget⟩
      obtain ⟨k, hk, rfl⟩ := List.mem_iff_getElem.mp hc
      rw [List.length_take] at hk
      rw [List.getElem_take] at hget
      exact absurd ⟨(List.getElem?_eq_getElem (by omega)).trans hget.symm, by omega⟩
        (hfirst k (Nat.zero_le k) (by omega))
  | some k =>
      obtain ⟨⟨-, hk⟩, ⟨hget, hkt⟩, -⟩ := hfirst
      refine ⟨fun _ => ⟨t[k], ?_, ?_⟩, fun _ => rfl⟩
      · exact List.mem_take_iff_getElem.mpr ⟨k, by omega, rfl⟩
      · rw [← hget, List.getElem?_eq_getElem hkt]

/-- **`find_first_of` finds the first character that is one of the pattern's.** -/
theorem Holds.findFirstOfN (h : w.Holds f) {n : Nat} (hgives : w.Gives src t)
    (hlen : w.strlenOf src = some t.length) (hn : n ≤ t.length) (pos : Nat) :
    ∃ r, w.findFirstOfN i src pos n = some r ∧ Least (OneOf (f i) (t.take n)) pos r := by
  rw [Strings.findFirstOfN, (h i).length]
  by_cases hpos : (f i).length ≤ pos
  · rw [if_pos hpos]
    exact ⟨npos, rfl, least_npos (fun k hle hP => by have := oneOf_lt hP; omega)⟩
  · obtain ⟨r, hr, hfirst⟩ := @scanUp_first (w.among i src n) (OneOf (f i) (t.take n))
      ((f i).length - pos) pos (fun k _ hlt => h.among hgives hn (by omega))
    rw [if_neg hpos, hlen, Option.bind_eq_bind, Option.bind_some, if_neg (Nat.not_lt.mpr hn)]
    refine ⟨r.getD npos, by rw [hr, Option.bind_eq_bind, Option.bind_some], ?_⟩
    refine least_of_first (fun k hP => ?_) hfirst
    have hk := oneOf_lt hP
    omega

/-- **`find_last_of` finds the last character that is one of the pattern's.** -/
theorem Holds.findLastOfN (h : w.Holds f) {n pos : Nat} (hgives : w.Gives src t)
    (hlen : w.strlenOf src = some t.length) (hn : n ≤ t.length)
    (hpos : pos = npos ∨ pos ≤ (f i).length) :
    ∃ r, w.findLastOfN i src pos n = some r ∧ Greatest (OneOf (f i) (t.take n)) pos r := by
  have hfits := (h i).toShows.fits (h i).bounded
  have hlast : ∀ {hi : Nat}, hi ≤ (f i).length + 1 →
      ∃ r, scanDown (w.among i src n) hi = some r ∧ IsLast (OneOf (f i) (t.take n)) hi r :=
    fun hhi => scanDown_last (fun k hk => h.among hgives hn (by omega))
  rw [Strings.findLastOfN, (h i).length]
  by_cases hall : pos = npos
  · have hend : wrap ((f i).length + npos) = if (f i).length = 0 then npos else (f i).length - 1 := by
      rw [wrap, npos]
      split
      · omega
      · omega
    rw [if_pos hall, hend]
    -- an empty string has nothing to scan
    by_cases hempty : (f i).length = 0
    · rw [if_pos hempty, hempty]
      refine ⟨npos, rfl, Or.inr ⟨rfl, fun k _ hP => ?_⟩⟩
      have hk := oneOf_lt hP
      omega
    · obtain ⟨r, hr, hr'⟩ := @hlast ((f i).length - 1 + 1) (by omega)
      rw [if_neg hempty]
      rw [if_neg (by omega), hlen, Option.bind_eq_bind, Option.bind_some,
        if_neg (Nat.not_lt.mpr hn), hr, Option.bind_eq_bind, Option.bind_some]
      refine ⟨_, rfl, greatest_of_last (by rw [hall, npos]; omega) (fun k _ hP => ?_) hr'⟩
      have hk := oneOf_lt hP
      omega
  · have hle := hpos.resolve_left hall
    obtain ⟨r, hr, hr'⟩ := @hlast (pos + 1) (by omega)
    rw [if_neg hall]
    rw [if_neg (by omega), hlen, Option.bind_eq_bind, Option.bind_some, if_neg (Nat.not_lt.mpr hn),
      hr, Option.bind_eq_bind, Option.bind_some]
    exact ⟨_, rfl, greatest_of_last (Nat.le_refl _) (fun k hk _ => Nat.lt_succ_of_le hk) hr'⟩

/-- `&c` is the character and what lies behind it. -/
theorem gives_addressOf (w : Strings) (c : Chr) (behind : List Chr) :
    w.Gives (addressOf c.val behind) (c :: behind) ∧
      w.strlenOf (addressOf c.val behind) = some (c :: behind).length := by
  rw [addressOf, dif_pos c.property]
  exact ⟨gives_text w _, strlenOf_text w _⟩

theorem Holds.findFirstOf (h : w.Holds f) (i : Nat) (t : Pattern) (pos : Nat) :
    ∃ r, w.findFirstOf i t pos = some r ∧ Least (OneOf (f i) (t.textOf f)) pos r := by
  obtain ⟨hlength, hgives, hlen⟩ := h.pattern t
  obtain ⟨r, hr, hleast⟩ := h.findFirstOfN (i := i) hgives hlen (Nat.le_refl _) pos
  rw [List.take_length] at hleast
  exact ⟨r, by rw [Strings.findFirstOf, hlength, Option.bind_eq_bind, Option.bind_some, hr], hleast⟩

theorem Holds.findFirstOfChar (h : w.Holds f) (i : Nat) (c : Chr) (behind : List Chr) (pos : Nat) :
    ∃ r, w.findFirstOfChar i c.val behind pos = some r ∧ Least (OneOf (f i) [c]) pos r := by
  obtain ⟨hgives, hlen⟩ := gives_addressOf w c behind
  exact h.findFirstOfN hgives hlen (Nat.succ_le_succ (Nat.zero_le _)) pos

theorem Holds.findLastOf (h : w.Holds f) (i : Nat) (t : Pattern) {pos : Nat}
    (hpos : pos = npos ∨ pos ≤ (f i).length) :
    ∃ r, w.findLastOf i t pos = some r ∧ Greatest (OneOf (f i) (t.textOf f)) pos r := by
  obtain ⟨hlength, hgives, hlen⟩ := h.pattern t
  obtain ⟨r, hr, hgreatest⟩ := h.findLastOfN (i := i) hgives hlen (Nat.le_refl _) hpos
  rw [List.take_length] at hgreatest
  exact ⟨r, by rw [Strings.findLastOf, hlength, Option.bind_eq_bind, Option.bind_some, hr],
    hgreatest⟩

theorem Holds.findLastOfChar (h : w.Holds f) (i : Nat) (c : Chr) (behind : List Chr) :
    ∃ r, w.findLastOfChar i c.val behind npos = some r ∧ Greatest (OneOf (f i) [c]) npos r := by
  obtain ⟨hgives, hlen⟩ := gives_addressOf w c behind
  exact h.findLastOfN hgives hlen (Nat.succ_le_succ (Nat.zero_le _)) (Or.inl rfl)

end Strings

/--
What is asked of the searches, from a position on: `find` finds the first occurrence, `find` and
`find_first_of` of a character agree with it, and `find_last_of` of a character finds the last one.
-/
structure Searches (w : Strings) (f : Texts) (i : Nat) (t : Pattern) (pos : Nat) : Prop where
  find : ∃ r, w.find i t pos = some r ∧ Least (Occurs (f i) (t.textOf f)) pos r
  findChar : ∀ c : Chr,
    ∃ r, w.findChar i c.val pos = some r ∧ Least (Occurs (f i) [c]) pos r
  findFirstOf : ∀ c : Chr, t.textOf f = [c] →
    ∃ r, w.findFirstOf i t pos = some r ∧ Least (Occurs (f i) [c]) pos r
  findFirstOfChar : ∀ (c : Chr) (behind : List Chr),
    ∃ r, w.findFirstOfChar i c.val behind pos = some r ∧ Least (Occurs (f i) [c]) pos r
  findLastOf : ∀ (c : Chr) (behind : List Chr),
    ∃ r, w.findLastOfChar i c.val behind npos = some r ∧ Greatest (OneOf (f i) [c]) npos r

/-- The pattern is at the last position where it could be, and the search starts there. -/
def StartsAtLast (s t : List Chr) (pos : Nat) : Prop := s.length = pos + t.length ∧ Occurs s t pos

/-- `find` finds the first occurrence exactly where its first test does not refuse the last. -/
theorem Strings.Holds.find_iff {w : Strings} {f : Texts} (h : w.Holds f) (i : Nat) (t : Pattern)
    (pos : Nat) :
    (∃ r, w.find i t pos = some r ∧ Least (Occurs (f i) (t.textOf f)) pos r) ↔
      ¬ StartsAtLast (f i) (t.textOf f) pos := by
  obtain ⟨r, hr, hearly, hlate⟩ := h.find i t pos
  have hfits := (h i).toShows.fits (h i).bounded
  constructor
  · rintro ⟨r', hr', hleast⟩ ⟨hlast, hocc⟩
    have hnpos : r' = npos := by
      rw [← Option.some.inj (hr.symm.trans hr')]
      exact hearly (by omega)
    rcases hleast with ⟨-, ⟨hle, -⟩, -⟩ | ⟨-, hnone⟩
    · rw [hnpos, npos] at hle
      omega
    · exact hnone pos (Nat.le_refl pos) hocc
  · intro hnot
    by_cases hcase : (f i).length < (t.textOf f).length ∨
        (f i).length - (t.textOf f).length ≤ pos
    · rw [hearly hcase] at hr
      refine ⟨npos, hr, least_npos (fun k hle hocc => hnot ?_)⟩
      have hk := hocc.1
      obtain rfl : k = pos := by omega
      exact ⟨by omega, hocc⟩
    · exact ⟨r, hr, hlate hcase⟩

/--
**The searches find what they are to find exactly unless the pattern is at the last position
where it could be and the search starts there.**
-/
theorem searches_iff {w : Strings} {f : Texts} (h : w.Holds f) (i : Nat) (t : Pattern)
    (pos : UInt64) :
    Searches w f i t pos.toNat ↔ ¬ StartsAtLast (f i) (t.textOf f) pos.toNat := by
  rw [← h.find_iff i t pos.toNat]
  refine ⟨fun hsearches => hsearches.find, fun hfind => ⟨hfind, ?_, ?_, ?_, h.findLastOfChar i⟩⟩
  · intro c
    simp only [least_congr (fun k => occurs_singleton)]
    exact h.findChar i c pos.toNat
  · intro c hc
    simp only [least_congr (fun k => occurs_singleton)]
    rw [← hc]
    exact h.findFirstOf i t pos.toNat
  · intro c behind
    simp only [least_congr (fun k => occurs_singleton)]
    exact h.findFirstOfChar i c behind pos.toNat

/-- A single string of a program, in a buffer of its own. -/
def single (l : List Chr) : Strings := Strings.put (fun _ => .null) 0 ⟨terminated l, l.length⟩

theorem single_holds {l : List Chr} (hlen : l.length + 1 < 18446744073709551616) :
    (single l).Holds (Function.update (fun _ => []) 0 l) := by
  refine @Strings.Holds.put (fun _ => .null) (fun _ => []) (fun _ => good_null) 0 _ l ⟨⟨rfl, ?_⟩, ?_⟩
  · exact fun k _ => charAt_eq (List.ne_nil_of_length_pos (by rw [length_terminated]; omega)) k
  · rw [length_terminated]
    exact hlen

/-- `find("b")` in `"aba"`. -/
theorem searches_iff_single :
    Searches (single (charText 97 ++ charText 98 ++ charText 97))
        (Function.update (fun _ => []) 0 (charText 97 ++ charText 98 ++ charText 97)) 0
        (.chars (.text (charText 98))) (0 : UInt64).toNat :=
  (searches_iff (single_holds (by decide)) 0 (.chars (.text (charText 98))) 0).mpr
    (fun h => absurd h.1 (by decide))

/-- `find("a")` in `"a"` finds nothing. -/
theorem searches_fails : ¬ ∀ (w : Strings) (f : Texts), w.Holds f →
    ∀ (i : Nat) (t : Pattern) (pos : UInt64), Searches w f i t pos.toNat := by
  intro h
  obtain ⟨r, hr, hleast⟩ := (h (single (charText 97)) _ (single_holds (by decide)) 0
    (.chars (.text (charText 97))) 0).find
  have hnpos : (single (charText 97)).find 0 (.chars (.text (charText 97))) (0 : UInt64).toNat =
      some npos := by decide
  have hocc : Occurs (charText 97) (charText 97) 0 := ⟨by decide, rfl⟩
  obtain rfl := Option.some.inj (hnpos.symm.trans hr)
  rcases hleast with ⟨-, ⟨hle, -⟩, -⟩ | ⟨-, hnone⟩
  · exact absurd hle (by decide)
  · exact hnone 0 (Nat.le_refl 0) hocc

end Encoders.Text
