import Mathlib.Data.List.Perm.Basic
import Mathlib.Tactic.Linarith
import Encoders.Interest.Aggregate

/-!
# What becomes of interests on the way

An application's interests come out at the receiver as they went in, but for the attribute
that is added there, unless one of four things goes wrong: a name has the separator in it and
is cut there; both the name and the value are empty, and `String::find` does not find the
separator in a text that is nothing else; two of the attributes are equal up to a wildcard, of
which the node description keeps one; or the create time does not survive being a number of
microseconds and a text of nineteen characters.

`aggregate_round_trips_iff` says that these are all: the node descriptions are those of the
applications exactly if none of this happens.
-/

namespace Encoders.Interest

open Encoders.Lib Encoders.Data

variable {a : Attribute} {t : Timeval} {d : DataObject}

/-! ## Texts that are cut where they were joined -/

/-- The code of the separator. -/
def separator : UInt8 := 61

theorem stringFind_separator {x y : CString} (hx : separator ∉ x)
    (hlen : 2 ≤ (x ++ separator :: y).length) :
    stringFind (x ++ separator :: y) (lit "=") = some x.length := by
  have htext : (lit "=").length = 1 := rfl
  unfold stringFind
  rw [htext, if_neg (by omega), List.find?_range_eq_some]
  have hat : ∀ pos, (((x ++ separator :: y).drop pos).take 1 = lit "=") ↔
      (x ++ separator :: y)[pos]? = some separator := by
    intro pos
    rw [← List.head?_drop]
    cases (x ++ separator :: y).drop pos with
    | nil => exact ⟨nofun, nofun⟩
    | cons b l =>
        rw [List.take_succ_cons, List.take_zero, List.head?_cons, Option.some.injEq]
        exact ⟨fun h => (List.cons.inj h).1, fun h => by rw [h]; rfl⟩
  refine ⟨?_, List.mem_range.mpr ?_, ?_⟩
  · rw [decide_eq_true_eq, hat, List.getElem?_append_right (Nat.le_refl _), Nat.sub_self]
    rfl
  · rw [List.length_append] at hlen ⊢
    rw [List.length_cons]
    omega
  · intro pos hpos
    rw [Bool.not_eq_true', decide_eq_false_iff_not, hat, List.getElem?_append_left hpos]
    intro h
    exact hx (List.mem_of_getElem? h)

/-- A text is cut at its first separator. -/
theorem splitInterest_spec {x y : CString} (hx : separator ∉ x)
    (hlen : 2 ≤ (x ++ separator :: y).length) :
    splitInterest (x ++ separator :: y) = (x, y) := by
  unfold splitInterest
  rw [stringFind_separator hx hlen]
  have hwhole : (x ++ separator :: y).length = x.length + (y.length + 1) := by
    rw [List.length_append, List.length_cons]
  refine Prod.ext ?_ ?_
  · unfold substr
    rw [if_neg (by omega)]
    exact List.take_left' rfl
  · have hdrop : (x ++ separator :: y).drop (x.length + 1) = y := by
      rw [List.append_cons]
      exact List.drop_left' (by rw [List.length_append]; rfl)
    unfold substr
    by_cases hend : x.length + 1 ≥ (x ++ separator :: y).length
    · simp only
      rw [if_pos hend, List.length_eq_zero_iff.mp (show y.length = 0 by omega)]
    · simp only
      rw [if_neg hend, hdrop]

/-- Alone the separator is not found, and the text is both the name and the value. -/
theorem splitInterest_alone : splitInterest [separator] = ([separator], [separator]) := by
  decide

/-- What the receiver makes of an interest. -/
def received (a : Attribute) : Attribute :=
  ⟨(splitInterest (a.name ++ lit "=" ++ a.value)).1,
    (splitInterest (a.name ++ lit "=" ++ a.value)).2, a.weight⟩

/-- An interest that is cut where it was joined. -/
structure Cut (a : Attribute) : Prop where
  name : separator ∉ a.name
  nonempty : ¬ (a.name = [] ∧ a.value = [])

theorem received_of_cut (h : Cut a) : received a = a := by
  have hlen : 2 ≤ (a.name ++ separator :: a.value).length := by
    rw [List.length_append, List.length_cons]
    by_contra hshort
    exact h.nonempty ⟨List.length_eq_zero_iff.mp (by omega),
      List.length_eq_zero_iff.mp (by omega)⟩
  have hsplit := splitInterest_spec h.name hlen
  have hjoin : a.name ++ lit "=" ++ a.value = a.name ++ separator :: a.value := by
    rw [List.append_assoc]
    rfl
  unfold received
  rw [hjoin, hsplit]

/-- Only an interest of nothing gets a name with a separator. -/
theorem received_cases (a : Attribute) :
    separator ∉ (received a).name ∧ ¬ ((received a).name = [] ∧ (received a).value = []) ∨
      a.name = [] ∧ a.value = [] ∧ (received a).name = [separator] := by
  have hjoin : a.name ++ lit "=" ++ a.value = a.name ++ separator :: a.value := by
    rw [List.append_assoc]
    rfl
  by_cases hempty : a.name = [] ∧ a.value = []
  · refine Or.inr ⟨hempty.1, hempty.2, ?_⟩
    unfold received
    rw [hjoin, hempty.1, hempty.2]
    exact congrArg Prod.fst splitInterest_alone
  · left
    -- the text up to the first separator
    obtain ⟨x, y, htext, hx⟩ : ∃ x y, a.name ++ separator :: a.value = x ++ separator :: y ∧
        separator ∉ x :=
      List.eq_append_cons_of_mem (List.mem_append_right _ List.mem_cons_self)
    have hlen : (a.name ++ separator :: a.value).length = a.name.length + a.value.length + 1 := by
      rw [List.length_append, List.length_cons]
      omega
    have hlen' : 2 ≤ (x ++ separator :: y).length := by
      rw [← htext, hlen]
      by_contra hshort
      exact hempty ⟨List.length_eq_zero_iff.mp (by omega),
        List.length_eq_zero_iff.mp (by omega)⟩
    have hsplit := splitInterest_spec hx hlen'
    unfold received
    rw [hjoin, htext, hsplit]
    refine ⟨hx, fun hnil => ?_⟩
    have hx' : x = [] := hnil.1
    have hy' : y = [] := hnil.2
    rw [hx', hy'] at hlen'
    exact absurd hlen' (by decide)

/-- **The interests come out as they went in exactly if each is cut where it was joined.** -/
theorem received_perm_iff (attrs : List Attribute) :
    (attrs.map received).Perm attrs ↔ ∀ a ∈ attrs, Cut a := by
  constructor
  · intro hperm
    -- nothing comes out without a name and a value
    have hnonempty : ∀ a ∈ attrs, ¬ (a.name = [] ∧ a.value = []) := by
      intro a ha hnil
      obtain ⟨b, _, hb⟩ := List.mem_map.mp (hperm.mem_iff.mpr ha)
      rcases received_cases b with ⟨_, hne⟩ | ⟨_, _, hname⟩
      · rw [hb] at hne
        exact hne hnil
      · rw [hb, hnil.1] at hname
        cases hname
    intro a ha
    obtain ⟨b, hmem, hb⟩ := List.mem_map.mp (hperm.mem_iff.mpr ha)
    refine ⟨?_, hnonempty a ha⟩
    rcases received_cases b with ⟨hname, _⟩ | ⟨hnil, hnil', _⟩
    · rw [hb] at hname
      exact hname
    · exact absurd ⟨hnil, hnil'⟩ (hnonempty b hmem)
  · intro hcut
    have hsame : attrs.map received = attrs := by
      conv_rhs => rw [← List.map_id attrs]
      exact List.map_congr_left (fun a ha => received_of_cut (hcut a ha))
    rw [hsame]

/-! ## Numbers -/

theorem toInt_small {n : Nat} (h : n < 2147483648) : toInt n = n := by
  unfold toInt
  exact Int.bmod_eq_of_le (by omega) (by omega)

theorem isAscii_sprintfD {i : Int} : ∀ c ∈ sprintfD i, c.toNat < 128 := by
  have hdigits : ∀ n : Nat, ∀ c ∈ Nat.toDigits 10 n, c.toNat < 128 := by
    intro n c hc
    have := toNat_isDigit (isDigit_toDigits hc)
    omega
  intro c hc
  unfold sprintfD at hc
  split at hc
  · rcases List.mem_cons.mp hc with hminus | hdigit
    · rw [hminus]
      decide
    · exact hdigits _ c hdigit
  · exact hdigits _ c hc

theorem behindSign_digits {c : Char} {ds : List Char} (h : c.isDigit = true) :
    behindSign (c :: ds) = c :: ds := by
  obtain ⟨hblank, hminus, hplus, _⟩ := isDigit_plain h
  unfold behindSign
  rw [List.dropWhile_cons_of_neg (by rw [hblank]; exact Bool.false_ne_true)]
  split
  · next heq => exact absurd (List.cons.inj heq).1 hminus
  · next heq => exact absurd (List.cons.inj heq).1 hplus
  · rfl

/-- A printed `long` is read as the number modulo the size of an `unsigned long`. -/
theorem parseNumber_printed {i : Int} (hlo : -9223372036854775808 ≤ i)
    (hhi : i ≤ 9223372036854775807) :
    parseNumber (printed i) = some (i % 18446744073709551616).toNat := by
  have hbody : ∀ n : Nat, (Nat.toDigits 10 n).takeWhile Char.isDigit ≠ [] := by
    intro n
    rw [List.takeWhile_eq_self_iff.mpr (fun c hc => isDigit_toDigits hc)]
    exact Nat.toDigits_ne_nil
  unfold parseNumber printed
  rw [chars_ascii isAscii_sprintfD]
  unfold sprintfD
  by_cases hneg : i < 0
  · rw [if_pos hneg]
    have hbehind : behindSign ('-' :: Nat.toDigits 10 i.natAbs) = Nat.toDigits 10 i.natAbs := rfl
    rw [hbehind, if_neg (hbody _)]
    unfold strtoul
    rw [List.dropWhile_cons_of_neg (by decide)]
    simp only [leadingNumber_toDigits]
    rw [if_pos (by omega)]
    congr 1
    omega
  · rw [if_neg hneg]
    obtain ⟨c, ds, hdigits, hc⟩ := toDigits_cons i.natAbs
    have hbehind : behindSign (Nat.toDigits 10 i.natAbs) = Nat.toDigits 10 i.natAbs := by
      rw [hdigits]
      exact behindSign_digits hc
    rw [hbehind, if_neg (hbody _), strtoul_digits (fun c hc => isDigit_toDigits hc),
      Nat.ofDigitChars_ten_toDigits]
    congr 1
    omega

theorem sprintfD_nat (n : Nat) : sprintfD n = Nat.toDigits 10 n := by
  unfold sprintfD
  rw [if_neg (by omega), Int.natAbs_natCast]

theorem parseNumber_printed_nat {n : Nat} (h : n < 9223372036854775808) :
    parseNumber (printed n) = some n := by
  rw [parseNumber_printed (by omega) (by omega)]
  congr 1
  omega

theorem strtoul_printed {n : Nat} (h : n < 18446744073709551616) :
    strtoul (chars (printed n)) = n := by
  unfold printed
  rw [chars_ascii isAscii_sprintfD, sprintfD_nat, strtoul_digits (fun c hc => isDigit_toDigits hc),
    Nat.ofDigitChars_ten_toDigits]
  omega

/-- Ten digits fit into the eleven bytes. -/
theorem getWeightAsString_small (h : a.weight.toNat < 2147483648) :
    getWeightAsString a = printed a.weight.toNat := by
  have hlen : (Nat.toDigits 10 a.weight.toNat).length ≤ 10 :=
    (Nat.length_toDigits_le_iff (by decide) (by decide)).mpr
      (Nat.lt_of_lt_of_le h (by decide))
  unfold getWeightAsString printed snprintf
  rw [sprintfD_nat, List.take_of_length_le hlen]

/-! ## The create time -/

/-- A time to the millisecond. -/
def toMilliseconds (t : Timeval) : Timeval :=
  ⟨t.sec, t.usec / 1000 * 1000, t.sec_lo, t.sec_hi, by have := t.usec_lt; omega⟩

/-- The milliseconds, as they are read. -/
def readMilliseconds (t : Timeval) : Nat :=
  (toLong (getTimeAsMilliSeconds t) % 18446744073709551616).toNat

/-- The create time of the node description. -/
def arrivedTime (t : Timeval) : Option Timeval :=
  (ofMicroseconds (toLong (1000 * (readMilliseconds t : Int)))).bind
    (fun ct => Timeval.ofString ct.getAsString)

/-- The microseconds are a `long`, and the text of the time has all its digits or needs none. -/
structure InTime (t : Timeval) : Prop where
  microseconds : 1000 * getTimeAsMilliSeconds t ≤ 9223372036854775807
  text : t.sec < 1000000000000 ∨ t.usec < 1000

theorem toLong_spec (n : Int) : ∃ k : Int, toLong n = n + k * 18446744073709551616 ∧
    -9223372036854775808 ≤ toLong n ∧ toLong n ≤ 9223372036854775807 := by
  unfold toLong
  have hlo := Int.le_bmod (x := n) (m := 18446744073709551616) (by decide)
  have hhi := Int.bmod_lt (x := n) (m := 18446744073709551616) (by decide)
  have hmod := Int.bmod_emod (x := n) (m := 18446744073709551616)
  refine ⟨(n.bmod 18446744073709551616 - n) / 18446744073709551616, ?_, by omega, by omega⟩
  omega

theorem parseNumber_milliseconds (t : Timeval) :
    parseNumber (printed (toLong (getTimeAsMilliSeconds t))) = some (readMilliseconds t) := by
  obtain ⟨_, _, hlo, hhi⟩ := toLong_spec (getTimeAsMilliSeconds t)
  exact parseNumber_printed hlo hhi

theorem ofMicroseconds_spec {x : Int} (hlo : -9223372036854775808 ≤ x)
    (hhi : x ≤ 9223372036854775807) :
    ∃ u, ofMicroseconds x = some u ∧ u.sec = x / 1000000 ∧ u.usec = (x % 1000000).toNat := by
  unfold ofMicroseconds Timeval.ofLongs
  rw [dif_pos (by omega)]
  exact ⟨_, rfl, by dsimp only; omega, rfl⟩

theorem length_secondsDigits_17 {u : Timeval} (h : u.sec < 100000000000000000) :
    (secondsDigits u).length ≤ 17 := by
  rw [length_secondsDigits_le 17 (by decide), show Nat.pow 10 17 = 100000000000000000 from rfl]
  omega

/-- The microseconds that arrive, and the time that is made of them. -/
theorem arrivedTime_eq (t : Timeval) :
    ∃ (x k : Int) (u : Timeval), x = 1000 * (t.sec * 1000 + t.usec / 1000) +
        k * 18446744073709551616 ∧
      -9223372036854775808 ≤ x ∧ x ≤ 9223372036854775807 ∧
      u.sec = x / 1000000 ∧ u.usec = (x % 1000000).toNat ∧
      arrivedTime t = Timeval.ofString u.getAsString := by
  obtain ⟨p, hp⟩ : ∃ p, p = toLong (getTimeAsMilliSeconds t) := ⟨_, rfl⟩
  obtain ⟨k, hk, _, _⟩ := toLong_spec (getTimeAsMilliSeconds t)
  rw [← hp] at hk
  have hread : (readMilliseconds t : Int) =
      p - 18446744073709551616 * (p / 18446744073709551616) := by
    unfold readMilliseconds
    rw [← hp, Int.toNat_of_nonneg (Int.emod_nonneg p (by decide)), Int.emod_def]
  obtain ⟨k', hk', hlo, hhi⟩ := toLong_spec (1000 * (readMilliseconds t : Int))
  obtain ⟨u, hu, hsec, husec⟩ := ofMicroseconds_spec hlo hhi
  have hmillis : getTimeAsMilliSeconds t = t.sec * 1000 + t.usec / 1000 := rfl
  refine ⟨toLong (1000 * (readMilliseconds t : Int)),
    1000 * (k - p / 18446744073709551616) + k', u, ?_, hlo, hhi, hsec, husec, ?_⟩
  · rw [hk', hread]
    generalize p / 18446744073709551616 = q
    rw [hmillis] at hk
    linarith
  · unfold arrivedTime
    rw [hu, Option.bind_some]

theorem arrivedTime_of_fits (hsec : 0 ≤ t.sec)
    (hfits : 1000 * getTimeAsMilliSeconds t ≤ 9223372036854775807) :
    arrivedTime t = some (toMilliseconds t) ↔ t.sec < 1000000000000 ∨ t.usec < 1000 := by
  obtain ⟨x, k, u, hx, hlo, hhi, hus, huu, heq⟩ := arrivedTime_eq t
  have husec := t.usec_lt
  unfold getTimeAsMilliSeconds at hfits
  have hk : k = 0 := by omega
  have hsame : u = toMilliseconds t := by
    refine timeval_ext ?_ ?_
    · change u.sec = t.sec
      omega
    · change u.usec = t.usec / 1000 * 1000
      omega
  have hsec' : u.sec = t.sec := by
    rw [hsame]
    rfl
  have husec' : u.usec = t.usec / 1000 * 1000 := by
    rw [hsame]
    rfl
  have hvalid : u.isValid = true := decide_eq_true (by omega)
  have hlen := length_secondsDigits_17 (show u.sec < 100000000000000000 by omega)
  have h12 : (secondsDigits u).length ≤ 12 ↔ t.sec < 1000000000000 := by
    rw [length_secondsDigits_le 12 (by decide), show Nat.pow 10 12 = 1000000000000 from rfl]
    omega
  have hzero : u.usec = 0 ↔ t.usec < 1000 := by omega
  have hkept := keptUsec_eq_iff hlen
  rw [h12, hzero] at hkept
  rw [heq, ofString_getAsString hvalid hlen, ← hsame, Option.some.injEq]
  constructor
  · intro htime
    exact hkept.mp (congrArg Timeval.usec htime)
  · intro htext
    exact timeval_ext rfl (hkept.mpr htext)

theorem arrivedTime_of_overflow (hsec : 0 ≤ t.sec)
    (hover : ¬ 1000 * getTimeAsMilliSeconds t ≤ 9223372036854775807) :
    arrivedTime t ≠ some (toMilliseconds t) := by
  obtain ⟨x, k, u, hx, hlo, hhi, hus, huu, heq⟩ := arrivedTime_eq t
  have husec := t.usec_lt
  unfold getTimeAsMilliSeconds at hover
  have hsame : (toMilliseconds t).sec = t.sec := rfl
  rw [heq]
  intro htime
  by_cases hneg : u.sec < 0
  · have hread := ofString_negative hneg htime
    omega
  · have hvalid : u.isValid = true := decide_eq_true (by omega)
    have hlen := length_secondsDigits_17 (show u.sec < 100000000000000000 by omega)
    rw [ofString_getAsString hvalid hlen, Option.some.injEq] at htime
    have hread : u.sec = (toMilliseconds t).sec := by
      rw [← htime]
    omega

/-- **The create time arrives to the millisecond exactly if it is in time.** -/
theorem arrivedTime_iff (h : t.isValid = true) :
    arrivedTime t = some (toMilliseconds t) ↔ InTime t := by
  have hsec : 0 ≤ t.sec := by simpa [Timeval.isValid] using h
  by_cases hfits : 1000 * getTimeAsMilliSeconds t ≤ 9223372036854775807
  · rw [arrivedTime_of_fits hsec hfits]
    exact ⟨fun htext => ⟨hfits, htext⟩, fun hin => hin.text⟩
  · exact ⟨fun htime => absurd htime (arrivedTime_of_overflow hsec hfits),
      fun hin => absurd hin.microseconds hfits⟩

/-! ## Attributes in a node description -/

/-- No two are equal up to a wildcard. -/
def Distinct (attrs : List Attribute) : Prop := attrs.Pairwise (fun a b => a.eq b = false)

/-- What `parseMetadata` does with an attribute: one that is equal to one that is there is left
out. -/
def merge (attrs : List Attribute) (a : Attribute) : List Attribute :=
  if (find attrs a).isSome then attrs else add a attrs

theorem Distinct.perm {l l' : List Attribute} (h : Distinct l) (hperm : l.Perm l') :
    Distinct l' := by
  refine (hperm.pairwise_iff ?_).mp h
  intro a b hab
  rw [eq_comm']
  exact hab

theorem add_perm (a : Attribute) (attrs : List Attribute) : (add a attrs).Perm (a :: attrs) := by
  induction attrs with
  | nil => exact List.Perm.refl _
  | cons b attrs ih =>
      unfold add
      split
      · exact (ih.cons b).trans (List.Perm.swap a b attrs)
      · exact List.Perm.refl _

theorem insertAttr_perm (a : Attribute) (attrs : List Attribute) :
    (insertAttr a attrs).Perm (a :: attrs) := by
  induction attrs with
  | nil => exact List.Perm.refl _
  | cons b attrs ih =>
      unfold insertAttr
      split
      · exact (ih.cons b).trans (List.Perm.swap a b attrs)
      · exact List.Perm.refl _

theorem foldl_insertAttr_perm (l : List Attribute) : ∀ attrs : List Attribute,
    (l.foldl (fun attrs a => insertAttr a attrs) attrs).Perm (attrs ++ l) := by
  induction l with
  | nil =>
      intro attrs
      rw [List.append_nil]
      exact List.Perm.refl attrs
  | cons a l ih =>
      intro attrs
      rw [List.foldl_cons]
      exact (ih _).trans (((insertAttr_perm a attrs).append_right l).trans
        List.perm_middle.symm)

/-- Something may be left out, and what remains is distinct. -/
theorem foldl_merge_spec (l : List Attribute) : ∀ attrs : List Attribute, Distinct attrs →
    Distinct (l.foldl merge attrs) ∧
      ∃ dropped, (l.foldl merge attrs ++ dropped).Perm (attrs ++ l) := by
  induction l with
  | nil =>
      intro attrs h
      exact ⟨h, [], List.Perm.refl _⟩
  | cons a l ih =>
      intro attrs h
      rw [List.foldl_cons]
      by_cases hfound : (find attrs a).isSome = true
      · have hsame : merge attrs a = attrs := if_pos hfound
        rw [hsame]
        obtain ⟨hdist, dropped, hperm⟩ := ih attrs h
        refine ⟨hdist, a :: dropped, ?_⟩
        exact List.perm_middle.trans ((hperm.cons a).trans List.perm_middle.symm)
      · have hnew : merge attrs a = add a attrs := if_neg hfound
        have hdist : Distinct (add a attrs) := by
          refine Distinct.perm (List.pairwise_cons.mpr ⟨?_, h⟩) (add_perm a attrs).symm
          intro b hb
          by_contra heq
          exact hfound (find_isSome.mpr ⟨b, hb, Bool.eq_true_of_not_eq_false heq⟩)
        rw [hnew]
        obtain ⟨hdist', dropped, hperm⟩ := ih (add a attrs) hdist
        refine ⟨hdist', dropped, ?_⟩
        exact hperm.trans (((add_perm a attrs).append_right l).trans List.perm_middle.symm)

/-- Nothing is left out of what is distinct. -/
theorem foldl_merge_of_distinct (l : List Attribute) : ∀ attrs : List Attribute,
    Distinct (attrs ++ l) → (l.foldl merge attrs).Perm (attrs ++ l) := by
  induction l with
  | nil =>
      intro attrs _
      rw [List.append_nil]
      exact List.Perm.refl attrs
  | cons a l ih =>
      intro attrs h
      have hmid : (add a attrs ++ l).Perm (attrs ++ a :: l) :=
        ((add_perm a attrs).append_right l).trans List.perm_middle.symm
      have hnew : merge attrs a = add a attrs := by
        refine if_neg (fun hfound => ?_)
        obtain ⟨b, hb, heq⟩ := find_isSome.mp hfound
        have hne := (List.pairwise_append.mp h).2.2 b hb a List.mem_cons_self
        rw [eq_comm', heq] at hne
        exact Bool.noConfusion hne
      rw [List.foldl_cons, hnew]
      exact (ih _ (h.perm hmid.symm)).trans hmid

/-- The attributes of the node description of an application with these interests. -/
def describedAttrs (proxy : Attribute) (attrs : List Attribute) : List Attribute :=
  (insertAttr proxy ((attrs.map received).foldl (fun attrs a => insertAttr a attrs) [])).foldl
    merge []

/-- **The node description has the interests and the added attribute exactly if** each interest
is cut where it was joined, and with the added attribute they are distinct. -/
theorem describedAttrs_perm_iff (proxy : Attribute) (attrs : List Attribute) :
    (describedAttrs proxy attrs).Perm (proxy :: attrs) ↔
      (∀ a ∈ attrs, Cut a) ∧ Distinct (proxy :: attrs) := by
  have hall : (insertAttr proxy ((attrs.map received).foldl
      (fun attrs a => insertAttr a attrs) [])).Perm (proxy :: attrs.map received) :=
    (insertAttr_perm proxy _).trans ((foldl_insertAttr_perm _ []).cons proxy)
  unfold describedAttrs
  constructor
  · intro hperm
    obtain ⟨hdist, dropped, hsplit⟩ := foldl_merge_spec (insertAttr proxy
      ((attrs.map received).foldl (fun attrs a => insertAttr a attrs) [])) [] List.Pairwise.nil
    -- as many come out as go in, so nothing was left out
    have hnone : dropped = [] := by
      have h₁ := hsplit.length_eq
      have h₂ := hall.length_eq
      have h₃ := hperm.length_eq
      rw [List.length_append, List.nil_append] at h₁
      rw [List.length_cons, List.length_map] at h₂
      rw [List.length_cons] at h₃
      exact List.length_eq_zero_iff.mp (by omega)
    rw [hnone, List.append_nil, List.nil_append] at hsplit
    refine ⟨?_, hdist.perm hperm⟩
    exact (received_perm_iff attrs).mp
      ((hall.symm.trans (hsplit.symm.trans hperm)).cons_inv)
  · rintro ⟨hcut, hdist⟩
    have hsame := (hall.trans (((received_perm_iff attrs).mpr hcut).cons proxy))
    exact (foldl_merge_of_distinct _ [] (hdist.perm hsame.symm)).trans hsame

/-! ## The node description -/

/-- Nothing but the nodes it puts in itself is changed by `toMetadata`. -/
theorem getAll_toMetadata (d : DataObject) {name : CString} (hdata : name ≠ lit "Data")
    (hsignature : name ≠ lit "Signature") (hattr : name ≠ lit "Attr") :
    d.toMetadata.metadata.getAll name = d.metadata.getAll name := by
  obtain ⟨_, hother, _⟩ := foldl_addMetadata d.attrs (Metadata.removeMetadata
    (d.putSignature
      (let m := d.metadata.setParameter (lit "persistent")
        (lit (if d.persistent then "yes" else "no"))
      let m :=
        if (d.dataLen ≠ 0 ∧ d.filename.length ≠ 0) ∨
            (d.encryptedFileLength ≠ 0 ∧ d.encryptedFilePath.length ≠ 0) then
          m.modify (lit "Data") d.putFile
        else m
      if d.dataIsVerifiable then m.modify (lit "Data") d.putHash else m)) (lit "Attr"))
  refine (hother name hattr).trans ?_
  have hremove : ∀ m : Metadata, (m.removeMetadata (lit "Attr")).getAll name = m.getAll name := by
    intro m
    unfold Metadata.removeMetadata
    rw [Metadata.getAll_setAll, if_neg hattr]
  have hsign : ∀ m : Metadata, (d.putSignature m).getAll name = m.getAll name := by
    intro m
    unfold DataObject.putSignature
    split
    · rfl
    · split
      · rfl
      · rw [Metadata.getAll_modify_ne _ _ hsignature, Metadata.getAll_putContent_ne _ hsignature]
  rw [hremove, hsign]
  -- file and hash are written below `Data` only, in four cases
  simp only
  split
  · rw [Metadata.getAll_modify_ne _ _ hdata]
    split
    · rw [Metadata.getAll_modify_ne _ _ hdata, Metadata.getAll_setParameter]
    · rw [Metadata.getAll_setParameter]
  · split
    · rw [Metadata.getAll_modify_ne _ _ hdata, Metadata.getAll_setParameter]
    · rw [Metadata.getAll_setParameter]

/-- Objects that differ in what the attributes and the kind are read into. -/
structure SameButAttrs (d e : DataObject) : Prop where
  metadata : d.metadata = e.metadata
  createTime : d.createTime = e.createTime
  signatureStatus : d.signatureStatus = e.signatureStatus

theorem parseAttr_attributeNode (d : DataObject) (a : Attribute) :
    (d.parseAttr (attributeNode a)).attrs = merge d.attrs a ∧
      SameButAttrs (d.parseAttr (attributeNode a)) d := by
  have hname : (attributeNode a).getParameter (lit "name") = some a.name := by
    unfold attributeNode
    rw [Metadata.getParameter_setParameter, if_neg (by decide),
      Metadata.getParameter_setParameter, if_pos rfl]
  have hweight : (attributeNode a).getParameter (lit "weight") =
      some (printed a.weight.toNat) := by
    unfold attributeNode
    rw [Metadata.getParameter_setParameter, if_pos rfl]
  have hvalue : (attributeNode a).getContent = a.value := by
    unfold attributeNode
    rw [Metadata.getContent_setParameter, Metadata.getContent_setParameter]
    rfl
  have hread : UInt64.ofNat (strtoul (chars (printed a.weight.toNat))) = a.weight := by
    rw [strtoul_printed a.weight.toNat_lt]
    exact UInt64.ofNat_toNat
  unfold DataObject.parseAttr DataObject.hasAttribute merge
  simp only [hname, hweight, hvalue, hread, Option.getD_some]
  by_cases hdesc : a.name = lit "NodeDescription"
  · rw [if_pos hdesc]
    by_cases hfound : (find d.attrs a).isSome = true
    · simp only [hfound, if_true, true_and]
      exact ⟨rfl, rfl, rfl⟩
    · simp only [hfound, Bool.false_eq_true, if_false, true_and]
      exact ⟨rfl, rfl, rfl⟩
  · rw [if_neg hdesc]
    by_cases hfound : (find d.attrs a).isSome = true
    · simp only [hfound, if_true, true_and]
      exact ⟨rfl, rfl, rfl⟩
    · simp only [hfound, Bool.false_eq_true, if_false, true_and]
      exact ⟨rfl, rfl, rfl⟩

theorem foldl_parseAttr_attributeNode (attrs : List Attribute) : ∀ d : DataObject,
    ((attrs.map attributeNode).foldl DataObject.parseAttr d).attrs = attrs.foldl merge d.attrs ∧
      SameButAttrs ((attrs.map attributeNode).foldl DataObject.parseAttr d) d := by
  induction attrs with
  | nil => exact fun d => ⟨rfl, rfl, rfl, rfl⟩
  | cons a attrs ih =>
      intro d
      obtain ⟨hattrs, hsame⟩ := parseAttr_attributeNode d a
      obtain ⟨hattrs', hsame'⟩ := ih (d.parseAttr (attributeNode a))
      rw [List.map_cons, List.foldl_cons, List.foldl_cons, hattrs', hattrs]
      exact ⟨rfl, hsame'.metadata.trans hsame.metadata, hsame'.createTime.trans hsame.createTime,
        hsame'.signatureStatus.trans hsame.signatureStatus⟩

theorem parseKind_same (d : DataObject) (m : Metadata) :
    (d.parseKind m).attrs = d.attrs ∧ SameButAttrs (d.parseKind m) d := by
  unfold DataObject.parseKind
  simp only
  split
  · split
    · split
      · exact ⟨rfl, rfl, rfl, rfl⟩
      · exact ⟨rfl, rfl, rfl, rfl⟩
    · split
      · exact ⟨rfl, rfl, rfl, rfl⟩
      · exact ⟨rfl, rfl, rfl, rfl⟩
  · split
    · exact ⟨rfl, rfl, rfl, rfl⟩
    · exact ⟨rfl, rfl, rfl, rfl⟩

/-- The `Node` element of a node description. -/
def nodeElement (appname id : CString) (maxMatches matchThreshold : Int) (parentId : CString) :
    Metadata :=
  ((((((Metadata.leaf []).setParameter (lit "type") (lit "application")).setParameter (lit "name")
    appname).setParameter (lit "id") id).setParameter (lit "resolution_limit")
    (printed maxMatches)).setParameter (lit "resolution_threshold")
    (printed matchThreshold)).setParameter (lit "proxy_id") parentId

/-- What a node description is made of. -/
theorem createAppNodeMetadata_spec (ct : Timeval) (appname id : CString)
    (maxMatches matchThreshold : Int) (parentId : CString) (attrs : List Attribute) :
    let m := createAppNodeMetadata ct appname id maxMatches matchThreshold parentId attrs
    m.getParameter (lit "create_time") = some ct.getAsString ∧
      m.getParameter (lit "update_time") = some ct.getAsString ∧
      m.getAll (lit "Node") = [nodeElement appname id maxMatches matchThreshold parentId] ∧
      m.getAll (lit "Attr") = attrs.map attributeNode ∧
      ∀ name, name ≠ lit "Attr" → name ≠ lit "Node" → m.getAll name = [] := by
  intro m
  obtain ⟨hparam, hother, hattrs⟩ := foldl_addChildren (lit "Attr") attributeNode attrs
    ((((((Metadata.leaf []).setParameter (lit "persistent") (lit "yes")).setParameter
      (lit "create_time") ct.getAsString).setParameter (lit "update_time")
      ct.getAsString)).addMetadata (lit "Node")
      (nodeElement appname id maxMatches matchThreshold parentId))
  refine ⟨(hparam _).trans ?_, (hparam _).trans ?_, (hother _ (by decide)).trans ?_,
    hattrs.trans ?_, fun name hattr hnode => (hother name hattr).trans ?_⟩
  · unfold Metadata.addMetadata
    rw [Metadata.getParameter_setAll, Metadata.getParameter_setParameter, if_neg (by decide),
      Metadata.getParameter_setParameter, if_pos rfl]
  · unfold Metadata.addMetadata
    rw [Metadata.getParameter_setAll, Metadata.getParameter_setParameter, if_pos rfl]
  · unfold Metadata.addMetadata
    rw [Metadata.getAll_setAll, if_pos rfl]
    rfl
  · unfold Metadata.addMetadata
    rw [Metadata.getAll_setAll, if_neg (by decide)]
    rfl
  · unfold Metadata.addMetadata
    rw [Metadata.getAll_setAll, if_neg hnode]
    rfl

theorem parseDataNode_none (h : d.metadata.getAll (lit "Data") = []) : d.parseDataNode = d := by
  unfold DataObject.parseDataNode
  rw [h]

theorem parseSignature_none (hstatus : d.signatureStatus = .missing)
    (h : d.metadata.getAll (lit "Signature") = []) : d.parseSignature = some d := by
  unfold DataObject.parseSignature Metadata.getMetadata
  rw [if_pos hstatus, h]
  rfl

/-- What `parseMetadata` makes of metadata with attributes and nothing else it looks for. -/
theorem receive_attributes {m : Metadata} {text : CString} {attrs : List Attribute}
    (hcreate : m.getParameter (lit "create_time") = some text)
    (hupdate : m.getParameter (lit "update_time") = some text)
    (hread : Timeval.ofString text = some t)
    (hattrs : m.getAll (lit "Attr") = attrs.map attributeNode) (hdata : m.getAll (lit "Data") = [])
    (hsignature : m.getAll (lit "Signature") = []) :
    ∃ d, DataObject.receive m = some d ∧ d.attrs = attrs.foldl merge [] ∧ d.metadata = m ∧
      d.createTime = t ∧ d.signatureStatus = .missing := by
  -- both times are read from one text
  have htime : ∀ (name : CString) (old : Timeval), m.getParameter name = some text →
      DataObject.readTime m name old = some t := by
    intro name old hparam
    unfold DataObject.readTime
    rw [hparam]
    exact hread
  obtain ⟨start, hstart⟩ : ∃ start : DataObject, start = { DataObject.fresh m with
      persistent := DataObject.parsePersistent m true, createTime := t, updateTime := t } :=
    ⟨_, rfl⟩
  obtain ⟨hkind, hkindSame⟩ := parseKind_same start m
  obtain ⟨hfold, hfoldSame⟩ := foldl_parseAttr_attributeNode attrs (start.parseKind m)
  have hmeta := hfoldSame.metadata.trans hkindSame.metadata
  have hstatus := hfoldSame.signatureStatus.trans hkindSame.signatureStatus
  have htimes := hfoldSame.createTime.trans hkindSame.createTime
  rw [hkind] at hfold
  rw [hstart] at hfold hmeta hstatus htimes
  refine ⟨(attrs.map attributeNode).foldl DataObject.parseAttr (start.parseKind m), ?_, ?_⟩
  · have hparse : DataObject.receive m = ((attrs.map attributeNode).foldl DataObject.parseAttr
        (start.parseKind m)).parseDataNode.parseSignature := by
      unfold DataObject.receive DataObject.parseMetadata
      have hfresh : (DataObject.fresh m).metadata = m := rfl
      simp only [hfresh, htime _ _ hcreate, htime _ _ hupdate, Option.bind_eq_bind,
        Option.bind_some, hattrs]
      rw [hstart]
      rfl
    rw [hparse, parseDataNode_none (by rw [hstart, hmeta]; exact hdata)]
    refine parseSignature_none ?_ ?_
    · rw [hstart]
      exact hstatus
    · rw [hstart, hmeta]
      exact hsignature
  · rw [hstart]
    exact ⟨hfold, hmeta, htimes, hstatus⟩

/-- The node is read as it was put in. -/
theorem initNode_nodeElement {appname : CString} {id parent : DataHash}
    {maxMatches matchThreshold : Nat} (hmm : maxMatches < 2147483648)
    (hmt : matchThreshold < 2147483648) (hnode : d.metadata.getAll (lit "Node") =
      [nodeElement appname (Codec.encode id.1) maxMatches matchThreshold
        (Codec.encode parent.1)]) :
    initNode d = some ⟨id, parent, appname, UInt64.ofNat maxMatches, UInt64.ofNat matchThreshold,
      d.createTime, d.attrs⟩ := by
  have hget : d.toMetadata.metadata.getMetadata (lit "Node") =
      some (nodeElement appname (Codec.encode id.1) maxMatches matchThreshold
        (Codec.encode parent.1)) := by
    unfold Metadata.getMetadata
    rw [getAll_toMetadata d (by decide) (by decide) (by decide), hnode]
    rfl
  have hid : ∀ n : CString, (nodeElement appname (Codec.encode id.1) maxMatches matchThreshold
      (Codec.encode parent.1)).getParameter n =
      if n = lit "proxy_id" then some (Codec.encode parent.1)
      else if n = lit "resolution_threshold" then some (printed matchThreshold)
      else if n = lit "resolution_limit" then some (printed maxMatches)
      else if n = lit "id" then some (Codec.encode id.1)
      else if n = lit "name" then some appname
      else if n = lit "type" then some (lit "application") else none := by
    intro n
    unfold nodeElement
    simp only [Metadata.getParameter_setParameter, Metadata.getParameter_leaf]
  have hproxy := hid (lit "proxy_id")
  have hthreshold := hid (lit "resolution_threshold")
  have hlimit := hid (lit "resolution_limit")
  have hid' := hid (lit "id")
  have hname := hid (lit "name")
  -- `setParameter` puts a new parameter before the old ones
  rw [if_pos rfl] at hproxy
  rw [if_neg (by decide), if_pos rfl] at hthreshold
  rw [if_neg (by decide), if_neg (by decide), if_pos rfl] at hlimit
  rw [if_neg (by decide), if_neg (by decide), if_neg (by decide), if_pos rfl] at hid'
  rw [if_neg (by decide), if_neg (by decide), if_neg (by decide), if_neg (by decide),
    if_pos rfl] at hname
  unfold initNode
  rw [hget]
  simp only [Option.bind_eq_bind, Option.bind_some, hproxy, hthreshold, hlimit, hid', hname,
    decodeHash_encode, Option.getD_some, strtoul_printed (Nat.lt_trans hmm (by decide)),
    strtoul_printed (Nat.lt_trans hmt (by decide))]
  rfl

theorem removeSignature_same (d : DataObject) :
    d.removeSignature.attrs = d.attrs ∧ d.removeSignature.createTime = d.createTime ∧
      d.removeSignature.metadata = d.metadata := by
  unfold DataObject.removeSignature
  split
  · exact ⟨rfl, rfl, rfl⟩
  · exact ⟨rfl, rfl, rfl⟩

/-- A time in the metadata leaves its children alone. -/
theorem getAll_withTime (m : Metadata) (t : Timeval) (name other : CString) :
    (if t.isValid then m.setParameter name t.getAsString else m).getAll other =
      m.getAll other := by
  split
  · exact Metadata.getAll_setParameter _ _ _ _
  · rfl

theorem setCreateTime_same (d : DataObject) (t : Timeval) :
    (d.setCreateTime t).attrs = d.attrs ∧ (d.setCreateTime t).createTime = t ∧
      ∀ name, (d.setCreateTime t).metadata.getAll name = d.metadata.getAll name := by
  unfold DataObject.setCreateTime
  obtain ⟨hattrs, htime, hmeta⟩ := removeSignature_same { d with
    createTime := t
    metadata := if t.isValid then d.metadata.setParameter (lit "create_time") t.getAsString
      else d.metadata }
  refine ⟨hattrs, htime, fun name => ?_⟩
  rw [hmeta]
  exact getAll_withTime _ _ _ _

theorem setUpdateTime_same (d : DataObject) (t : Timeval) :
    (setUpdateTime d t).attrs = d.attrs ∧ (setUpdateTime d t).createTime = d.createTime ∧
      ∀ name, (setUpdateTime d t).metadata.getAll name = d.metadata.getAll name := by
  unfold setUpdateTime
  obtain ⟨hattrs, htime, hmeta⟩ := removeSignature_same { d with
    updateTime := t
    metadata := if t.isValid then d.metadata.setParameter (lit "update_time") t.getAsString
      else d.metadata }
  refine ⟨hattrs, htime, fun name => ?_⟩
  rw [hmeta]
  exact getAll_withTime _ _ _ _

/-- **The node of a node description.** Without a time in the text there is none. -/
theorem initNode_description (ct : Timeval) (appname : CString) (id parent : DataHash)
    {maxMatches matchThreshold : Nat} (hmm : maxMatches < 2147483648)
    (hmt : matchThreshold < 2147483648) (attrs : List Attribute) {m : Metadata}
    (hm : m = createAppNodeMetadata ct appname (Codec.encode id.1) maxMatches matchThreshold
      (Codec.encode parent.1) attrs) :
    (createDataObjectFromMetadata m = none ∧ Timeval.ofString ct.getAsString = none) ∨
    ∃ d t, createDataObjectFromMetadata m = some d ∧
      Timeval.ofString ct.getAsString = some t ∧
      initNode d = some ⟨id, parent, appname, UInt64.ofNat maxMatches,
        UInt64.ofNat matchThreshold, t, attrs.foldl merge []⟩ := by
  obtain ⟨hcreate, hupdate, hnode, hattrs, hnone⟩ := createAppNodeMetadata_spec ct appname
    (Codec.encode id.1) maxMatches matchThreshold (Codec.encode parent.1) attrs
  rw [← hm] at hcreate hupdate hnode hattrs hnone
  unfold createDataObjectFromMetadata
  cases hread : Timeval.ofString ct.getAsString with
  | none =>
      left
      have hreceive : DataObject.receive m = none := by
        unfold DataObject.receive DataObject.parseMetadata DataObject.readTime
        have hfresh : (DataObject.fresh m).metadata = m := rfl
        simp only [hfresh, hcreate, hread, Option.bind_eq_bind, Option.bind_none]
      rw [hreceive]
      exact ⟨rfl, rfl⟩
  | some t =>
      right
      obtain ⟨d, hd, hdattrs, hdmeta, hdtime, hdstatus⟩ := receive_attributes hcreate hupdate
        hread hattrs (hnone _ (by decide) (by decide)) (hnone _ (by decide) (by decide))
      -- the times are set a second time, to what they are
      obtain ⟨hcattrs, hctime, hcmeta⟩ := setCreateTime_same d t
      obtain ⟨huattrs, hutime, humeta⟩ := setUpdateTime_same (d.setCreateTime t) t
      refine ⟨setUpdateTime (d.setCreateTime t) t, t, ?_, rfl, ?_⟩
      · simp only [hd, hcreate, hread, Option.bind_eq_bind, Option.bind_some]
        rfl
      · have hnode' : (setUpdateTime (d.setCreateTime t) t).metadata.getAll (lit "Node") =
            [nodeElement appname (Codec.encode id.1) maxMatches matchThreshold
              (Codec.encode parent.1)] := by
          rw [humeta, hcmeta, hdmeta, hnode]
        rw [initNode_nodeElement hmm hmt hnode', hutime, hctime, huattrs, hcattrs, hdattrs]

/-! ## The element of an application -/

/-- An application with at least one interest, numbers that are `int`s and a create time after
the epoch. -/
structure AppNode.Fits (app : AppNode) : Prop where
  interests : app.attrs ≠ []
  weights : ∀ a ∈ app.attrs, a.weight.toNat < 2147483648
  limit : app.maxDataObjectsInMatch.toNat < 2147483648
  threshold : app.matchThreshold.toNat < 2147483648
  created : app.nodeDescriptionCreateTime.isValid = true

theorem parseInterest_interestNode (h : a.weight.toNat < 2147483648) :
    parseInterest (interestNode a) = some (received a) := by
  have hn : (interestNode a).getParameter (lit "n") = some (a.name ++ lit "=" ++ a.value) := by
    unfold interestNode
    rw [Metadata.getParameter_setParameter, if_neg (by decide),
      Metadata.getParameter_setParameter, if_pos rfl]
  have hw : (interestNode a).getParameter (lit "w") = some (printed a.weight.toNat) := by
    unfold interestNode
    rw [Metadata.getParameter_setParameter, if_pos rfl, getWeightAsString_small h]
  have hnum := parseNumber_printed_nat (Nat.lt_trans h (by decide))
  have hweight : UInt64.ofInt (toInt a.weight.toNat) = a.weight := by
    have hmod : ((a.weight.toNat : Int) % 18446744073709551616).toNat = a.weight.toNat := by omega
    rw [toInt_small h]
    change UInt64.ofNat ((a.weight.toNat : Int) % 18446744073709551616).toNat = a.weight
    rw [hmod]
    exact UInt64.ofNat_toNat
  unfold parseInterest received
  simp only [hn, hw, hnum, hweight, Option.bind_eq_bind, Option.bind_some, pure]

theorem mapM_parseInterest : ∀ {attrs : List Attribute},
    (∀ a ∈ attrs, a.weight.toNat < 2147483648) →
      (attrs.map interestNode).mapM parseInterest = some (attrs.map received)
  | [], _ => rfl
  | a :: attrs, h => by
      have hrest := mapM_parseInterest (fun b hb => h b (List.mem_cons_of_mem a hb))
      rw [List.map_cons, List.mapM_cons, parseInterest_interestNode (h a List.mem_cons_self),
        hrest]
      rfl

/-- What the receiver finds in the element of an application. -/
theorem virtualNode_spec (app : AppNode) :
    (virtualNode app).getParameter (lit "id") = some (Codec.encode app.id.1) ∧
      (virtualNode app).getParameter (lit "an") = some app.name ∧
      (virtualNode app).getParameter (lit "mm") =
        some (printed (toInt app.maxDataObjectsInMatch.toNat)) ∧
      (virtualNode app).getParameter (lit "mt") =
        some (printed (toInt app.matchThreshold.toNat)) ∧
      (virtualNode app).getParameter (lit "ct") =
        some (printed (toLong (getTimeAsMilliSeconds app.nodeDescriptionCreateTime))) ∧
      (virtualNode app).getAll (lit "a") = app.attrs.map interestNode := by
  obtain ⟨hparam, _, hsame⟩ := foldl_addChildren (lit "a") interestNode app.attrs
    ((((((Metadata.leaf []).setParameter (lit "id") (Codec.encode app.id.1)).setParameter
      (lit "an") app.name).setParameter (lit "mm")
      (printed (toInt app.maxDataObjectsInMatch.toNat))).setParameter (lit "mt")
      (printed (toInt app.matchThreshold.toNat))).setParameter (lit "ct")
      (printed (toLong (getTimeAsMilliSeconds app.nodeDescriptionCreateTime))))
  refine ⟨(hparam _).trans ?_, (hparam _).trans ?_, (hparam _).trans ?_, (hparam _).trans ?_,
    (hparam _).trans ?_, hsame.trans ?_⟩
  · simp only [Metadata.getParameter_setParameter]
    rw [if_neg (by decide), if_neg (by decide), if_neg (by decide), if_neg (by decide), if_pos trivial]
  · simp only [Metadata.getParameter_setParameter]
    rw [if_neg (by decide), if_neg (by decide), if_neg (by decide), if_pos trivial]
  · simp only [Metadata.getParameter_setParameter]
    rw [if_neg (by decide), if_neg (by decide), if_pos trivial]
  · simp only [Metadata.getParameter_setParameter]
    rw [if_neg (by decide), if_pos trivial]
  · rw [Metadata.getParameter_setParameter, if_pos rfl]
  · rfl

/-- **One application, there and back.** -/
theorem parseVirtualNode_spec {app : AppNode} (h : app.Fits) (parent : DataHash)
    (proxy : Attribute) :
    (parseVirtualNode (Codec.encode parent.1) proxy (virtualNode app) = none ∧
      arrivedTime app.nodeDescriptionCreateTime = none) ∨
    ∃ d t, parseVirtualNode (Codec.encode parent.1) proxy (virtualNode app) = some d ∧
      arrivedTime app.nodeDescriptionCreateTime = some t ∧
      initNode d = some { app with
        proxyId := parent
        nodeDescriptionCreateTime := t
        attrs := describedAttrs proxy app.attrs } := by
  obtain ⟨hid, hname, hlimit, hthreshold, htime, hinterests⟩ := virtualNode_spec app
  have hmm := parseNumber_printed_nat (Nat.lt_trans h.limit (by decide))
  have hmt := parseNumber_printed_nat (Nat.lt_trans h.threshold (by decide))
  have hct := parseNumber_milliseconds app.nodeDescriptionCreateTime
  obtain ⟨_, _, hlo, hhi⟩ := toLong_spec (1000 *
    (readMilliseconds app.nodeDescriptionCreateTime : Int))
  obtain ⟨ct, hmicro, _, _⟩ := ofMicroseconds_spec hlo hhi
  have harrived : arrivedTime app.nodeDescriptionCreateTime = Timeval.ofString ct.getAsString := by
    unfold arrivedTime
    rw [hmicro, Option.bind_some]
  have hparse : parseVirtualNode (Codec.encode parent.1) proxy (virtualNode app) =
      createDataObjectFromMetadata (createAppNodeMetadata ct app.name (Codec.encode app.id.1)
        app.maxDataObjectsInMatch.toNat app.matchThreshold.toNat (Codec.encode parent.1)
        (insertAttr proxy ((app.attrs.map received).foldl
          (fun attrs a => insertAttr a attrs) []))) := by
    -- by a hypothesis, lest the kernel unfold `ofMicroseconds` to compare the two sides
    have hbind : ∀ {α β : Type} (a : α) (f : α → Option β), (some a >>= f) = f a :=
      fun _ _ => rfl
    have hlimit' : ((virtualNode app).getParameter (lit "mm")).bind parseNumber =
        some app.maxDataObjectsInMatch.toNat := by
      rw [hlimit, Option.bind_some, toInt_small h.limit, hmm]
    have hthreshold' : ((virtualNode app).getParameter (lit "mt")).bind parseNumber =
        some app.matchThreshold.toNat := by
      rw [hthreshold, Option.bind_some, toInt_small h.threshold, hmt]
    have htime' : ((virtualNode app).getParameter (lit "ct")).bind parseNumber =
        some (readMilliseconds app.nodeDescriptionCreateTime) := by
      rw [htime, Option.bind_some, hct]
    unfold parseVirtualNode
    rw [hid, hname, hlimit', hthreshold', htime', hinterests, mapM_parseInterest h.weights]
    simp only [hbind, hmicro, toInt_small h.limit, toInt_small h.threshold]
  rw [hparse, harrived]
  rcases initNode_description ct app.name app.id parent h.limit h.threshold
    (insertAttr proxy ((app.attrs.map received).foldl (fun attrs a => insertAttr a attrs) []))
    rfl with hnone | ⟨d, t, hd, ht, hinit⟩
  · exact Or.inl hnone
  · refine Or.inr ⟨d, t, hd, ht, ?_⟩
    rw [hinit, UInt64.ofNat_toNat, UInt64.ofNat_toNat]
    rfl

/-! ## The aggregate -/

/-- A node as it should be: with the id, the name and the numbers of the application, with its
create time to the millisecond, and with its interests and one attribute more. -/
structure SameNode (proxy : Attribute) (app node : AppNode) : Prop where
  id : node.id = app.id
  name : node.name = app.name
  createTime : node.nodeDescriptionCreateTime = toMilliseconds app.nodeDescriptionCreateTime
  threshold : node.matchThreshold = app.matchThreshold
  limit : node.maxDataObjectsInMatch = app.maxDataObjectsInMatch
  interests : node.attrs.Perm (proxy :: app.attrs)

/-- What an application must be like to arrive. -/
structure Carried (proxy : Attribute) (app : AppNode) : Prop where
  cut : ∀ a ∈ app.attrs, Cut a
  distinct : Distinct (proxy :: app.attrs)
  inTime : InTime app.nodeDescriptionCreateTime

theorem carried_iff {app : AppNode} (h : app.Fits) (parent : DataHash) (proxy : Attribute) :
    (∃ d, parseVirtualNode (Codec.encode parent.1) proxy (virtualNode app) = some d ∧
      ∃ node, initNode d = some node ∧ SameNode proxy app node) ↔ Carried proxy app := by
  have hattrs := describedAttrs_perm_iff proxy app.attrs
  have htime := arrivedTime_iff h.created
  rcases parseVirtualNode_spec h parent proxy with ⟨hnone, hlate⟩ | ⟨d, t, hd, ht, hinit⟩
  · constructor
    · rintro ⟨d, hd, _⟩
      rw [hnone] at hd
      cases hd
    · intro hc
      rw [hlate] at htime
      cases htime.mpr hc.inTime
  · rw [ht] at htime
    constructor
    · rintro ⟨d', hd', node, hnode, hsame⟩
      rw [hd, Option.some.injEq] at hd'
      rw [← hd', hinit, Option.some.injEq] at hnode
      have hcreate := hsame.createTime
      have hinterests := hsame.interests
      rw [← hnode] at hcreate hinterests
      obtain ⟨hcut, hdist⟩ := hattrs.mp hinterests
      exact ⟨hcut, hdist, htime.mp (congrArg some hcreate)⟩
    · intro hc
      refine ⟨d, hd, _, hinit, rfl, rfl, ?_, rfl, rfl, hattrs.mpr ⟨hc.cut, hc.distinct⟩⟩
      exact Option.some.inj (htime.mpr hc.inTime)

/-- As many come out as went in only if none was lost. -/
theorem forall₂_filterMap_iff {α β γ : Type} {R : α → γ → Prop} (f : β → Option γ) (g : α → β)
    (l : List α) : List.Forall₂ R l ((l.map g).filterMap f) ↔
      ∀ a ∈ l, ∃ c, f (g a) = some c ∧ R a c := by
  induction l with
  | nil => exact ⟨fun _ a ha => absurd ha List.not_mem_nil, fun _ => List.Forall₂.nil⟩
  | cons a l ih =>
      rw [List.map_cons]
      cases hf : f (g a) with
      | none =>
          rw [List.filterMap_cons_none hf]
          constructor
          · intro h
            have hlen := h.length_eq
            have hle := List.length_filterMap_le f (l.map g)
            rw [List.length_map] at hle
            rw [List.length_cons] at hlen
            omega
          · intro h
            obtain ⟨c, hc, _⟩ := h a List.mem_cons_self
            rw [hf] at hc
            cases hc
      | some c =>
          rw [List.filterMap_cons_some hf, List.forall₂_cons, ih]
          constructor
          · rintro ⟨hac, hrest⟩ b hb
            rcases List.mem_cons.mp hb with rfl | hmem
            · exact ⟨c, hf, hac⟩
            · exact hrest b hmem
          · intro h
            refine ⟨?_, fun b hb => h b (List.mem_cons_of_mem a hb)⟩
            obtain ⟨c', hc', hac⟩ := h a List.mem_cons_self
            rw [hf, Option.some.injEq] at hc'
            rw [hc']
            exact hac

theorem addAttribute_same (d : DataObject) (a : Attribute) :
    (d.addAttribute a).attrs = merge d.attrs a ∧ (d.addAttribute a).metadata = d.metadata := by
  unfold DataObject.addAttribute DataObject.hasAttribute merge
  split
  · exact ⟨rfl, rfl⟩
  · obtain ⟨hattrs, _, hmeta⟩ := removeSignature_same { d with attrs := add a d.attrs }
    exact ⟨hattrs, hmeta⟩

/-- The first attributes of an aggregate, and no elements yet. -/
theorem addAttributes_spec (d : DataObject) (attrs : List Attribute) :
    (attrs.foldl DataObject.addAttribute d).attrs = attrs.foldl merge d.attrs ∧
      (attrs.foldl DataObject.addAttribute d).metadata = d.metadata := by
  induction attrs generalizing d with
  | nil => exact ⟨rfl, rfl⟩
  | cons a attrs ih =>
      obtain ⟨hattrs, hmeta⟩ := addAttribute_same d a
      obtain ⟨hattrs', hmeta'⟩ := ih (d.addAttribute a)
      rw [List.foldl_cons, List.foldl_cons, hattrs', hattrs, hmeta', hmeta]
      exact ⟨rfl, rfl⟩

/-- The attributes of an aggregate. -/
def aggregateAttrs (ttl : Int) (thisNodeId : DataHash) (deadline : Timeval) : List Attribute :=
  [⟨lit "Interests", lit "Aggregate", 1⟩, ⟨lit "SeqNo", printed (toInt ttl), 1⟩,
    ⟨lit "Origin", Codec.encode thisNodeId.1, 1⟩, ⟨lit "ATTL_MS", deadline.getAsString, 1⟩]

theorem eq_false_of_name {b : Attribute} (h : a.name ≠ b.name) : a.eq b = false := by
  unfold Attribute.eq
  rw [decide_eq_false h, Bool.false_and]

theorem distinct_aggregateAttrs (ttl : Int) (thisNodeId : DataHash) (deadline : Timeval) :
    Distinct (aggregateAttrs ttl thisNodeId deadline) := by
  have hnames : (aggregateAttrs ttl thisNodeId deadline).Pairwise
      (fun a b => a.name ≠ b.name) := by
    have hmap : (aggregateAttrs ttl thisNodeId deadline).map Attribute.name =
        [lit "Interests", lit "SeqNo", lit "Origin", lit "ATTL_MS"] := rfl
    have hpair : ((aggregateAttrs ttl thisNodeId deadline).map Attribute.name).Nodup := by
      rw [hmap]
      decide
    exact List.pairwise_map.mp hpair
  exact hnames.imp eq_false_of_name

/-- The origin is found. -/
theorem find_origin {attrs : List Attribute} {ttl : Int} {thisNodeId : DataHash}
    {deadline : Timeval} (h : attrs.Perm (aggregateAttrs ttl thisNodeId deadline)) :
    find attrs ⟨lit "Origin", wildcard, 0⟩ =
      some ⟨lit "Origin", Codec.encode thisNodeId.1, 1⟩ := by
  have hmem : (⟨lit "Origin", Codec.encode thisNodeId.1, 1⟩ : Attribute) ∈ attrs :=
    h.mem_iff.mpr (List.mem_cons_of_mem _ (List.mem_cons_of_mem _ List.mem_cons_self))
  have hsome : (find attrs ⟨lit "Origin", wildcard, 0⟩).isSome = true := by
    refine find_isSome.mpr ⟨_, hmem, ?_⟩
    unfold Attribute.eq
    rw [decide_eq_true rfl, decide_eq_true rfl]
    rfl
  obtain ⟨a, ha⟩ := Option.isSome_iff_exists.mp hsome
  rw [ha]
  have hin := h.mem_iff.mp (List.mem_of_find?_eq_some ha)
  have hname : lit "Origin" = a.name := by
    have heq := List.find?_some ha
    unfold Attribute.eq at heq
    rw [Bool.and_eq_true, decide_eq_true_eq] at heq
    exact heq.1
  -- of the four names only one is this
  unfold aggregateAttrs at hin
  simp only [List.mem_cons, List.not_mem_nil, or_false] at hin
  rcases hin with rfl | rfl | rfl | rfl
  · exact absurd hname (show lit "Origin" ≠ lit "Interests" by decide)
  · exact absurd hname (show lit "Origin" ≠ lit "SeqNo" by decide)
  · rfl
  · exact absurd hname (show lit "Origin" ≠ lit "ATTL_MS" by decide)

/--
**The aggregate round trip.**

From applications that have interests, numbers below `2 ^ 31` and create times after the epoch
a data object is made, and what is parsed from it is one node description for each
application, in order, each with the node of its application, exactly if no interest has the
separator in its name or is nothing at all, the interests of each application and the added
attribute are distinct, and the create times are in time.
-/
theorem aggregate_round_trips_iff (sha1 : List UInt8 → List UInt8) (manager : InterestManager)
    (now deadline : Timeval) (apps : List AppNode) (hne : apps ≠ [])
    (hfits : ∀ app ∈ apps, app.Fits) :
    ∃ manager' dObj, createInterestDataObjectFromApplications manager now deadline apps =
        (manager', some dObj) ∧
      (List.Forall₂ (fun app d => ∃ node, initNode d = some node ∧
          SameNode (proxyAttribute sha1 dObj) app node)
        apps (parseReceiveDataObjects sha1 dObj) ↔
      ∀ app ∈ apps, Carried (proxyAttribute sha1 dObj) app) := by
  have hlen : apps.length ≠ 0 := fun h => hne (List.length_eq_zero_iff.mp h)
  -- an application without interests would be left out
  have hall : apps.filter (fun app => !app.attrs.isEmpty) = apps := by
    refine List.filter_eq_self.mpr (fun app happ => ?_)
    rw [Bool.not_eq_true', List.isEmpty_eq_false_iff]
    exact (hfits app happ).interests
  obtain ⟨start, hstart⟩ : ∃ start : DataObject, start =
      (DataObject.setCreateTime (DataObject.fresh (Metadata.leaf [])) now).toMetadata := ⟨_, rfl⟩
  obtain ⟨named, hnamed⟩ : ∃ named : DataObject, named =
      (aggregateAttrs (manager.ttl + 1) manager.thisNodeId deadline).foldl
        DataObject.addAttribute start := ⟨_, rfl⟩
  obtain ⟨hattrs, hmeta⟩ := addAttributes_spec start
    (aggregateAttrs (manager.ttl + 1) manager.thisNodeId deadline)
  rw [← hnamed] at hattrs hmeta
  obtain ⟨hcattrs, _, hcmeta⟩ :=
    setCreateTime_same (DataObject.fresh (Metadata.leaf [])) now
  -- no `VNode` is there before the applications' are added
  have hnone : named.metadata.getAll (lit "VNode") = [] := by
    rw [hmeta, hstart, getAll_toMetadata _ (by decide) (by decide) (by decide), hcmeta]
    rfl
  have hfirst : named.attrs.Perm
      (aggregateAttrs (manager.ttl + 1) manager.thisNodeId deadline) := by
    have hempty : start.attrs = [] := by
      rw [hstart]
      exact hcattrs
    rw [hattrs, hempty]
    exact foldl_merge_of_distinct _ [] (distinct_aggregateAttrs _ _ _)
  refine ⟨{ manager with ttl := manager.ttl + 1, prevNodes := apps.length }, { named with
    metadata := (apps.map virtualNode).foldl (fun m node => m.addMetadata (lit "VNode") node)
      named.metadata }, ?_, ?_⟩
  · unfold createInterestDataObjectFromApplications
    rw [if_neg (fun h => hlen h.2), hall]
    simp only [List.length_map]
    rw [if_neg (fun h => hlen h.1), hnamed, hstart]
    simp only [aggregateAttrs, List.foldl_cons, List.foldl_nil]
  · obtain ⟨dObj, hdObj⟩ : ∃ dObj : DataObject, dObj = { named with
        metadata := (apps.map virtualNode).foldl (fun m node => m.addMetadata (lit "VNode") node)
          named.metadata } := ⟨_, rfl⟩
    rw [← hdObj]
    obtain ⟨_, _, hadded⟩ := foldl_addChildren (lit "VNode") id (apps.map virtualNode)
      named.metadata
    have hnodes : dObj.toMetadata.metadata.getAll (lit "VNode") = apps.map virtualNode := by
      rw [getAll_toMetadata _ (by decide) (by decide) (by decide), hdObj]
      refine hadded.trans ?_
      rw [hnone, List.nil_append, List.map_id]
    have hparse : parseReceiveDataObjects sha1 dObj = (apps.map virtualNode).filterMap
        (parseVirtualNode (Codec.encode manager.thisNodeId.1) (proxyAttribute sha1 dObj)) := by
      have horigin : find dObj.attrs ⟨lit "Origin", wildcard, 0⟩ =
          some ⟨lit "Origin", Codec.encode manager.thisNodeId.1, 1⟩ := by
        rw [hdObj]
        exact find_origin hfirst
      unfold parseReceiveDataObjects
      rw [horigin, hnodes]
    -- application by application, as the parser goes through them
    rw [hparse, forall₂_filterMap_iff]
    constructor
    · intro h app happ
      exact (carried_iff (hfits app happ) manager.thisNodeId _).mp (h app happ)
    · intro h app happ
      exact (carried_iff (hfits app happ) manager.thisNodeId _).mpr (h app happ)

/-- Some time, with microseconds that do not travel. -/
def someTime : Timeval := ⟨1400000000, 123456, by decide, by decide, by decide⟩

/-- An application with these interests. -/
def application (attrs : List Attribute) : AppNode :=
  ⟨zeroHash, zeroHash, lit "app", 3, 4, someTime, attrs⟩

theorem aggregate_round_trips_news :
    ∃ manager' dObj, createInterestDataObjectFromApplications ⟨zeroHash, 0, 0⟩ someTime someTime
        [application [⟨lit "news", lit "a=b", 5⟩, ⟨lit "news", lit "", 7⟩]] =
          (manager', some dObj) ∧
      List.Forall₂ (fun app d => ∃ node, initNode d = some node ∧
          SameNode (proxyAttribute id dObj) app node)
        [application [⟨lit "news", lit "a=b", 5⟩, ⟨lit "news", lit "", 7⟩]]
        (parseReceiveDataObjects id dObj) := by
  have hfits : ∀ app ∈ [application [⟨lit "news", lit "a=b", 5⟩, ⟨lit "news", lit "", 7⟩]],
      app.Fits := by
    intro app happ
    rw [List.mem_singleton.mp happ]
    exact ⟨by decide, by decide, by decide, by decide, by decide⟩
  obtain ⟨manager', dObj, hcreate, hiff⟩ := aggregate_round_trips_iff id ⟨zeroHash, 0, 0⟩
    someTime someTime [application [⟨lit "news", lit "a=b", 5⟩, ⟨lit "news", lit "", 7⟩]]
    (by decide) hfits
  refine ⟨manager', dObj, hcreate, hiff.mpr (fun app happ => ?_)⟩
  rw [List.mem_singleton.mp happ]
  refine ⟨?_, ?_, by decide, by decide⟩
  · intro a ha
    rcases List.mem_cons.mp ha with rfl | hlast
    · exact ⟨by decide, by decide⟩
    · rw [List.mem_singleton.mp hlast]
      exact ⟨by decide, by decide⟩
  · refine List.pairwise_cons.mpr ⟨?_, ?_⟩
    · intro a ha
      rcases List.mem_cons.mp ha with rfl | hlast
      · exact eq_false_of_name (show lit "__proxy_dobj_id" ≠ lit "news" by decide)
      · rw [List.mem_singleton.mp hlast]
        exact eq_false_of_name (show lit "__proxy_dobj_id" ≠ lit "news" by decide)
    · unfold application
      decide

/-- Of `a=b` with value `c` the receiver makes `a` with value `b=c`, and of an interest without
name and value one whose name and value are the separator. -/
theorem separators_move :
    (createInterestDataObjectFromApplications ⟨zeroHash, 0, 0⟩ someTime someTime
        [application [⟨[], [], 1⟩, ⟨lit "a=b", lit "c", 1⟩]]).2.map (fun dObj =>
      (parseReceiveDataObjects (fun _ => []) dObj).map (fun d => (initNode d).map (fun node =>
        node.attrs.map (fun a => (a.name, a.value))))) =
      some [some [(lit "=", lit "="), (lit "__proxy_dobj_id", []), (lit "a", lit "b=c")]] := by
  decide +kernel

end Encoders.Interest
