import Mathlib.Order.Lattice
import Mathlib.Data.List.Nodup
import Encoders.Lib.Run
import Encoders.Text.StringBuffer

/-!
# `String` refines a text

A string is in order (`Good`) if its buffer has the characters of a text and then a zero, and
`slen` is the length of the text. What lies behind the zero is not described. An operation that
copies with `strcpy` brings the zero along; one that copies with `strncpy` does not, and relies
on finding one where the string is going to end.
-/

namespace Encoders.Text

open Encoders.Lib

variable {l : List Chr} {s : CharString}

/-- A text in memory: its characters and the terminator. -/
def terminated (l : List Chr) : List UInt8 := bytes l ++ [0]

@[simp] theorem length_bytes (l : List Chr) : (bytes l).length = l.length := List.length_map _

@[simp] theorem length_terminated (l : List Chr) : (terminated l).length = l.length + 1 := by
  rw [terminated, List.length_append, length_bytes, List.length_singleton]

@[simp] theorem bytes_append (l t : List Chr) : bytes (l ++ t) = bytes l ++ bytes t :=
  List.map_append

theorem bytes_take_getElem? {n k : Nat} (hk : k < n) : (bytes (l.take n))[k]? = (bytes l)[k]? := by
  rw [bytes, bytes, List.getElem?_map, List.getElem?_map, List.getElem?_take_of_lt hk]

theorem bytes_ne_zero (l : List Chr) : ∀ c ∈ bytes l, c ≠ 0 := by
  intro c hc
  obtain ⟨d, -, rfl⟩ := List.mem_map.mp hc
  exact d.property

theorem terminated_append (l t : List Chr) : terminated (l ++ t) = bytes l ++ terminated t := by
  rw [terminated, bytes_append, List.append_assoc, terminated]

theorem terminated_length (l : List Chr) : (terminated l)[l.length]? = some 0 := by
  rw [terminated, List.getElem?_append_right (length_bytes l).le, length_bytes, Nat.sub_self]
  rfl

theorem terminated_drop {off : Nat} (hoff : off ≤ l.length) (k : Nat) :
    (terminated (l.drop off))[k]? = (terminated l)[off + k]? := by
  have hlen : (l.take off).length = off := by rw [List.length_take]; omega
  have hsplit : terminated l = bytes (l.take off) ++ terminated (l.drop off) := by
    rw [← terminated_append, List.take_append_drop]
  rw [hsplit, List.getElem?_append_right (by rw [length_bytes]; omega), length_bytes, hlen,
    Nat.add_sub_cancel_left]

/-- What a program sees of a string: `c_str()` and `length()` are those of the text. -/
structure Shows (s : CharString) (l : List Chr) : Prop where
  length : s.slen = l.length
  chars : ∀ k, k ≤ l.length → s.charAt k = (terminated l)[k]?

/-- A string in order, in a buffer of a possible length. -/
structure Good (s : CharString) (l : List Chr) : Prop extends Shows s l where
  bounded : s.buf.length < 18446744073709551616

/-! ## Buffers -/

theorem charAt_eq (h : s.buf ≠ []) (k : Nat) : s.charAt k = s.buf[k]? := by
  rw [CharString.charAt, if_neg (by rw [List.isEmpty_iff]; exact h)]

theorem good_null : Good .null [] := by
  refine ⟨⟨rfl, fun k hk => ?_⟩, by decide⟩
  obtain rfl : k = 0 := by simpa using hk
  rfl

/-- Only the empty text needs no buffer. -/
theorem Shows.eq_nil (h : Shows s l) (hbuf : s.buf = []) : l = [] := by
  by_contra hne
  have hpos := List.length_pos_iff.mpr hne
  have hget := h.chars l.length (Nat.le_refl _)
  rw [terminated_length, CharString.charAt, hbuf, if_pos (by rfl), if_neg (by omega)] at hget
  cases hget

theorem Shows.lt_length (h : Shows s l) (hbuf : s.buf ≠ []) : l.length < s.buf.length := by
  have hget := h.chars l.length (Nat.le_refl _)
  rw [terminated_length, charAt_eq hbuf] at hget
  exact (List.getElem?_eq_some_iff.mp hget).1

/-- A text that is shown leaves room for the terminator. -/
theorem Shows.fits (h : Shows s l) (hbounded : s.buf.length < 18446744073709551616) :
    l.length + 1 < 18446744073709551616 := by
  by_cases hbuf : s.buf = []
  · rw [h.eq_nil hbuf]
    decide
  · have := h.lt_length hbuf
    omega

theorem wrap_of_lt {n : Nat} (h : n < 18446744073709551616) : wrap n = n := Nat.mod_eq_of_lt h

theorem wrap_lt (n : Nat) : wrap n < 18446744073709551616 := Nat.mod_lt _ (by decide)

/-- What `erase` moves, where it cuts out of the middle. -/
theorem wrap_cplen {len pos n : Nat} (hle : pos + n ≤ len) (hfits : len + 1 < 18446744073709551616) :
    wrap (len + 2 * npos + 2 - pos - n) = len - (pos + n) := by
  rw [wrap, npos]
  omega

/-- The length `erase` leaves. -/
theorem wrap_newLen {len n : Nat} (hle : n ≤ len) (hfits : len + 1 < 18446744073709551616) :
    wrap (len + npos + 1 - n) = len - n := by
  rw [wrap, npos]
  omega

/-- `alloc` keeps the string; the buffer it leaves has the length that was asked for. -/
theorem Good.alloc (h : Good s l) {len : Nat} (hpos : 0 < len) (hlen : len < 18446744073709551616) :
    Good (s.alloc len) l ∧ (s.alloc len).buf ≠ [] ∧ len ≤ (s.alloc len).buf.length ∧
      (s.buf.length < len → ∀ k, l.length ≤ k → k < len → (s.alloc len).buf[k]? = some 0) ∧
      (len ≤ s.buf.length → s.alloc len = s) := by
  rw [CharString.alloc]
  by_cases hle : len ≤ s.buf.length
  · rw [if_pos (Or.inl hle)]
    have hbuf : s.buf ≠ [] := List.ne_nil_of_length_pos (by omega)
    exact ⟨h, hbuf, hle, fun hlt => by omega, fun _ => rfl⟩
  · -- a longer buffer is made, with zeros behind the string
    have hslen : s.slen ≤ s.buf.length ∧ s.slen < len := by
      rw [h.length]
      by_cases hbuf : s.buf = []
      · rw [h.eq_nil hbuf]
        exact ⟨Nat.zero_le _, hpos⟩
      · have := h.lt_length hbuf
        omega
    have hnew : (s.buf.take s.slen ++ List.replicate (len - s.slen) 0).length = len := by
      rw [List.length_append, List.length_take, List.length_replicate]
      omega
    have hzero : ∀ k, l.length ≤ k → k < len →
        (s.buf.take s.slen ++ List.replicate (len - s.slen) 0)[k]? = some (0 : UInt8) := by
      intro k hk hlt
      rw [List.getElem?_append_right (by rw [List.length_take, h.length]; omega),
        List.getElem?_replicate, if_pos (by rw [List.length_take]; omega)]
    have hne : s.buf.take s.slen ++ List.replicate (len - s.slen) (0 : UInt8) ≠ [] :=
      List.ne_nil_of_length_pos (by omega)
    rw [if_neg (by omega)]
    refine ⟨⟨⟨h.length, fun k hk => ?_⟩, by simp only; omega⟩, hne, hnew.ge, fun _ => hzero,
      fun hcon => absurd hcon hle⟩
    rw [charAt_eq hne]
    dsimp only
    rcases Nat.lt_or_eq_of_le hk with hlt | rfl
    · have hbuf : s.buf ≠ [] := fun hnil => by
        rw [h.eq_nil hnil] at hlt
        exact Nat.not_lt_zero k hlt
      have hin : k < (s.buf.take s.slen).length := by
        rw [List.length_take, h.length]
        have := h.lt_length hbuf
        omega
      rw [List.getElem?_append_left hin, List.getElem?_take_of_lt (by rw [h.length]; exact hlt),
        ← charAt_eq hbuf]
      exact h.chars k hk
    · rw [hzero _ (Nat.le_refl _) (by rw [← h.length]; exact hslen.2), terminated_length]

/--
**What an operation leaves**: the text that was kept, and behind it the text that was written
with its terminator.
-/
theorem shows_overwrite {b : List UInt8} {t : List Chr}
    (hkept : ∀ k, k < l.length → b[k]? = (bytes l)[k]?) (hfits : l.length + t.length + 1 ≤ b.length) :
    Shows ⟨overwrite 0 b l.length (terminated t), (l ++ t).length⟩ (l ++ t) := by
  have hlen : l.length + (terminated t).length ≤ b.length := by rw [length_terminated]; omega
  have hne : overwrite 0 b l.length (terminated t) ≠ [] := by
    refine List.ne_nil_of_length_pos ?_
    rw [length_overwrite]
    omega
  refine ⟨rfl, fun k hk => ?_⟩
  rw [List.length_append] at hk
  rw [charAt_eq hne, overwrite_getElem? 0 hlen, terminated_append, length_terminated]
  rcases Nat.lt_or_ge k l.length with hlt | hge
  · rw [if_neg (by omega), hkept k hlt, List.getElem?_append_left (by rw [length_bytes]; exact hlt)]
  · rw [if_pos (by omega), List.getElem?_append_right (by rw [length_bytes]; exact hge), length_bytes]

/-- The buffer of a string has the characters of its text. -/
theorem Shows.kept (h : Shows s l) (hbuf : s.buf ≠ []) {k : Nat} (hk : k < l.length) :
    s.buf[k]? = (bytes l)[k]? := by
  rw [← charAt_eq hbuf, h.chars k hk.le, terminated,
    List.getElem?_append_left (by rw [length_bytes]; exact hk)]

theorem bytes_inj {t : List Chr} (h : bytes l = bytes t) : l = t :=
  List.map_injective_iff.mpr Subtype.val_injective h

/-- A string shows one text only. -/
theorem Shows.inj {t : List Chr} (hl : Shows s l) (ht : Shows s t) : l = t := by
  have hlen : l.length = t.length := hl.length.symm.trans ht.length
  refine bytes_inj (@List.append_cancel_right UInt8 _ [0] _ (List.ext_getElem? (fun k => ?_)))
  rw [← terminated, ← terminated]
  by_cases hk : k ≤ l.length
  · rw [← hl.chars k hk, ht.chars k (hlen ▸ hk)]
  · rw [List.getElem?_eq_none (by rw [length_terminated]; omega),
      List.getElem?_eq_none (by rw [length_terminated]; omega)]

/-! ## The memory of strings -/

namespace Strings

variable {w : Strings} {i j n pos : Nat} {f : Texts} {l t : List Chr} {src : Source}
variable {len : Nat}

@[simp] theorem put_same (w : Strings) (i : Nat) (s : CharString) : (w.put i s) i = s :=
  Function.update_self (β := fun _ => CharString) i s w

theorem put_other {s : CharString} (h : j ≠ i) : (w.put i s) j = w j :=
  Function.update_of_ne (β := fun _ => CharString) h s w

@[simp] theorem put_put (w : Strings) (i : Nat) (s t : CharString) :
    (w.put i s).put i t = w.put i t :=
  Function.update_idem (β := fun _ => CharString) s t w

/-- All strings are in order. -/
def Holds (w : Strings) (f : Texts) : Prop := ∀ i, Good (w i) (f i)

theorem Holds.put {w : Strings} {f : Texts} (h : w.Holds f) (i : Nat) {s : CharString}
    {l : List Chr} (hs : Good s l) : (w.put i s).Holds (Function.update f i l) := by
  intro j
  by_cases hj : j = i
  · rw [hj, put_same, Function.update_self]
    exact hs
  · rw [put_other hj, Function.update_of_ne hj]
    exact h j

/-- A string put where its text is the same. -/
theorem Holds.put_self (h : w.Holds f) (i : Nat) {s : CharString} (hs : Good s (f i)) :
    (w.put i s).Holds f := by
  have hput := h.put i hs
  rwa [Function.update_eq_self] at hput

theorem Holds.alloc (h : w.Holds f) (i : Nat) (hpos : 0 < len) (hlen : len < 18446744073709551616) :
    (w.alloc i len).Holds f ∧ ((w.alloc i len) i).buf ≠ [] ∧
      len ≤ ((w.alloc i len) i).buf.length ∧
      ((w i).buf.length < len →
        ∀ k, (f i).length ≤ k → k < len → ((w.alloc i len) i).buf[k]? = some 0) ∧
      (len ≤ (w i).buf.length → (w.alloc i len) i = w i) := by
  obtain ⟨hgood, hbuf, hle, hzero, hsame⟩ := (h i).alloc hpos hlen
  rw [Strings.alloc, wrap_of_lt hlen, put_same]
  exact ⟨h.put_self i hgood, hbuf, hle, hzero, hsame⟩

theorem alloc_other (h : j ≠ i) : (w.alloc i len) j = w j :=
  put_other h

theorem setLen_same (w : Strings) (i n : Nat) :
    (w.setLen i n) i = { w i with slen := n } := put_same w i _

/-- The memory after so many characters are written one behind the other. -/
def written (w : Strings) (i pos : Nat) (xs : List UInt8) : Strings :=
  w.put i { w i with buf := overwrite 0 (w i).buf pos xs }

@[simp] theorem written_same (w : Strings) (i pos : Nat) (xs : List UInt8) :
    (w.written i pos xs) i = { w i with buf := overwrite 0 (w i).buf pos xs } := put_same w i _

theorem written_other {xs : List UInt8} (h : j ≠ i) :
    (w.written i pos xs) j = w j := put_other h

theorem written_slen (w : Strings) (i pos : Nat) (xs : List UInt8) (j : Nat) :
    ((w.written i pos xs) j).slen = (w j).slen := by
  by_cases hj : j = i
  · rw [hj, written_same]
  · rw [written_other hj]

theorem written_nil (h : pos ≤ (w i).buf.length) : w.written i pos [] = w := by
  rw [written, overwrite_nil 0 h]
  exact Function.update_eq_self i w

theorem write_written {w : Strings} {i pos : Nat} {xs : List UInt8} (c : UInt8)
    (h : pos + xs.length < (w i).buf.length) :
    (w.written i pos xs).write i (pos + xs.length) c = some (w.written i pos (xs ++ [c])) := by
  rw [write, written_same, if_pos (by rw [length_overwrite]; omega), set_overwrite 0 c h, written,
    put_put, written]

/-- What is read from a pointer on is a text and its terminator. -/
def Gives (w : Strings) (src : Source) (t : List Chr) : Prop :=
  ∀ k, k ≤ t.length → w.read src k = (terminated t)[k]?

theorem gives_text (w : Strings) (t : List Chr) : w.Gives (.text t) t := fun _ _ => rfl

theorem gives_buffer {off : Nat} (h : Shows (w j) l) (hoff : off ≤ l.length) :
    w.Gives (.buffer j off) (l.drop off) := by
  intro k hk
  rw [List.length_drop] at hk
  rw [terminated_drop hoff]
  exact h.chars (off + k) (by omega)

theorem gives_cStr (h : Shows (w j) l) :
    w.Gives (.buffer j 0) l := gives_buffer h (Nat.zero_le _)

/-- Counting the characters finds the length of what is given. -/
theorem Gives.strlenOf (h : w.Gives src t) : w.strlenOf src = some t.length := by
  have hlen : ∀ fuel, t.length < fuel → strlen (w.read src) 0 fuel 0 = some t.length := by
    intro fuel hfuel
    have hcount := @strlen_eq UInt8 _ 0 (w.read src) (bytes t) fuel 0 (bytes_ne_zero t)
      (by rw [length_bytes]; exact hfuel) (fun j c hc => by
        have hj := (List.getElem?_eq_some_iff.mp hc).1
        rw [← terminated, length_terminated] at hj
        rw [Nat.zero_add, h j (by omega)]
        exact hc)
    rwa [length_bytes] at hcount
  -- the terminator is read, so that it lies in what the fuel is taken from
  have hend := h t.length (Nat.le_refl _)
  rw [terminated_length] at hend
  cases src with
  | text t' =>
      have hlt := (List.getElem?_eq_some_iff.mp hend).1
      rw [List.length_append, length_bytes, List.length_singleton] at hlt
      exact hlen _ hlt
  | buffer j off =>
      refine hlen _ ?_
      rw [read, CharString.charAt] at hend
      split at hend
      · split at hend
        · omega
        · cases hend
      · have hlt := (List.getElem?_eq_some_iff.mp hend).1
        omega

/-- The source lies apart from where the copy is written. -/
def Clear (src : Source) (i pos n : Nat) : Prop :=
  ∀ off, src = .buffer i off → off + n ≤ pos ∨ pos + n ≤ off

/-- A copy between parts that are clear of each other has a meaning. -/
theorem Clear.apart (h : Clear src i pos n) : src.apart i pos n n = true := by
  cases src with
  | text t => rfl
  | buffer j off =>
      rw [Source.apart]
      by_cases hj : j = i
      · subst hj
        rcases h off rfl with hle | hle
        · simp [hle]
        · simp [hle]
      · simp [hj]

theorem clear_buffer (h : j ≠ i) (off pos n : Nat) : Clear (.buffer j off) i pos n :=
  fun _ hcon => absurd (Source.buffer.inj hcon).1 h

/-- Behind the first characters of an argument there is room for them, also where it points at the
string itself. -/
theorem clear_chars (w : Strings) {t : Chars} (i : Nat) (hle : n ≤ (t.textOf f).length) :
    Clear (w.pointer t) i (f i).length n := by
  intro off hoff
  cases t with
  | text t => cases hoff
  | cStr j =>
      rw [pointer] at hoff
      split at hoff
      · cases hoff
      · obtain ⟨rfl, rfl⟩ := Source.buffer.inj hoff
        exact Or.inl (by rw [Nat.zero_add]; exact hle)

/-- A read ahead of the copy, or of what it does not reach. -/
theorem read_written {w : Strings} {src : Source} {i pos n : Nat} {xs : List UInt8}
    (hclear : Clear src i pos n) (hlt : xs.length < n) (hbuf : (w i).buf ≠ [])
    (hfits : pos + xs.length ≤ (w i).buf.length) :
    (w.written i pos xs).read src xs.length = w.read src xs.length := by
  cases src with
  | text t => rfl
  | buffer j off =>
      rw [read, read]
      by_cases hj : j = i
      · subst hj
        have hne : overwrite 0 (w j).buf pos xs ≠ [] := by
          have := List.length_pos_iff.mpr hbuf
          refine List.ne_nil_of_length_pos ?_
          rw [length_overwrite]
          omega
        rw [written_same, charAt_eq hne, charAt_eq hbuf, overwrite_getElem? 0 hfits, if_neg]
        rcases hclear off rfl with hle | hge
        · omega
        · omega
      · rw [written_other hj]

/-- A character is read and written behind those copied before it. -/
theorem copy_step {xs : List UInt8} (hgives : w.Gives src t) (hclear : Clear src i pos xs.length)
    (hbuf : (w i).buf ≠ []) (hfits : pos + xs.length ≤ (w i).buf.length)
    (hchars : ∀ k < xs.length, xs[k]? = (terminated t)[k]?) {k : Nat} {c : UInt8} {s : Strings}
    (hc : xs[k]? = some c) (hs : s = w.written i pos (xs.take k)) :
    s.read src k = some c ∧
      ∃ s', s.write i (pos + k) c = some s' ∧ s' = w.written i pos (xs.take (k + 1)) := by
  have hk := (List.getElem?_eq_some_iff.mp hc).1
  have hlen : (xs.take k).length = k := List.length_take_of_le hk.le
  have hin : k ≤ t.length := by
    have := (List.getElem?_eq_some_iff.mp ((hchars k hk).symm.trans hc)).1
    rw [length_terminated] at this
    omega
  have hread := @read_written w src i pos xs.length (xs.take k) hclear (by omega) hbuf (by omega)
  have hwrite := @write_written w i pos (xs.take k) c (by omega)
  rw [hlen] at hread hwrite
  rw [hs]
  refine ⟨?_, _, hwrite, ?_⟩
  · rw [hread, hgives k hin, ← hchars k hk, hc]
  · rw [List.take_add_one, hc]
    rfl

/-- **`strcpy` writes a text with its terminator.** -/
theorem strcpyTo_spec (hgives : w.Gives src t) (hclear : Clear src i pos (t.length + 1))
    (hfits : pos + t.length + 1 ≤ (w i).buf.length) :
    w.strcpyTo i pos src = some (w.written i pos (terminated t)) := by
  obtain ⟨w', hw', hP⟩ := @strcpy_rule Strings UInt8 _ (fun w k => w.read src k)
    (fun w k c => w.write i (pos + k) c) 0
    (fun k w' => w' = w.written i pos ((terminated t).take k)) (bytes t) ((w i).buf.length + 1) w
    (bytes_ne_zero t) (by rw [length_bytes]; omega)
    (fun _ _ _ => copy_step hgives (by rw [length_terminated]; exact hclear)
      (List.ne_nil_of_length_pos (by omega)) (by rw [length_terminated]; omega) fun _ _ => rfl)
    (by rw [List.take_zero, written_nil (by omega)])
  rw [length_bytes, ← length_terminated, List.take_length] at hP
  rw [strcpyTo, hgives.strlenOf, Option.bind_eq_bind, Option.bind_some, if_pos hclear.apart, hw', hP]

/-- **`strncpy` writes as many characters as it is asked to**, if there are so many. -/
theorem strncpyTo_spec {w : Strings} {i pos n : Nat} {src : Source} {t : List Chr}
    (hgives : w.Gives src t) (hn : n ≤ t.length) (hclear : Clear src i pos n)
    (hbuf : (w i).buf ≠ []) (hfits : pos + n ≤ (w i).buf.length) :
    w.strncpyTo i pos src n = some (w.written i pos (bytes (t.take n))) := by
  have htake : (bytes (t.take n)).length = n := by
    rw [length_bytes, List.length_take]
    omega
  obtain ⟨w', hw', hP⟩ := @strncpy_rule Strings UInt8 _ (fun w k => w.read src k)
    (fun w k c => w.write i (pos + k) c) 0
    (fun k w' => w' = w.written i pos ((bytes (t.take n)).take k)) (bytes (t.take n)) w
    (bytes_ne_zero _)
    (fun _ _ _ => copy_step hgives (by rw [htake]; exact hclear) hbuf (by rw [htake]; exact hfits)
      fun k hk => by
        rw [htake] at hk
        rw [terminated, List.getElem?_append_left (by rw [length_bytes]; omega),
          bytes_take_getElem? hk])
    (by rw [List.take_zero, written_nil (by omega)])
  rw [List.take_length] at hP
  rw [htake] at hw'
  -- the terminator is not among what is read
  have hread : w.readLen src n = n := by
    rw [readLen, hgives.strlenOf]
    exact Nat.min_eq_left (by omega)
  rw [strncpyTo, hread, if_pos hclear.apart, hw', hP]

/-- No characters overlap with none. -/
theorem strncpyTo_zero (w : Strings) (i pos : Nat) (src : Source) :
    w.strncpyTo i pos src 0 = some w := by
  have hapart : src.apart i pos (w.readLen src 0) 0 = true := by
    have hread : w.readLen src 0 = 0 := by
      rw [readLen]
      cases w.strlenOf src with
      | none => rfl
      | some len => exact Nat.zero_min _
    rw [hread]
    refine Clear.apart (fun off _ => ?_)
    omega
  rw [strncpyTo, if_pos hapart]
  rfl

theorem strlenOf_text (w : Strings) (t : List Chr) : w.strlenOf (.text t) = some t.length :=
  (gives_text w t).strlenOf

theorem strlenOf_buffer {off : Nat} (h : Shows (w j) l) (hoff : off ≤ l.length) :
    w.strlenOf (.buffer j off) = some (l.length - off) := by
  rw [(gives_buffer h hoff).strlenOf, List.length_drop]

/-- What an argument of type `const char*` gives. -/
theorem Holds.chars (h : w.Holds f) (t : Chars) :
    w.Gives t.source (t.textOf f) ∧ w.strlenOf t.source = some (t.textOf f).length := by
  cases t with
  | text t => exact ⟨gives_text w t, strlenOf_text w t⟩
  | cStr j => exact ⟨gives_cStr (h j).toShows, strlenOf_buffer (h j).toShows (Nat.zero_le _)⟩

/-- An argument gives its text from where it was evaluated, as long as the strings have their
texts. -/
theorem Holds.gives_pointer {w' : Strings} (h : w.Holds f) {t : Chars}
    (h' : ∀ j, t = .cStr j → Shows (w' j) (f j)) : w'.Gives (w.pointer t) (t.textOf f) := by
  cases t with
  | text t => exact gives_text w' t
  | cStr j =>
      rw [pointer]
      split
      · next hnil =>
          have hempty : f j = [] := (h j).toShows.eq_nil (List.isEmpty_iff.mp hnil)
          rw [Chars.textOf, hempty]
          exact gives_text w' []
      · exact gives_cStr (h' j rfl)

/-! ## What a copy leaves -/

/-- A text written with its terminator behind the part of the buffer that is kept. -/
theorem Holds.terminated {w : Strings} {f : Texts} (h : w.Holds f) {i : Nat} {l t : List Chr}
    (hkept : ∀ k, k < l.length → (w i).buf[k]? = (bytes l)[k]?)
    (hfits : l.length + t.length + 1 ≤ (w i).buf.length) :
    ((w.written i l.length (terminated t)).setLen i (l ++ t).length).Holds
      (Function.update f i (l ++ t)) := by
  rw [setLen, written_same, written, put_put]
  refine h.put i ⟨shows_overwrite hkept hfits, ?_⟩
  have hbounded := (h i).bounded
  rw [length_overwrite, length_terminated]
  omega

/-- A text written without its terminator, where there is a zero already. -/
theorem Holds.unterminated {w : Strings} {f : Texts} (h : w.Holds f) {i : Nat} {l t : List Chr}
    (hkept : ∀ k, k < l.length → (w i).buf[k]? = (bytes l)[k]?)
    (hfits : l.length + t.length + 1 ≤ (w i).buf.length)
    (hzero : (w i).buf[l.length + t.length]? = some 0) :
    ((w.written i l.length (bytes t)).setLen i (l ++ t).length).Holds
      (Function.update f i (l ++ t)) := by
  have hlen : l.length + (bytes t).length < (w i).buf.length := by rw [length_bytes]; omega
  have hset : overwrite 0 (w i).buf l.length (Text.terminated t) =
      overwrite 0 (w i).buf l.length (bytes t) := by
    rw [Text.terminated, ← set_overwrite 0 0 hlen]
    refine List.ext_getElem? (fun k => ?_)
    rw [List.getElem?_set, length_overwrite]
    by_cases hk : l.length + (bytes t).length = k
    · rw [if_pos hk, if_pos (by omega), overwrite_getElem? 0 (by omega), if_neg (by omega), ← hk,
        length_bytes, hzero]
    · rw [if_neg hk]
  have hterminated := h.terminated hkept hfits
  rwa [written, hset, ← written] at hterminated

/-- Copied with `strcpy`. -/
theorem Holds.strcpyTo {w : Strings} {f : Texts} (h : w.Holds f) {i : Nat} {l t : List Chr}
    {src : Source} (hkept : ∀ k, k < l.length → (w i).buf[k]? = (bytes l)[k]?)
    (hgives : w.Gives src t) (hclear : Clear src i l.length (t.length + 1))
    (hfits : l.length + t.length + 1 ≤ (w i).buf.length) :
    ∃ w', w.strcpyTo i l.length src = some w' ∧ (∀ j, (w' j).slen = (w j).slen) ∧
      (w'.setLen i (l ++ t).length).Holds (Function.update f i (l ++ t)) :=
  ⟨_, strcpyTo_spec hgives hclear hfits, written_slen w i l.length _, h.terminated hkept hfits⟩

/-- Copied with `strncpy`, up to a zero. -/
theorem Holds.strncpyTo (h : w.Holds f) (hkept : ∀ k, k < l.length → (w i).buf[k]? = (bytes l)[k]?)
    (hgives : w.Gives src t) (hn : n ≤ t.length) (hclear : Clear src i l.length n)
    (hfits : l.length + n + 1 ≤ (w i).buf.length) (hzero : (w i).buf[l.length + n]? = some 0) :
    ∃ w', w.strncpyTo i l.length src n = some w' ∧ (∀ j, (w' j).slen = (w j).slen) ∧
      (w'.setLen i (l.length + n)).Holds (Function.update f i (l ++ t.take n)) := by
  have htake : (t.take n).length = n := List.length_take_of_le hn
  have hbuf : (w i).buf ≠ [] := List.ne_nil_of_length_pos (by omega)
  refine ⟨_, strncpyTo_spec hgives hn hclear hbuf (by omega), written_slen w i l.length _, ?_⟩
  have hleft := @Holds.unterminated w f h i l (t.take n) hkept (by rw [htake]; exact hfits)
    (by rw [htake]; exact hzero)
  rwa [List.length_append, htake] at hleft

/-- The text of a string is kept where another one is written behind it. -/
theorem Holds.kept (h : w.Holds f) (hbuf : (w i).buf ≠ []) (k : Nat) (hk : k < (f i).length) :
    (w i).buf[k]? = (bytes (f i))[k]? :=
  (h i).toShows.kept hbuf hk

/-- Nothing is kept. -/
theorem kept_nil (b : List UInt8) (k : Nat) (hk : k < ([] : List Chr).length) :
    b[k]? = (bytes [])[k]? := absurd hk (Nat.not_lt_zero k)

/-- The length of a string is not read when its characters are counted. -/
theorem strlenOf_setLen (w : Strings) (i n : Nat) (src : Source) :
    (w.setLen i n).strlenOf src = w.strlenOf src := by
  have hread : ∀ src, (w.setLen i n).read src = w.read src := by
    intro src
    funext k
    cases src with
    | text t => rfl
    | buffer j off =>
        rw [read, read]
        by_cases hj : j = i
        · rw [hj, setLen_same]
          rfl
        · rw [setLen, put_other hj]
  have hbuf : ∀ j, ((w.setLen i n) j).buf = (w j).buf := by
    intro j
    by_cases hj : j = i
    · rw [hj, setLen_same]
    · rw [setLen, put_other hj]
  cases src with
  | text t => rw [strlenOf, strlenOf, hread]
  | buffer j off => rw [strlenOf, strlenOf, hread, hbuf]

theorem strlenOf_put_setLen (h : (w.setLen i n).Holds (Function.update f i l)) :
    w.strlenOf (.buffer i 0) = some l.length := by
  have hshows : Shows ((w.setLen i n) i) l := by
    have hi := (h i).toShows
    rwa [Function.update_self] at hi
  rw [← strlenOf_setLen w i n, strlenOf_buffer hshows (Nat.zero_le _), Nat.sub_zero]

/-! ## Constructors and assignment -/

theorem Holds.null (h : w.Holds f) (i : Nat) :
    (w.put i .null).Holds (Function.update f i []) := h.put i good_null

/-- Room is made and the whole of a text is copied. -/
theorem Holds.copied (h : w.Holds f) (hgives : (w.alloc i (t.length + 1)).Gives src t)
    (hclear : Clear src i 0 (t.length + 1)) (hlen : t.length + 1 < 18446744073709551616) :
    ∃ w', (w.alloc i (t.length + 1)).strcpyTo i 0 src = some w' ∧
      (∀ j, (w' j).slen = (f j).length) ∧
      (w'.setLen i t.length).Holds (Function.update f i t) := by
  obtain ⟨halloc, -, hle, -, -⟩ := h.alloc i (Nat.succ_pos t.length) hlen
  obtain ⟨w', hw', hslen, h'⟩ := @Holds.strcpyTo _ f halloc i [] t src (kept_nil _) hgives hclear
    (by rw [List.length_nil, Nat.zero_add]; exact hle)
  exact ⟨w', hw', fun j => (hslen j).trans (halloc j).length, h'⟩

theorem Holds.assign (h : w.Holds f) (hij : i ≠ j) :
    ∃ w', w.assign i j = some w' ∧ w'.Holds (Function.update f i (f j)) := by
  have hlen := (h j).toShows.fits (h j).bounded
  obtain ⟨halloc, -, -, -, -⟩ := h.alloc i (Nat.succ_pos (f j).length) hlen
  obtain ⟨w', hw', hslen, h'⟩ := h.copied (gives_cStr (halloc j).toShows)
    (clear_buffer (Ne.symm hij) 0 _ _) hlen
  refine ⟨_, ?_, h'⟩
  rw [Strings.assign, (h j).length]
  simp only [hw', hslen, Option.bind_eq_bind, Option.bind_some]

theorem Holds.constructCopy (h : w.Holds f) (hij : j ≠ i) :
    ∃ w', w.constructCopy i j = some w' ∧ w'.Holds (Function.update f i (f j)) := by
  obtain ⟨w', hw', h'⟩ := (h.null i).assign (Ne.symm hij)
  rw [Function.update_of_ne hij, Function.update_idem] at h'
  exact ⟨w', hw', h'⟩

theorem allocFor_eq {t : Chars} (hlen : len < 18446744073709551616)
    (hstay : t.isOf i = true → len ≤ (w i).buf.length ∨ (w i).buf = []) :
    w.allocFor i len t = some (w.alloc i len) := by
  rw [Strings.allocFor, if_neg]
  intro hmoves
  obtain ⟨hof, hmoves⟩ := Bool.and_eq_true_iff.mp hmoves
  rw [CharString.moves, wrap_of_lt hlen] at hmoves
  rcases hstay hof with hle | hnil
  · simp [hle] at hmoves
  · simp [hnil] at hmoves

/-- An argument does not point into a string unless it is `c_str()` of it, and it has a buffer. -/
theorem clear_pointer {t : Chars} (hof : t.isOf i = true → (w i).buf = []) (pos n : Nat) :
    Clear (w.pointer t) i pos n := by
  intro off hoff
  cases t with
  | text t => cases hoff
  | cStr j =>
      rw [pointer] at hoff
      split at hoff
      · cases hoff
      · next hne =>
          obtain ⟨rfl, -⟩ := Source.buffer.inj hoff
          exact absurd (List.isEmpty_iff.mpr (hof (decide_eq_true rfl))) hne

theorem Holds.assignChars (h : w.Holds f) {t : Chars} (hown : t.isOf i = true → (w i).buf = [])
    (hlen : (t.textOf f).length + 1 < 18446744073709551616) :
    ∃ w', w.assignChars i t = some w' ∧ w'.Holds (Function.update f i (t.textOf f)) := by
  obtain ⟨halloc, -, -, -, -⟩ := h.alloc i (Nat.succ_pos (t.textOf f).length) hlen
  obtain ⟨w', hw', -, h'⟩ := h.copied (h.gives_pointer (fun j _ => (halloc j).toShows))
    (clear_pointer hown 0 _) hlen
  refine ⟨_, ?_, h'⟩
  rw [Strings.assignChars]
  simp only [(h.gives_pointer (fun j _ => (h j).toShows)).strlenOf,
    allocFor_eq hlen (fun hof => Or.inr (hown hof)), hw', strlenOf_put_setLen h',
    Option.bind_eq_bind, Option.bind_some]

theorem Holds.constructChars (h : w.Holds f) {t : Chars} (hof : t.isOf i = false)
    (hlen : (t.textOf f).length + 1 < 18446744073709551616) :
    ∃ w', w.constructChars i t = some w' ∧ w'.Holds (Function.update f i (t.textOf f)) := by
  have hnull := h.null i
  obtain ⟨halloc, -, -, -, -⟩ := hnull.alloc i (Nat.succ_pos _) hlen
  -- the string that is constructed is none the argument points at
  have hother : ∀ {w' : Strings}, w'.Holds (Function.update f i []) →
      ∀ j, t = .cStr j → Shows (w' j) (f j) := by
    rintro w' hw' j rfl
    have hij : ¬ (i = j) := of_decide_eq_false hof
    have hj := (hw' j).toShows
    rwa [Function.update_of_ne (Ne.symm hij)] at hj
  obtain ⟨w', hw', -, h'⟩ := hnull.copied (h.gives_pointer (hother halloc))
    (clear_pointer (fun hcon => by rw [hof] at hcon; cases hcon) 0 _) hlen
  rw [Function.update_idem] at h'
  refine ⟨_, ?_, h'⟩
  rw [Strings.constructChars]
  simp only [(h.gives_pointer (hother hnull)).strlenOf, hw', strlenOf_put_setLen h',
    Option.bind_eq_bind, Option.bind_some]

/-- A single character. -/
theorem Holds.assignChar (h : w.Holds f) (i : Nat) (c : UInt8) :
    ∃ w', w.assignChar i c = some w' ∧ w'.Holds (Function.update f i (charText c)) := by
  rw [Strings.assignChar, charText]
  by_cases hc : c ≠ 0
  · obtain ⟨halloc, -, hle, -, -⟩ := h.alloc i (show 0 < 2 by decide) (by decide)
    have hone := @write_written (w.alloc i 2) i 0 [] c (by simp only [List.length_nil]; omega)
    have htwo := @write_written (w.alloc i 2) i 0 [c] 0 (by simp only [List.length_singleton]; omega)
    rw [written_nil (by omega)] at hone
    rw [if_pos hc, dif_pos hc]
    refine ⟨((w.alloc i 2).written i 0 [c, 0]).setLen i 1, ?_, ?_⟩
    · simp only [List.length_nil, Nat.add_zero, List.nil_append] at hone
      simp only [List.length_singleton, Nat.zero_add, List.singleton_append] at htwo
      simp only [hone, htwo, Option.bind_eq_bind, Option.bind_some]
    · exact @Holds.terminated _ f halloc i [] [⟨c, hc⟩] (kept_nil _) (by simpa using hle)
  · obtain ⟨halloc, -, hle, -, -⟩ := h.alloc i (show 0 < 1 by decide) (by decide)
    have hone := @write_written (w.alloc i 1) i 0 [] 0 (by simp only [List.length_nil]; omega)
    rw [written_nil (by omega)] at hone
    rw [if_neg hc, dif_neg hc]
    refine ⟨((w.alloc i 1).written i 0 [0]).setLen i 0, ?_, ?_⟩
    · simp only [List.length_nil, Nat.add_zero, List.nil_append] at hone
      simp only [hone, Option.bind_eq_bind, Option.bind_some]
    · exact @Holds.terminated _ f halloc i [] [] (kept_nil _) (by simpa using hle)

/-- The string is cut at a position in it. -/
theorem Holds.cut (h : w.Holds f) (hbuf : (w i).buf ≠ []) (hpos : pos ≤ (f i).length) :
    ∃ w', w.write i pos 0 = some w' ∧
      (w'.setLen i pos).Holds (Function.update f i ((f i).take pos)) := by
  have hlt := (h i).toShows.lt_length hbuf
  have htake : ((f i).take pos).length = pos := List.length_take_of_le hpos
  have hwrite := @write_written w i pos [] 0 (by simp only [List.length_nil]; omega)
  rw [written_nil (by omega), List.length_nil, Nat.add_zero, List.nil_append] at hwrite
  have hcut := @Holds.terminated w f h i ((f i).take pos) [] (by
    rw [htake]
    intro k hk
    rw [h.kept hbuf k (by omega), bytes_take_getElem? hk]) (by rw [htake, List.length_nil]; omega)
  rw [List.append_nil, htake] at hcut
  exact ⟨_, hwrite, hcut⟩

/-- A string with a text in it has a buffer. -/
theorem Holds.buf_ne_nil (h : w.Holds f) (hpos : pos < (f i).length) :
    (w i).buf ≠ [] := fun hnil => by
  rw [(h i).toShows.eq_nil hnil] at hpos
  exact Nat.not_lt_zero pos hpos

theorem Holds.clear (h : w.Holds f) (i : Nat) :
    ∃ w', w.clear i = some w' ∧ w'.Holds (Function.update f i []) := by
  rw [Strings.clear, (h i).length]
  by_cases hlen : (f i).length = 0
  · rw [if_pos hlen, ← List.length_eq_zero_iff.mp hlen, Function.update_eq_self]
    exact ⟨w, rfl, h⟩
  · obtain ⟨w', hw', h'⟩ := h.cut (h.buf_ne_nil (Nat.pos_of_ne_zero hlen)) (Nat.zero_le _)
    rw [if_neg hlen]
    exact ⟨_, by simp only [hw', Option.bind_eq_bind, Option.bind_some], h'⟩

/-! ## Parts of a text -/

/-- Where the string is going to end, its buffer has a zero or is to be made anew. -/
def Clean (s : CharString) (n : Nat) : Prop :=
  s.buf.length ≤ s.slen + n ∨ s.buf[s.slen + n]? = some 0

instance (s : CharString) (n : Nat) : Decidable (Clean s n) :=
  inferInstanceAs (Decidable (_ ∨ _))

/-- Room for more characters and a terminator. -/
theorem Holds.room (h : w.Holds f) (hlen : (f i).length + n + 1 < 18446744073709551616) :
    (w.alloc i ((f i).length + n + 1)).Holds f ∧
      ((w.alloc i ((f i).length + n + 1)) i).buf ≠ [] ∧
      (f i).length + n + 1 ≤ ((w.alloc i ((f i).length + n + 1)) i).buf.length ∧
      (((w.alloc i ((f i).length + n + 1)) i).buf[(f i).length + n]? = some 0 ↔ Clean (w i) n) := by
  obtain ⟨halloc, hbuf, hle, hzero, hsame⟩ := h.alloc i (Nat.succ_pos _) hlen
  refine ⟨halloc, hbuf, hle, ?_⟩
  rw [Clean, (h i).length]
  by_cases hfits : (f i).length + n + 1 ≤ (w i).buf.length
  · rw [hsame hfits]
    exact ⟨Or.inr, fun hclean => hclean.resolve_left (by omega)⟩
  · exact iff_of_true (hzero (by omega) _ (by omega) (Nat.lt_succ_self _)) (Or.inl (by omega))

/-- Room is made and so many characters of a text are copied behind the string. -/
theorem Holds.strncpyBehind (h : w.Holds f)
    (hgives : (w.alloc i ((f i).length + n + 1)).Gives src t) (hn : n ≤ t.length)
    (hclear : Clear src i (f i).length n) (hlen : (f i).length + n + 1 < 18446744073709551616)
    (hclean : Clean (w i) n) :
    ∃ w', (w.alloc i ((f i).length + n + 1)).strncpyTo i (f i).length src n = some w' ∧
      (∀ j, (w' j).slen = (f j).length) ∧
      (w'.setLen i ((f i).length + n)).Holds (Function.update f i (f i ++ t.take n)) := by
  obtain ⟨halloc, hbuf, hle, hzero⟩ := h.room hlen
  obtain ⟨w', hw', hslen, h'⟩ := halloc.strncpyTo (halloc.kept hbuf) hgives hn hclear hle
    (hzero.mpr hclean)
  exact ⟨w', hw', fun j => (hslen j).trans (halloc j).length, h'⟩

/-- Room is made and a text is copied behind the string. -/
theorem Holds.strcpyBehind (h : w.Holds f)
    (hgives : (w.alloc i ((f i).length + t.length + 1)).Gives src t)
    (hclear : Clear src i (f i).length (t.length + 1))
    (hlen : (f i).length + t.length + 1 < 18446744073709551616) :
    ∃ w', (w.alloc i ((f i).length + t.length + 1)).strcpyTo i (f i).length src = some w' ∧
      (∀ j, (w' j).slen = (f j).length) ∧
      (w'.setLen i (f i ++ t).length).Holds (Function.update f i (f i ++ t)) := by
  obtain ⟨halloc, hbuf, hle, -⟩ := h.room hlen
  obtain ⟨w', hw', hslen, h'⟩ := halloc.strcpyTo (halloc.kept hbuf) hgives hclear hle
  exact ⟨w', hw', fun j => (hslen j).trans (halloc j).length, h'⟩

theorem Holds.constructPart (h : w.Holds f) (hij : j ≠ i) (hn : n ≤ (f j).length - pos)
    (hpos : pos ≤ (f j).length) :
    ∃ w', w.constructPart i (.buffer j pos) n = some w' ∧
      w'.Holds (Function.update f i (((f j).drop pos).take n)) := by
  have hnull := h.null i
  have hfj : Function.update f i [] j = f j := Function.update_of_ne hij [] f
  have hfi : Function.update f i [] i = [] := Function.update_self i [] f
  have hfits := (h j).toShows.fits (h j).bounded
  have hdrop : n ≤ ((f j).drop pos).length := by rw [List.length_drop]; exact hn
  have hlen : (Function.update f i [] i).length + n + 1 < 18446744073709551616 := by
    rw [hfi, List.length_nil]
    omega
  have hoff : pos ≤ (Function.update f i [] j).length := by rw [hfj]; exact hpos
  have hstrlen := strlenOf_buffer (hnull j).toShows hoff
  obtain ⟨halloc, -, -, -⟩ := hnull.room hlen
  have hgives := gives_buffer (halloc j).toShows hoff
  have hclean : Clean ((w.put i .null) i) n := by
    rw [put_same]
    exact Or.inl (Nat.zero_le _)
  rw [hfj] at hgives hstrlen
  obtain ⟨w', hw', -, h'⟩ :=
    hnull.strncpyBehind hgives hdrop (clear_buffer hij pos _ n) hlen hclean
  rw [hfi, List.nil_append, Function.update_idem, List.length_nil, Nat.zero_add] at h'
  rw [hfi, List.length_nil, Nat.zero_add] at hw'
  refine ⟨_, ?_, h'⟩
  rw [Strings.constructPart]
  simp only [hstrlen, Option.bind_eq_bind, Option.bind_some, if_neg (Nat.not_lt.mpr hn), hw']

theorem Holds.substr (h : w.Holds f) (hij : j ≠ i) :
    ∃ w', w.substr i j pos n = some w' ∧
      w'.Holds (Function.update f i (((f j).drop pos).take n)) := by
  have hfits := (h j).toShows.fits (h j).bounded
  rw [Strings.substr, (h j).length]
  by_cases hpos : (f j).length ≤ pos
  · rw [if_pos hpos, List.drop_eq_nil_of_le hpos, List.take_nil]
    exact ⟨_, rfl, h.null i⟩
  · rw [if_neg hpos]
    by_cases hn : n = npos ∨ (f j).length - pos < n
    · have hall : ((f j).drop pos).take n = ((f j).drop pos).take ((f j).length - pos) := by
        have hlen : ((f j).drop pos).length ≤ n := by
          rw [List.length_drop]
          rcases hn with rfl | hlt
          · rw [npos]
            omega
          · omega
        rw [List.take_of_length_le hlen, List.take_of_length_le (by rw [List.length_drop])]
      rw [if_pos hn, hall]
      dsimp only
      rw [wrap_of_lt (by omega), if_pos (by omega)]
      exact h.constructPart hij (Nat.le_refl _) (by omega)
    · rw [if_neg hn]
      dsimp only
      rw [wrap_of_lt (by omega), if_pos (by omega)]
      exact h.constructPart hij (by omega) (by omega)

/-! ## Appending -/

theorem Holds.append (h : w.Holds f) (hsound : (f j).length = 0 ∨
      i ≠ j ∧ (f i).length + (f j).length + 1 < 18446744073709551616) :
    ∃ w', w.append i j = some w' ∧ w'.Holds (Function.update f i (f i ++ f j)) := by
  rw [Strings.append, (h j).length, (h i).length]
  by_cases hnil : (f j).length = 0
  · rw [if_pos hnil, List.length_eq_zero_iff.mp hnil, List.append_nil, Function.update_eq_self]
    exact ⟨w, rfl, h⟩
  · obtain ⟨hij, hlen⟩ := hsound.resolve_left hnil
    obtain ⟨halloc, -, -, -⟩ := h.room hlen
    obtain ⟨w', hw', hslen, h'⟩ := h.strcpyBehind (gives_cStr (halloc j).toShows)
      (clear_buffer (Ne.symm hij) 0 _ _) hlen
    rw [if_neg hnil]
    refine ⟨_, ?_, h'⟩
    simp only [(halloc i).length, hw', hslen, Option.bind_eq_bind, Option.bind_some,
      List.length_append]
    rw [wrap_of_lt (Nat.lt_of_succ_lt hlen)]

theorem Holds.appendChars (h : w.Holds f) {t : Chars} (hsound : (t.textOf f).length = 0 ∨
      t.isOf i = false ∧ (f i).length + (t.textOf f).length + 1 < 18446744073709551616) :
    ∃ w', w.appendChars i t = some w' ∧ w'.Holds (Function.update f i (f i ++ t.textOf f)) := by
  have hgives : w.Gives (w.pointer t) (t.textOf f) := h.gives_pointer (fun j _ => (h j).toShows)
  simp only [Strings.appendChars, hgives.strlenOf, Option.bind_eq_bind, Option.bind_some,
    (h i).length]
  by_cases hnil : (t.textOf f).length = 0
  · rw [if_pos hnil, List.length_eq_zero_iff.mp hnil, List.append_nil, Function.update_eq_self]
    exact ⟨w, rfl, h⟩
  · obtain ⟨hof, hlen⟩ := hsound.resolve_left hnil
    obtain ⟨halloc, -, -, -⟩ := h.room hlen
    have hother : t.isOf i = true → (w i).buf = [] := fun hcon => by rw [hof] at hcon; cases hcon
    obtain ⟨w', hw', hslen, h'⟩ := h.strcpyBehind
      (h.gives_pointer (fun j _ => (halloc j).toShows)) (clear_pointer hother _ _) hlen
    -- what the argument points at is not changed by the copy
    have hstrlen : w'.strlenOf (w.pointer t) = some (t.textOf f).length := by
      rw [← strlenOf_setLen w' i (f i ++ t.textOf f).length]
      refine (h.gives_pointer ?_).strlenOf
      rintro j rfl
      have hij : ¬ (i = j) := of_decide_eq_false hof
      have hj := (h' j).toShows
      rwa [Function.update_of_ne (Ne.symm hij)] at hj
    rw [if_neg hnil, allocFor_eq hlen (fun hcon => by rw [hof] at hcon; cases hcon)]
    refine ⟨_, ?_, h'⟩
    simp only [(halloc i).length, hw', hslen, hstrlen, Option.bind_some, List.length_append]
    rw [wrap_of_lt (Nat.lt_of_succ_lt hlen)]

/-- Nothing, or the rest of a text behind its end. -/
theorem append_part_nil (h : n = 0 ∨ t.length ≤ pos) : l ++ (t.drop pos).take n = l := by
  rcases h with rfl | hle
  · rw [List.take_zero, List.append_nil]
  · rw [List.drop_eq_nil_of_le hle, List.take_nil, List.append_nil]

theorem Holds.appendPart (h : w.Holds f)
    (hsound : n = 0 ∨ ((f j).length ≤ pos ∧ (f j).length ≤ wrap (pos + n)) ∨
      pos + n < (f j).length ∧ (f i).length + n + 1 < 18446744073709551616 ∧ Clean (w i) n) :
    ∃ w', w.appendPart i j pos n = some w' ∧
      w'.Holds (Function.update f i (f i ++ ((f j).drop pos).take n)) := by
  have hfits := (h j).toShows.fits (h j).bounded
  rw [Strings.appendPart, (h j).length, (h i).length]
  rcases or_assoc.mpr hsound with hnil | ⟨hlt, hlen, hclean⟩
  · rw [append_part_nil (hnil.imp_right And.left), Function.update_eq_self,
      if_pos (hnil.imp_right (fun hle => Or.inr hle.2))]
    exact ⟨w, rfl, h⟩
  · by_cases hn : n = 0
    · rw [append_part_nil (Or.inl hn), Function.update_eq_self, if_pos (Or.inl hn)]
      exact ⟨w, rfl, h⟩
    · obtain ⟨halloc, -, -, -⟩ := h.room hlen
      have hclear : Clear (.buffer j pos) i (f i).length n := by
        intro off hoff
        obtain ⟨rfl, rfl⟩ := Source.buffer.inj hoff
        exact Or.inl hlt.le
      obtain ⟨w', hw', hslen, h'⟩ := h.strncpyBehind
        (gives_buffer (halloc j).toShows (Nat.le_of_add_right_le hlt.le))
        (by rw [List.length_drop]; omega) hclear hlen hclean
      rw [wrap_of_lt (by omega), if_neg (by omega)]
      refine ⟨_, ?_, h'⟩
      simp only [(halloc i).length, hw', hslen, Option.bind_eq_bind, Option.bind_some]
      rw [wrap_of_lt (Nat.lt_of_succ_lt hlen)]

theorem Holds.appendCharsN (h : w.Holds f) {t : Chars} (hsound : (n = 0 ∨ (t.textOf f).length = 0) ∨
      n ≤ (t.textOf f).length ∧ (f i).length + n + 1 < 18446744073709551616 ∧ Clean (w i) n ∧
        (t.isOf i = true → (f i).length + n + 1 ≤ (w i).buf.length)) :
    ∃ w', w.appendCharsN i t n = some w' ∧
      w'.Holds (Function.update f i (f i ++ (t.textOf f).take n)) := by
  have hgives : w.Gives (w.pointer t) (t.textOf f) := h.gives_pointer (fun j _ => (h j).toShows)
  simp only [Strings.appendCharsN, hgives.strlenOf, Option.bind_eq_bind, Option.bind_some,
    (h i).length]
  by_cases hn : n = 0
  · rw [if_pos hn, hn, List.take_zero, List.append_nil, Function.update_eq_self]
    exact ⟨w, rfl, h⟩
  rw [if_neg hn]
  by_cases hnil : (t.textOf f).length = 0
  · rw [if_pos (by omega), List.length_eq_zero_iff.mp hnil, List.take_nil, List.append_nil,
      Function.update_eq_self]
    exact ⟨w, rfl, h⟩
  · obtain ⟨hle, hlen, hclean, hstay⟩ := hsound.resolve_left (fun hcon => hcon.elim hn hnil)
    obtain ⟨halloc, -, -, -⟩ := h.room hlen
    have hclear : Clear (w.pointer t) i (f i).length n := clear_chars w i hle
    obtain ⟨w', hw', hslen, h'⟩ := h.strncpyBehind
      (h.gives_pointer (fun j _ => (halloc j).toShows)) hle hclear hlen hclean
    rw [if_neg (by omega), allocFor_eq hlen (fun hof => Or.inl (hstay hof))]
    refine ⟨_, ?_, h'⟩
    simp only [(halloc i).length, hw', hslen, Option.bind_some]
    rw [wrap_of_lt (Nat.lt_of_succ_lt hlen)]

/-- The loop one character later. -/
theorem fill_succ (i : Nat) (c : UInt8) : ∀ (n : Nat) (w : Strings),
    fill i c (n + 1) w = (fill i c n w).bind (fill i c 1)
  | 0, _ => rfl
  | n + 1, w => by
      rw [fill, fill, Option.bind_eq_bind, Option.bind_assoc]
      congr 1
      funext w'
      exact fill_succ i c n _

/-- **The loop writes its character over and over.** -/
theorem fill_eq (i : Nat) (c : UInt8) (hbounded : (w i).buf.length < 18446744073709551616) :
    ∀ n, (w i).slen + n + 1 ≤ (w i).buf.length → fill i c n w =
      some ((w.written i (w i).slen (List.replicate n c)).setLen i ((w i).slen + n))
  | 0, hfits => by
      rw [List.replicate_zero, written_nil (by omega), Nat.add_zero, setLen]
      exact congrArg some (Function.update_eq_self i w).symm
  | n + 1, hfits => by
      have hlen : (overwrite 0 (w i).buf (w i).slen (List.replicate n c)).length =
          (w i).buf.length := by
        rw [length_overwrite, List.length_replicate]
        omega
      have hset := @set_overwrite UInt8 0 (w i).buf (w i).slen (List.replicate n c) c
        (by rw [List.length_replicate]; omega)
      rw [List.length_replicate] at hset
      rw [fill_succ, fill_eq i c hbounded n (by omega), Option.bind_some, fill, write, setLen,
        written_same, put_same, if_pos (by simp only [hlen]; omega), Option.bind_eq_bind,
        Option.bind_some, fill, setLen, put_same, written]
      simp only [put_put, put_same, hset, ← List.replicate_succ', setLen, written, Nat.add_assoc]
      rw [wrap_of_lt (by omega)]

theorem bytes_replicate (n : Nat) (c : Chr) : bytes (List.replicate n c) = List.replicate n c.val :=
  List.map_replicate

theorem Holds.appendFill (h : w.Holds f) (c : Chr)
    (hlen : (f i).length + n + 1 < 18446744073709551616) :
    ∃ w', w.appendFill i n c.val = some w' ∧
      w'.Holds (Function.update f i (f i ++ List.replicate n c)) := by
  obtain ⟨halloc, hbuf, hle, -⟩ := h.room hlen
  rw [Strings.appendFill, (h i).length]
  have hslen := (halloc i).length
  have hset := @set_overwrite UInt8 0 ((w.alloc i ((f i).length + n + 1)) i).buf (f i).length
    (List.replicate n c.val) 0 (by rw [List.length_replicate]; omega)
  rw [List.length_replicate, ← bytes_replicate, ← Text.terminated] at hset
  have hroom : (f i).length + n < (overwrite 0 ((w.alloc i ((f i).length + n + 1)) i).buf
      (f i).length (bytes (List.replicate n c))).length := by
    rw [length_overwrite]
    omega
  have hterminated := @Holds.terminated _ f halloc i (f i) (List.replicate n c)
    (halloc.kept hbuf) (by rw [List.length_replicate]; exact hle)
  rw [List.length_append, List.length_replicate] at hterminated
  refine ⟨_, ?_, hterminated⟩
  simp only [fill_eq i c.val (halloc i).bounded n (by rw [hslen]; exact hle), hslen,
    Option.bind_eq_bind, Option.bind_some, write, setLen, put_same, written, put_put,
    ← bytes_replicate, if_pos hroom, hset]

/-! ## Erasing -/

theorem write_setLen (w : Strings) (i n k : Nat) (c : UInt8) :
    (w.setLen i n).write i k c = (w.write i k c).map (fun w' => w'.setLen i n) := by
  rw [write, write, setLen, put_same]
  by_cases hk : k < (w i).buf.length
  · rw [if_pos hk, if_pos hk, put_put, Option.map_some, setLen, put_same, put_put]
  · rw [if_neg hk, if_neg hk, Option.map_none]

/-- The tail that `erase` is to move. -/
theorem take_append_drop_of_slices (hle : pos + n ≤ l.length)
    (h : slice l pos (l.length - (pos + n)) = slice l (pos + n) (l.length - (pos + n))) :
    l.take pos ++ l.drop (pos + n) = l.take (l.length - n) := by
  have hrest : slice l (pos + n) (l.length - (pos + n)) = l.drop (pos + n) := by
    rw [slice, List.take_of_length_le (by rw [List.length_drop])]
  rw [← hrest, ← h, slice, ← List.take_add]
  congr 1
  omega

theorem slices_of_take_append_drop (hle : pos + n ≤ l.length)
    (h : l.take pos ++ l.drop (pos + n) = l.take (l.length - n)) :
    slice l pos (l.length - (pos + n)) = slice l (pos + n) (l.length - (pos + n)) := by
  have hsplit : l.take (l.length - n) = l.take pos ++ slice l pos (l.length - (pos + n)) := by
    rw [slice, ← List.take_add]
    congr 1
    omega
  rw [hsplit] at h
  rw [← List.append_cancel_left h, slice, List.take_of_length_le (by rw [List.length_drop])]

/-- The buffer of a string is its text there. -/
theorem Holds.slice (h : w.Holds f) (hbuf : (w i).buf ≠ []) (hle : pos + len ≤ (f i).length) :
    Lib.slice (w i).buf pos len = bytes (Lib.slice (f i) pos len) := by
  refine List.ext_getElem? (fun k => ?_)
  rw [bytes, List.getElem?_map, slice_getElem?, slice_getElem?]
  by_cases hk : k < len
  · rw [if_pos hk, if_pos hk, h.kept hbuf _ (by omega), bytes, List.getElem?_map]
  · rw [if_neg hk, if_neg hk, Option.map_none]

/-- A part of a string that `erase` is to leave out, in its text. -/
theorem Holds.slices_iff (h : w.Holds f) (hpos : pos < (f i).length) (hle : pos + n ≤ (f i).length) :
    Lib.slice (w i).buf pos ((f i).length - (pos + n)) =
        Lib.slice (w i).buf (pos + n) ((f i).length - (pos + n)) ↔
      (f i).take pos ++ (f i).drop (pos + n) = (f i).take ((f i).length - n) := by
  have hbuf := h.buf_ne_nil hpos
  rw [h.slice hbuf (by omega), h.slice hbuf (by omega)]
  exact ⟨fun heq => take_append_drop_of_slices hle (bytes_inj heq),
    fun heq => congrArg bytes (slices_of_take_append_drop hle heq)⟩

/-- `s[slen] = 0` behind what is left. -/
theorem Holds.shorten (h : w.Holds f) (hbuf : (w i).buf ≠ []) (hn : n ≤ (f i).length) :
    ∃ w', (w.setLen i n).write i n 0 = some w' ∧
      w'.Holds (Function.update f i ((f i).take n)) := by
  obtain ⟨w', hw', h'⟩ := h.cut hbuf hn
  exact ⟨_, by rw [write_setLen, hw', Option.map_some], h'⟩

/-- The tail is moved over what is erased, if it is no longer than that. -/
theorem Holds.moved (h : w.Holds f) (hpos : pos < (f i).length) (hle : pos + n ≤ (f i).length)
    (hapart : (f i).length - (pos + n) ≤ n) :
    ∃ w₁ w', w.strncpyTo i pos (.buffer i (pos + n)) ((f i).length - (pos + n)) = some w₁ ∧
      (w₁ i).slen = (f i).length ∧
      (w₁.setLen i ((f i).length - n)).write i ((f i).length - n) 0 = some w' ∧
      w'.Holds (Function.update f i ((f i).take pos ++ (f i).drop (pos + n))) := by
  have hbuf := h.buf_ne_nil hpos
  have hlt := (h i).toShows.lt_length hbuf
  have hdrop : ((f i).drop (pos + n)).length = (f i).length - (pos + n) := List.length_drop
  have htake : ((f i).take pos).length = pos := List.length_take_of_le hpos.le
  have hspec := @strncpyTo_spec w i pos ((f i).length - (pos + n)) (.buffer i (pos + n)) _
    (gives_buffer (h i).toShows hle) hdrop.ge (fun off hoff => by
      obtain ⟨-, rfl⟩ := Source.buffer.inj hoff
      exact Or.inr (Nat.add_le_add_left hapart pos)) hbuf (by omega)
  rw [List.take_of_length_le hdrop.le] at hspec
  have hend : pos + (bytes ((f i).drop (pos + n))).length = (f i).length - n := by
    rw [length_bytes, hdrop]
    omega
  have hwrite := @write_written w i pos (bytes ((f i).drop (pos + n))) 0 (by omega)
  rw [hend] at hwrite
  have hleft := @Holds.terminated w f h i ((f i).take pos) ((f i).drop (pos + n)) (by
    rw [htake]
    intro k hk
    rw [h.kept hbuf k (by omega), bytes_take_getElem? hk]) (by omega)
  have hsum : ((f i).take pos ++ (f i).drop (pos + n)).length = (f i).length - n := by
    rw [List.length_append, htake, hdrop]
    omega
  rw [htake, hsum] at hleft
  refine ⟨_, _, hspec, (written_slen w i pos _ i).trans (h i).length, ?_, hleft⟩
  rw [write_setLen, hwrite, Option.map_some, ← Text.terminated]

/--
When `erase` does what it is to do: the tail is no longer than what is erased, so that the two do
not overlap; or its length is negative as a `long`, and it lies already as it would be moved.
-/
def EraseSound (s : CharString) (pos n : Nat) : Prop :=
  s.slen ≤ pos ∨ n = npos ∨ pos + n < 18446744073709551616 ∧
    (s.slen - (pos + n) ≤ n ∨ 9223372036854775808 ≤ s.slen - (pos + n) ∧
      Lib.slice s.buf pos (s.slen - (pos + n)) = Lib.slice s.buf (pos + n) (s.slen - (pos + n)))

instance (s : CharString) (pos n : Nat) : Decidable (EraseSound s pos n) :=
  inferInstanceAs (Decidable (_ ∨ _ ∨ _ ∧ (_ ∨ _ ∧ _)))

/-- What is left where the rest of the text is erased. -/
theorem take_append_drop_all (h : l.length ≤ pos + n) :
    l.take pos ++ l.drop (pos + n) = l.take pos := by
  rw [List.drop_eq_nil_of_le h, List.append_nil]

theorem Holds.erase (h : w.Holds f) (hn : n < 18446744073709551616)
    (hsound : EraseSound (w i) pos n) :
    ∃ w', w.erase i pos n = some w' ∧
      w'.Holds (Function.update f i ((f i).take pos ++ (f i).drop (pos + n))) := by
  -- the cases are those of `erase`: everything, nothing, a tail, and a part in the middle
  have hfits := (h i).toShows.fits (h i).bounded
  rw [EraseSound, (h i).length] at hsound
  rw [Strings.erase, (h i).length]
  by_cases hall : pos = 0 ∧ n = npos
  · obtain ⟨rfl, rfl⟩ := hall
    rw [if_pos ⟨rfl, rfl⟩, take_append_drop_all (by rw [npos]; omega), List.take_zero]
    exact h.clear i
  rw [if_neg hall]
  by_cases hpos : (f i).length ≤ pos
  · rw [if_pos hpos, take_append_drop_all (by omega), List.take_of_length_le hpos,
      Function.update_eq_self]
    exact ⟨w, rfl, h⟩
  rw [if_neg hpos]
  have hlt : pos < (f i).length := Nat.lt_of_not_le hpos
  by_cases hcut : n = npos ∨ (f i).length < wrap (pos + n)
  · have hrest : (f i).length ≤ pos + n := by
      rcases hcut with rfl | hlong
      · rw [npos]
        omega
      · exact hlong.le.trans (Nat.mod_le _ _)
    obtain ⟨w', hw', h'⟩ := h.cut (h.buf_ne_nil hlt) hlt.le
    rw [if_pos hcut, take_append_drop_all hrest]
    exact ⟨_, by simp only [hw', Option.bind_eq_bind, Option.bind_some], h'⟩
  · -- here the characters behind the part are moved, over themselves
    obtain ⟨hsum, hmove⟩ := (hsound.resolve_left hpos).resolve_left (fun hcon => hcut (Or.inl hcon))
    rw [wrap_of_lt hsum] at hcut
    have hle : pos + n ≤ (f i).length := Nat.le_of_not_lt (fun hcon => hcut (Or.inr hcon))
    have hcp : wrap ((f i).length + 2 * npos + 2 - pos - n) = (f i).length - (pos + n) :=
      wrap_cplen hle hfits
    have hnew : wrap ((f i).length + npos + 1 - n) = (f i).length - n :=
      wrap_newLen ((Nat.le_add_left n pos).trans hle) hfits
    rw [wrap_of_lt hsum, if_neg hcut]
    simp only [hcp, setLen_same]
    -- from `2 ^ 63` on the copy is left out, and only the length changes
    by_cases hsmall : (f i).length - (pos + n) < 9223372036854775808
    · obtain ⟨w₁, w', hw₁, hslen, hw', h'⟩ := h.moved hlt hle
        (hmove.resolve_right (fun hcon => absurd hsmall (Nat.not_lt.mpr hcon.1)))
      have hcopy : (if 0 < (f i).length - (pos + n) ∧ (f i).length - (pos + n) < 9223372036854775808
          then w.strncpyTo i pos (.buffer i (pos + n)) ((f i).length - (pos + n)) else some w) =
            some w₁ := by
        by_cases hzero : 0 < (f i).length - (pos + n)
        · rw [if_pos ⟨hzero, hsmall⟩, hw₁]
        · rw [if_neg (fun hcon => hzero hcon.1), ← hw₁, Nat.eq_zero_of_not_pos hzero,
            strncpyTo_zero]
      exact ⟨w', by rw [hcopy, Option.bind_eq_bind, Option.bind_some, hslen, hnew, hw'], h'⟩
    · obtain ⟨w', hw', h'⟩ := h.shorten (h.buf_ne_nil hlt) (Nat.sub_le (f i).length n)
      have hslices := (hmove.resolve_left (fun hcon => hsmall (by omega))).2
      rw [(h.slices_iff hlt hle).mp hslices, if_neg (fun hcon => hsmall hcon.2),
        Option.bind_eq_bind, Option.bind_some, (h i).length, hnew]
      exact ⟨w', hw', h'⟩

end Strings

end Encoders.Text
