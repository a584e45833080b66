import Encoders.Text.StringRefines

/-!
# When `String` is a text

The operations whose result is right only under a condition, and that the condition is exact: a
result that shows the text it should says what must have been in the buffer before. Lengths are
numbers of a fixed size and wrap around, so this rests on the buffers being of a possible length
after every operation.
-/

namespace Encoders.Text

open Encoders.Lib

namespace Strings

variable {w w' : Strings} {f : Texts} {i n pos : Nat} {t : Chars}
variable {src : Source} {j : Nat} {l : List Chr}

/-! ## Buffers stay of a possible length -/

/-- No buffer is longer than a `size_t` can say. -/
def Bounded (w : Strings) : Prop := ∀ i, (w i).buf.length < 18446744073709551616

theorem Holds.toBounded (h : w.Holds f) : w.Bounded :=
  fun i => (h i).bounded

theorem Bounded.put {w : Strings} (h : w.Bounded) (i : Nat) {s : CharString}
    (hs : s.buf.length < 18446744073709551616) : (w.put i s).Bounded := by
  intro j
  by_cases hj : j = i
  · rw [hj, put_same]
    exact hs
  · rw [put_other hj]
    exact h j

theorem Bounded.setLen (h : w.Bounded) (i n : Nat) : (w.setLen i n).Bounded :=
  h.put i (h i)

theorem Bounded.alloc (h : w.Bounded) (i len : Nat) : (w.alloc i len).Bounded := by
  refine h.put i ?_
  have hold := h i
  have hnew := wrap_lt len
  rw [CharString.alloc]
  split
  · exact hold
  · rw [List.length_append, List.length_take, List.length_replicate]
    omega

theorem Bounded.write (h : w.Bounded) {k : Nat} {c : UInt8} (hw : w.write i k c = some w') :
    w'.Bounded := by
  rw [Strings.write] at hw
  split at hw
  · rw [← Option.some.inj hw]
    exact h.put i (by rw [List.length_set]; exact h i)
  · cases hw

theorem Bounded.strcpyTo {w w' : Strings} (h : w.Bounded) {i pos : Nat} {src : Source}
    (hw : w.strcpyTo i pos src = some w') : w'.Bounded := by
  obtain ⟨len, -, hw⟩ := Option.bind_eq_some_iff.mp hw
  exact strcpy_keeps (P := Bounded) (fun _ _ _ _ hs hs' => Bounded.write hs hs') _ 0 w w' h
    (Option.ite_none_right_eq_some.mp hw).2

theorem Bounded.strncpyTo (h : w.Bounded) (hw : w.strncpyTo i pos src n = some w') : w'.Bounded :=
  strncpy_keeps (P := Bounded) (fun _ _ _ _ hs hs' => Bounded.write hs hs') n 0 false w w' h
    (Option.ite_none_right_eq_some.mp hw).2

theorem Bounded.allocFor (h : w.Bounded) {len : Nat} (hw : w.allocFor i len t = some w') :
    w'.Bounded := by
  rw [Strings.allocFor] at hw
  split at hw
  · cases hw
  · rw [← Option.some.inj hw]
    exact h.alloc i len

theorem Bounded.constructChars (h : w.Bounded) (hw : w.constructChars i t = some w') :
    w'.Bounded := by
  obtain ⟨len, -, hw⟩ := Option.bind_eq_some_iff.mp hw
  obtain ⟨w₁, hw₁, hw⟩ := Option.bind_eq_some_iff.mp hw
  obtain ⟨len', -, hw⟩ := Option.bind_eq_some_iff.mp hw
  rw [← Option.some.inj hw]
  exact (((h.put i (by decide)).alloc i (len + 1)).strcpyTo hw₁).setLen i len'

theorem Bounded.assignChars (h : w.Bounded) (hw : w.assignChars i t = some w') : w'.Bounded := by
  obtain ⟨len, -, hw⟩ := Option.bind_eq_some_iff.mp hw
  obtain ⟨w₁, hw₁, hw⟩ := Option.bind_eq_some_iff.mp hw
  obtain ⟨w₂, hw₂, hw⟩ := Option.bind_eq_some_iff.mp hw
  obtain ⟨len', -, hw⟩ := Option.bind_eq_some_iff.mp hw
  rw [← Option.some.inj hw]
  exact ((h.allocFor hw₁).strcpyTo hw₂).setLen i len'

theorem Bounded.append (h : w.Bounded) (hw : w.append i j = some w') : w'.Bounded := by
  rw [Strings.append] at hw
  split at hw
  · rw [← Option.some.inj hw]
    exact h
  · obtain ⟨w₁, hw₁, hw⟩ := Option.bind_eq_some_iff.mp hw
    rw [← Option.some.inj hw]
    exact ((h.alloc i _).strcpyTo hw₁).setLen i _

theorem Bounded.appendChars (h : w.Bounded) (hw : w.appendChars i t = some w') : w'.Bounded := by
  obtain ⟨len, -, hw⟩ := Option.bind_eq_some_iff.mp hw
  split at hw
  · rw [← Option.some.inj hw]
    exact h
  · obtain ⟨w₁, hw₁, hw⟩ := Option.bind_eq_some_iff.mp hw
    obtain ⟨w₂, hw₂, hw⟩ := Option.bind_eq_some_iff.mp hw
    obtain ⟨len', -, hw⟩ := Option.bind_eq_some_iff.mp hw
    rw [← Option.some.inj hw]
    exact ((h.allocFor hw₁).strcpyTo hw₂).setLen i _

theorem Bounded.appendPart (h : w.Bounded) (hw : w.appendPart i j pos n = some w') :
    w'.Bounded := by
  rw [Strings.appendPart] at hw
  split at hw
  · rw [← Option.some.inj hw]
    exact h
  · obtain ⟨w₁, hw₁, hw⟩ := Option.bind_eq_some_iff.mp hw
    rw [← Option.some.inj hw]
    exact ((h.alloc i _).strncpyTo hw₁).setLen i _

theorem Bounded.appendCharsN (h : w.Bounded) (hw : w.appendCharsN i t n = some w') :
    w'.Bounded := by
  rw [Strings.appendCharsN] at hw
  split at hw
  · rw [← Option.some.inj hw]
    exact h
  · obtain ⟨len, -, hw⟩ := Option.bind_eq_some_iff.mp hw
    split at hw
    · rw [← Option.some.inj hw]
      exact h
    · obtain ⟨w₁, hw₁, hw⟩ := Option.bind_eq_some_iff.mp hw
      obtain ⟨w₂, hw₂, hw⟩ := Option.bind_eq_some_iff.mp hw
      rw [← Option.some.inj hw]
      exact ((h.allocFor hw₁).strncpyTo hw₂).setLen i _

theorem Bounded.fill {i : Nat} {c : UInt8} : ∀ {n : Nat} {w w' : Strings}, w.Bounded →
    fill i c n w = some w' → w'.Bounded
  | 0, _, _, h, hw => Option.some.inj hw ▸ h
  | n + 1, w, w', h, hw => by
      obtain ⟨w₁, hw₁, hw⟩ := Option.bind_eq_some_iff.mp hw
      exact ((h.write hw₁).setLen i _).fill hw

theorem Bounded.appendFill (h : w.Bounded) {c : UInt8} (hw : w.appendFill i n c = some w') :
    w'.Bounded := by
  obtain ⟨w₁, hw₁, hw⟩ := Option.bind_eq_some_iff.mp hw
  exact ((h.alloc i _).fill hw₁).write hw

/-! ## What a result says of the string before -/

/-- `alloc` leaves every length as it is. -/
theorem alloc_slen (w : Strings) (i len j : Nat) : ((w.alloc i len) j).slen = (w j).slen := by
  by_cases hj : j = i
  · subst hj
    rw [Strings.alloc, put_same, CharString.alloc]
    split
    · rfl
    · rfl
  · rw [alloc_other hj]

/-- A copy of a whole string to a place in it or behind it takes its terminator along, so that the
two overlap. -/
theorem strcpyTo_own (h : Shows (w i) l) (hpos : pos ≤ l.length) :
    w.strcpyTo i pos (.buffer i 0) = none := by
  have hoverlap : (Source.buffer i 0).apart i pos (l.length + 1) (l.length + 1) = false := by
    rw [Source.apart]
    simp
    omega
  rw [strcpyTo, (gives_cStr h).strlenOf, Option.bind_eq_bind, Option.bind_some, hoverlap]
  rfl

/-- `c_str()` of a string with a buffer. -/
theorem pointer_own (hbuf : (w i).buf ≠ []) : w.pointer (.cStr i) = .buffer i 0 := by
  rw [pointer, if_neg (fun hnil => hbuf (List.isEmpty_iff.mp hnil))]

/-- Characters of a string were copied within it: the two parts are apart. -/
theorem strncpyTo_apart {off : Nat} (h : Shows (w i) l) (hle : off + n ≤ l.length)
    (hw : w.strncpyTo i pos (.buffer i off) n = some w') : off + n ≤ pos ∨ pos + n ≤ off := by
  have hread : w.readLen (.buffer i off) n = n := by
    rw [readLen, strlenOf_buffer h (Nat.le_of_add_right_le hle)]
    exact Nat.min_eq_left (by omega)
  have hapart := (Option.ite_none_right_eq_some.mp hw).1
  rw [hread, Source.apart] at hapart
  simpa using hapart

theorem Holds.append_sound (h : w.Holds f) (hw : w.append i j = some w')
    (hshows : Shows (w' i) (f i ++ f j)) :
    (f j).length = 0 ∨ i ≠ j ∧ (f i).length + (f j).length + 1 < 18446744073709551616 := by
  have hfits := hshows.fits (h.toBounded.append hw i)
  rw [List.length_append] at hfits
  refine or_iff_not_imp_left.mpr (fun hpos => ⟨fun hij => ?_, hfits⟩)
  subst hij
  obtain ⟨halloc, -, -, -⟩ := h.room hfits
  have hown := strcpyTo_own (halloc i).toShows (Nat.le_refl _)
  rw [Strings.append, (h i).length, if_neg hpos] at hw
  obtain ⟨w₁, hw₁, -⟩ := Option.bind_eq_some_iff.mp hw
  rw [alloc_slen, (h i).length, hown] at hw₁
  cases hw₁

theorem Holds.appendChars_sound (h : w.Holds f) (hw : w.appendChars i t = some w')
    (hshows : Shows (w' i) (f i ++ t.textOf f)) :
    (t.textOf f).length = 0 ∨
      t.isOf i = false ∧ (f i).length + (t.textOf f).length + 1 < 18446744073709551616 := by
  have hfits := hshows.fits (h.toBounded.appendChars hw i)
  rw [List.length_append] at hfits
  refine or_iff_not_imp_left.mpr (fun hpos => ⟨Bool.eq_false_iff.mpr (fun hof => ?_), hfits⟩)
  cases t with
  | text t => cases hof
  | cStr j =>
      obtain rfl : i = j := of_decide_eq_true hof
      obtain ⟨halloc, -, -, -⟩ := h.room hfits
      have hown := strcpyTo_own (halloc i).toShows (Nat.le_refl _)
      have hpointer := pointer_own (h.buf_ne_nil (Nat.pos_of_ne_zero hpos))
      simp only [Strings.appendChars, hpointer, (gives_cStr (h i).toShows).strlenOf,
        Option.bind_eq_bind, Option.bind_some, (h i).length] at hw
      rw [if_neg (show ¬ (f i).length = 0 from hpos)] at hw
      obtain ⟨w₁, hw₁, hw⟩ := Option.bind_eq_some_iff.mp hw
      rw [allocFor] at hw₁
      split at hw₁
      · cases hw₁
      · rw [← Option.some.inj hw₁] at hw
        obtain ⟨w₂, hw₂, -⟩ := Option.bind_eq_some_iff.mp hw
        rw [alloc_slen, (h i).length] at hw₂
        exact absurd (hown.symm.trans hw₂) (Option.some_ne_none _).symm

/-- A string is not assigned to itself. -/
theorem Holds.assign_sound (h : w.Holds f) (hw : w.assign i j = some w') : i ≠ j := by
  rintro rfl
  have hlen := (h i).toShows.fits (h i).bounded
  obtain ⟨halloc, -, -, -, -⟩ := h.alloc i (Nat.succ_pos (f i).length) hlen
  have hown := strcpyTo_own (halloc i).toShows (Nat.zero_le _)
  rw [Strings.assign, (h i).length] at hw
  obtain ⟨w₁, hw₁, -⟩ := Option.bind_eq_some_iff.mp hw
  rw [hown] at hw₁
  cases hw₁

/-- Nor is its `c_str()`, unless it has no buffer. -/
theorem Holds.assignChars_sound (h : w.Holds f)
    (hlen : (t.textOf f).length + 1 < 18446744073709551616) (hw : w.assignChars i t = some w')
    (hof : t.isOf i = true) : (w i).buf = [] := by
  by_contra hbuf
  cases t with
  | text t => cases hof
  | cStr j =>
      obtain rfl : i = j := of_decide_eq_true hof
      obtain ⟨halloc, -, -, -, -⟩ := h.alloc i (Nat.succ_pos (f i).length) hlen
      have hown := strcpyTo_own (halloc i).toShows (Nat.zero_le _)
      simp only [Strings.assignChars, pointer_own hbuf, (gives_cStr (h i).toShows).strlenOf,
        Option.bind_eq_bind, Option.bind_some] at hw
      obtain ⟨w₁, hw₁, hw⟩ := Option.bind_eq_some_iff.mp hw
      rw [allocFor] at hw₁
      split at hw₁
      · cases hw₁
      · rw [← Option.some.inj hw₁, hown] at hw
        cases hw

/-- A result of `strncpy` that is terminated says that there was a zero. -/
theorem Holds.clean_of_shows {w₁ : Strings} (h : w.Holds f) {m : Nat} {t : List Chr}
    (hgives : (w.alloc i ((f i).length + n + 1)).Gives src t) (hn : n ≤ t.length)
    (hclear : Clear src i (f i).length n) (hlen : (f i).length + n + 1 < 18446744073709551616)
    (hw₁ : (w.alloc i ((f i).length + n + 1)).strncpyTo i (f i).length src n = some w₁)
    (hl : l.length = (f i).length + n) (hshows : Shows ((w₁.setLen i m) i) l) : Clean (w i) n := by
  obtain ⟨halloc, hbuf, hle, hzero⟩ := h.room hlen
  have htake : (bytes (t.take n)).length = n := by
    rw [length_bytes, List.length_take_of_le hn]
  rw [strncpyTo_spec hgives hn hclear hbuf (by omega)] at hw₁
  rw [← Option.some.inj hw₁] at hshows
  have hend := hshows.chars l.length (Nat.le_refl _)
  have hne : overwrite 0 ((w.alloc i ((f i).length + n + 1)) i).buf (f i).length
      (bytes (t.take n)) ≠ [] := by
    refine List.ne_nil_of_length_pos ?_
    rw [length_overwrite]
    omega
  rw [terminated_length, setLen_same, written_same, charAt_eq hne,
    overwrite_getElem? 0 (by omega), if_neg (by omega), hl] at hend
  exact hzero.mp hend

theorem write_slen {k : Nat} {c : UInt8} (hw : w.write i k c = some w') (j : Nat) :
    (w' j).slen = (w j).slen := by
  rw [write] at hw
  split at hw
  · rw [← Option.some.inj hw]
    by_cases hj : j = i
    · rw [hj, put_same]
    · rw [put_other hj]
  · cases hw

theorem strncpyTo_slen (hw : w.strncpyTo i pos src n = some w') (j : Nat) :
    (w' j).slen = (w j).slen := by
  refine strncpy_keeps (P := fun s => (s j).slen = (w j).slen) ?_ n 0 false w w' rfl
    (Option.ite_none_right_eq_some.mp hw).2
  exact fun s k c s' hs hs' => (write_slen hs' j).trans hs

theorem Holds.appendPart_sound (h : w.Holds f) (hp : pos < 18446744073709551616)
    (hn : n < 18446744073709551616) (hw : w.appendPart i j pos n = some w')
    (hshows : Shows (w' i) (f i ++ ((f j).drop pos).take n)) :
    n = 0 ∨ ((f j).length ≤ pos ∧ (f j).length ≤ wrap (pos + n)) ∨
      pos + n < (f j).length ∧ (f i).length + n + 1 < 18446744073709551616 ∧ Clean (w i) n := by
  have hfits := hshows.fits (h.toBounded.appendPart hw i)
  have hfj := (h j).toShows.fits (h j).bounded
  have hpart : (((f j).drop pos).take n).length = min n ((f j).length - pos) := by
    rw [List.length_take, List.length_drop]
  have hsum := hshows.length
  rw [List.length_append, hpart] at hfits hsum
  rw [Strings.appendPart, (h j).length, (h i).length] at hw
  -- a text as it should be leaves no other length than that of what was copied
  refine or_iff_not_imp_left.mpr (fun hpos => ?_)
  split at hw
  · rename_i hearly
    rw [← Option.some.inj hw, (h i).length] at hsum
    refine Or.inl ⟨by omega, ?_⟩
    rcases hearly with hnil | hnil | hle
    · exact absurd hnil hpos
    · omega
    · exact hle
  · rename_i hlate
    obtain ⟨w₁, hw₁, hw⟩ := Option.bind_eq_some_iff.mp hw
    have hnew : (w' i).slen = wrap ((f i).length + n) := by
      rw [← Option.some.inj hw, setLen_same, strncpyTo_slen hw₁ i, alloc_slen, (h i).length]
    rw [hnew, wrap] at hsum
    rw [wrap] at hlate
    have hlt : pos + n < (f j).length := by omega
    have hlen : (f i).length + n + 1 < 18446744073709551616 := by omega
    obtain ⟨halloc, -, -, -⟩ := h.room hlen
    have hclear : Clear (.buffer j pos) i (f i).length n := by
      intro off hoff
      obtain ⟨rfl, rfl⟩ := Source.buffer.inj hoff
      exact Or.inl hlt.le
    rw [alloc_slen, (h i).length] at hw₁
    rw [← Option.some.inj hw] at hshows
    refine Or.inr ⟨hlt, hlen, h.clean_of_shows (gives_buffer (halloc j).toShows (by omega))
      (by rw [List.length_drop]; omega) hclear hlen hw₁ ?_ hshows⟩
    rw [List.length_append, hpart]
    omega

theorem Holds.appendCharsN_sound (h : w.Holds f) (hn : n < 18446744073709551616)
    (hw : w.appendCharsN i t n = some w') (hshows : Shows (w' i) (f i ++ (t.textOf f).take n)) :
    (n = 0 ∨ (t.textOf f).length = 0) ∨
      n ≤ (t.textOf f).length ∧ (f i).length + n + 1 < 18446744073709551616 ∧ Clean (w i) n ∧
        (t.isOf i = true → (f i).length + n + 1 ≤ (w i).buf.length) := by
  have hfits := hshows.fits (h.toBounded.appendCharsN hw i)
  have hpart : ((t.textOf f).take n).length = min n (t.textOf f).length := List.length_take
  have hsum := hshows.length
  rw [List.length_append, hpart] at hfits hsum
  have hgives : w.Gives (w.pointer t) (t.textOf f) := h.gives_pointer (fun j _ => (h j).toShows)
  simp only [Strings.appendCharsN, hgives.strlenOf, Option.bind_eq_bind, Option.bind_some,
    (h i).length] at hw
  refine or_iff_not_imp_left.mpr (fun hpos => ?_)
  rw [not_or] at hpos
  rw [if_neg hpos.1] at hw
  split at hw
  · rw [← Option.some.inj hw, (h i).length] at hsum
    omega
  · rename_i hle
    have hlen : (f i).length + n + 1 < 18446744073709551616 := by omega
    obtain ⟨w₁, hw₁, hw⟩ := Option.bind_eq_some_iff.mp hw
    rw [Strings.allocFor, wrap_of_lt hlen] at hw₁
    -- a buffer that is freed while the argument points into it ends the call
    split at hw₁
    · cases hw₁
    rename_i hstay
    rw [← Option.some.inj hw₁] at hw
    obtain ⟨w₂, hw₂, hw⟩ := Option.bind_eq_some_iff.mp hw
    obtain ⟨halloc, -, -, -⟩ := h.room hlen
    have hclear : Clear (w.pointer t) i (f i).length n := clear_chars w i (Nat.le_of_not_lt hle)
    have hgives' := h.gives_pointer (t := t) (fun j _ => (halloc j).toShows)
    rw [alloc_slen, (h i).length] at hw₂
    rw [← Option.some.inj hw] at hshows
    refine ⟨Nat.le_of_not_lt hle, hlen, ?_, fun hof => ?_⟩
    · refine h.clean_of_shows hgives' (Nat.le_of_not_lt hle) hclear hlen hw₂ ?_ hshows
      rw [List.length_append, hpart]
      omega
    · cases t with
      | text t => cases hof
      | cStr j =>
          obtain rfl : i = j := of_decide_eq_true hof
          have hbuf := h.buf_ne_nil (Nat.pos_of_ne_zero hpos.2)
          simpa [Chars.isOf, CharString.moves, hbuf] using hstay

theorem Holds.erase_sound (h : w.Holds f) (hp : pos < 18446744073709551616)
    (hn : n < 18446744073709551616) (hw : w.erase i pos n = some w')
    (hshows : Shows (w' i) ((f i).take pos ++ (f i).drop (pos + n))) : EraseSound (w i) pos n := by
  have hfits := (h i).toShows.fits (h i).bounded
  rw [EraseSound, (h i).length]
  refine or_iff_not_imp_left.mpr (fun hpos => or_iff_not_imp_left.mpr (fun hnpos => ?_))
  have hlt : pos < (f i).length := Nat.lt_of_not_le hpos
  rw [Strings.erase, if_neg (fun hcon => hnpos hcon.2), (h i).length, if_neg hpos] at hw
  split at hw
  · rename_i hcut
    have hlong := hcut.resolve_left hnpos
    rw [wrap] at hlong
    exact ⟨by omega, Or.inl (by omega)⟩
  · rename_i hcut
    obtain ⟨w₁, hw₁, hw⟩ := Option.bind_eq_some_iff.mp hw
    have hslen : (w₁ i).slen = (f i).length := by
      rw [← (h i).length]
      split at hw₁
      · exact strncpyTo_slen hw₁ i
      · rw [← Option.some.inj hw₁]
    have hsum := hshows.length
    rw [write_slen hw, setLen_same, hslen, List.length_append, List.length_take,
      List.length_drop] at hsum
    dsimp only at hsum
    rw [not_or, wrap] at hcut
    rw [wrap, npos] at hsum
    have hno : pos + n < 18446744073709551616 := by
      rw [npos] at hnpos
      omega
    have hle : pos + n ≤ (f i).length := by omega
    have hcp : wrap ((f i).length + 2 * npos + 2 - pos - n) = (f i).length - (pos + n) :=
      wrap_cplen hle hfits
    have hnew : wrap ((f i).length + npos + 1 - n) = (f i).length - n :=
      wrap_newLen ((Nat.le_add_left n pos).trans hle) hfits
    refine ⟨hno, ?_⟩
    rw [hcp, wrap_of_lt hno] at hw₁
    by_cases hbig : 9223372036854775808 ≤ (f i).length - (pos + n)
    swap
    · -- the tail was copied, if there is one
      by_cases hzero : 0 < (f i).length - (pos + n)
      · rw [if_pos ⟨hzero, Nat.lt_of_not_le hbig⟩] at hw₁
        have hapart := strncpyTo_apart (h i).toShows (by omega) hw₁
        omega
      · omega
    refine Or.inr ⟨hbig, ?_⟩
    rw [if_neg (fun hcon => absurd hcon.2 (Nat.not_lt.mpr hbig))] at hw₁
    rw [← Option.some.inj hw₁] at hw
    dsimp only at hw
    rw [setLen_same] at hw
    obtain ⟨w₂, hw₂, h₂⟩ := h.shorten (h.buf_ne_nil hlt) (Nat.sub_le (f i).length n)
    rw [(h i).length, hnew] at hw
    have hshort := (h₂ i).toShows
    rw [Function.update_self, Option.some.inj (hw₂.symm.trans hw)] at hshort
    exact (h.slices_iff hlt hle).mpr (hshows.inj hshort)

end Strings

/-! ## Runs -/

/-- `strlen` of an argument. -/
def Chars.lenIn (t : Chars) (w : Strings) : Nat :=
  match t with
  | .text t => t.length
  | .cStr j => (w j).slen

theorem Chars.lenIn_eq {w : Strings} {f : Texts} (h : w.Holds f) (t : Chars) :
    t.lenIn w = (t.textOf f).length := by
  cases t with
  | text t => rfl
  | cStr j => exact (h j).length

/-- When an operation does what it is to do. -/
def Strings.Sound (w : Strings) : StringOp → Prop
  | .construct _ | .constructChar _ _ | .constructCopy _ _ | .substr _ _ _ _ | .assignChar _ _
  | .clear _ => True
  | .constructChars _ t => t.lenIn w + 1 < 18446744073709551616
  | .assign i j => i ≠ j
  | .assignChars i t =>
      (t.isOf i = true → (w i).buf = []) ∧ t.lenIn w + 1 < 18446744073709551616
  | .append i j =>
      (w j).slen = 0 ∨ i ≠ j ∧ (w i).slen + (w j).slen + 1 < 18446744073709551616
  | .appendPart i j pos n =>
      n.toNat = 0 ∨ ((w j).slen ≤ pos.toNat ∧ (w j).slen ≤ wrap (pos.toNat + n.toNat)) ∨
        pos.toNat + n.toNat < (w j).slen ∧
          (w i).slen + n.toNat + 1 < 18446744073709551616 ∧ Clean (w i) n.toNat
  | .appendCharsN i t n =>
      (n.toNat = 0 ∨ t.lenIn w = 0) ∨
        n.toNat ≤ t.lenIn w ∧ (w i).slen + n.toNat + 1 < 18446744073709551616 ∧
          Clean (w i) n.toNat ∧ (t.isOf i = true → (w i).slen + n.toNat + 1 ≤ (w i).buf.length)
  | .appendChars i t =>
      t.lenIn w = 0 ∨ t.isOf i = false ∧ (w i).slen + t.lenIn w + 1 < 18446744073709551616
  | .appendFill i n _ => (w i).slen + n.toNat + 1 < 18446744073709551616
  | .plusChar i _ => (w i).slen + 1 + 1 < 18446744073709551616
  | .erase i pos n => EraseSound (w i) pos.toNat n.toNat

instance (w : Strings) (op : StringOp) : Decidable (w.Sound op) :=
  match op with
  | .construct _ | .constructChar _ _ | .constructCopy _ _ | .substr _ _ _ _ | .assignChar _ _
  | .clear _ => inferInstanceAs (Decidable True)
  | .constructChars _ _ => inferInstanceAs (Decidable (_ < _))
  | .assign _ _ => inferInstanceAs (Decidable (_ ≠ _))
  | .assignChars _ _ => inferInstanceAs (Decidable ((_ → _) ∧ _))
  | .append _ _ => inferInstanceAs (Decidable (_ ∨ _ ∧ _))
  | .appendPart _ _ _ _ => inferInstanceAs (Decidable (_ ∨ (_ ∧ _) ∨ _ ∧ _ ∧ _))
  | .appendCharsN _ _ _ => inferInstanceAs (Decidable ((_ ∨ _) ∨ _ ∧ _ ∧ _ ∧ (_ → _)))
  | .appendChars _ _ => inferInstanceAs (Decidable (_ ∨ _ ∧ _))
  | .appendFill _ _ _ | .plusChar _ _ => inferInstanceAs (Decidable (_ < _))
  | .erase _ _ _ => inferInstanceAs (Decidable (Strings.EraseSound _ _ _))

namespace Strings

/-- A string constructed from the one whose place it takes is left as it is. -/
theorem textOf_own {t : Chars} {i : Nat} (hof : t.isOf i = true) (f : Texts) : t.textOf f = f i := by
  cases t with
  | text t => cases hof
  | cStr j =>
      obtain rfl : i = j := of_decide_eq_true hof
      rfl

/-- **One operation that is sound** does to the strings what it does to the texts. -/
theorem Holds.step {w : Strings} {f : Texts} (h : w.Holds f) {op : StringOp} (hok : w.Sound op) :
    ∃ w', w.step op = some w' ∧ w'.Holds (f.step op) := by
  cases op with
  | construct i => exact ⟨_, rfl, h.null i⟩
  | constructChars i t =>
      rw [Strings.step, Texts.step]
      -- a string constructed from its own characters stays what it is
      by_cases hof : t.isOf i = true
      · rw [if_pos hof, textOf_own hof, Function.update_eq_self]
        exact ⟨w, rfl, h⟩
      · -- the condition speaks of lengths in memory, which are those of the texts
        rw [Sound, t.lenIn_eq h] at hok
        rw [if_neg hof]
        exact h.constructChars (Bool.eq_false_iff.mpr hof) hok
  | constructChar i c =>
      obtain ⟨w', hw', h'⟩ := (h.null i).assignChar i c
      rw [Function.update_idem] at h'
      exact ⟨w', hw', h'⟩
  | constructCopy i j =>
      rw [Strings.step, Texts.step]
      by_cases hij : i = j
      · rw [if_pos hij, ← hij, Function.update_eq_self]
        exact ⟨w, rfl, h⟩
      · rw [if_neg hij]
        exact h.constructCopy (Ne.symm hij)
  | substr i j pos n =>
      rw [Strings.step, Texts.step]
      by_cases hij : i = j
      · rw [if_pos hij, if_pos hij]
        exact ⟨w, rfl, h⟩
      · rw [if_neg hij, if_neg hij]
        exact h.substr (Ne.symm hij)
  | assign i j => exact h.assign hok
  | assignChars i t =>
      rw [Sound, t.lenIn_eq h] at hok
      exact h.assignChars hok.1 hok.2
  | assignChar i c => exact h.assignChar i c
  | clear i => exact h.clear i
  | append i j =>
      rw [Sound, (h i).length, (h j).length] at hok
      exact h.append hok
  | appendPart i j pos n =>
      rw [Sound, (h i).length, (h j).length] at hok
      exact h.appendPart hok
  | appendCharsN i t n =>
      rw [Sound, (h i).length, t.lenIn_eq h] at hok
      exact h.appendCharsN hok
  | appendChars i t =>
      rw [Sound, (h i).length, t.lenIn_eq h] at hok
      exact h.appendChars hok
  | appendFill i n c =>
      rw [Sound, (h i).length] at hok
      exact h.appendFill c hok
  | plusChar i c =>
      rw [Sound, (h i).length] at hok
      exact h.appendFill c hok
  | erase i pos n => exact h.erase n.toNat_lt hok

/-- **An operation whose result shows the text it should was sound.** -/
theorem Holds.step_sound {w w' : Strings} {f : Texts} (h : w.Holds f) {op : StringOp}
    (hw : w.step op = some w') (hshows : ∀ i, Shows (w' i) (f.step op i)) : w.Sound op := by
  -- the string that the operation changes
  have hown : ∀ {i : Nat} {l : List Chr}, f.step op = Function.update f i l → Shows (w' i) l := by
    intro i l heq
    have hi := hshows i
    rwa [heq, Function.update_self] at hi
  cases op with
  | construct i => trivial
  | constructChars i t =>
      rw [Sound, t.lenIn_eq h]
      rw [Strings.step] at hw
      split at hw
      · rename_i hof
        rw [textOf_own hof]
        exact (h i).toShows.fits (h i).bounded
      · exact (hown rfl).fits (h.toBounded.constructChars hw i)
  | constructChar i c => trivial
  | constructCopy i j => trivial
  | substr i j pos n => trivial
  | assign i j => exact h.assign_sound hw
  | assignChars i t =>
      have hfits := (hown rfl).fits (h.toBounded.assignChars hw i)
      rw [Sound, t.lenIn_eq h]
      exact ⟨h.assignChars_sound hfits hw, hfits⟩
  | assignChar i c => trivial
  | clear i => trivial
  | append i j =>
      rw [Sound, (h i).length, (h j).length]
      exact h.append_sound hw (hown rfl)
  | appendPart i j pos n =>
      rw [Sound, (h i).length, (h j).length]
      exact h.appendPart_sound pos.toNat_lt n.toNat_lt hw (hown rfl)
  | appendCharsN i t n =>
      rw [Sound, (h i).length, t.lenIn_eq h]
      exact h.appendCharsN_sound n.toNat_lt hw (hown rfl)
  | appendChars i t =>
      rw [Sound, (h i).length, t.lenIn_eq h]
      exact h.appendChars_sound hw (hown rfl)
  | appendFill i n c =>
      have hfits := (hown rfl).fits (h.toBounded.appendFill hw i)
      rw [List.length_append, List.length_replicate] at hfits
      rw [Sound, (h i).length]
      exact hfits
  | plusChar i c =>
      have hfits := (hown rfl).fits (h.toBounded.appendFill hw i)
      rw [List.length_append, List.length_singleton] at hfits
      rw [Sound, (h i).length]
      exact hfits
  | erase i pos n => exact h.erase_sound pos.toNat_lt n.toNat_lt hw (hown rfl)

end Strings

/--
**`String` is a text exactly as long as its operations are sound.** Along every sequence of
operations, `c_str()` is the text that the same operations make and is terminated at `length()`
and not before, exactly when every operation met its condition where it was called: a part of a
string that is appended ends before the end of that string, or is empty; where an operation copies
without a terminator, the buffer has a zero there or is made anew; no string is appended or
assigned to itself; what `erase` moves is no longer than what it erases; and no length or position
goes beyond what its type holds.
-/
theorem string_refines_iff (ops : List StringOp) :
    (∀ pre post, ops = pre ++ post → ∃ w, run Strings.step (fun _ => .null) pre = some w ∧
        ∀ i, Shows (w i) (pre.foldl Texts.step (fun _ => []) i)) ↔
      Guarded Strings.step Strings.Sound (fun _ => .null) ops := by
  refine @run_related_iff Strings Texts StringOp Strings.step Texts.step Strings.Sound
    Strings.Holds (fun w f => ∀ i, Shows (w i) (f i)) (fun _ _ => True)
    (fun w f h i => (h i).toShows) (fun w f op h _ hok => h.step hok)
    (fun w f op w' h _ hw hshows => h.step_sound hw hshows) ops (fun _ => .null) (fun _ => [])
    (fun _ => good_null) ?_
  exact (guarded_iff _ _ ops _).mpr (fun _ _ _ _ _ _ => trivial)

/-- A part that reaches to the end of the string it is taken from is not appended. -/
theorem string_refines_fails : ¬ ∀ ops pre post, ops = pre ++ post →
    ∃ w, run Strings.step (fun _ => .null) pre = some w ∧
      ∀ i, Shows (w i) (pre.foldl Texts.step (fun _ => []) i) := by
  intro h
  obtain ⟨w, hw, hshows⟩ := h [.constructChar 0 97, .appendPart 1 0 0 1] _ [] (List.append_nil _).symm
  have hslen : (run Strings.step (fun _ => .null) [.constructChar 0 97, .appendPart 1 0 0 1]).map
      (fun w => (w 1).slen) = some 0 := by decide
  rw [hw] at hslen
  have hlen := (hshows 1).length.symm.trans (Option.some.inj hslen)
  exact absurd hlen (by decide)

end Encoders.Text
