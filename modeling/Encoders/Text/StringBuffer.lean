import Mathlib.Logic.Function.Basic
import Encoders.Lib.CMemory

/-!
# `String`, the string of the default build

`libcpphaggle/String.cpp` keeps its characters in a buffer, with the length of the buffer and
the length of the string beside it. A string without a buffer points at a null character that
all such strings share. The buffer only grows; what was behind the end of a string before stays
in it, and comes to light where an operation relies on zeros that are not there.

This module embeds the operations that make and change strings, on a memory of many strings.
A step is partial: `none` stands for an access outside a buffer, for one to a buffer that was
moved, for a copy that never meets the end of what it copies, and for one between parts of a
buffer that overlap, to which `strcpy` and `strncpy` give no meaning. A request for memory is
taken to be met. Lengths and positions are unsigned 64-bit numbers.
-/

namespace Encoders.Text

open Encoders.Lib

/-- A character of a string. -/
abbrev Chr := {c : UInt8 // c ≠ 0}

/-- The characters as they stand in memory. -/
def bytes (l : List Chr) : List UInt8 := l.map Subtype.val

/-- `npos`, the largest `size_t`. -/
def npos : Nat := 18446744073709551615

/-- Arithmetic of `size_t`. -/
def wrap (n : Nat) : Nat := n % 18446744073709551616

/-- `class String`: the buffer, as long as `alloc_len`, and `slen`. -/
structure CharString where
  buf : List UInt8
  slen : Nat

namespace CharString

/-- `s(&nullchar), alloc_len(0), slen(0)` -/
def null : CharString := ⟨[], 0⟩

/-- `s[k]` -/
def charAt (s : CharString) (k : Nat) : Option UInt8 :=
  if s.buf.isEmpty then (if k = 0 then some 0 else none) else s.buf[k]?

/--
`alloc(len)`: `realloc`, and zeros from the end of the string on. Nothing is done for a length
that the buffer has already, or for 0.
-/
def alloc (s : CharString) (len : Nat) : CharString :=
  if len ≤ s.buf.length ∨ len = 0 then s
  else { s with buf := s.buf.take s.slen ++ List.replicate (len - s.slen) 0 }

/-- A pointer into the buffer is lost when `alloc` makes another one. -/
def moves (s : CharString) (len : Nat) : Bool :=
  !s.buf.isEmpty && !(len ≤ s.buf.length || len = 0)

end CharString

/-- The strings of a program, by number. -/
abbrev Strings := Nat → CharString

/-- An argument of type `const char*`: a text of its own, or `c_str()` of a string. -/
inductive Chars where
  | text (t : List Chr)
  | cStr (j : Nat)

/-- What is copied from. -/
inductive Source where
  | text (t : List Chr)
  | buffer (j off : Nat)

/--
Whether the characters that are read from a pointer on lie apart from those that are written to a
buffer from a position on.
-/
def Source.apart (src : Source) (i pos read written : Nat) : Bool :=
  match src with
  | .text _ => true
  | .buffer j off => j ≠ i || off + read ≤ pos || pos + written ≤ off

/-- Where an argument points. -/
def Chars.source : Chars → Source
  | .text t => .text t
  | .cStr j => .buffer j 0

/-- An argument that points at the string itself. -/
def Chars.isOf (t : Chars) (i : Nat) : Bool :=
  match t with
  | .text _ => false
  | .cStr j => i = j

namespace Strings

def put (w : Strings) (i : Nat) (s : CharString) : Strings := Function.update w i s

/-- `slen = n` -/
def setLen (w : Strings) (i n : Nat) : Strings := w.put i { w i with slen := n }

def alloc (w : Strings) (i len : Nat) : Strings := w.put i ((w i).alloc (wrap len))

/-- Read the `k`-th character from a pointer on. -/
def read (w : Strings) : Source → Nat → Option UInt8
  | .text t, k => (bytes t ++ [0])[k]?
  | .buffer j off, k => (w j).charAt (off + k)

/-- Write a character into a buffer. -/
def write (w : Strings) (i k : Nat) (c : UInt8) : Option Strings :=
  if k < (w i).buf.length then some (w.put i { w i with buf := (w i).buf.set k c }) else none

/-- `strlen(src)` -/
def strlenOf (w : Strings) (src : Source) : Option Nat :=
  match src with
  | .text t => strlen (w.read (.text t)) 0 (t.length + 1) 0
  | .buffer j off => strlen (w.read (.buffer j off)) 0 ((w j).buf.length + 1) 0

/-- `strcpy(s + at, src)`: the characters and their terminator. -/
def strcpyTo (w : Strings) (i pos : Nat) (src : Source) : Option Strings := do
  let len ← w.strlenOf src
  if src.apart i pos (len + 1) (len + 1) then
    strcpy (fun w k => w.read src k) (fun w k c => w.write i (pos + k) c) 0
      ((w i).buf.length + 1) 0 w
  else none

/-- How many characters `strncpy` reads: not beyond a terminator. -/
def readLen (w : Strings) (src : Source) (n : Nat) : Nat :=
  match w.strlenOf src with
  | some len => min n (len + 1)
  | none => n

/-- `strncpy(s + at, src, n)` -/
def strncpyTo (w : Strings) (i pos : Nat) (src : Source) (n : Nat) : Option Strings :=
  if src.apart i pos (w.readLen src n) n then
    strncpy (fun w k => w.read src k) (fun w k c => w.write i (pos + k) c) 0 n 0 false w
  else none

/--
Where an argument points when it is evaluated. A string without a buffer gives the null character
that it shares, and that stays where it is when the string gets a buffer.
-/
def pointer (w : Strings) : Chars → Source
  | .text t => .text t
  | .cStr j => if (w j).buf.isEmpty then .text [] else .buffer j 0

/-- `alloc` in an operation that was given a pointer and goes on to use it. -/
def allocFor (w : Strings) (i len : Nat) (t : Chars) : Option Strings :=
  if t.isOf i && (w i).moves (wrap len) then none else some (w.alloc i len)

/-! ## Constructors -/

/-- `String(const char*)` -/
def constructChars (w : Strings) (i : Nat) (t : Chars) : Option Strings := do
  let src := w.pointer t
  let w := w.put i .null
  let len ← w.strlenOf src
  let w := w.alloc i (len + 1)
  let w ← w.strcpyTo i 0 src
  let len ← w.strlenOf (.buffer i 0)
  some (w.setLen i len)

/-- `operator=(char)`, and what the constructor of a character does too. -/
def assignChar (w : Strings) (i : Nat) (c : UInt8) : Option Strings :=
  if c ≠ 0 then do
    let w := w.alloc i 2
    let w ← w.write i 0 c
    let w ← w.write i 1 0
    some (w.setLen i 1)
  else do
    let w := w.alloc i 1
    let w ← w.write i 0 0
    some (w.setLen i 0)

/-- `String(char)` -/
def constructChar (w : Strings) (i : Nat) (c : UInt8) : Option Strings :=
  (w.put i .null).assignChar i c

/-- `String(const String&)` -/
def constructCopy (w : Strings) (i j : Nat) : Option Strings := do
  let w := w.put i .null
  let w := w.alloc i ((w j).slen + 1)
  let w ← w.strcpyTo i 0 (.buffer j 0)
  some (w.setLen i (w j).slen)

/-- `String(const char*, size_t)`, of which `substr` makes its result. -/
def constructPart (w : Strings) (i : Nat) (src : Source) (n : Nat) : Option Strings := do
  let w := w.put i .null
  let len ← w.strlenOf src
  let n := if len < n then len else n
  let w := w.alloc i (n + 1)
  let w ← w.strncpyTo i 0 src n
  some (w.setLen i n)

/-- `substr(pos, n)` of string `j`; `String(NULL)` is a string without a buffer. -/
def substr (w : Strings) (i j pos n : Nat) : Option Strings :=
  if (w j).slen ≤ pos then some (w.put i .null)
  else
    let n := if n = npos ∨ (w j).slen - pos < n then (w j).slen - pos else n
    if wrap (pos + n) ≤ (w j).slen then w.constructPart i (.buffer j pos) n
    else some (w.put i .null)

/-! ## Assignment -/

/-- `operator=(const String&)` -/
def assign (w : Strings) (i j : Nat) : Option Strings := do
  let w := w.alloc i ((w j).slen + 1)
  let w ← w.strcpyTo i 0 (.buffer j 0)
  some (w.setLen i (w j).slen)

/-- `operator=(const char*)` -/
def assignChars (w : Strings) (i : Nat) (t : Chars) : Option Strings := do
  let src := w.pointer t
  let len ← w.strlenOf src
  let w ← w.allocFor i (len + 1) t
  let w ← w.strcpyTo i 0 src
  let len ← w.strlenOf (.buffer i 0)
  some (w.setLen i len)

/-- `clear()` -/
def clear (w : Strings) (i : Nat) : Option Strings :=
  if (w i).slen = 0 then some w
  else do
    let w ← w.write i 0 0
    some (w.setLen i 0)

/-! ## Appending -/

/-- `append(const String&)`, which is `operator+=` -/
def append (w : Strings) (i j : Nat) : Option Strings :=
  if (w j).slen = 0 then some w
  else do
    let w := w.alloc i ((w i).slen + (w j).slen + 1)
    let w ← w.strcpyTo i (w i).slen (.buffer j 0)
    some (w.setLen i (wrap ((w i).slen + (w j).slen)))

/-- `append(const String&, size_t, size_t)` -/
def appendPart (w : Strings) (i j pos n : Nat) : Option Strings :=
  if n = 0 ∨ (w j).slen = 0 ∨ (w j).slen ≤ wrap (pos + n) then some w
  else do
    let w := w.alloc i ((w i).slen + n + 1)
    let w ← w.strncpyTo i (w i).slen (.buffer j pos) n
    some (w.setLen i (wrap ((w i).slen + n)))

/-- `append(const char*, size_t)` -/
def appendCharsN (w : Strings) (i : Nat) (t : Chars) (n : Nat) : Option Strings :=
  if n = 0 then some w
  else do
    let src := w.pointer t
    let len ← w.strlenOf src
    if len < n then some w
    else
      let w ← w.allocFor i ((w i).slen + n + 1) t
      let w ← w.strncpyTo i (w i).slen src n
      some (w.setLen i (wrap ((w i).slen + n)))

/-- `append(const char*)`, which is `operator+=` too -/
def appendChars (w : Strings) (i : Nat) (t : Chars) : Option Strings := do
  let src := w.pointer t
  let len ← w.strlenOf src
  if len = 0 then some w
  else
    let w ← w.allocFor i ((w i).slen + len + 1) t
    let w ← w.strcpyTo i (w i).slen src
    let len ← w.strlenOf src
    some (w.setLen i (wrap ((w i).slen + len)))

/-- `while (n) { s[slen++] = c; n--; }` -/
def fill (i : Nat) (c : UInt8) : Nat → Strings → Option Strings
  | 0, w => some w
  | n + 1, w => do
      let w ← w.write i (w i).slen c
      fill i c n (w.setLen i (wrap ((w i).slen + 1)))

/-- `append(size_t, char)`; `operator+=` of a character is `append(1, c)` -/
def appendFill (w : Strings) (i n : Nat) (c : UInt8) : Option Strings := do
  let w := w.alloc i ((w i).slen + n + 1)
  let w ← fill i c n w
  w.write i (w i).slen 0

/-! ## Erasing -/

/-- `erase(pos, n)` -/
def erase (w : Strings) (i pos n : Nat) : Option Strings :=
  if pos = 0 ∧ n = npos then w.clear i
  else if (w i).slen ≤ pos then some w
  else if n = npos ∨ (w i).slen < wrap (pos + n) then do
    let w ← w.write i pos 0
    some (w.setLen i pos)
  else do
    -- `cplen` is signed
    let cplen := wrap ((w i).slen + 2 * npos + 2 - pos - n)
    let w ← (if 0 < cplen ∧ cplen < 9223372036854775808 then
      w.strncpyTo i pos (.buffer i (wrap (pos + n))) cplen else some w)
    let w := w.setLen i (wrap ((w i).slen + npos + 1 - n))
    w.write i (w i).slen 0

end Strings

/-! ## Programs -/

/-- What a program does with its strings. -/
inductive StringOp where
  | construct (i : Nat)
  | constructChars (i : Nat) (t : Chars)
  | constructChar (i : Nat) (c : UInt8)
  | constructCopy (i j : Nat)
  | substr (i j : Nat) (pos n : UInt64)
  | assign (i j : Nat)
  | assignChars (i : Nat) (t : Chars)
  | assignChar (i : Nat) (c : UInt8)
  | clear (i : Nat)
  | append (i j : Nat)
  | appendPart (i j : Nat) (pos n : UInt64)
  | appendCharsN (i : Nat) (t : Chars) (n : UInt64)
  | appendChars (i : Nat) (t : Chars)
  | appendFill (i : Nat) (n : UInt64) (c : Chr)
  | plusChar (i : Nat) (c : Chr)
  | erase (i : Nat) (pos n : UInt64)

/--
One operation. What is constructed takes the place of a string, and no string is constructed
from the one whose place it takes. `operator+=` of a string and of a `const char*` are `append`.
-/
def Strings.step (w : Strings) : StringOp → Option Strings
  | .construct i => some (w.put i .null)
  | .constructChars i t => if t.isOf i then some w else w.constructChars i t
  | .constructChar i c => w.constructChar i c
  | .constructCopy i j => if i = j then some w else w.constructCopy i j
  | .substr i j pos n => if i = j then some w else w.substr i j pos.toNat n.toNat
  | .assign i j => w.assign i j
  | .assignChars i t => w.assignChars i t
  | .assignChar i c => w.assignChar i c
  | .clear i => w.clear i
  | .append i j => w.append i j
  | .appendPart i j pos n => w.appendPart i j pos.toNat n.toNat
  | .appendCharsN i t n => w.appendCharsN i t n.toNat
  | .appendChars i t => w.appendChars i t
  | .appendFill i n c => w.appendFill i n.toNat c.val
  | .plusChar i c => w.appendFill i 1 c.val
  | .erase i pos n => w.erase i pos.toNat n.toNat

/-- Texts of characters, by number. -/
abbrev Texts := Nat → List Chr

/-- The text an argument stands for. -/
def Chars.textOf (t : Chars) (f : Texts) : List Chr :=
  match t with
  | .text t => t
  | .cStr j => f j

/-- The text of a character; the null character has none. -/
def charText (c : UInt8) : List Chr := if h : c ≠ 0 then [⟨c, h⟩] else []

/-- The same on texts. -/
def Texts.step (f : Texts) : StringOp → Texts
  | .construct i => Function.update f i []
  | .constructChars i t => Function.update f i (t.textOf f)
  | .constructChar i c => Function.update f i (charText c)
  | .constructCopy i j => Function.update f i (f j)
  | .substr i j pos n =>
      if i = j then f else Function.update f i (((f j).drop pos.toNat).take n.toNat)
  | .assign i j => Function.update f i (f j)
  | .assignChars i t => Function.update f i (t.textOf f)
  | .assignChar i c => Function.update f i (charText c)
  | .clear i => Function.update f i []
  | .append i j => Function.update f i (f i ++ f j)
  | .appendPart i j pos n =>
      Function.update f i (f i ++ ((f j).drop pos.toNat).take n.toNat)
  | .appendCharsN i t n => Function.update f i (f i ++ (t.textOf f).take n.toNat)
  | .appendChars i t => Function.update f i (f i ++ t.textOf f)
  | .appendFill i n c => Function.update f i (f i ++ List.replicate n.toNat c)
  | .plusChar i c => Function.update f i (f i ++ [c])
  | .erase i pos n =>
      Function.update f i ((f i).take pos.toNat ++ (f i).drop (pos.toNat + n.toNat))

end Encoders.Text
