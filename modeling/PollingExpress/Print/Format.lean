import Mathlib.Data.List.Basic
import PollingExpress.Framework.Fallible
import PollingExpress.Kernel.Task

/-!
# Formatted output

`kprintf.c`. A format is read character by character (`turn`); a directive takes its arguments from
`va`, and its characters are passed to an output function one by one. What is passed to it is a list
here, in order: each call of `out` has the next index, but for the last one, which is in
`vsnprintf`.

A word is 32 bits, and so are `long`, `size_t` and pointers; `long long` and `intmax_t` are 64 bits.
`char` is unsigned. A format is the list of its characters in front of the NUL, and so is a string.
The directives for floating point are not modelled, and end in a fault.
-/

namespace PollingExpress
namespace Print

/-- `PRINTF_NTOA_BUFFER_SIZE`. -/
def ntoaBufferSize : ℕ := 32

def ch (c : Char) : Byte := UInt8.ofNat c.toNat

/-- Where the behaviour is undefined, or is not modelled. -/
inductive Fault
  /-- An argument is missing, or is of another kind. -/
  | noArgument
  /-- The format was read behind its NUL. -/
  | pastEnd
  /-- A directive for floating point. -/
  | float
  /-- The turns of the loop in the model are used up. -/
  | outOfTurns
  deriving DecidableEq

/-- An argument of `printf`. -/
inductive Arg
  | word (value : BitVec 32)
  | longLong (value : BitVec 64)
  | string (chars : List Byte)
  deriving DecidableEq

/-- `FLAGS_ZEROPAD` and so on. -/
structure Flags where
  zeropad : Bool
  left : Bool
  plus : Bool
  space : Bool
  hash : Bool
  uppercase : Bool
  char : Bool
  short : Bool
  long : Bool
  longLong : Bool
  precision : Bool
  deriving DecidableEq

def Flags.none : Flags :=
  ⟨false, false, false, false, false, false, false, false, false, false, false⟩

/-- `va_arg` for a word. -/
def nextWord : List Arg → Except Fault (BitVec 32 × List Arg)
  | .word value :: va => .ok (value, va)
  | _ => .error .noArgument

/-- `va_arg` for a `long long`. -/
def nextLongLong : List Arg → Except Fault (BitVec 64 × List Arg)
  | .longLong value :: va => .ok (value, va)
  | _ => .error .noArgument

/-- `va_arg` for a `char *`. -/
def nextString : List Arg → Except Fault (List Byte × List Arg)
  | .string chars :: va => .ok (chars, va)
  | _ => .error .noArgument

/-! ### Numbers -/

def blanks (n : ℕ) : List Byte := List.replicate n (ch ' ')

/-- `_out_rev`. -/
def outRev (buf : List Byte) (width : ℕ) (flags : Flags) : List Byte :=
  (if ¬flags.left ∧ ¬flags.zeropad then blanks (width - buf.length) else []) ++ buf.reverse ++
    if flags.left then blanks (width - buf.length) else []

/-- `buf[len++] = c`, if there is room for it. -/
def put (buf : List Byte) (c : Byte) : List Byte :=
  if buf.length < ntoaBufferSize then buf ++ [c] else buf

/-- The loops that put leading zeros, up to a length of `n`. -/
def putZeros (buf : List Byte) (n : ℕ) : List Byte :=
  buf ++ List.replicate (min n ntoaBufferSize - buf.length) (ch '0')

/-- The part of `_ntoa_format` for `FLAGS_HASH`. -/
def putHash (buf : List Byte) (base prec width : ℕ) (flags : Flags) : List Byte :=
  -- padding zeros make room for the prefix
  let buf := if ¬flags.precision ∧ buf ≠ [] ∧ (buf.length = prec ∨ buf.length = width) then
      if buf.dropLast ≠ [] ∧ base = 16 then buf.dropLast.dropLast else buf.dropLast
    else buf
  let buf := if base = 16 then put buf (if flags.uppercase then ch 'X' else ch 'x')
    else if base = 2 then put buf (ch 'b')
    else buf
  put buf (ch '0')

/-- The part of `_ntoa_format` for the sign. -/
def putSign (buf : List Byte) (negative : Bool) (flags : Flags) : List Byte :=
  if negative then put buf (ch '-')
  else if flags.plus then put buf (ch '+')
  else if flags.space then put buf (ch ' ')
  else buf

/-- What is left of the width when the zeros in front of a number are put. -/
def zeroWidth (width : ℕ) (negative : Bool) (flags : Flags) : ℕ :=
  if ¬flags.left ∧ width ≠ 0 ∧ flags.zeropad ∧
    (negative ∨ flags.plus ∨ flags.space) then width - 1 else width

/-- The part of `_ntoa_format` for leading zeros; there are none behind a number on the left. -/
def putPadding (buf : List Byte) (prec width : ℕ) (flags : Flags) : List Byte :=
  if flags.left then buf
  else if flags.zeropad then putZeros (putZeros buf prec) width
  else putZeros buf prec

/-- `_ntoa_format`; `buf` has the digits, the last one first. -/
def ntoaFormat (buf : List Byte) (negative : Bool) (base prec width : ℕ) (flags : Flags) :
    List Byte :=
  let width := zeroWidth width negative flags
  let buf := putPadding buf prec width flags
  let buf := if flags.hash then putHash buf base prec width flags else buf
  outRev (putSign buf negative flags) width flags

/-- A digit as a character. -/
def digitChar (uppercase : Bool) (digit : ℕ) : Byte :=
  if digit < 10 then UInt8.ofNat (48 + digit)
  else UInt8.ofNat ((if uppercase then 65 else 97) + digit - 10)

/-- The loop of `_ntoa_long`: the digits of `value`, the last one first, while there is room for
them. -/
def ntoaLoop (uppercase : Bool) (base : ℕ) : ℕ → ℕ → List Byte
  | 0, _ => []
  | room + 1, value => digitChar uppercase (value % base) ::
    if value / base = 0 then [] else ntoaLoop uppercase base room (value / base)

/-- `_ntoa_long` and `_ntoa_long_long`, which differ in the type of the value only. -/
def ntoa (value : ℕ) (negative : Bool) (base prec width : ℕ) (flags : Flags) : List Byte :=
  -- no hash for 0 values
  let flags := if value = 0 then { flags with hash := false } else flags
  -- a 0 of explicit precision has no digits
  let buf :=
    if ¬flags.precision ∨ value ≠ 0 then ntoaLoop flags.uppercase base ntoaBufferSize value else []
  ntoaFormat buf negative base prec width flags

/-! ### Directives -/

/-- The flags of a directive. -/
def readFlags : Flags → List Byte → Flags × List Byte
  | flags, [] => (flags, [])
  | flags, c :: format =>
    if c = ch '0' then readFlags { flags with zeropad := true } format
    else if c = ch '-' then readFlags { flags with left := true } format
    else if c = ch '+' then readFlags { flags with plus := true } format
    else if c = ch ' ' then readFlags { flags with space := true } format
    else if c = ch '#' then readFlags { flags with hash := true } format
    else (flags, c :: format)

/-- `_is_digit`. -/
def isDigit (c : Byte) : Bool := ch '0' ≤ c ∧ c ≤ ch '9'

/-- `_atoi`, with what has been read so far. -/
def atoi : UInt32 → List Byte → UInt32 × List Byte
  | i, [] => (i, [])
  | i, c :: format =>
    if isDigit c then atoi (i * 10 + (c - ch '0').toUInt32) format else (i, c :: format)

/-- What has been read of a directive, what is left of the format, and the arguments. -/
structure Directive where
  flags : Flags
  width : ℕ
  precision : ℕ
  format : List Byte
  va : List Arg
  deriving DecidableEq

/-- The width field. -/
def readWidth (d : Directive) : Except Fault Directive :=
  match d.format with
  | [] => .ok d
  | c :: rest =>
    if isDigit c then
      let (width, format) := atoi 0 d.format
      .ok { d with width := width.toNat, format }
    else if c = ch '*' then do
      let (w, va) ← nextWord d.va
      if w.toInt < 0 then
        .ok { d with
          flags := { d.flags with left := true }
          width := (-w).toNat
          format := rest
          va }
      else .ok { d with width := w.toNat, format := rest, va }
    else .ok d

/-- The precision field. -/
def readPrecision (d : Directive) : Except Fault Directive :=
  match d.format with
  | [] => .ok d
  | c :: rest =>
    if c = ch '.' then
      let d := { d with flags := { d.flags with precision := true }, format := rest }
      match rest with
      | [] => .ok d
      | c :: rest' =>
        if isDigit c then
          let (precision, format) := atoi 0 rest
          .ok { d with precision := precision.toNat, format }
        else if c = ch '*' then do
          let (prec, va) ← nextWord d.va
          .ok { d with precision := if prec.toInt > 0 then prec.toNat else 0, format := rest', va }
        else .ok d
    else .ok d

/-- The length field. -/
def readLength (d : Directive) : Directive :=
  match d.format with
  | [] => d
  | c :: rest =>
    if c = ch 'l' then
      match rest with
      | c' :: rest' =>
        if c' = ch 'l' then
          { d with flags := { d.flags with long := true, longLong := true }, format := rest' }
        else { d with flags := { d.flags with long := true }, format := rest }
      | [] => { d with flags := { d.flags with long := true }, format := rest }
    else if c = ch 'h' then
      match rest with
      | c' :: rest' =>
        if c' = ch 'h' then { d with
          flags := { d.flags with short := true, char := true }
          format := rest' }
        else { d with flags := { d.flags with short := true }, format := rest }
      | [] => { d with flags := { d.flags with short := true }, format := rest }
    -- `sizeof(ptrdiff_t)` and `sizeof(size_t)` are `sizeof(long)`, and `sizeof(intmax_t)` is not
    else if c = ch 't' ∨
      c = ch 'z' then { d with flags := { d.flags with long := true }, format := rest }
    else if c = ch 'j' then { d with flags := { d.flags with longLong := true }, format := rest }
    else d

/-- The value of `%d` and `%i`. -/
def nextSigned (flags : Flags) (va : List Arg) : Except Fault (Int × List Arg) :=
  if flags.longLong then do
    let (v, va) ← nextLongLong va
    .ok (v.toInt, va)
  else do
    let (v, va) ← nextWord va
    if flags.long then .ok (v.toInt, va)
    else if flags.char then .ok ((v.setWidth 8).toNat, va)
    else if flags.short then .ok ((v.setWidth 16).toInt, va)
    else .ok (v.toInt, va)

/-- The value of `%u`, `%x`, `%X`, `%o` and `%b`. -/
def nextUnsigned (flags : Flags) (va : List Arg) : Except Fault (ℕ × List Arg) :=
  if flags.longLong then do
    let (v, va) ← nextLongLong va
    .ok (v.toNat, va)
  else do
    let (v, va) ← nextWord va
    if flags.long then .ok (v.toNat, va)
    else if flags.char then .ok ((v.setWidth 8).toNat, va)
    else if flags.short then .ok ((v.setWidth 16).toNat, va)
    else .ok (v.toNat, va)

/-- The base of a specifier for integers. -/
def baseOf (c : Byte) : ℕ :=
  if c = ch 'x' ∨ c = ch 'X' then 16 else if c = ch 'o' then 8 else if c = ch 'b' then 2 else 10

/-- The specifiers for integers. -/
def integerSpecifiers : List Byte := [ch 'd', ch 'i', ch 'u', ch 'x', ch 'X', ch 'o', ch 'b']

/-- `%d` or `%i`. -/
def isSigned (c : Byte) : Bool := c = ch 'i' ∨ c = ch 'd'

/-- The flags that a specifier for integers leaves. -/
def integerFlags (c : Byte) (flags : Flags) : Flags := { flags with
  -- no hash for dec format
  hash := flags.hash && decide (baseOf c ≠ 10)
  uppercase := flags.uppercase || decide (c = ch 'X')
  -- no plus or space flag for u, x, X, o, b
  plus := flags.plus && isSigned c
  space := flags.space && isSigned c
  -- ignore '0' flag when precision is given
  zeropad := flags.zeropad && !flags.precision }

/-- A specifier for integers. Its argument is taken at the width that the length asks for, and cut
to it; the absolute value is printed in the base of the specifier. -/
def convertInteger (c : Byte) (d : Directive) : Except Fault (List Byte × List Arg) :=
  let flags := integerFlags c d.flags
  if isSigned c then do
    let (v, va) ← nextSigned flags d.va
    .ok (ntoa v.natAbs (v < 0) (baseOf c) d.precision d.width flags, va)
  else do
    let (v, va) ← nextUnsigned flags d.va
    .ok (ntoa v false (baseOf c) d.precision d.width flags, va)

/-- Characters in a field; `l` is what counts as their number. -/
def inField (chars : List Byte) (l : ℕ) (d : Directive) : List Byte :=
  (if d.flags.left then [] else blanks (d.width - l)) ++ chars ++
    if d.flags.left then blanks (d.width - l) else []

/-- `%c`. -/
def convertChar (d : Directive) : Except Fault (List Byte × List Arg) := do
  let (v, va) ← nextWord d.va
  .ok (inField [UInt8.ofBitVec (v.setWidth 8)] 1 d, va)

/-- `%s`. -/
def convertString (d : Directive) : Except Fault (List Byte × List Arg) := do
  let (p, va) ← nextString d.va
  -- `_strnlen_s`
  let l := if d.precision = 0 then p.length else min p.length d.precision
  let l := if d.flags.precision then min l d.precision else l
  .ok (inField (if d.flags.precision then p.take d.precision else p) l d, va)

/-- `%p`. -/
def convertPointer (d : Directive) : Except Fault (List Byte × List Arg) := do
  let (v, va) ← nextWord d.va
  .ok (ntoa v.toNat false 16 d.precision 8 { d.flags with zeropad := true, uppercase := true }, va)

/-- The specifier of a directive: what is passed to `out`, what is left of the format, and the
arguments. -/
def convert (d : Directive) : Except Fault (List Byte × List Byte × List Arg) :=
  match d.format with
  -- the NUL is passed to `out`, and the format goes on behind it
  | [] => .error .pastEnd
  | c :: rest =>
    if c ∈ integerSpecifiers then do
      let (text, va) ← convertInteger c d
      .ok (text, rest, va)
    else if c ∈ [ch 'f', ch 'F', ch 'e', ch 'E', ch 'g', ch 'G'] then .error .float
    else if c = ch 'c' then do
      let (text, va) ← convertChar d
      .ok (text, rest, va)
    else if c = ch 's' then do
      let (text, va) ← convertString d
      .ok (text, rest, va)
    else if c = ch 'p' then do
      let (text, va) ← convertPointer d
      .ok (text, rest, va)
    -- `%%`, and what is no specifier
    else .ok ([c], rest, d.va)

/-- A directive, behind its `%`. -/
def directive (format : List Byte) (va : List Arg) :
    Except Fault (List Byte × List Byte × List Arg) := do
  let (flags, format) := readFlags .none format
  let d ← readWidth ⟨flags, 0, 0, format, va⟩
  let d ← readPrecision d
  convert (readLength d)

/-- One turn of the loop of `_vsnprintf`, at the character `c` of the format. -/
def turn (c : Byte) (format : List Byte) (va : List Arg) :
    Except Fault (List Byte × List Byte × List Arg) :=
  if c ≠ ch '%' then .ok ([c], format, va) else directive format va

/-- The loop of `_vsnprintf`: what is passed to `out`, and the arguments that are left. -/
def textLoop : ℕ → List Byte → List Arg → Except Fault (List Byte × List Arg)
  | _, [], va => .ok ([], va)
  | 0, _ :: _, _ => .error .outOfTurns
  | turns + 1, c :: format, va => do
    let (text, format, va) ← turn c format va
    let (rest, va) ← textLoop turns format va
    .ok (text ++ rest, va)

/-- What a format and its arguments come to. A turn reads a character at least. The sinks see
nothing but these characters, one by one, so that this is the same for all of them. -/
def text (format : List Byte) (va : List Arg) : Except Fault (List Byte × List Arg) :=
  textLoop format.length format va

end Print
end PollingExpress
