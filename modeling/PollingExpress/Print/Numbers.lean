import Mathlib.Data.List.DropRight
import Mathlib.Data.Nat.Digits.Lemmas
import PollingExpress.Print.Format

/-!
# Numbers that are read back

Whatever the flags, the width and the precision are, a number that is printed can be read back from
its field: blanks around it, a sign, digits (`readNumber`). That fails in three cases, which
`reads_back_iff` says are all of them. A 0 of explicit precision 0 has no digits; a number of more
than 32 digits, which can only be a `long long` in base 2, loses those in front; and a negative
number loses its sign when the zeros in front of it have filled the buffer.

The directives with `#` are not looked at.
-/

namespace PollingExpress
namespace Print

/-! ### Reading numbers -/

/-- The value of a digit. -/
def digitVal (c : Byte) : Option ℕ :=
  if ch '0' ≤ c ∧ c ≤ ch '9' then some (c.toNat - 48)
  else if ch 'a' ≤ c ∧ c ≤ ch 'f' then some (c.toNat - 87)
  else if ch 'A' ≤ c ∧ c ≤ ch 'F' then some (c.toNat - 55)
  else none

/-- The digits behind those that make up `n`. -/
def readDigits (base n : ℕ) : List Byte → Option ℕ
  | [] => some n
  | c :: cs => (digitVal c).bind fun d =>
    if d < base then readDigits base (n * base + d) cs else none

/-- A number without a sign. -/
def readMagnitude (base : ℕ) (cs : List Byte) : Option ℕ :=
  if cs = [] then none else readDigits base 0 cs

/-- What is in a field, without the blanks. -/
def trim (field : List Byte) : List Byte := (field.dropWhile (· = ch ' ')).rdropWhile (· = ch ' ')

/-- The number in a field. -/
def readNumber (base : ℕ) (field : List Byte) : Option Int :=
  match trim field with
  | [] => none
  | c :: cs =>
    if c = ch '-' then (readMagnitude base cs).map fun n : ℕ => -(n : Int)
    else if c = ch '+' then (readMagnitude base cs).map fun n : ℕ => (n : Int)
    else (readMagnitude base (c :: cs)).map fun n : ℕ => (n : Int)

section
variable {base n : ℕ}

theorem digitVal_digitChar {d : ℕ} (h : d < 16) (uppercase : Bool) :
    digitVal (digitChar uppercase d) = some d := by
  have h_all : ∀ d : Fin 16, ∀ uppercase, digitVal (digitChar uppercase d) = some d.val := by decide
  exact h_all ⟨d, h⟩ uppercase

theorem digitChar_ne {d : ℕ} (h : d < 16) (uppercase : Bool) : digitChar uppercase d ≠ ch ' ' ∧
    digitChar uppercase d ≠ ch '-' ∧ digitChar uppercase d ≠ ch '+' := by
  have h_all : ∀ d : Fin 16, ∀ uppercase, digitChar uppercase d ≠ ch ' ' ∧
      digitChar uppercase d ≠ ch '-' ∧ digitChar uppercase d ≠ ch '+' := by decide
  exact h_all ⟨d, h⟩ uppercase

theorem readDigits_append (cs cs' : List Byte) :
    readDigits base n (cs ++ cs') = (readDigits base n cs).bind fun m => readDigits base m cs' := by
  induction cs generalizing n with
  | nil => rfl
  | cons c cs ih =>
    rw [List.cons_append, readDigits, readDigits]
    cases digitVal c with
    | none => rfl
    | some d =>
      dsimp only [Option.bind_some]
      split
      · exact ih
      · rfl

/-- The digits of a number, the last one first, are read from the other end. -/
theorem readDigits_reverse (h_base : base ≤ 16) {ds : List ℕ} (h : ∀ d ∈ ds, d < base)
    (uppercase : Bool) :
    readDigits base 0 (ds.map (digitChar uppercase)).reverse = some (Nat.ofDigits base ds) := by
  induction ds with
  | nil => rfl
  | cons d ds ih =>
    have h_d : d < base := h d List.mem_cons_self
    rw [List.map_cons, List.reverse_cons, readDigits_append,
      ih fun d' h_d' => h d' (List.mem_cons_of_mem _ h_d'), Option.bind_some, readDigits,
      digitVal_digitChar (h_d.trans_le h_base), Option.bind_some, if_pos h_d, readDigits,
      Nat.ofDigits_cons]
    rw [Nat.add_comm, Nat.mul_comm]

/-- Zeros in front of a number do not count. -/
theorem readDigits_zeros (h_base : 0 < base) (zeros : ℕ) (cs : List Byte) :
    readDigits base 0 (List.replicate zeros (ch '0') ++ cs) = readDigits base 0 cs := by
  induction zeros with
  | zero => rfl
  | succ zeros ih =>
    have h_zero : digitVal (ch '0') = some 0 := by decide
    rw [List.replicate_succ, List.cons_append, readDigits, h_zero, Option.bind_some, if_pos h_base,
      Nat.zero_mul, ih]

end

/-! ### The digits -/

section
variable {base value room : ℕ} {uppercase : Bool}

/-- The loop finds the digits that there is room for. -/
theorem ntoaLoop_eq (h_base : 1 < base) (h_room : 0 < room) : ntoaLoop uppercase base room value =
    (if value = 0 then [0] else (Nat.digits base value).take room).map (digitChar uppercase) := by
  -- by induction on the room, which each digit takes one of
  induction room generalizing value with
  | zero => omega
  | succ room ih =>
    rw [ntoaLoop]
    by_cases h_value : value = 0
    · rw [if_pos h_value, h_value, Nat.zero_mod, Nat.zero_div, if_pos rfl]
      rfl
    · rw [if_neg h_value, Nat.digits_def' h_base (Nat.pos_of_ne_zero h_value), List.take_succ_cons,
        List.map_cons]
      congr 1
      -- the loop ends with the last digit, before it looks at the room
      by_cases h_rest : value / base = 0
      · rw [if_pos h_rest, h_rest, Nat.digits_zero, List.take_nil, List.map_nil]
      · rw [if_neg h_rest]
        cases room with
        | zero => rfl
        | succ room => rw [ih (Nat.succ_pos room), if_neg h_rest]

theorem ntoaLoop_ne_nil (h_room : 0 < room) : ntoaLoop uppercase base room value ≠ [] := by
  cases room with
  | zero => omega
  | succ room => exact List.cons_ne_nil _ _

/-- A number has as many digits as it takes. -/
theorem length_ntoaLoop_le_of_lt (h_base : 1 < base) {k : ℕ} (h_k : 0 < k) (h : value < base ^ k) :
    (ntoaLoop uppercase base room value).length ≤ k := by
  cases room with
  | zero => exact Nat.zero_le _
  | succ room =>
    rw [ntoaLoop_eq h_base (Nat.succ_pos room), List.length_map]
    split
    · exact h_k
    · exact (List.length_take_le' _ _).trans ((Nat.digits_length_le_iff h_base value).mpr h)

/-- What is read back of the digits: all of them, as far as there was room. -/
theorem readMagnitude_ntoaLoop (h_base : 1 < base) (h_base' : base ≤ 16) (h_room : 0 < room)
    (zeros : ℕ) :
    readMagnitude base
      (List.replicate zeros (ch '0') ++ (ntoaLoop uppercase base room value).reverse) =
      some (value % base ^ room) := by
  rw [readMagnitude, if_neg (by simp [ntoaLoop_ne_nil h_room]), readDigits_zeros (by omega),
    ntoaLoop_eq h_base h_room,
    readDigits_reverse h_base']
  · -- digits that there is no room for are the high ones
    congr 1
    split
    · next h_zero =>
      rw [h_zero, Nat.zero_mod, Nat.ofDigits_singleton]
    · exact (Nat.self_mod_pow_eq_ofDigits_take room value h_base).symm
  · -- every digit is one of the base
    intro d h_d
    split at h_d
    · rw [List.mem_singleton.mp h_d]
      omega
    · exact Nat.digits_lt_base h_base (List.mem_of_mem_take h_d)

/-- No character of a number is a blank or a sign. -/
theorem ntoaLoop_ne (h_base : 1 < base) (h_base' : base ≤ 16) {c : Byte}
    (h : c ∈ ntoaLoop uppercase base room value) :
    c ≠ ch ' ' ∧ c ≠ ch '-' ∧ c ≠ ch '+' := by
  induction room generalizing value with
  | zero => cases h
  | succ room ih =>
    rw [ntoaLoop] at h
    rcases List.mem_cons.mp h with rfl | h_rest
    · exact digitChar_ne ((Nat.mod_lt _ (by omega)).trans_le h_base') _
    · split at h_rest
      · cases h_rest
      · exact ih h_rest

end

/-! ### The field -/

/-- The sign of a number. -/
def signText (negative : Bool) (flags : Flags) : List Byte :=
  if negative then [ch '-']
  else if flags.plus then [ch '+']
  else if flags.space then [ch ' ']
  else []

section
variable {buf : List Byte} {negative : Bool} {base prec width : ℕ} {flags : Flags}

theorem length_putZeros (n : ℕ) : (putZeros buf n).length =
      max buf.length (min n ntoaBufferSize) := by
  rw [putZeros, List.length_append, List.length_replicate]
  omega

/-- The number with the zeros in front of it. -/
theorem putPadding_eq : ∃ zeros, putPadding buf prec width flags =
      buf ++ List.replicate zeros (ch '0') := by
  rw [putPadding]
  split
  · exact ⟨0, (List.append_nil buf).symm⟩
  · split
    · exact ⟨_, by rw [putZeros, putZeros, List.append_assoc, List.replicate_append_replicate]⟩
    · exact ⟨_, rfl⟩

theorem length_putPadding_lt (h : buf.length < ntoaBufferSize) :
    (putPadding buf prec width flags).length < ntoaBufferSize ↔
      flags.left = true ∨ prec < ntoaBufferSize ∧
      (flags.zeropad = true → width < ntoaBufferSize) := by
  rw [putPadding]
  split
  · next h_left => exact iff_of_true h (.inl h_left)
  · next h_left =>
    split
    · next h_zeropad =>
      rw [length_putZeros, length_putZeros, or_iff_right h_left, imp_iff_right h_zeropad]
      omega
    · next h_zeropad =>
      rw [length_putZeros, or_iff_right h_left, and_iff_left fun h => absurd h h_zeropad]
      omega

theorem putSign_eq : putSign buf negative flags =
    buf ++ if buf.length < ntoaBufferSize then signText negative flags else [] := by
  rw [putSign, signText, put, put, put]
  by_cases h_room : buf.length < ntoaBufferSize
  · simp only [if_pos h_room]
    split_ifs <;> simp
  · simp only [if_neg h_room, ite_self, List.append_nil]

theorem outRev_eq : ∃ before behind, outRev buf width flags =
      blanks before ++ buf.reverse ++ blanks behind := by
  rw [outRev]
  split <;> split
  · exact ⟨_, _, rfl⟩
  · exact ⟨_, 0, rfl⟩
  · exact ⟨0, _, rfl⟩
  · exact ⟨0, 0, rfl⟩

/-- The field of a number: blanks, the sign if there is room for it, zeros and digits, and
blanks. -/
theorem ntoaFormat_eq (h_hash : flags.hash = false) : ∃ before zeros behind,
    putPadding buf prec (zeroWidth width negative flags) flags =
      buf ++ List.replicate zeros (ch '0') ∧
    ntoaFormat buf negative base prec width flags = blanks before ++
      ((if (putPadding buf prec (zeroWidth width negative flags) flags).length < ntoaBufferSize then
        signText negative flags else []) ++ (List.replicate zeros (ch '0') ++ buf.reverse)) ++
          blanks behind := by
  -- the buffer is filled from the right, and a sign has one character at most
  have h_sign : (signText negative flags).reverse = signText negative flags := by
    rw [signText]
    split_ifs <;> rfl
  obtain ⟨zeros, h_zeros⟩ := @putPadding_eq buf prec (zeroWidth width negative flags) flags
  obtain ⟨before, behind, h_field⟩ := @outRev_eq
    (putSign (putPadding buf prec (zeroWidth width negative flags) flags) negative flags)
    (zeroWidth width negative flags) flags
  refine ⟨before, zeros, behind, h_zeros, ?_⟩
  rw [ntoaFormat, if_neg (by rw [h_hash]; exact Bool.false_ne_true), h_field, putSign_eq,
    List.reverse_append,
    apply_ite List.reverse, h_sign, h_zeros, List.reverse_append, List.reverse_replicate]
  rfl

end

/-! ### What is read back -/

/-- Blanks on either side of a text that has none of its own are cut off, and nothing else is. -/
theorem trim_blanks {core : List Byte} (h : ∀ c ∈ core, c ≠ ch ' ') (before behind : ℕ) :
    trim (blanks before ++ core ++ blanks behind) = core := by
  have h_blanks : ∀ n, ∀ c ∈ blanks n, decide (c = ch ' ') = true := by
    intro n c h_c
    exact decide_eq_true (List.eq_of_mem_replicate h_c)
  -- a text without blanks is not cut
  have h_core : ∀ cs : List Byte, (∀ c ∈ cs, c ≠ ch ' ') → cs.dropWhile (· = ch ' ') = cs := by
    intro cs h_cs
    cases cs with
    | nil => rfl
    | cons c cs => exact List.dropWhile_cons_of_neg (by simpa using h_cs c List.mem_cons_self)
  rw [trim, List.append_assoc, List.dropWhile_append_of_pos (h_blanks before), List.rdropWhile]
  -- nothing but blanks, or a core at which the cut from either side stops
  cases core with
  | nil =>
    rw [List.nil_append, ← List.append_nil (blanks behind),
      List.dropWhile_append_of_pos (h_blanks behind)]
    rfl
  | cons c core =>
    rw [List.cons_append, List.dropWhile_cons_of_neg (by simpa using h c List.mem_cons_self),
      ← List.cons_append, List.reverse_append,
      List.dropWhile_append_of_pos fun c h_c => h_blanks behind c (List.mem_reverse.mp h_c),
      h_core _ fun c h_c => h c (List.mem_reverse.mp h_c), List.reverse_reverse]

/-- What the sign does to a number. A field is blanks, a sign, the digits and more blanks; a minus
makes the number negative, and a plus or a blank in place of a sign changes nothing. -/
theorem readNumber_field {base : ℕ} {sign cs : List Byte}
    (h_cs : ∀ c ∈ cs, c ≠ ch ' ' ∧ c ≠ ch '-' ∧ c ≠ ch '+')
    (h_sign : sign = [] ∨ sign = [ch '-'] ∨ sign = [ch '+'] ∨ sign = [ch ' ']) (before behind : ℕ) :
    readNumber base (blanks before ++ (sign ++ cs) ++ blanks behind) =
      (readMagnitude base cs).map fun n : ℕ => if sign = [ch '-'] then -(n : Int) else n := by
  have h_plain : ∀ before, readNumber base (blanks before ++ cs ++ blanks behind) =
      (readMagnitude base cs).map fun n : ℕ => (n : Int) := by
    intro before
    rw [readNumber, trim_blanks fun c h_c => (h_cs c h_c).1]
    cases cs with
    | nil => rfl
    | cons c cs =>
      obtain ⟨-, h_minus, h_plus⟩ := h_cs c List.mem_cons_self
      dsimp only
      rw [if_neg h_minus, if_neg h_plus]
  rcases h_sign with rfl | rfl | rfl | rfl
  · exact h_plain before
  · rw [readNumber, trim_blanks]
    · rfl
    · intro c h_c
      rcases List.mem_cons.mp h_c with rfl | h_c
      · decide
      · exact (h_cs c h_c).1
  · rw [readNumber, trim_blanks]
    · rfl
    · intro c h_c
      rcases List.mem_cons.mp h_c with rfl | h_c
      · decide
      · exact (h_cs c h_c).1
  · -- a blank for the sign is one of the blanks in front
    have h_blank : blanks before ++ ([ch ' '] ++ cs) = blanks (before + 1) ++ cs := by
      rw [blanks, blanks, List.replicate_succ', List.append_assoc]
    rw [h_blank, h_plain]
    rfl

/-! ### The specifiers -/

/-- The argument of a specifier for integers. -/
def nextInteger (c : Byte) (flags : Flags) (va : List Arg) : Except Fault (Int × List Arg) :=
  if isSigned c then nextSigned flags va else (nextUnsigned flags va).map fun (v, va) =>
    ((v : Int), va)

/-- When a number is read back. The fields are the ways in which the code drops a part of it: a 0
with a precision may come out without a digit, and both the digits and the sign go into a buffer of
32 characters, which the zeros of a precision or a width may fill first. -/
structure Kept (c : Byte) (d : Directive) (v : Int) : Prop where
  /-- There is a digit. -/
  digit : v = 0 → d.flags.precision = false ∨ d.flags.left = false ∧ d.precision ≠ 0
  /-- There is room for the digits. -/
  digits : v.natAbs < baseOf c ^ ntoaBufferSize
  /-- There is room for the sign. -/
  sign : v < 0 → d.flags.left = true ∨ d.precision < ntoaBufferSize ∧
    (d.flags.zeropad = true → d.flags.precision = false → d.width ≤ ntoaBufferSize)

section
variable {c : Byte} {d : Directive} {v : Int} {va : List Arg}

/-- A signed argument has 31 decimal digits at most, so that the digits of its magnitude fit into
the buffer of `_ntoa_long` with room for the sign. -/
theorem natAbs_lt_of_nextSigned {flags : Flags} {va va' : List Arg}
    (h : nextSigned flags va = .ok (v, va')) :
    v.natAbs < 10 ^ 31 := by
  -- an argument has 64 bits at most, whatever it is cut to
  have h_word : ∀ {w : ℕ} (x : BitVec w), w ≤ 64 → x.toInt.natAbs < 10 ^ 31 := by
    intro w x h_w
    have h_le := BitVec.le_two_mul_toInt (x := x)
    have h_lt := BitVec.two_mul_toInt_lt (x := x)
    have h_pow : 2 ^ w ≤ 2 ^ 64 := Nat.pow_le_pow_right (by decide) h_w
    have h_cast : (2 : Int) ^ w = ((2 ^ w : ℕ) : Int) := by push_cast; rfl
    rw [h_cast] at h_le h_lt
    omega
  rw [nextSigned] at h
  split at h
  · obtain ⟨⟨x, va₁⟩, -, h⟩ := of_bind_ok h
    obtain ⟨rfl, -⟩ := Prod.mk.inj (Except.ok.inj h)
    exact h_word x (by decide)
  · obtain ⟨⟨x, va₁⟩, -, h⟩ := of_bind_ok h
    dsimp only at h
    split_ifs at h
    · obtain ⟨rfl, -⟩ := Prod.mk.inj (Except.ok.inj h)
      exact h_word x (by decide)
    · obtain ⟨rfl, -⟩ := Prod.mk.inj (Except.ok.inj h)
      have h_char := (x.setWidth 8).isLt
      rw [Int.natAbs_natCast]
      omega
    · obtain ⟨rfl, -⟩ := Prod.mk.inj (Except.ok.inj h)
      exact h_word _ (by decide)
    · obtain ⟨rfl, -⟩ := Prod.mk.inj (Except.ok.inj h)
      exact h_word x (by decide)

theorem baseOf_range (c : Byte) : 1 < baseOf c ∧ baseOf c ≤ 16 := by
  rw [baseOf]
  split_ifs <;> decide

theorem baseOf_signed (h : isSigned c = true) : baseOf c = 10 := by
  rcases of_decide_eq_true h with rfl | rfl <;> rfl

theorem nextSigned_integerFlags (flags : Flags) :
    nextSigned (integerFlags c flags) va = nextSigned flags va := rfl

theorem nextUnsigned_integerFlags (flags : Flags) :
    nextUnsigned (integerFlags c flags) va = nextUnsigned flags va :=
  rfl

/-- What a specifier prints. -/
theorem convertInteger_eq (h : nextInteger c d.flags d.va = .ok (v, va)) : convertInteger c d =
    .ok (ntoa v.natAbs (decide (v < 0)) (baseOf c) d.precision d.width (integerFlags c d.flags),
      va) := by
  rw [nextInteger] at h
  rw [convertInteger]
  dsimp only
  -- signed specifiers print the absolute value; for the others the value is not negative
  split
  · next h_signed =>
    rw [if_pos h_signed] at h
    rw [nextSigned_integerFlags, h]
    rfl
  · next h_signed =>
    rw [if_neg h_signed] at h
    obtain ⟨⟨n, va'⟩, h_next, h_eq⟩ := of_map_ok h
    obtain ⟨rfl, rfl⟩ := Prod.mk.inj h_eq
    rw [nextUnsigned_integerFlags, h_next, Int.natAbs_natCast, decide_eq_false (by omega)]
    rfl

theorem ntoa_eq {value base prec width : ℕ} {negative : Bool} {flags : Flags}
    (h_hash : flags.hash = false) :
    ntoa value negative base prec width flags =
      ntoaFormat (if ¬flags.precision ∨ value ≠
        0 then ntoaLoop flags.uppercase base ntoaBufferSize value else [])
        negative base prec width flags := by
  have h_flags : { flags with hash := false } = flags := by
    rw [← h_hash]
  rw [ntoa, h_flags, ite_self]

/-- Only a signed argument is negative, and it has less digits than there is room for. -/
theorem digits_of_negative (h : nextInteger c d.flags d.va = .ok (v, va)) (h_neg : v < 0) :
    (ntoaLoop (integerFlags c d.flags).uppercase (baseOf c) ntoaBufferSize v.natAbs).length <
      ntoaBufferSize := by
  rw [nextInteger] at h
  split at h
  · next h_signed =>
    rw [baseOf_signed h_signed]
    exact Nat.lt_succ_of_le
      (length_ntoaLoop_le_of_lt (by decide) (by decide) (natAbs_lt_of_nextSigned h))
  · obtain ⟨⟨n, va'⟩, -, h_eq⟩ := of_map_ok h
    obtain ⟨rfl, -⟩ := Prod.mk.inj h_eq
    omega

/-- There is room for the sign, unless padding with zeros has filled the buffer: a precision of 32
or more does so, and a width above 32 if the zeros come from the flag `0`. A number on the left is
not padded with zeros. -/
theorem sign_room {buf : List Byte} (h : buf.length < ntoaBufferSize) :
    (putPadding buf d.precision (zeroWidth d.width true (integerFlags c d.flags))
      (integerFlags c d.flags)).length <
        ntoaBufferSize ↔
      d.flags.left = true ∨ d.precision < ntoaBufferSize ∧
        (d.flags.zeropad = true → d.flags.precision = false → d.width ≤ ntoaBufferSize) := by
  have h_zeropad : (integerFlags c d.flags).zeropad = true ↔
      d.flags.zeropad = true ∧ d.flags.precision = false := by
    change (d.flags.zeropad && !d.flags.precision) = true ↔ _
    rw [Bool.and_eq_true, Bool.not_eq_true']
  rw [length_putPadding_lt h]
  change d.flags.left = true ∨ _ ↔ _
  by_cases h_left : d.flags.left = true
  · exact iff_of_true (.inl h_left) (.inl h_left)
  rw [or_iff_right h_left, or_iff_right h_left, h_zeropad, and_imp]
  refine and_congr_right fun _ => forall_congr' fun h_zero => forall_congr' fun h_prec => ?_
  -- the sign takes one of the characters that the width asks for
  rw [zeroWidth]
  split
  · omega
  · next h_width =>
    have h_width : d.width = 0 := by
      by_contra h_ne
      exact h_width ⟨h_left, h_ne, h_zeropad.mpr ⟨h_zero, h_prec⟩, .inl rfl⟩
    rw [h_width]
    decide

/-- **Printed numbers are read back**, but for the three cases of `Kept`: a zero of which a
precision of zero leaves no digit, more digits than the buffer of 32 characters holds, which no
specifier but `%b` can ask for, and a sign that padding with zeros has left no room for.

The field is blanks, the sign, zeros, digits and blanks (`ntoaFormat_eq`), and is read from the
outside in. The prefix of the flag `#` is left aside. -/
theorem reads_back_iff (h_hash : d.flags.hash = false)
    (h : nextInteger c d.flags d.va = .ok (v, va)) :
    ∃ field, convertInteger c d = .ok (field, va) ∧
      (readNumber (baseOf c) field = some v ↔ Kept c d v) := by
  obtain ⟨h_base, h_base'⟩ := baseOf_range c
  refine ⟨_, convertInteger_eq h, ?_⟩
  generalize h_flags : integerFlags c d.flags = flags
  have h_hash' : flags.hash = false := by
    rw [← h_flags, integerFlags, h_hash]
    rfl
  have h_precision : flags.precision = d.flags.precision := by rw [← h_flags]; rfl
  have h_left : flags.left = d.flags.left := by rw [← h_flags]; rfl
  rw [ntoa_eq h_hash']
  -- the digits, the zeros in front of them, and the sign, are read one by one
  generalize h_buf : (if ¬flags.precision = true ∨ v.natAbs ≠ 0 then
    ntoaLoop flags.uppercase (baseOf c) ntoaBufferSize v.natAbs else []) = buf
  obtain ⟨before, zeros, behind, h_zeros, h_field⟩ :=
    @ntoaFormat_eq buf (decide (v < 0)) (baseOf c) d.precision
    d.width flags h_hash'
  generalize h_sign :
    (if (putPadding buf d.precision (zeroWidth d.width (decide (v < 0)) flags) flags).length <
        ntoaBufferSize
      then signText (decide (v < 0)) flags else []) = sign at h_field
  have h_signs : sign = [] ∨ sign = [ch '-'] ∨ sign = [ch '+'] ∨ sign = [ch ' '] := by
    rw [← h_sign, signText]
    split_ifs <;> simp
  -- neither a digit nor a zero looks like a blank or a sign
  have h_buf_ne : ∀ c' ∈ buf, c' ≠ ch ' ' ∧ c' ≠ ch '-' ∧ c' ≠ ch '+' := by
    intro c' h_c'
    rw [← h_buf] at h_c'
    split at h_c'
    · exact ntoaLoop_ne h_base h_base' h_c'
    · cases h_c'
  have h_cs : ∀ c' ∈ List.replicate zeros (ch '0') ++ buf.reverse, c' ≠ ch ' ' ∧ c' ≠ ch '-' ∧
      c' ≠ ch '+' := by
    intro c' h_c'
    rcases List.mem_append.mp h_c' with h_c' | h_c'
    · rw [List.eq_of_mem_replicate h_c']
      decide
    · exact h_buf_ne c' (List.mem_reverse.mp h_c')
  rw [h_field, readNumber_field h_cs h_signs]
  -- a sign is there exactly if the number is negative and there is room for it
  have h_minus : sign = [ch '-'] ↔ v < 0 ∧
      (putPadding buf d.precision (zeroWidth d.width true flags) flags).length <
        ntoaBufferSize := by
    rw [← h_sign]
    by_cases h_neg : v < 0
    · rw [decide_eq_true h_neg, and_iff_right h_neg]
      split
      · next h_room => exact iff_of_true rfl h_room
      · next h_room => exact iff_of_false (List.cons_ne_nil _ _).symm h_room
    · rw [decide_eq_false h_neg, signText, if_neg Bool.false_ne_true]
      refine iff_of_false ?_ fun h => h_neg h.1
      split_ifs <;> decide
  by_cases h_digits : ¬flags.precision = true ∨ v.natAbs ≠ 0
  · rw [if_pos h_digits] at h_buf
    have h_pow : baseOf c ^ ntoaBufferSize ≠ 0 := (Nat.pow_pos (by omega)).ne'
    rw [← h_buf, readMagnitude_ntoaLoop h_base h_base' (by decide), Option.map_some,
      Option.some_inj]
    by_cases h_neg : v < 0
    · -- a negative number has room for its digits, so it is the sign that may be lost
      have h_room := digits_of_negative h h_neg
      rw [h_flags, h_buf] at h_room
      have h_sign := sign_room (c := c) (d := d) h_room
      rw [h_flags] at h_sign
      rw [h_sign, and_iff_right h_neg] at h_minus
      constructor
      · intro h_v
        split at h_v
        · next h_kept =>
          refine ⟨fun h_zero => absurd h_zero h_neg.ne, ?_, fun _ => h_minus.mp h_kept⟩
          exact (Nat.mod_eq_iff_lt h_pow).mp (by omega)
        · exact absurd h_v (h_neg.trans_le (Int.natCast_nonneg _)).ne'
      · intro h_kept
        rw [if_pos (h_minus.mpr (h_kept.sign h_neg)), Nat.mod_eq_of_lt h_kept.digits]
        omega
    · -- there is no minus sign, and the digits are read as they are
      rw [if_neg fun h => h_neg (h_minus.mp h).1]
      constructor
      · intro h_v
        refine ⟨fun h_zero => .inl ?_, (Nat.mod_eq_iff_lt h_pow).mp (by omega),
          fun h => absurd h h_neg⟩
        have h_none := h_digits.resolve_right fun h => h (by rw [h_zero]; rfl)
        rw [← h_precision]
        exact Bool.eq_false_of_not_eq_true h_none
      · intro h_kept
        rw [Nat.mod_eq_of_lt h_kept.digits]
        omega
  · -- the only digits are the zeros that the precision asks for
    rw [if_neg h_digits] at h_buf
    obtain ⟨h_prec, h_zero⟩ := not_or.mp h_digits
    have h_v : v = 0 := by omega
    rw [not_not, h_precision] at h_prec
    have h_clear : flags.zeropad = false := by
      rw [← h_flags]
      change (d.flags.zeropad && !d.flags.precision) = false
      rw [h_prec, Bool.not_true, Bool.and_false]
    -- zeros are printed up to the precision, unless the field is to the left
    have h_count : zeros = 0 ↔ d.flags.left = true ∨ d.precision = 0 := by
      have h_length := congrArg List.length h_zeros
      rw [← h_buf, putPadding, h_left, h_clear, if_neg Bool.false_ne_true, List.length_append,
        List.length_replicate, List.length_nil, apply_ite List.length, length_putZeros,
        List.length_nil] at h_length
      have h_size : ntoaBufferSize = 32 := rfl
      split at h_length
      · next h_true => exact iff_of_true (by omega) (.inl h_true)
      · next h_true =>
        rw [or_iff_right h_true]
        omega
    rw [← h_buf, List.reverse_nil, List.append_nil]
    by_cases h_none : zeros = 0
    · rw [h_none]
      refine iff_of_false (Option.some_ne_none v).symm fun h_kept => ?_
      rcases h_kept.digit h_v with h_false | ⟨h_right, h_some⟩
      · exact Bool.false_ne_true (h_false.symm.trans h_prec)
      · rcases h_count.mp h_none with h_true | h_zero'
        · exact Bool.false_ne_true (h_right.symm.trans h_true)
        · exact h_some h_zero'
    · have h_zeros' : List.replicate zeros (ch '0') ≠ [] := by
        rw [Ne, List.replicate_eq_nil_iff]
        exact h_none
      rw [readMagnitude, if_neg h_zeros', ← List.append_nil (List.replicate zeros (ch '0')),
        readDigits_zeros (by omega), h_v]
      refine iff_of_true (by rw [readDigits, Option.map_some]; split <;> rfl) ?_
      obtain ⟨h_right, h_some⟩ := not_or.mp (mt h_count.mpr h_none)
      exact ⟨fun _ => .inr ⟨Bool.eq_false_of_not_eq_true h_right, h_some⟩,
        Nat.pow_pos (by omega), by omega⟩

end

/-- The zeros in front of -5 leave no room for its sign. -/
theorem reads_back_iff_minus_five : ∃ field,
    convertInteger (ch 'd') ⟨{ Flags.none with zeropad := true }, 33, 0, [], [.word (-5)]⟩ =
      .ok (field, []) ∧
    (readNumber 10 field = some (-5) ↔
      Kept (ch 'd') ⟨{ Flags.none with zeropad := true }, 33, 0, [], [.word (-5)]⟩ (-5)) ∧
    readNumber 10 field = some 5 := by
  obtain ⟨field, h_field, h_iff⟩ := @reads_back_iff (ch 'd')
    ⟨{ Flags.none with zeropad := true }, 33, 0, [], [.word (-5)]⟩ (-5) [] rfl (by decide +kernel)
  have h_zeros :
      convertInteger (ch 'd') ⟨{ Flags.none with zeropad := true }, 33, 0, [], [.word (-5)]⟩ =
      .ok (List.replicate 31 (ch '0') ++ [ch '5'], []) := by
    decide +kernel
  obtain ⟨rfl, -⟩ := Prod.mk.inj (Except.ok.inj (h_field.symm.trans h_zeros))
  exact ⟨_, h_field, h_iff, by decide +kernel⟩

end Print
end PollingExpress
