import PollingExpress.Common.Memory
import PollingExpress.Print.Pieces

/-!
# Where the characters go

The output functions of `kprintf.c`, and the functions that print with one of them. All of them go
through `_vsnprintf` with a format, which comes to the same text for each (`text`).

In a buffer of `count` bytes there is the front of the text, as far as there is room for it and a
NUL behind it; nothing else is written (`vsnprintf_eq`), and what is returned tells whether that is
all of it. What is sent to a function, the terminal's for `printf`, is the whole text, but for its
NULs (`fctprintf_eq`).
-/

namespace PollingExpress
namespace Print

/-- `out_fct_type`: what becomes of what is written to at `buffer`, with a character, an index and
`maxlen`. -/
abbrev OutFct (σ : Type) := Byte → σ → UInt32 → UInt32 → σ

/-- `_out_buffer`. -/
def outBuffer (buffer : UInt32) : OutFct (UInt32 → Byte) := fun character memory idx maxlen =>
  if idx < maxlen then Function.update memory (buffer + idx) character else memory

/-- `_out_null`. -/
def outNull {σ : Type} : OutFct σ := fun _ s _ _ => s

/-- `_out_fct`, for a function that is called with a character. -/
def outFct {σ : Type} (fct : Byte → σ → σ) : OutFct σ :=
  fun character s _ _ => if character ≠ 0 then fct character s else s

/-- `_out_char`; `_putchar` is called with the characters in the list. -/
def outChar : OutFct (List Byte) := fun character sent _ _ =>
  if character ≠ 0 then sent ++ [character] else sent

/-- The calls of `out` for a text, each with the next index. -/
def putAll {σ : Type} (out : OutFct σ) (maxlen : UInt32) : List Byte → UInt32 → σ → UInt32 × σ
  | [], idx, s => (idx, s)
  | c :: cs, idx, s => putAll out maxlen cs (idx + 1) (out c s idx maxlen)

/-- `_vsnprintf`. -/
def vsnprintfWith {σ : Type} (out : OutFct σ) (s : σ) (maxlen : UInt32) (format : List Byte)
    (va : List Arg) :
    Except Fault (σ × Int) := do
  let (t, _) ← text format va
  let (idx, s) := putAll out maxlen t 0 s
  .ok (out 0 s (if idx < maxlen then idx else maxlen - 1) maxlen, idx.toInt32.toInt)

/-- `vsnprintf_`, which `snprintf_` is too. -/
def vsnprintf (memory : UInt32 → Byte) (buffer count : UInt32) (format : List Byte)
    (va : List Arg) :
    Except Fault ((UInt32 → Byte) × Int) :=
  vsnprintfWith (if buffer = 0 then outNull else outBuffer buffer) memory count format va

/-- `sprintf_`. -/
def sprintf (memory : UInt32 → Byte) (buffer : UInt32) (format : List Byte) (va : List Arg) :
    Except Fault ((UInt32 → Byte) × Int) := vsnprintf memory buffer (-1) format va

/-- `printf_`, and `vprintf_` too. -/
def printf (sent : List Byte) (format : List Byte) (va : List Arg) :
    Except Fault (List Byte × Int) :=
  vsnprintfWith outChar sent (-1) format va

/-- `fctprintf`. -/
def fctprintf {σ : Type} (fct : Byte → σ → σ) (arg : σ) (format : List Byte) (va : List Arg) :
    Except Fault (σ × Int) := vsnprintfWith (outFct fct) arg (-1) format va

section
variable {memory : UInt32 → Byte} {buffer count maxlen x : UInt32} {format cs t : List Byte}
  {va va' : List Arg} {i : ℕ}

/-! ### Buffers -/

theorem memcpyTo_append (memory : UInt32 → Byte) (dest : UInt32) (cs cs' : List Byte) :
    memcpyTo memory dest (cs ++ cs') = memcpyTo (memcpyTo memory dest cs)
      (dest + UInt32.ofNat cs.length) cs' := by
  induction cs generalizing memory dest with
  | nil => exact congrArg (memcpyTo memory · cs') (add_zero dest).symm
  | cons c cs ih =>
    rw [List.cons_append, memcpyTo, memcpyTo, ih, List.length_cons, Nat.add_comm, UInt32.ofNat_add,
      ← add_assoc]
    rfl

/-- The characters for which there is room are written one behind the other. -/
theorem putAll_outBuffer (h : i + cs.length < 2 ^ 32) :
    putAll (outBuffer buffer) maxlen cs (UInt32.ofNat i) memory =
      (UInt32.ofNat (i + cs.length),
        memcpyTo memory (buffer + UInt32.ofNat i) (cs.take (maxlen.toNat - i))) := by
  induction cs generalizing i memory with
  | nil => rw [putAll, List.take_nil]; rfl
  | cons c cs ih =>
    rw [List.length_cons] at h ⊢
    have h_next : UInt32.ofNat i + 1 = UInt32.ofNat (i + 1) := (UInt32.ofNat_add i 1).symm
    have h_lt : UInt32.ofNat i < maxlen ↔ i < maxlen.toNat := by
      rw [UInt32.lt_iff_toNat_lt, toNat_ofNat_of_lt (by omega)]
    rw [putAll, h_next, ih (by omega), outBuffer, Nat.add_right_comm, Nat.add_assoc]
    -- as long as there is room the character is written, and after that none is
    by_cases h_room : i < maxlen.toNat
    · have h_take : maxlen.toNat - i = maxlen.toNat - (i + 1) + 1 := by omega
      rw [if_pos (h_lt.mpr h_room), h_take, List.take_succ_cons, memcpyTo, add_assoc, h_next]
    · have h_take : maxlen.toNat - i = 0 := by omega
      have h_take' : maxlen.toNat - (i + 1) = 0 := by omega
      rw [if_neg (mt h_lt.mp h_room), h_take, h_take', List.take_zero, List.take_zero,
        memcpyTo, memcpyTo]

/-- The NUL is behind the text, or it takes the last place that there is. -/
theorem terminate_eq (h_t : t.length < 2 ^ 32) (h_count : 0 < count.toNat) :
    outBuffer buffer 0 (memcpyTo memory buffer (t.take count.toNat))
      (if UInt32.ofNat t.length < count then UInt32.ofNat t.length else count - 1) count =
        memcpyTo memory buffer (t.take (count.toNat - 1) ++ [0]) := by
  have h_lt : UInt32.ofNat t.length < count ↔ t.length < count.toNat := by
    rw [UInt32.lt_iff_toNat_lt, toNat_ofNat_of_lt h_t]
  rw [memcpyTo_append, memcpyTo, memcpyTo, outBuffer]
  by_cases h_room : t.length < count.toNat
  · rw [if_pos (h_lt.mpr h_room), if_pos (h_lt.mpr h_room), List.take_of_length_le h_room.le,
      List.take_of_length_le (Nat.le_sub_one_of_lt h_room)]
  · have h_one : (1 : UInt32) ≤ count := by
      rw [UInt32.le_iff_toNat_le]
      exact h_count
    have h_last : (count - 1).toNat = count.toNat - 1 := UInt32.toNat_sub_of_le _ _ h_one
    have h_last' : UInt32.ofNat (count.toNat - 1) = count - 1 := by
      rw [← h_last, UInt32.ofNat_toNat]
    have h_below : count - 1 < count := by
      rw [UInt32.lt_iff_toNat_lt, h_last]
      omega
    have h_take : t.take count.toNat = t.take (count.toNat - 1) ++ [t[count.toNat - 1]] := by
      rw [← List.take_succ_eq_append_getElem, Nat.sub_add_cancel h_count]
    -- the NUL is written over a character
    rw [if_neg (mt h_lt.mp h_room), if_pos h_below, h_take, memcpyTo_append, List.length_take,
      Nat.min_eq_left (by omega), h_last', memcpyTo, memcpyTo, Function.update_idem]

/-- What is in a buffer then: the front of the text and a NUL. -/
theorem vsnprintf_eq (h : text format va = .ok (t, va')) (h_t : t.length < 2 ^ 32)
    (h_buffer : buffer ≠ 0) (h_count : count ≠ 0) : vsnprintf memory buffer count format va =
      .ok (memcpyTo memory buffer (t.take (count.toNat - 1) ++ [0]),
        (UInt32.ofNat t.length).toInt32.toInt) := by
  have h_pos : 0 < count.toNat := by
    rw [Nat.pos_iff_ne_zero]
    exact fun h_zero => h_count (UInt32.toNat.inj h_zero)
  -- the text, without what does not fit; the NUL then goes over its last character if need be
  have h_all : putAll (outBuffer buffer) count t 0 memory =
      (UInt32.ofNat t.length, memcpyTo memory buffer (t.take count.toNat)) := by
    have h_put := @putAll_outBuffer memory buffer count t 0 (by omega)
    have h_zero : buffer + UInt32.ofNat 0 = buffer := add_zero buffer
    rw [Nat.zero_add, Nat.sub_zero, h_zero] at h_put
    exact h_put
  rw [vsnprintf, if_neg h_buffer, vsnprintfWith]
  refine (bind_of_ok h).trans ?_
  dsimp only
  rw [h_all]
  dsimp only
  rw [terminate_eq h_t h_pos]

/-- An output function that writes nothing. -/
theorem putAll_quiet {σ : Type} {out : OutFct σ} {s : σ} (h_quiet : ∀ c idx, out c s idx maxlen = s)
    (cs : List Byte) (i : ℕ) : putAll out maxlen cs (UInt32.ofNat i) s =
      (UInt32.ofNat (i + cs.length), s) := by
  induction cs generalizing i with
  | nil => rfl
  | cons c cs ih =>
    have h_next : UInt32.ofNat i + 1 = UInt32.ofNat (i + 1) := (UInt32.ofNat_add i 1).symm
    rw [putAll, h_quiet, h_next, ih, List.length_cons, Nat.add_right_comm, Nat.add_assoc]

/-- Nothing is written without a buffer, or if there is not even room for the NUL. -/
theorem vsnprintf_none (h : text format va = .ok (t, va')) (h_none : buffer = 0 ∨ count = 0) :
    vsnprintf memory buffer count format va =
      .ok (memory, (UInt32.ofNat t.length).toInt32.toInt) := by
  -- neither sink writes: the one has no buffer, the other no room
  have h_quiet : ∀ c idx,
      (if buffer = 0 then outNull else outBuffer buffer) c memory idx count = memory := by
    intro c idx
    by_cases h_buffer : buffer = 0
    · rw [if_pos h_buffer]
      rfl
    · rw [if_neg h_buffer, outBuffer, h_none.resolve_left h_buffer, if_neg UInt32.not_lt_zero]
  have h_put : putAll (if buffer = 0 then outNull else outBuffer buffer) count t 0 memory =
      (UInt32.ofNat t.length, memory) := by
    have h_all := putAll_quiet h_quiet t 0
    rw [Nat.zero_add] at h_all
    exact h_all
  rw [vsnprintf, vsnprintfWith]
  refine (bind_of_ok h).trans ?_
  dsimp only
  rw [h_put]
  dsimp only
  rw [h_quiet]

/-! ### Functions -/

/-- A function is called with the characters that are not NUL. -/
theorem putAll_outFct {σ : Type} (fct : Byte → σ → σ) (s : σ) :
    putAll (outFct fct) maxlen cs (UInt32.ofNat i) s =
      (UInt32.ofNat (i + cs.length), (cs.filter (· ≠ 0)).foldl (fun s c => fct c s) s) := by
  induction cs generalizing i s with
  | nil => rfl
  | cons c cs ih =>
    have h_next : UInt32.ofNat i + 1 = UInt32.ofNat (i + 1) := (UInt32.ofNat_add i 1).symm
    rw [putAll, h_next, ih, List.length_cons, Nat.add_right_comm, Nat.add_assoc, outFct]
    by_cases h_c : c = 0
    · rw [if_neg (not_not.mpr h_c), List.filter_cons_of_neg (by simpa using h_c)]
    · rw [if_pos h_c, List.filter_cons_of_pos (by simpa using h_c), List.foldl_cons]

theorem fctprintf_eq {σ : Type} (fct : Byte → σ → σ) (arg : σ) (h : text format va = .ok (t, va')) :
    fctprintf fct arg format va =
      .ok ((t.filter (· ≠ 0)).foldl (fun s c => fct c s) arg,
        (UInt32.ofNat t.length).toInt32.toInt) := by
  have h_put : putAll (outFct fct) (-1) t 0 arg =
      (UInt32.ofNat t.length, (t.filter (· ≠ 0)).foldl (fun s c => fct c s) arg) := by
    have h_all := @putAll_outFct (-1) t 0 σ fct arg
    rw [Nat.zero_add] at h_all
    exact h_all
  rw [fctprintf, vsnprintfWith]
  refine (bind_of_ok h).trans ?_
  dsimp only
  rw [h_put]
  rfl

/-- `printf` sends what `fctprintf` would hand to a function. -/
theorem printf_eq (sent : List Byte) (h : text format va = .ok (t, va')) :
    printf sent format va =
      .ok (sent ++ t.filter (· ≠ 0), (UInt32.ofNat t.length).toInt32.toInt) := by
  have h_char : outChar = outFct fun c sent => sent ++ [c] := rfl
  have h_foldl : ∀ (cs sent : List Byte), cs.foldl (fun sent c => sent ++ [c]) sent =
      sent ++ cs := by
    intro cs sent
    induction cs generalizing sent with
    | nil => exact (List.append_nil sent).symm
    | cons c cs ih => rw [List.foldl_cons, ih, List.append_assoc]; rfl
  have h_eq := fctprintf_eq (fun c sent => sent ++ [c]) sent h
  rw [h_foldl] at h_eq
  exact h_eq

theorem text_of_printf {sent sent' : List Byte} {n : Int}
    (h : printf sent format va = .ok (sent', n)) :
    ∃ t va', text format va = .ok (t, va') ∧ sent' = sent ++ t.filter (· ≠ 0) := by
  cases h_text : text format va with
  | error e =>
    rw [printf, vsnprintfWith, h_text] at h
    cases h
  | ok r =>
    obtain ⟨h_sent, -⟩ := Prod.mk.inj (Except.ok.inj ((printf_eq sent h_text).symm.trans h))
    exact ⟨r.1, r.2, rfl, h_sent.symm⟩

/-! ### All of them together -/

/-- **Nothing is written past `count`**: in the buffer there is the front of the text that everyone
prints, and a NUL, and the rest of memory is as it was.

The text is what the format comes to before any sink has seen it, so it is the same for a buffer of
any size and for a function, which does not get the NULs in it. The length that is returned is that
of the whole text. -/
theorem snprintf_within (h : text format va = .ok (t, va')) (h_t : t.length < 2 ^ 32)
    (h_buffer : buffer ≠ 0) (h_count : count ≠ 0) :
    ∃ memory' n, vsnprintf memory buffer count format va = .ok (memory', n) ∧
      memcpyFrom memory' buffer (min t.length (count.toNat - 1) + 1) =
        t.take (count.toNat - 1) ++ [0] ∧
      (∀ x, min t.length (count.toNat - 1) < (x - buffer).toNat → memory' x = memory x) ∧
      ∀ {σ : Type} (fct : Byte → σ → σ) (arg : σ), fctprintf fct arg format va =
        .ok ((t.filter (· ≠ 0)).foldl (fun s c => fct c s) arg, n) := by
  -- the front of the text and the NUL
  have h_length : (t.take (count.toNat - 1) ++ [0]).length =
      min t.length (count.toNat - 1) + 1 := by
    rw [List.length_append, List.length_take, Nat.min_comm]
    rfl
  have h_le : (t.take (count.toNat - 1) ++ [0]).length ≤ 2 ^ 32 := by omega
  refine ⟨_, _, vsnprintf_eq h h_t h_buffer h_count, ?_, ?_, fun fct arg => fctprintf_eq fct arg h⟩
  · rw [← h_length]
    exact memcpyFrom_self memory buffer h_le
  · intro x h_x
    exact memcpyTo_of_le h_le (by omega)

theorem memcpyTo_update (h : cs ≠ []) (memory : UInt32 → Byte) (dest : UInt32) (c : Byte) :
    memcpyTo (Function.update memory dest c) dest cs = memcpyTo memory dest cs := by
  cases cs with
  | nil => exact absurd rfl h
  | cons c' cs => rw [memcpyTo, memcpyTo, Function.update_idem]

theorem sprintf_eq (h : text format va = .ok (t, va')) (h_t : t.length < 2 ^ 32 - 1)
    (h_buffer : buffer ≠ 0) :
    sprintf memory buffer format va =
      .ok (memcpyTo memory buffer (t ++ [0]), (UInt32.ofNat t.length).toInt32.toInt) := by
  have h_count : (-1 : UInt32).toNat = 2 ^ 32 - 1 := rfl
  rw [sprintf, vsnprintf_eq h (by omega) h_buffer (by decide), h_count,
    List.take_of_length_le (by omega)]

/-- **Printing in pieces**: what is printed behind what has been printed, with the arguments that
are left, comes to what both formats come to at once, in a buffer and for a function.

The second call begins at the NUL of the first one. Formats are read turn by turn, and a turn does
not look at what is behind it (`text_append`); here this becomes a statement about memory, and about
what the function has made of its argument. -/
theorem print_append {format' t' : List Byte} {va'' : List Arg} (h : text format va = .ok (t, va'))
    (h' : text format' va' = .ok (t', va'')) (h_t : t.length + t'.length < 2 ^ 32 - 1)
    (h_buffer : buffer ≠ 0) (h_buffer' : buffer + UInt32.ofNat t.length ≠ 0) :
    (∃ memory₁ memory₂ n₁ n₂ n, sprintf memory buffer format va = .ok (memory₁, n₁) ∧
      sprintf memory₁ (buffer + UInt32.ofNat t.length) format' va' = .ok (memory₂, n₂) ∧
      sprintf memory buffer (format ++ format') va = .ok (memory₂, n)) ∧
    ∀ {σ : Type} (fct : Byte → σ → σ) (arg : σ), ∃ arg₁ arg₂ n₁ n₂ n,
      fctprintf fct arg format va = .ok (arg₁, n₁) ∧
      fctprintf fct arg₁ format' va' = .ok (arg₂, n₂) ∧
      fctprintf fct arg (format ++ format') va = .ok (arg₂, n) := by
  have h_both : text (format ++ format') va = .ok (t ++ t', va'') := by
    rw [text_append h, h']
    rfl
  have h_length : (t ++ t').length < 2 ^ 32 - 1 := by
    rw [List.length_append]
    exact h_t
  constructor
  · refine ⟨_, _, _, _, (UInt32.ofNat (t ++ t').length).toInt32.toInt,
      sprintf_eq h (by omega) h_buffer, sprintf_eq h' (by omega) h_buffer', ?_⟩
    -- the second text begins where the NUL of the first one is, and goes over it
    rw [sprintf_eq h_both h_length h_buffer, memcpyTo_append memory buffer t [0], memcpyTo,
      memcpyTo, memcpyTo_update (by simp), ← memcpyTo_append, List.append_assoc]
  · intro σ fct arg
    refine ⟨_, _, _, _, (UInt32.ofNat (t ++ t').length).toInt32.toInt, fctprintf_eq fct arg h,
      fctprintf_eq fct _ h', ?_⟩
    rw [fctprintf_eq fct arg h_both, List.filter_append, List.foldl_append]

end

/-- There is room for two of four characters. -/
theorem snprintf_within_three : ∃ memory' n,
    vsnprintf (fun _ => 7) 16 3 [ch '%', ch 'd'] [.word (-120)] = .ok (memory', n) ∧
    memcpyFrom memory' 16 3 = [ch '-', ch '1', 0] ∧ (∀ x, 2 < (x - 16).toNat → memory' x = 7) ∧
    ∀ {σ : Type} (fct : Byte → σ → σ) (arg : σ), fctprintf fct arg [ch '%', ch 'd'] [.word (-120)] =
      .ok ([ch '-', ch '1', ch '2', ch '0'].foldl (fun s c => fct c s) arg, n) := by
  have h_text : text [ch '%', ch 'd'] [.word (-120)] =
      .ok ([ch '-', ch '1', ch '2', ch '0'], []) := by
    decide +kernel
  exact snprintf_within h_text (by decide) (by decide) (by decide)

/-- A name, and a number behind it. -/
theorem print_append_name_number : ∃ memory₁ memory₂ n₁ n₂ n,
    sprintf (fun _ => 7) 16 [ch '%', ch 's'] [.string [ch 'A', ch 'B'], .word 5] =
      .ok (memory₁, n₁) ∧
    sprintf memory₁ 18 [ch '%', ch 'd'] [.word 5] = .ok (memory₂, n₂) ∧
    sprintf (fun _ => 7) 16 [ch '%', ch 's', ch '%', ch 'd'] [.string [ch 'A', ch 'B'], .word 5] =
      .ok (memory₂, n) := by
  have h_name : text [ch '%', ch 's'] [.string [ch 'A', ch 'B'], .word 5] =
      .ok ([ch 'A', ch 'B'], [.word 5]) := by
    decide +kernel
  have h_number : text [ch '%', ch 'd'] [.word 5] = .ok ([ch '5'], []) := by decide +kernel
  exact (print_append h_name h_number (by decide) (by decide) (by decide)).1

end Print
end PollingExpress
