import Mathlib.Data.List.Basic
import PollingExpress.Framework.Fallible
import PollingExpress.Track.Names

/-!
# The tokenizer

`tokenizer` of `shell.c` takes a line apart in place: each space is replaced by a NUL, and the place
behind it becomes the next token. The index is tested before it is counted up, and the token is
stored after that. So the loop stores one token for each space until the index is behind the array,
and there is one token too many in a line with as many spaces as there are tokens
(`tokenizer_respects_iff`).

`tokenizerFrom` is the loop for an array of any size. The shell's has `MAX_COMMAND_TOKENS` tokens,
and its loop stops with a fault where the store behind the array would be (`tokenizerLoop_eq`).
-/

namespace PollingExpress
namespace Shell

/-- `MAX_COMMAND_TOKENS`. -/
def maxCommandTokens : ℕ := 6

instance : NeZero maxCommandTokens := ⟨by decide⟩

def space : Byte := 32

/-- Where the shell's behaviour is undefined, or it stops the kernel. -/
inductive Fault
  /-- `input` was read behind its end. -/
  | inputOverrun
  /-- `command_tokens` was written behind its end. -/
  | tokensOverrun
  /-- `track[-1]`. -/
  | offTrack
  /-- `sensor_readings` was written behind its end. -/
  | readingsOverrun
  /-- `Shutdown`. -/
  | shutdown
  /-- "DIE!". -/
  | die
  deriving DecidableEq

/-- The tokens of a line, as they are read. -/
abbrev Tokens := Fin maxCommandTokens → List Byte

/-- The loop of `tokenizer`, from a place in `input` on: the characters from there on, and where the
next tokens begin. -/
def tokenizerLoop : List Byte → ℕ → Except Fault (List Byte × List ℕ)
  | [], _ => .error .inputOverrun
  | c :: input, i =>
    if c = 0 then .ok (c :: input, [])
    else if c = space then
      if i + 1 < maxCommandTokens then
        (tokenizerLoop input (i + 1)).map fun (input, tokens) =>
          (0 :: input, (0 :: tokens).map (· + 1))
      else .error .tokensOverrun
    else (tokenizerLoop input i).map fun (input, tokens) => (c :: input, tokens.map (· + 1))

/-- `tokenizer`: what is in `input` then, and the tokens; those that are not set are empty. -/
def tokenizer (input : List Byte) : Except Fault (List Byte × Tokens) :=
  (tokenizerLoop input 0).map fun (input, tokens) =>
    (input, fun i => ((0 :: tokens)[i.val]?.map fun p => cString (input.drop p)).getD [])

/-- The tokenizer writes into the line and does not make it longer or shorter. -/
theorem length_tokenizerLoop {input : List Byte} {i : ℕ} {p : List Byte × List ℕ}
    (h : tokenizerLoop input i = .ok p) : p.1.length = input.length := by
  induction input generalizing i p with
  | nil => cases h
  | cons c input ih =>
    rw [tokenizerLoop] at h
    -- the line ends, or a space is replaced, or the character stays
    split at h
    · obtain rfl := Except.ok.inj h
      rfl
    · split at h
      · split at h
        · cases h_rest : tokenizerLoop input (i + 1) with
          | error e => simp [h_rest, Except.map] at h
          | ok q =>
            rw [h_rest] at h
            obtain rfl := Except.ok.inj h
            exact congrArg Nat.succ (ih h_rest)
        · cases h
      · cases h_rest : tokenizerLoop input i with
        | error e => simp [h_rest, Except.map] at h
        | ok q =>
          rw [h_rest] at h
          obtain rfl := Except.ok.inj h
          exact congrArg Nat.succ (ih h_rest)

theorem length_tokenizer {input : List Byte} {p : List Byte × Tokens}
    (h : tokenizer input = .ok p) : p.1.length = input.length := by
  rw [tokenizer] at h
  cases h_loop : tokenizerLoop input 0 with
  | error e => simp [h_loop, Except.map] at h
  | ok q =>
    rw [h_loop] at h
    obtain rfl := Except.ok.inj h
    exact length_tokenizerLoop h_loop

/-- The loop of `tokenizer`, for an array of `numTokens` tokens: the characters from the place in
`input` on, and what is stored, which are places in the array and in these characters. -/
def tokenizerFrom (numTokens : ℕ) : List Byte → ℕ → Except Fault (List Byte × List (ℕ × ℕ))
  | [], _ => .error .inputOverrun
  | c :: input, i =>
    if c ≠ 0 ∧ i < numTokens then
      if c = space then
        (tokenizerFrom numTokens input (i + 1)).map fun (input, stores) =>
          (0 :: input, ((i + 1, 0) :: stores).map fun (i, p) => (i, p + 1))
      else (tokenizerFrom numTokens input i).map fun (input, stores) =>
        (c :: input, stores.map fun (i, p) => (i, p + 1))
    else .ok (c :: input, [])

/-- `tokenizer`, for any array: what is in `input` then, and all that is stored in the array. -/
def tokenizerStores (numTokens : ℕ) (input : List Byte) : Except Fault (List Byte × List (ℕ × ℕ)) :=
  (tokenizerFrom numTokens input 0).map fun (input, stores) => (input, (0, 0) :: stores)

/-! ### What the tokens are -/

/-- The fields of a line that there are tokens for. -/
def fields (line : List Byte) : Tokens := fun i => ((line.splitOn space)[i.val]?).getD []

theorem cString_cons {c : Byte} (h : c ≠ 0) (mem : List Byte) :
    cString (c :: mem) = c :: cString mem := by
  simp [cString, h]

theorem cString_nul (mem : List Byte) : cString (0 :: mem) = [] := by simp [cString]

section
variable {numTokens i : ℕ} {line old new input : List Byte} {stores : List (ℕ × ℕ)} {c : Byte}

/-- Stores, seen from one character before. -/
theorem read_shift (c : Byte) (input : List Byte) (stores : List (ℕ × ℕ)) :
    (stores.map fun (i, p) => (i, p + 1)).map (fun s => cString ((c :: input).drop s.2)) =
      stores.map fun s => cString (input.drop s.2) := by
  rw [List.map_map]
  rfl

theorem index_shift (stores : List (ℕ × ℕ)) :
    (stores.map fun (i, p) => (i, p + 1)).map Prod.fst = stores.map Prod.fst := by
  rw [List.map_map]
  rfl

/-- Nothing is different but spaces in front of a token, which are NULs: the tokens are parts of the
line itself, and each is cut off where the next one begins. -/
structure Replaced (old new : List Byte) (stores : List (ℕ × ℕ)) : Prop where
  length : new.length = old.length
  spaces : ∀ q c, old[q]? = some c → new[q]? = some c ∨ c = space ∧ new[q]? = some 0 ∧
    q + 1 ∈ stores.map Prod.snd

theorem replaced_refl (input : List Byte) : Replaced input input [] := ⟨rfl, fun _ _ h => .inl h⟩

theorem Replaced.keep (h : Replaced old new stores) (c : Byte) :
    Replaced (c :: old) (c :: new) (stores.map fun (i, p) => (i, p + 1)) := by
  refine ⟨congrArg Nat.succ h.length, fun q d h_d => ?_⟩
  cases q with
  | zero => exact .inl h_d
  | succ q =>
    refine (h.spaces q d h_d).imp id fun ⟨h_space, h_nul, h_token⟩ => ⟨h_space, h_nul, ?_⟩
    obtain ⟨s, h_s, h_eq⟩ := List.mem_map.mp h_token
    exact List.mem_map.mpr ⟨(s.1, s.2 + 1), List.mem_map_of_mem h_s, congrArg Nat.succ h_eq⟩

theorem Replaced.replace (h : Replaced old new stores) (i : ℕ) :
    Replaced (space :: old) (0 :: new) (((i, 0) :: stores).map fun (i, p) => (i, p + 1)) := by
  refine ⟨congrArg Nat.succ h.length, fun q d h_d => ?_⟩
  cases q with
  | zero =>
    obtain rfl := Option.some.inj h_d
    exact .inr ⟨rfl, rfl, List.mem_cons_self⟩
  | succ q =>
    refine ((h.keep 0).spaces (q + 1) d h_d).imp id fun ⟨h_space, h_nul, h_token⟩ =>
      ⟨h_space, h_nul, ?_⟩
    exact List.mem_cons_of_mem _ h_token

theorem Replaced.mono (h : Replaced old new stores) : Replaced old new ((0, 0) :: stores) :=
  ⟨h.length, fun q c h_c => (h.spaces q c h_c).imp id fun ⟨h_space, h_nul, h_token⟩ =>
    ⟨h_space, h_nul, List.mem_cons_of_mem _ h_token⟩⟩

theorem tokenizerFrom_nul (numTokens : ℕ) (rest : List Byte) (i : ℕ) :
    tokenizerFrom numTokens (0 :: rest) i = .ok (0 :: rest, []) := by
  rw [tokenizerFrom, if_neg fun h => h.1 rfl]

/-- One turn of the loop, from what it has come to. -/
theorem tokenizerFrom_cons {rest : List Byte} (h_c : c ≠ 0) (h_i : i < numTokens)
    (h : tokenizerFrom numTokens (c :: rest) i = .ok (input, stores)) : ∃ input' stores',
    (c = space ∧ tokenizerFrom numTokens rest (i + 1) = .ok (input', stores') ∧
      input = 0 :: input' ∧ stores = ((i + 1, 0) :: stores').map fun (i, p) => (i, p + 1)) ∨
    (c ≠ space ∧ tokenizerFrom numTokens rest i = .ok (input', stores') ∧
      input = c :: input' ∧ stores = stores'.map fun (i, p) => (i, p + 1)) := by
  rw [tokenizerFrom, if_pos ⟨h_c, h_i⟩] at h
  -- a space is where the next token begins
  split at h
  · next h_space =>
    obtain ⟨p, h_loop, h_eq⟩ := of_map_ok h
    obtain ⟨rfl, rfl⟩ := Prod.mk.inj h_eq
    exact ⟨p.1, p.2, .inl ⟨h_space, h_loop, rfl, rfl⟩⟩
  · next h_space =>
    obtain ⟨p, h_loop, h_eq⟩ := of_map_ok h
    obtain ⟨rfl, rfl⟩ := Prod.mk.inj h_eq
    exact ⟨p.1, p.2, .inr ⟨h_space, h_loop, rfl, rfl⟩⟩

/-- What the loop does to a line that ends with a NUL. It stores a token for each space, until the
index is behind the array. -/
theorem tokenizerFrom_ok (rest : List Byte) (h_nul : (0 : Byte) ∉ line) (h_i : i ≤ numTokens) :
    ∃ input stores, tokenizerFrom numTokens (line ++ 0 :: rest) i = .ok (input, stores) ∧
      stores.map Prod.fst = List.range' (i + 1) (min (line.count space) (numTokens - i)) ∧
      Replaced (line ++ 0 :: rest) input stores := by
  induction line generalizing i with
  | nil => exact ⟨0 :: rest, [], tokenizerFrom_nul .., by simp, replaced_refl _⟩
  | cons c line ih =>
    have h_c : c ≠ 0 := (List.ne_of_not_mem_cons h_nul).symm
    have h_nul := List.not_mem_of_not_mem_cons h_nul
    rw [List.cons_append, tokenizerFrom]
    by_cases h_lt : i < numTokens
    · rw [if_pos ⟨h_c, h_lt⟩]
      by_cases h_space : c = space
      · obtain ⟨input, stores, h_loop, h_index, h_replaced⟩ := ih (i := i + 1) h_nul h_lt
        refine ⟨0 :: input, ((i + 1, 0) :: stores).map fun (i, p) => (i, p + 1), ?_, ?_, ?_⟩
        · rw [if_pos h_space, h_loop]
          rfl
        · have h_min : min (line.count space + 1) (numTokens - i) =
              min (line.count space) (numTokens - (i + 1)) + 1 := by
            omega
          rw [index_shift, List.map_cons, h_index, h_space, List.count_cons_self, h_min,
            List.range'_succ]
        · rw [h_space]
          exact h_replaced.replace (i + 1)
      · obtain ⟨input, stores, h_loop, h_index, h_replaced⟩ := ih h_nul h_i
        refine ⟨c :: input, stores.map fun (i, p) => (i, p + 1), ?_, ?_, h_replaced.keep c⟩
        · rw [if_neg h_space, h_loop]
          rfl
        · rw [index_shift, h_index, List.count_cons_of_ne h_space]
    · -- the index is behind the array, so the rest of the line is left as it is
      refine ⟨_, [], if_neg fun h => h_lt h.2, ?_, replaced_refl _⟩
      rw [Nat.sub_eq_zero_of_le (Nat.not_lt.mp h_lt), Nat.min_zero]
      rfl

/-- With tokens enough, the one that begins here and the next ones are the fields of the line. Each
is read as a string, up to the zero that stands where a space was. -/
theorem tokenizerFrom_fields (rest : List Byte) (h_nul : (0 : Byte) ∉ line)
    (h_spaces : i + line.count space < numTokens)
    (h : tokenizerFrom numTokens (line ++ 0 :: rest) i = .ok (input, stores)) :
    ((i, 0) :: stores).map (fun s => cString (input.drop s.2)) = line.splitOn space := by
  induction line generalizing i input stores with
  | nil =>
    obtain ⟨rfl, rfl⟩ := Prod.mk.inj (Except.ok.inj ((tokenizerFrom_nul ..).symm.trans h))
    simp [cString_nul]
  | cons c line ih =>
    have h_c : c ≠ 0 := (List.ne_of_not_mem_cons h_nul).symm
    have h_nul := List.not_mem_of_not_mem_cons h_nul
    obtain ⟨input', stores', h_turn⟩ := tokenizerFrom_cons h_c (by omega) h
    rcases h_turn with ⟨h_space, h_loop, rfl, rfl⟩ | ⟨h_space, h_loop, rfl, rfl⟩
    · -- the token that begins here is empty, and the first of the others is the next field
      rw [h_space, List.count_cons_self] at h_spaces
      have h_fields := ih h_nul (by omega) h_loop
      rw [List.map_cons, read_shift, h_space, List.drop_zero, cString_nul]
      rw [List.map_cons] at h_fields ⊢
      rw [h_fields]
      exact (List.splitOn_append_cons_self [] line).symm
    · -- the character belongs to the token that begins here
      rw [List.count_cons_of_ne h_space] at h_spaces
      have h_fields := ih h_nul h_spaces h_loop
      rw [List.map_cons, List.drop_zero] at h_fields
      rw [List.map_cons, read_shift, List.drop_zero, cString_cons h_c,
        List.splitOn_cons_eq_if_modifyHead,
        if_neg (by simpa using h_space), ← h_fields]
      rfl

/-! ### The shell's array -/

/-- The shell's loop is the one for an array of `MAX_COMMAND_TOKENS` tokens, but for the store
behind it. -/
theorem tokenizerLoop_eq (rest : List Byte) (h_nul : (0 : Byte) ∉ line) (h_i : i < maxCommandTokens)
    (h : tokenizerFrom maxCommandTokens (line ++ 0 :: rest) i = .ok (input, stores)) :
    tokenizerLoop (line ++ 0 :: rest) i =
      if ∀ j ∈ stores.map Prod.fst, j < maxCommandTokens then .ok (input, stores.map Prod.snd)
      else .error .tokensOverrun := by
  induction line generalizing i input stores with
  | nil =>
    obtain ⟨rfl, rfl⟩ := Prod.mk.inj (Except.ok.inj ((tokenizerFrom_nul ..).symm.trans h))
    simp [tokenizerLoop]
  | cons c line ih =>
    have h_c : c ≠ 0 := (List.ne_of_not_mem_cons h_nul).symm
    have h_nul := List.not_mem_of_not_mem_cons h_nul
    obtain ⟨input', stores', h_turn⟩ := tokenizerFrom_cons h_c h_i h
    rw [List.cons_append, tokenizerLoop, if_neg h_c]
    rcases h_turn with ⟨h_space, h_loop, rfl, rfl⟩ | ⟨h_space, h_loop, rfl, rfl⟩
    · -- the token that is stored now, or one of the later ones, may be behind the array
      have h_cons : (∀ j ∈ (i + 1) :: stores'.map Prod.fst, j < maxCommandTokens) ↔
          i + 1 < maxCommandTokens ∧ ∀ j ∈ stores'.map Prod.fst, j < maxCommandTokens :=
            List.forall_mem_cons
      rw [if_pos h_space, index_shift, List.map_cons]
      by_cases h_next : i + 1 < maxCommandTokens
      · rw [if_pos h_next, ih h_nul h_next h_loop]
        by_cases h_all : ∀ j ∈ stores'.map Prod.fst, j < maxCommandTokens
        · rw [if_pos h_all, if_pos (h_cons.mpr ⟨h_next, h_all⟩), List.map_map]
          exact congrArg (fun tokens => Except.ok (0 :: input', 1 :: tokens)) (List.map_map ..)
        · rw [if_neg h_all, if_neg fun h => h_all (h_cons.mp h).2]
          rfl
      · rw [if_neg h_next, if_neg fun h => h_next (h_cons.mp h).1]
    · rw [if_neg h_space, ih h_nul h_i h_loop, index_shift]
      by_cases h_all : ∀ j ∈ stores'.map Prod.fst, j < maxCommandTokens
      · rw [if_pos h_all, if_pos h_all, List.map_map]
        exact congrArg (fun tokens => Except.ok (c :: input', tokens)) (List.map_map ..)
      · rw [if_neg h_all, if_neg h_all]
        rfl

/-- The loop over a line that ends with a NUL: the first token, which begins here, and the next ones
are the fields of the line. -/
theorem tokenizerLoop_spec (rest : List Byte) (h_nul : (0 : Byte) ∉ line)
    (h_spaces : i + line.count space < maxCommandTokens) :
    ∃ input tokens, tokenizerLoop (line ++ 0 :: rest) i = .ok (input, tokens) ∧
      (0 :: tokens).map (fun p => cString (input.drop p)) = line.splitOn space := by
  obtain ⟨input, stores, h_loop, h_index, -⟩ :=
    tokenizerFrom_ok rest h_nul (show i ≤ maxCommandTokens by omega)
  refine ⟨input, stores.map Prod.snd, ?_, ?_⟩
  · rw [tokenizerLoop_eq rest h_nul (by omega) h_loop, if_pos]
    intro j h_j
    rw [h_index, List.mem_range'_1] at h_j
    omega
  · rw [← tokenizerFrom_fields rest h_nul h_spaces h_loop, List.map_cons, List.map_cons,
      List.map_map]
    rfl

/-- **The tokens of a line that ends with a NUL are its fields.** What is behind the NUL is not
looked at; fewer than six spaces make at most six tokens, as many as there are places for. -/
theorem tokenizer_spec {line : List Byte} (rest : List Byte) (h_nul : (0 : Byte) ∉ line)
    (h_spaces : line.count space < maxCommandTokens) :
    ∃ input, tokenizer (line ++ 0 :: rest) = .ok (input, fields line) := by
  obtain ⟨input, tokens, h_loop, h_tokens⟩ := tokenizerLoop_spec (i := 0) rest h_nul (by omega)
  refine ⟨input, ?_⟩
  rw [tokenizer, h_loop, Except.map]
  dsimp only
  congr 2
  ext1 i
  rw [fields, ← h_tokens, List.getElem?_map]

/-! ### The end of the array -/

/-- What a caller with `numTokens` tokens may expect of `tokenizer` for `line`, which ends with a
NUL: nothing is stored behind the array, the tokens are stored in order, only spaces of the line are
replaced, and the tokens are the fields of the line. -/
structure Respects (numTokens : ℕ) (line rest input : List Byte) (stores : List (ℕ × ℕ)) :
    Prop where
  inArray : ∀ s ∈ stores, s.1 < numTokens
  inOrder : stores.map Prod.fst = List.range stores.length
  replaced : Replaced (line ++ 0 :: rest) input stores
  fields : stores.map (fun s => cString (input.drop s.2)) = (line.splitOn space).take numTokens

/-- **The tokenizer respects its array just for the lines with fewer spaces than tokens.**

The loop is left when as many spaces as there are tokens have been seen, which is one store too
late: the token behind that space is stored behind the array. For the other lines the tokens are the
fields of the line, in order, and only spaces of the line have been replaced. -/
theorem tokenizer_respects_iff (numTokens : ℕ) (rest : List Byte) (h_nul : (0 : Byte) ∉ line) :
    (∃ input stores, tokenizerStores numTokens (line ++ 0 :: rest) = .ok (input, stores) ∧
      Respects numTokens line rest input stores) ↔ line.count space < numTokens := by
  obtain ⟨input, stores, h_loop, h_index, h_replaced⟩ :=
    tokenizerFrom_ok rest h_nul (Nat.zero_le numTokens)
  have h_stores :
      tokenizerStores numTokens (line ++ 0 :: rest) = .ok (input, (0, 0) :: stores) := by
    rw [tokenizerStores, h_loop]
    rfl
  -- the stores are in order, one for each space up to the bound, and the first one
  have h_indices : ((0, 0) :: stores).map Prod.fst =
      List.range (min (line.count space) numTokens + 1) := by
    rw [List.map_cons, h_index, List.range_eq_range', List.range'_succ]
    rfl
  have h_length : ((0, 0) :: stores).length = min (line.count space) numTokens + 1 := by
    have h_lengths := congrArg List.length h_indices
    rwa [List.length_map, List.length_range] at h_lengths
  constructor
  · rintro ⟨input', stores', h_ok, h⟩
    obtain ⟨rfl, rfl⟩ := Prod.mk.inj (Except.ok.inj (h_stores.symm.trans h_ok))
    -- the last token is in the array only if there are more tokens than spaces
    have h_last : min (line.count space) numTokens ∈ ((0, 0) :: stores).map Prod.fst := by
      rw [h_indices, List.mem_range]
      exact Nat.lt_succ_self _
    obtain ⟨s, h_s, h_eq⟩ := List.mem_map.mp h_last
    have h_lt := h.inArray s h_s
    omega
  · intro h_spaces
    -- with fewer spaces than tokens the loop stops at the end of the line
    have h_fields := tokenizerFrom_fields rest h_nul (by omega) h_loop
    refine ⟨input, _, h_stores, ?_, ?_, h_replaced.mono, ?_⟩
    · intro s h_s
      have h_mem := List.mem_map_of_mem (f := Prod.fst) h_s
      rw [h_indices, List.mem_range] at h_mem
      omega
    · rw [h_indices, h_length]
    · rw [← h_fields, List.take_of_length_le]
      rw [List.length_map, h_length]
      omega

end

/-- `tr 1 14`, in the shell's array. -/
theorem tokenizer_respects_iff_tr :
    (∃ input stores,
      tokenizerStores maxCommandTokens
        ([116, 114, 32, 49, 32, 49, 52] ++ 0 :: List.replicate 12 0) =
        .ok (input, stores) ∧
      Respects maxCommandTokens [116, 114, 32, 49, 32, 49, 52] (List.replicate 12 0) input stores) ↔
      [116, 114, 32, 49, 32, 49, 52].count space < maxCommandTokens :=
  tokenizer_respects_iff maxCommandTokens (List.replicate 12 0) (by decide)

/-- A line of six spaces: `tokens[6]` is written. -/
theorem tokenizer_counterexample :
    ¬∃ input stores,
      tokenizerStores maxCommandTokens (List.replicate 6 space ++ 0 :: List.replicate 13 0) =
        .ok (input, stores) ∧
      Respects maxCommandTokens (List.replicate 6 space) (List.replicate 13 0) input stores := by
  rintro ⟨input, stores, h_ok, h⟩
  have h_run :
      tokenizerStores maxCommandTokens (List.replicate 6 space ++ 0 :: List.replicate 13 0) =
        .ok (List.replicate 20 0, [(0, 0), (1, 1), (2, 2), (3, 3), (4, 4), (5, 5), (6, 6)]) := by
    decide
  obtain ⟨rfl, rfl⟩ := Prod.mk.inj (Except.ok.inj (h_run.symm.trans h_ok))
  exact absurd (h.inArray (6, 6) (by decide)) (by decide)

end Shell
end PollingExpress
