import PollingExpress.Framework.Fallible
import PollingExpress.Shell.Commands

/-!
# What was typed

`typed` is what a reader of the keys takes the line to be. `executes_of_fits` says that the shell
has the same line and hands its fields on, as long as every key fits (`Shell.Fits`): the array has
room for a character after this one, and a line that is entered has a token for each field, no NUL,
and no character of an earlier line behind it.
-/

namespace PollingExpress

open Shell

namespace Shell

/-- The line after one more key. -/
def typedAfter (line : List Byte) (c : Byte) : List Byte :=
  if c = backspace then line.dropLast
  else if c = enter then []
  else line ++ [c]

/-- The characters typed since the line was last entered. -/
def typed (keys : List Byte) : List Byte := keys.foldl typedAfter []

theorem typed_snoc (keys : List Byte) (c : Byte) :
    typed (keys ++ [c]) = typedAfter (typed keys) c :=
  List.foldl_append

/-- The key does what it says: the line is what was typed, and if it is entered the tokens are its
fields. -/
def Executes (keys : List Byte) (s : Shell) (c : Byte) : Prop :=
  ∃ editor, s.editor.handleNewChar c =
      .ok (editor, if c = enter then some (fields (typed keys)) else none) ∧
    editor.line = typed (keys ++ [c])

/-- The key fits. -/
def Fits (s : Shell) (c : Byte) : Prop :=
  if c = backspace then True
  else if c = enter then
    s.editor.input[s.editor.inputLength]? = some 0 ∧ 0 ∉ s.editor.line ∧
      s.editor.line.count space < maxCommandTokens
  else s.editor.inputLength + 1 < terminalMaxInputSize

instance (s : Shell) (c : Byte) : Decidable (s.Fits c) :=
  inferInstanceAs (Decidable (if c = backspace then True
    else if c = enter then s.editor.input[s.editor.inputLength]? = some 0 ∧ 0 ∉ s.editor.line ∧
      s.editor.line.count space < maxCommandTokens
    else s.editor.inputLength + 1 < terminalMaxInputSize))

/-! ### One key -/

namespace Editor

variable {e : Editor} {c : Byte}

theorem length_line (e : Editor) : e.line.length = e.inputLength := by
  rw [line, List.length_take, e.size, min_eq_left e.fits]

theorem handleNewChar_backspace (h : e.inputLength ≠ terminalMaxInputSize) :
    ∃ e' : Editor, e.handleNewChar backspace = .ok (e', none) ∧ e'.line = e.line.dropLast ∧
      e'.inputLength ≤ e.inputLength := by
  have h_lt : e.inputLength < e.input.length := by
    rw [e.size]
    exact Nat.lt_of_le_of_ne e.fits h
  rw [handleNewChar, dif_neg h, if_pos rfl]
  by_cases h_pos : e.inputLength > 0
  · -- the last character is overwritten by a NUL
    rw [if_pos h_pos]
    refine ⟨_, rfl, ?_, Nat.sub_le _ _⟩
    rw [line, line, List.take_set_of_le (Nat.le_refl _), List.dropLast_take h_lt]
  · rw [if_neg h_pos]
    refine ⟨e, rfl, ?_, Nat.le_refl _⟩
    rw [line, Nat.eq_zero_of_not_pos h_pos]
    rfl

theorem handleNewChar_char (h : e.inputLength ≠ terminalMaxInputSize) (h_backspace : c ≠ backspace)
    (h_enter : c ≠ enter) :
    ∃ e' : Editor, e.handleNewChar c = .ok (e', none) ∧ e'.line = e.line ++ [c] ∧
      e'.inputLength = e.inputLength + 1 := by
  rw [handleNewChar, dif_neg h, if_neg h_backspace, if_neg h_enter]
  refine ⟨_, rfl, ?_, rfl⟩
  have h_lt : e.inputLength < e.input.length := by
    rw [e.size]
    exact Nat.lt_of_le_of_ne e.fits h
  rw [line, line, List.take_succ_eq_append_getElem (by rwa [List.length_set]),
    List.getElem_set_self,
    List.take_set_of_le (Nat.le_refl _)]

theorem handleNewChar_enter (h : e.inputLength ≠ terminalMaxInputSize)
    (h_end : e.input[e.inputLength]? = some 0) (h_nul : 0 ∉ e.line)
    (h_spaces : e.line.count space < maxCommandTokens) :
    ∃ e' : Editor, e.handleNewChar enter = .ok (e', some (fields e.line)) ∧ e'.inputLength = 0 := by
  obtain ⟨h_lt, h_zero⟩ := List.getElem?_eq_some_iff.mp h_end
  -- the tokenizer stops at the NUL behind the line
  have h_input : e.input = e.line ++ 0 :: e.input.drop (e.inputLength + 1) := by
    rw [line, ← h_zero, List.getElem_cons_drop, List.take_append_drop]
  obtain ⟨input, h_tokens⟩ := tokenizer_spec (e.input.drop (e.inputLength + 1)) h_nul h_spaces
  rw [← h_input] at h_tokens
  rw [handleNewChar, dif_neg h, if_neg (by decide), if_pos rfl]
  split
  · next input' tokens h_ok =>
    obtain ⟨rfl, rfl⟩ := Prod.mk.inj (Except.ok.inj (h_ok.symm.trans h_tokens))
    exact ⟨_, rfl, rfl⟩
  · next f h_error => cases h_error.symm.trans h_tokens

end Editor

variable {names : TrackNames} {s s' : Shell} {c : Byte}

/-! ### What the commands leave alone -/

theorem execute_editor {command : Command} (h : s.execute command = .ok s') :
    s'.editor = s.editor := by
  match command with
  | .tr _ _ | .sw _ _ | .rv _ | .gt _ _ _ | .reg _ _ | .random _ _ =>
    obtain rfl := Except.ok.inj h
    rfl
  | .q | .die => cases h
  | .mock sensor =>
    rw [execute] at h
    split at h
    · obtain rfl := Except.ok.inj h
      rfl
    · cases h

theorem flush_editor {n : ℕ} (h : s.flush n = .ok s') : s'.editor = s.editor := by
  induction n generalizing s with
  | zero =>
    obtain rfl := Except.ok.inj h
    rfl
  | succ n ih =>
    rw [flush] at h
    split at h
    · obtain rfl := Except.ok.inj h
      rfl
    · obtain ⟨s₁, h_execute, h_flush⟩ := of_bind_ok h
      have h_editor := execute_editor h_execute
      exact (ih h_flush).trans h_editor

theorem finish_editor (h : s.finish = .ok s') : s'.editor = s.editor.clear := by
  rw [finish] at h
  split at h
  · obtain rfl := Except.ok.inj h
    rfl
  · obtain ⟨s₁, h_flush, h⟩ := of_bind_ok h
    obtain rfl := Except.ok.inj h
    exact congrArg Editor.clear (flush_editor h_flush)

/-- After a key the editor is as `handle_new_char` left it, but for the array after a line was
entered. -/
theorem getc_editor (h : s.getc names c = .ok s') : ∃ editor tokens,
    s.editor.handleNewChar c = .ok (editor, tokens) ∧ s'.editor.inputLength = editor.inputLength ∧
      (tokens = none → s'.editor = editor) := by
  obtain ⟨⟨editor, tokens⟩, h_char, h⟩ := of_bind_ok h
  refine ⟨editor, tokens, h_char, ?_⟩
  cases tokens with
  | none =>
    obtain rfl := Except.ok.inj h
    exact ⟨rfl, fun _ => rfl⟩
  | some tokens =>
    refine ⟨?_, fun h_none => by cases h_none⟩
    obtain ⟨parsed, -, h⟩ := of_bind_ok h
    -- whatever the line is, the next one begins at the start of the array
    match parsed with
    | .plan | .rejected _ =>
      obtain rfl := Except.ok.inj h
      rfl
    | .command _ | .invalid =>
      rw [finish_editor h]
      rfl
    | .doneplan =>
      rw [answer] at h
      split at h
      · rw [finish_editor h]
        rfl
      · obtain rfl := Except.ok.inj h
        rfl

/-! ### Runs -/

/-- What a key that fits keeps: the line is what the keys come to, and there is room for the next
one. -/
structure Typing (keys : List Byte) (s : Shell) : Prop where
  line : s.editor.line = typed keys
  room : s.editor.inputLength < terminalMaxInputSize

theorem typing_start : Typing [] Shell.start := ⟨rfl, by decide⟩

/-- One key of a line that fits is taken as the line editor means it: a character is added, a
backspace removes one if there is one, and a return has the line read and answered. -/
theorem Typing.executes {keys : List Byte} (h : Typing keys s) (h_fits : s.Fits c) :
    Executes keys s c := by
  have h_room := Nat.ne_of_lt h.room
  rw [Fits] at h_fits
  rw [Executes, typed_snoc, typedAfter, ← h.line]
  -- the three kinds of keys, as `handle_new_char` takes them
  by_cases h_backspace : c = backspace
  · subst h_backspace
    obtain ⟨editor, h_ok, h_line, -⟩ := Editor.handleNewChar_backspace h_room
    exact ⟨editor, h_ok, h_line⟩
  rw [if_neg h_backspace] at h_fits ⊢
  by_cases h_enter : c = enter
  · subst h_enter
    obtain ⟨h_end, h_nul, h_spaces⟩ := h_fits
    obtain ⟨editor, h_ok, h_zero⟩ := Editor.handleNewChar_enter h_room h_end h_nul h_spaces
    refine ⟨editor, h_ok, ?_⟩
    rw [if_pos rfl, Editor.line, h_zero, List.take_zero]
  · rw [if_neg h_enter, if_neg h_enter]
    obtain ⟨editor, h_ok, h_line, -⟩ := Editor.handleNewChar_char h_room h_backspace h_enter
    exact ⟨editor, h_ok, h_line⟩

/-- **One key** that fits. The editor takes it as `typedAfter` says, and with the key for a line the
line is executed, which leaves what has been typed alone. -/
theorem Typing.step {keys : List Byte} (h : Typing keys s) (h_fits : s.Fits c)
    (h_step : s.getc names c = .ok s') :
    Typing (keys ++ [c]) s' := by
  -- the editor takes the key; the line may be executed, which leaves its length alone
  obtain ⟨editor, tokens, h_char, h_length, h_same⟩ := getc_editor h_step
  obtain ⟨editor', h_char', h_line⟩ := h.executes h_fits
  obtain ⟨rfl, rfl⟩ := Prod.mk.inj (Except.ok.inj (h_char.symm.trans h_char'))
  have h_length' : editor.inputLength = (typed (keys ++ [c])).length := by
    rw [← h_line, Editor.length_line]
  constructor
  · by_cases h_enter : c = enter
    · rw [typed_snoc, typedAfter, if_neg (by rw [h_enter]; decide), if_pos h_enter] at h_length' ⊢
      rw [Editor.line, h_length, h_length']
      rfl
    · rw [h_same (if_neg h_enter), h_line]
  · rw [h_length, h_length', typed_snoc, typedAfter, ← h.line]
    have h_room := h.room
    rw [Fits] at h_fits
    -- a key takes one off, or begins a line, or adds one for which there is room
    split
    · rw [List.length_dropLast, Editor.length_line]
      omega
    · next h_backspace =>
      split
      · exact Nat.pos_of_ne_zero (by decide)
      · next h_enter =>
        rw [if_neg h_backspace, if_neg h_enter] at h_fits
        rw [List.length_append, Editor.length_line]
        exact h_fits

end Shell

/-- **The shell executes what was typed**: after any keys that fit, a key that fits does what it
says.

The line is read off the keys alone, each BACKSPACE taking back the last one and each ENTER
beginning anew; `Typing` ties it to the input buffer and its length. A key fits if there is a place
for its character, and one for the NUL behind it; ENTER fits if the buffer has a NUL behind the
line, which an earlier line may have written over, and a token for each field. -/
theorem executes_of_fits {names : TrackNames} {keys : List Byte} {s : Shell} {c : Byte}
    (h : (shellSystem names).Reaches Fits keys s) (h_c : s.Fits c) : Executes keys s c := by
  refine Typing.executes ?_ h_c
  clear h_c
  induction h with
  | start h_init =>
    obtain rfl := h_init
    exact typing_start
  | next _ h_fits h_step ih => exact ih.step h_fits h_step

def shellNext (names : TrackNames) (s : Shell) (c : Byte) : Option Shell :=
  (s.getc names c).toOption

theorem shellNext_step (names : TrackNames) (s : Shell) (c : Byte) (s' : Shell)
    (h : shellNext names s c = some s') :
    (shellSystem names).step s c s' := of_toOption h

/-- `tr 24 13`, with the last digit put right, is sent; then `q` is typed. -/
theorem executes_two_lines : ∃ s : Shell, s.requests = [.speed 1 14] ∧
    Executes (ascii ['t', 'r', ' ', '2', '4', ' ', '1', '3', '\x08', '4', '\r', 'q']) s enter := by
  obtain ⟨s, h_s, h_requests, h_fits⟩ :=
    System.exists_reaches_of_play (shellNext_step fun _ => []) Fits
    (fun s => s.requests = [.speed 1 14] ∧ s.Fits enter)
    (ascii ['t', 'r', ' ', '2', '4', ' ', '1', '3', '\x08', '4', '\r', 'q']) rfl (by decide +kernel)
  exact ⟨s, h_requests, executes_of_fits h_s h_fits⟩

/-- The first token, if the line is entered. -/
def Shell.firstToken (s : Shell) : Option (List Byte) :=
  (s.editor.handleNewChar enter).toOption.bind fun p => p.2.map fun tokens => tokens 0

theorem firstToken_of_executes {keys : List Byte} {s : Shell} (h : Executes keys s enter) :
    s.firstToken = some (fields (typed keys) 0) := by
  obtain ⟨editor, h_ok, -⟩ := h
  rw [Shell.firstToken, h_ok]
  rfl

/-- **The end of `plan` becomes the end of the next line, and a full line can neither be entered nor
shortened**: `q` behind `plan` is `qlan`; after twenty characters no key does anything. The array is
not cleared between two lines, and whether it is full is looked at before the key is. -/
theorem stale_line :
    (∃ s, (shellSystem fun _ => []).Reaches (fun _ _ => True)
      (ascii ['p', 'l', 'a', 'n', '\r', 'q']) s ∧
      s.firstToken = some (ascii ['q', 'l', 'a', 'n']) ∧
      ¬Executes (ascii ['p', 'l', 'a', 'n', '\r', 'q']) s enter) ∧
    ∃ s, (shellSystem fun _ => []).Reaches (fun _ _ => True) (List.replicate 20 97) s ∧
      (∀ c, s.editor.handleNewChar c = .ok (s.editor, none)) ∧
      ¬Executes (List.replicate 20 97) s enter := by
  constructor
  · obtain ⟨s, h_s, h_first⟩ :=
      System.exists_reaches_of_play (shellNext_step fun _ => []) (fun _ _ => True)
      (fun s => s.firstToken = some (ascii ['q', 'l', 'a', 'n']))
        (ascii ['p', 'l', 'a', 'n', '\r', 'q']) rfl
      (by decide +kernel)
    refine ⟨s, h_s, h_first, fun h => ?_⟩
    have h_eq := Option.some.inj (h_first.symm.trans (firstToken_of_executes h))
    exact absurd h_eq (by decide +kernel)
  · obtain ⟨s, h_s, h_full⟩ :=
      System.exists_reaches_of_play (shellNext_step fun _ => []) (fun _ _ => True)
      (fun s => s.editor.inputLength = terminalMaxInputSize) (List.replicate 20 97) rfl
        (by decide +kernel)
    have h_deaf : ∀ c, s.editor.handleNewChar c = .ok (s.editor, none) := by
      intro c
      rw [Editor.handleNewChar, dif_pos h_full]
    refine ⟨s, h_s, h_deaf, fun h => ?_⟩
    obtain ⟨editor, h_ok, -⟩ := h
    cases (h_deaf enter).symm.trans h_ok

end PollingExpress
