import Mathlib.Data.List.TakeWhile
import PollingExpress.Shell.Lines
import PollingExpress.Shell.Planner
import PollingExpress.Train.Schedule

/-!
# What the servers are sent

The servers take what the shell sends for granted. A command is `Proper` if they may: its switch is
one that there is, its sensor lies inside the readings, and the node is the one whose name was
typed. The shell checks much of this, but not all of it. `Sound` says which lines it reads as it
should; on these, and only on these, every command that it takes is proper (`harmless_iff`), and as
long as only such lines are entered, every request that it sends is `InRange` and comes from a line
(`Accounted.request`). What the servers do with the requests is in `Shell/Station`.

What the tokenizer reads is `Editor.text`. It begins with what was typed, and may go on with the end
of an earlier line.
-/

namespace PollingExpress

namespace Shell

/-! ### The text -/

/-- What the tokenizer takes apart. -/
def Editor.text (e : Editor) : List Byte := cString e.input

/-- The words that were typed. -/
def Editor.words (e : Editor) : Tokens := fields (cString e.line)

/-- The tokenizer comes to an end inside the token array only if the line has an end and fewer
spaces than there are tokens left. -/
theorem tokenizerLoop_ok {input : List Byte} {i : ℕ} {p : List Byte × List ℕ}
    (h_i : i < maxCommandTokens) (h : tokenizerLoop input i = .ok p) :
    0 ∈ input ∧ i + (cString input).count space < maxCommandTokens := by
  induction input generalizing i p with
  | nil => cases h
  | cons c input ih =>
    rw [tokenizerLoop] at h
    split at h
    · next h_nul =>
      rw [h_nul, cString_nul]
      exact ⟨List.mem_cons_self, h_i⟩
    · next h_c =>
      rw [cString_cons h_c]
      split at h
      · next h_space =>
        -- a space begins a token, for which there is room
        split at h
        · next h_room =>
          obtain ⟨q, h_rest, -⟩ := of_map_ok h
          obtain ⟨h_nul, h_count⟩ := ih h_room h_rest
          rw [h_space, List.count_cons_self]
          exact ⟨List.mem_cons_of_mem _ h_nul, by omega⟩
        · cases h
      · next h_space =>
        obtain ⟨q, h_rest, -⟩ := of_map_ok h
        obtain ⟨h_nul, h_count⟩ := ih h_i h_rest
        rw [List.count_cons_of_ne h_space]
        exact ⟨List.mem_cons_of_mem _ h_nul, h_count⟩

theorem exists_append_of_mem {input : List Byte} (h : 0 ∈ input) :
    ∃ rest, input = cString input ++ 0 :: rest := by
  induction input with
  | nil => cases h
  | cons c input ih =>
    by_cases h_c : c = 0
    · rw [h_c, cString_nul]
      exact ⟨input, rfl⟩
    · obtain ⟨rest, h_rest⟩ := ih (List.mem_of_ne_of_mem (Ne.symm h_c) h)
      rw [cString_cons h_c]
      exact ⟨rest, congrArg _ h_rest⟩

theorem nul_not_mem_cString (input : List Byte) : 0 ∉ cString input := by
  intro h
  exact absurd (List.mem_takeWhile_imp h) (by decide)

/-- Where the tokenizer comes to an end, the text has one too, and the tokens are its fields. -/
theorem tokenizer_ok {input : List Byte} {p : List Byte × Tokens} (h : tokenizer input = .ok p) :
    0 ∈ input ∧ (cString input).count space < maxCommandTokens ∧ p.2 = fields (cString input) := by
  obtain ⟨q, h_loop, -⟩ := of_map_ok h
  obtain ⟨h_nul, h_count⟩ := tokenizerLoop_ok (Nat.succ_pos _) h_loop
  rw [Nat.zero_add] at h_count
  refine ⟨h_nul, h_count, ?_⟩
  obtain ⟨rest, h_input⟩ := exists_append_of_mem h_nul
  obtain ⟨input', h_tokens⟩ := tokenizer_spec rest (nul_not_mem_cString input) h_count
  rw [← h_input, h] at h_tokens
  exact congrArg Prod.snd (Except.ok.inj h_tokens)

/-- The fields of what a text begins with begin the fields of the text. -/
theorem fields_begin (line rest : List Byte) (i : Fin maxCommandTokens) :
    fields line i <+: fields (line ++ rest) i := by
  have h_all : ∀ k : ℕ, (line.splitOn space)[k]?.getD [] <+:
      ((line ++ rest).splitOn space)[k]?.getD [] := by
    induction line with
    | nil => intro k; cases k <;> exact List.nil_prefix
    | cons c line ih =>
      intro k
      rw [List.cons_append, List.splitOn_cons_eq_if_modifyHead, List.splitOn_cons_eq_if_modifyHead]
      split
      · -- a space ends the field, in the line and in the text
        cases k with
        | zero => exact List.nil_prefix
        | succ k => exact ih k
      · -- the first field of both gets longer by `c`
        obtain ⟨x, xs, h_x⟩ := List.exists_cons_of_ne_nil (List.splitOn_ne_nil space line)
        obtain ⟨y, ys, h_y⟩ := List.exists_cons_of_ne_nil (List.splitOn_ne_nil space (line ++ rest))
        rw [h_x, h_y] at ih ⊢
        cases k with
        | zero => exact List.cons_prefix_cons.mpr ⟨rfl, ih 0⟩
        | succ k => exact ih (k + 1)
  exact h_all i

theorem cString_append (line rest : List Byte) : cString line <+: cString (line ++ rest) := by
  induction line with
  | nil => exact List.nil_prefix
  | cons c line ih =>
    by_cases h_c : c = 0
    · rw [h_c, cString_nul]
      exact List.nil_prefix
    · rw [List.cons_append, cString_cons h_c, cString_cons h_c]
      exact List.cons_prefix_cons.mpr ⟨rfl, ih⟩

/-- What was typed begins what is read, word by word. -/
theorem Editor.words_begin (e : Editor) (i : Fin maxCommandTokens) :
    e.words i <+: fields e.text i := by
  obtain ⟨rest, h_rest⟩ : e.line <+: e.input := List.take_prefix _ _
  obtain ⟨more, h_more⟩ := cString_append e.line rest
  rw [h_rest] at h_more
  rw [Editor.words, Editor.text, ← h_more]
  exact fields_begin _ _ i

/-! ### Lines that are read as they should be -/

/-- The servers can take the command, and a node is the one whose name is among the words. Trains
are in range by their type. -/
def Command.Proper (names : TrackNames) (words : Tokens) : Command → Prop
  | .sw num _ => Train.SwitchNum num
  | .gt _ dest _ => words 2 ≠ [] ∧ names dest = words 2
  | .reg _ source => words 2 ≠ [] ∧ names source = words 2
  | .mock sensor => (words 1 ≠ [] ∧ names sensor = words 1) ∧
    sensor.val / sensorsPerGroup < numSensorGroups
  | .tr _ _ | .rv _ | .q | .die | .random _ _ => True

instance (names : TrackNames) (words : Tokens) : DecidablePred (Command.Proper names words)
  | .sw num _ => inferInstanceAs (Decidable (Train.SwitchNum num))
  | .gt _ dest _ => inferInstanceAs (Decidable (words 2 ≠ [] ∧ names dest = words 2))
  | .reg _ source => inferInstanceAs (Decidable (words 2 ≠ [] ∧ names source = words 2))
  | .mock sensor => inferInstanceAs (Decidable
      ((words 1 ≠ [] ∧ names sensor = words 1) ∧ sensor.val / sensorsPerGroup < numSensorGroups))
  | .tr _ _ | .rv _ | .q | .die | .random _ _ => isTrue trivial

/-- What the shell does not check. Each field is about the commands that read the number or the
name, and only about lines that would be taken: a line that is rejected anyway may be anything. -/
structure SoundLine (names : TrackNames) (tokens words : Tokens) : Prop where
  /-- A number up to `NUM_SWITCHES` is that of a switch. -/
  sw : tokens 0 = ascii ['s', 'w'] → 1 ≤ atoi (tokens 1) → atoi (tokens 1) ≤ numSwitches →
    (tokens 2).headD 0 = 99 ∨ (tokens 2).headD 0 = 115 → Train.SwitchNum (atoi (tokens 1))
  /-- The name of a node is there, and is what was typed. -/
  node : tokens 0 = ascii ['g', 't'] ∨ tokens 0 = ascii ['r', 'e', 'g'] →
    (pVTrainNum (atoi (tokens 1))).isSome →
    (trackNameToNum names (tokens 2)).isSome → tokens 2 ≠ [] ∧ tokens 2 = words 2
  /-- So is the name of a sensor. -/
  mock : tokens 0 = ascii ['m', 'o', 'c', 'k'] → (tokens 1 ≠ [] ∧ tokens 1 = words 1) ∧
    ∃ sensor, trackNameToNum names (tokens 1) = some sensor ∧
      sensor.val / sensorsPerGroup < numSensorGroups

/-- A line is read without harm, and a command that it is taken for is proper. -/
def ReadsProperly (names : TrackNames) (words : Tokens) : Except Fault Parsed → Prop
  | .error _ => False
  | .ok (.command command) => command.Proper names words
  | .ok _ => True

instance (names : TrackNames) (words : Tokens) : DecidablePred (ReadsProperly names words)
  | .error _ => isFalse id
  | .ok (.command command) => inferInstanceAs (Decidable (command.Proper names words))
  | .ok .plan | .ok .doneplan | .ok (.rejected _) | .ok .invalid => isTrue trivial

section
variable {names : TrackNames} {tokens words : Tokens}

theorem isWord_iff {token : List Byte} {word : List Char} (h : word ≠ []) : isWord token word ↔
      token = ascii word :=
  strncmp_eq_zero (mt List.length_eq_zero_iff.mp h)

theorem interpret_sw (h : tokens 0 = ascii ['s', 'w']) : interpret names tokens =
    if atoi (tokens 1) < 1 ∨ atoi (tokens 1) > numSwitches then .ok (.rejected .switchNum)
    else if (tokens 2).headD 0 ≠ 99 ∧ (tokens 2).headD 0 ≠
      115 then .ok (.rejected .switchOrientation)
    else .ok (.command (.sw (atoi (tokens 1)) ((tokens 2).headD 0))) := by
  unfold interpret
  rw [h, if_neg (by decide), if_neg (by decide), if_neg (by decide), if_pos (by decide)]

theorem interpret_gt (h : tokens 0 = ascii ['g', 't']) : interpret names tokens =
    match pVTrainNum (atoi (tokens 1)), trackNameToNum names (tokens 2) with
    | none, _ => .ok (.rejected .trainNum)
    | some _, none => .ok (.rejected .destination)
    | some train, some dest => .ok (.command (.gt train dest (atoi (tokens 3)))) := by
  unfold interpret
  rw [h, if_neg (by decide), if_neg (by decide), if_neg (by decide), if_neg (by decide),
    if_neg (by decide), if_neg (by decide)]
  exact if_pos (by decide)

theorem interpret_reg (h : tokens 0 = ascii ['r', 'e', 'g']) : interpret names tokens =
    match pVTrainNum (atoi (tokens 1)), trackNameToNum names (tokens 2) with
    | none, _ => .ok (.rejected .trainNum)
    | some _, none => .ok (.rejected .node)
    | some train, some source => .ok (.command (.reg train source)) := by
  unfold interpret
  rw [h, if_neg (by decide), if_neg (by decide), if_neg (by decide), if_neg (by decide),
    if_neg (by decide), if_neg (by decide), if_neg (by decide), if_neg (by decide)]
  exact if_pos (by decide)

theorem interpret_mock (h : tokens 0 = ascii ['m', 'o', 'c', 'k']) : interpret names tokens =
    match trackNameToNum names (tokens 1) with
    | none => .error .offTrack
    | some sensor => .ok (.command (.mock sensor)) := by
  unfold interpret
  rw [h, if_neg (by decide), if_neg (by decide), if_neg (by decide), if_neg (by decide),
    if_neg (by decide), if_neg (by decide), if_neg (by decide), if_neg (by decide),
    if_neg (by decide)]
  exact if_pos (by decide)

/-- The other lines have neither a switch nor a node, so nothing that they say is used without a
check. -/
theorem readsProperly_other (h_sw : tokens 0 ≠ ascii ['s', 'w'])
    (h_gt : tokens 0 ≠ ascii ['g', 't']) (h_reg : tokens 0 ≠ ascii ['r', 'e', 'g'])
    (h_mock : tokens 0 ≠ ascii ['m', 'o', 'c', 'k']) :
    ReadsProperly names words (interpret names tokens) := by
  rw [ne_eq, ← isWord_iff (by decide)] at h_sw h_gt h_reg h_mock
  unfold interpret
  rw [if_neg h_sw, if_neg h_gt, if_neg h_reg, if_neg h_mock]
  dsimp only
  split -- `plan`
  · trivial
  split -- `doneplan`
  · trivial
  split -- `tr`
  · split
    · trivial
    · split <;> trivial
  split -- `rv`
  · split <;> trivial
  split -- `q`
  · trivial
  split -- `die`
  · trivial
  split -- `random`
  · split
    · trivial
    · split <;> trivial
  · trivial

/-- Where a node is looked up, it is the one that was typed just if its name was read as it was
typed. -/
theorem node_iff {dest : NodeNum} {i : Fin maxCommandTokens} (h_begins : words i <+: tokens i)
    (h_dest : trackNameToNum names (tokens i) = some dest) :
    words i ≠ [] ∧ names dest = words i ↔ tokens i ≠ [] ∧ tokens i = words i := by
  constructor
  · rintro ⟨h_word, h_name⟩
    -- nothing was typed where nothing is read
    have h_token : tokens i ≠ [] := fun h_nil => h_word (List.prefix_nil.mp (h_nil ▸ h_begins))
    exact ⟨h_token, (trackNameToNum_spec h_dest h_token).symm.trans h_name⟩
  · rintro ⟨h_token, h_typed⟩
    exact ⟨h_typed ▸ h_token, (trackNameToNum_spec h_dest h_token).trans h_typed⟩

/-- When what is read from a line is proper, in terms of its words. The four commands with an
argument that the shell does not check are looked at one by one: `sw`, `gt`, `reg` and `mock`. -/
theorem readsProperly_iff (h_begins : ∀ i, words i <+: tokens i) :
    ReadsProperly names words (interpret names tokens) ↔ SoundLine names tokens words := by
  by_cases h_sw : tokens 0 = ascii ['s', 'w']
  · -- of what a sound line has to be, the part about `sw` is left
    have h_line : SoundLine names tokens words ↔
        (1 ≤ atoi (tokens 1) → atoi (tokens 1) ≤ numSwitches →
        (tokens 2).headD 0 = 99 ∨ (tokens 2).headD 0 = 115 →
          Train.SwitchNum (atoi (tokens 1))) := by
      refine ⟨fun h => h.sw h_sw, fun h => ⟨fun _ => h, ?_, ?_⟩⟩ <;> rw [h_sw] <;> intro h_other
      · exact absurd h_other (by decide)
      · exact absurd h_other (by decide)
    rw [h_line, interpret_sw h_sw]
    -- the two rejections, and the command
    split
    · next h_num => exact iff_of_true trivial fun _ _ _ => by omega
    split
    · next h_orientation =>
        exact iff_of_true trivial fun _ _ h => (h.elim h_orientation.1 h_orientation.2).elim
    · next h_num h_orientation =>
      refine ⟨fun h _ _ _ => h, fun h => h (by omega) (by omega) ?_⟩
      by_contra h_not
      exact h_orientation (not_or.mp h_not)
  by_cases h_mock : tokens 0 = ascii ['m', 'o', 'c', 'k']
  · have h_line : SoundLine names tokens words ↔ (tokens 1 ≠ [] ∧ tokens 1 = words 1) ∧
        ∃ sensor, trackNameToNum names (tokens 1) = some sensor ∧
          sensor.val / sensorsPerGroup < numSensorGroups := by
      refine ⟨fun h => h.mock h_mock, fun h => ⟨?_, ?_, fun _ => h⟩⟩ <;> rw
        [h_mock] <;> intro h_other
      · exact absurd h_other (by decide)
      · exact absurd h_other (by decide)
    rw [h_line, interpret_mock h_mock]
    cases h_name : trackNameToNum names (tokens 1) with
    -- the number of the node is not looked at before its name is printed
    | none => exact iff_of_false id fun h => by obtain ⟨-, _, ⟨⟩, -⟩ := h
    | some sensor =>
      -- the sensor is the one that was typed, and its group is one of the groups
      rw [← node_iff (h_begins 1) h_name]
      constructor
      · rintro ⟨h_typed, h_group⟩
        exact ⟨h_typed, sensor, rfl, h_group⟩
      · rintro ⟨h_typed, _, ⟨⟩, h_group⟩
        exact ⟨h_typed, h_group⟩
  by_cases h_node : tokens 0 = ascii ['g', 't'] ∨ tokens 0 = ascii ['r', 'e', 'g']
  · have h_line : SoundLine names tokens words ↔ ((pVTrainNum (atoi (tokens 1))).isSome →
        (trackNameToNum names (tokens 2)).isSome → tokens 2 ≠ [] ∧ tokens 2 = words 2) :=
      ⟨fun h => h.node h_node, fun h =>
        ⟨fun h_other => absurd h_other h_sw, fun _ => h, fun h_other => absurd h_other h_mock⟩⟩
    rw [h_line]
    -- both commands look up the train, and then the node
    rcases h_node with h_gt | h_reg
    · rw [interpret_gt h_gt]
      cases pVTrainNum (atoi (tokens 1)) with
      | none => exact iff_of_true trivial nofun
      | some train =>
        cases h_name : trackNameToNum names (tokens 2) with
        | none => exact iff_of_true trivial fun _ => nofun
        | some dest =>
          exact (node_iff (h_begins 2) h_name).trans ⟨fun h _ _ => h, fun h => h rfl rfl⟩
    · rw [interpret_reg h_reg]
      cases pVTrainNum (atoi (tokens 1)) with
      | none => exact iff_of_true trivial nofun
      | some train =>
        cases h_name : trackNameToNum names (tokens 2) with
        | none => exact iff_of_true trivial fun _ => nofun
        | some dest =>
          exact (node_iff (h_begins 2) h_name).trans ⟨fun h _ _ => h, fun h => h rfl rfl⟩
  · -- no other line is asked for anything
    obtain ⟨h_gt, h_reg⟩ := not_or.mp h_node
    refine iff_of_true (readsProperly_other h_sw h_gt h_reg h_mock) ⟨?_, ?_, ?_⟩
    · exact fun h => absurd h h_sw
    · exact fun h => absurd h h_node
    · exact fun h => absurd h h_mock

end

/-! ### Keys -/

namespace Editor

variable {e e' : Editor} {c : Byte} {tokens : Tokens}

/-- A line is entered with the key for it, and its tokens are the fields of the text. -/
theorem of_entered (h : e.handleNewChar c = .ok (e', some tokens)) :
    c = enter ∧ e.inputLength ≠ terminalMaxInputSize ∧
    0 ∈ e.input ∧ e.text.count space < maxCommandTokens ∧ tokens = fields e.text := by
  rw [handleNewChar] at h
  -- the branches of `handle_new_char`: only the one for ENTER gives tokens
  split at h
  · cases h
  · next h_room =>
    split at h
    · cases h
    · split at h
      · next h_enter =>
        split at h
        · next h_ok =>
          obtain ⟨-, h_some⟩ := Prod.mk.inj (Except.ok.inj h)
          obtain rfl := Option.some.inj h_some
          exact ⟨h_enter, h_room, tokenizer_ok h_ok⟩
        · cases h
      · cases h

/-- Only in the tokenizer can a key do harm. -/
theorem of_fault {f : Fault} (h : e.handleNewChar c = .error f) :
    c = enter ∧ e.inputLength ≠ terminalMaxInputSize ∧
    ¬(0 ∈ e.input ∧ e.text.count space < maxCommandTokens) := by
  rw [handleNewChar] at h
  -- the key is dropped if the array is full, and deletes, enters or adds a character if it is not
  split at h
  · cases h
  · next h_room =>
    split at h
    · cases h
    · split at h
      · next h_enter =>
        split at h
        · cases h
        · next h_error =>
          refine ⟨h_enter, h_room, fun h_fine => ?_⟩
          obtain ⟨h_nul, h_count⟩ := h_fine
          -- a line with an end, and a token for each field, is read without harm
          obtain ⟨rest, h_input⟩ := exists_append_of_mem h_nul
          obtain ⟨input', h_ok⟩ := tokenizer_spec rest (nul_not_mem_cString e.input) h_count
          rw [← h_input, h_error] at h_ok
          cases h_ok
      · cases h

/-- The key for a line enters one, unless the array is full. -/
theorem ne_enter_of_silent (h : e.handleNewChar c = .ok (e', none))
    (h_room : e.inputLength ≠ terminalMaxInputSize) :
    c ≠ enter := by
  rintro rfl
  rw [handleNewChar, dif_neg h_room, if_neg (by decide), if_pos rfl] at h
  -- the tokenizer fails, or gives tokens
  split at h
  · cases h
  · cases h

end Editor

/-- What comes of a key is no line, or a line that is read properly. -/
def EntersProperly (names : TrackNames) (words : Tokens) :
    Except Fault (Editor × Option Tokens) → Prop
  | .error _ => False
  | .ok (_, none) => True
  | .ok (_, some tokens) => ReadsProperly names words (interpret names tokens)

instance (names : TrackNames) (words : Tokens) : DecidablePred (EntersProperly names words)
  | .error _ => isFalse id
  | .ok (_, none) => isTrue trivial
  | .ok (_, some tokens) =>
    inferInstanceAs (Decidable (ReadsProperly names words (interpret names tokens)))

/-- The key does no harm, and makes no command that is not proper. -/
def Harmless (names : TrackNames) (s : Shell) (c : Byte) : Prop :=
  EntersProperly names s.editor.words (s.editor.handleNewChar c)

instance (names : TrackNames) (s : Shell) (c : Byte) : Decidable (Harmless names s c) :=
  inferInstanceAs (Decidable (EntersProperly names s.editor.words (s.editor.handleNewChar c)))

/-- A line is entered only when it has an end, a token for each field, and is read as it should
be. -/
def Sound (names : TrackNames) (s : Shell) (c : Byte) : Prop :=
  c = enter → s.editor.inputLength ≠ terminalMaxInputSize →
    (0 ∈ s.editor.input ∧ s.editor.text.count space < maxCommandTokens) ∧
      SoundLine names (fields s.editor.text) s.editor.words

theorem harmless_iff (names : TrackNames) (s : Shell) (c : Byte) : Harmless names s c ↔
      Sound names s c := by
  unfold Harmless
  -- the key does harm, or enters nothing, or enters these tokens
  match h_key : s.editor.handleNewChar c with
  | .error f =>
    obtain ⟨h_enter, h_room, h_not⟩ := Editor.of_fault h_key
    exact iff_of_false id fun h => h_not (h h_enter h_room).1
  | .ok (editor, none) =>
    exact iff_of_true trivial fun h_enter h_room =>
      absurd h_enter (Editor.ne_enter_of_silent h_key h_room)
  | .ok (editor, some tokens) =>
    obtain ⟨h_enter, h_room, h_nul, h_count, rfl⟩ := Editor.of_entered h_key
    rw [EntersProperly, readsProperly_iff s.editor.words_begin]
    exact ⟨fun h _ _ => ⟨⟨h_nul, h_count⟩, h⟩, fun h => (h h_enter h_room).2⟩

instance (names : TrackNames) (s : Shell) (c : Byte) : Decidable (Sound names s c) :=
  decidable_of_iff _ (harmless_iff names s c)

/-! ### Runs -/

/-- The key enters a line that is taken for this command. -/
def Takes (names : TrackNames) (s : Shell) (c : Byte) (command : Command) : Prop :=
  ∃ editor tokens, s.editor.handleNewChar c = .ok (editor, some tokens) ∧
    interpret names tokens = .ok (.command command)

/-- The key enters the end of a plan. -/
def EndsPlan (names : TrackNames) (s : Shell) (c : Byte) : Prop :=
  s.isPlanningMode = true ∧
    ∃ editor tokens, s.editor.handleNewChar c = .ok (editor, some tokens) ∧
      interpret names tokens = .ok .doneplan

/-- Among the keys is a line that is taken for this command, and the command is proper for what was
typed. -/
def Entered (names : TrackNames) (keys : List Byte) (command : Command) : Prop :=
  ∃ before s, before ++ [enter] <+: keys ∧ (shellSystem names).Reaches (Sound names) before s ∧
    s.Takes names enter command ∧ command.Proper names s.editor.words

/-- The numbers in a request are such as the servers index their tables by, or send to the track.
The trains and the nodes are in range by their types. -/
def Request.InRange : Request → Prop
  | .speed _ data => 0 ≤ data ∧ data ≤ 15
  | .switch num data => Train.SwitchNum num ∧ (data = 0 ∨ data = 1)
  | .navigation _ _ offset => (Int32.ofInt offset).toInt = offset
  | .registerLocation _ _ => True
  | .sensorUpdate group reading => group < numSensorGroups ∧ 0 < reading ∧ reading ≤ 0x80
  | .random type _ => 1 ≤ type ∧ type ≤ 3

/-- The numbers that `interpret` checks, and the offset, for which `atoi` has 32 bits. -/
def Command.Ranged : Command → Prop
  | .tr _ speed => 0 ≤ speed ∧ speed ≤ 14
  | .gt _ _ offset => (Int32.ofInt offset).toInt = offset
  | .random type _ => 1 ≤ type ∧ type ≤ 3
  | .sw _ _ | .rv _ | .q | .die | .reg _ _ | .mock _ => True

theorem bmod_atoi (str : List Byte) : (atoi str).bmod (2 ^ 32) = atoi str := by
  have h_from : ∀ digits : List Byte, (atoiFrom 0 digits).bmod (2 ^ 32) = atoiFrom 0 digits := by
    -- each digit is taken in with 32 bits, so only the last one matters
    intro digits
    induction digits using List.reverseRecOn with
    | nil => decide
    | append_singleton digits c _ =>
      rw [atoiFrom, List.foldl_append]
      exact Int.bmod_bmod
  cases str with
  | nil => decide
  | cons c digits =>
    rw [atoi]
    split
    · exact Int.bmod_bmod
    · exact h_from _

theorem toInt_atoi (str : List Byte) : (Int32.ofInt (atoi str)).toInt = atoi str := by
  rw [Int32.toInt_ofInt]
  exact bmod_atoi str

/-- A command is in range, if the line is one. -/
def ReadsRanged : Except Fault Parsed → Prop
  | .ok (.command command) => command.Ranged
  | _ => True

/-- Whatever the line says, the numbers of its command are in range: the shell checks the speed and
the kind of random walk, and the offset is what `my_atoi` computes in 32 bits. -/
theorem readsRanged (names : TrackNames) (tokens : Tokens) :
    ReadsRanged (interpret names tokens) := by
  by_cases h_gt : isWord (tokens 0) ['g', 't']
  · -- the offset of `gt` is what `my_atoi` makes of a field, in 32 bits
    rw [interpret_gt ((isWord_iff (by decide)).mp h_gt)]
    split
    · trivial
    · trivial
    · exact toInt_atoi _
  by_cases h_reg : isWord (tokens 0) ['r', 'e', 'g']
  · rw [interpret_reg ((isWord_iff (by decide)).mp h_reg)]
    split <;> trivial
  by_cases h_sw : isWord (tokens 0) ['s', 'w']
  · rw [interpret_sw ((isWord_iff (by decide)).mp h_sw)]
    split
    · trivial
    · split <;> trivial
  by_cases h_mock : isWord (tokens 0) ['m', 'o', 'c', 'k']
  · rw [interpret_mock ((isWord_iff (by decide)).mp h_mock)]
    split <;> trivial
  unfold interpret
  rw [if_neg h_sw, if_neg h_gt, if_neg h_reg, if_neg h_mock]
  dsimp only
  split -- `plan`
  · trivial
  split -- `doneplan`
  · trivial
  split -- `tr`
  · split
    · trivial
    · next h_speed =>
      split
      · trivial
      · exact ⟨by omega, by omega⟩
  split -- `rv`
  · split <;> trivial
  split -- `q`
  · trivial
  split -- `die`
  · trivial
  split -- `random`
  · split
    · trivial
    · next h_type =>
      split
      · trivial
      · exact ⟨by omega, by omega⟩
  · trivial

theorem interpret_ranged {names : TrackNames} {tokens : Tokens} {command : Command}
    (h : interpret names tokens = .ok (.command command)) : command.Ranged := by
  have h_ranged := readsRanged names tokens
  rwa [h] at h_ranged

section
variable {names : TrackNames} {words : Tokens} {command : Command} {r : Request} {keys : List Byte}
  {s s' : Shell} {c : Byte} {p : Planner}

/-- A proper command makes a request that is in range: the switch is one that there is, the sensor
has a group and a bit, and the other numbers are those that the shell has checked. -/
theorem Command.Proper.inRange (h : command.Proper names words) (h_ranged : command.Ranged)
    (h_request : command.request? = some r) : r.InRange := by
  cases command with
  | sw num orientation =>
    obtain rfl := Option.some.inj h_request
    refine ⟨h, ?_⟩
    split
    · exact .inr rfl
    · exact .inl rfl
  | mock sensor =>
    rw [Command.request?, if_pos h.2] at h_request
    obtain rfl := Option.some.inj h_request
    refine ⟨h.2, ?_⟩
    -- a group has eight sensors, and the byte one of its bits
    have h_bits : ∀ bit < sensorsPerGroup, 0 < 0x80 >>> bit ∧ 0x80 >>> bit ≤ 0x80 := by decide
    exact h_bits _ (Nat.mod_lt _ (Nat.succ_pos _))
  | q | die => cases h_request
  | tr train speed =>
    obtain rfl := Option.some.inj h_request
    exact ⟨h_ranged.1, h_ranged.2.trans (by decide)⟩
  -- 15 turns the train around
  | rv train =>
    obtain rfl := Option.some.inj h_request
    exact ⟨by decide, by decide⟩
  | gt | random =>
    obtain rfl := Option.some.inj h_request
    exact h_ranged
  | reg =>
    obtain rfl := Option.some.inj h_request
    trivial

/-- A command that was entered asks for something in range. -/
theorem Entered.inRange (h : Entered names keys command) (h_request : command.request? = some r) :
    r.InRange := by
  obtain ⟨_, _, -, -, ⟨_, _, -, h_parsed⟩, h_proper⟩ := h
  exact h_proper.inRange (interpret_ranged h_parsed) h_request

theorem Entered.more (h : Entered names keys command) (c : Byte) :
    Entered names (keys ++ [c]) command := by
  obtain ⟨before, s, h_before, h_rest⟩ := h
  exact ⟨before, s, h_before.trans (List.prefix_append _ _), h_rest⟩

/-- What the shell has sent, and what waits in its ring, comes from the lines: for each command
there is a line that was entered, was taken for this command, and names its node. -/
structure Accounted (names : TrackNames) (keys : List Byte) (s : Shell) (p : Planner) : Prop where
  refines : Refines s p
  entered : ∀ command ∈ p.executed ++ p.pending.items, Entered names keys command

theorem accounted_start : Accounted names [] .start (.start (some maxPlannedCommands)) where
  refines := refines_start
  entered _ h := absurd h List.not_mem_nil

/-- The commands that are known after a line that was read properly. -/
theorem Accounted.entered_after (h : Accounted names keys s p)
    (h_run : (shellSystem names).Reaches (Sound names) keys s) (h_sound : Sound names s c)
    {editor : Editor} {tokens : Tokens} {parsed : Parsed}
    (h_key : s.editor.handleNewChar c = .ok (editor, some tokens))
    (h_parsed : interpret names tokens = .ok parsed) :
    ∀ command ∈ (p.after parsed).executed ++ (p.after parsed).pending.items,
      Entered names (keys ++ [c]) command := by
  intro command h_mem
  rcases Planner.mem_after h_mem with h_mem | rfl
  · exact (h.entered command h_mem).more c
  · -- the command of this line
    obtain ⟨rfl, -⟩ := Editor.of_entered h_key
    have h_harmless := (harmless_iff names s enter).mpr h_sound
    rw [Harmless, h_key, EntersProperly, h_parsed] at h_harmless
    exact ⟨keys, s, List.prefix_rfl, h_run, ⟨editor, tokens, h_key, h_parsed⟩, h_harmless⟩

theorem Accounted.step (h : Accounted names keys s p)
    (h_run : (shellSystem names).Reaches (Sound names) keys s) (h_sound : Sound names s c)
    (h_step : s.getc names c = .ok s') : ∃ p', Accounted names (keys ++ [c]) s' p' := by
  rw [getc] at h_step
  obtain ⟨⟨editor, entered⟩, h_key, h_step⟩ := of_bind_ok h_step
  cases entered with
  -- only the editor has changed
  | none =>
    obtain rfl := Except.ok.inj h_step
    exact ⟨p, h.refines.withEditor editor, fun command h_mem => (h.entered command h_mem).more c⟩
  | some tokens =>
    obtain ⟨parsed, h_parsed, h_answer⟩ := of_bind_ok h_step
    exact ⟨p.after parsed, (h.refines.withEditor editor).answer h_answer,
      h.entered_after h_run h_sound h_key h_parsed⟩

theorem exists_accounted (h : (shellSystem names).Reaches (Sound names) keys s) :
    ∃ p, Accounted names keys s p := by
  induction h with
  | start h_init =>
    obtain rfl := h_init
    exact ⟨_, accounted_start⟩
  | next h_run h_sound h_step ih =>
    obtain ⟨p, h_p⟩ := ih
    exact h_p.step h_run h_sound h_step

theorem Accounted.request (h : Accounted names keys s p) (h_r : r ∈ s.requests) :
    ∃ command, Entered names keys command ∧ command.request? = some r := by
  have h_some : some r ∈ p.executed.map Command.request? :=
    h.refines.requests ▸ List.mem_map_of_mem h_r
  obtain ⟨command, h_mem, h_request⟩ := List.mem_map.mp h_some
  exact ⟨command, h.entered command (List.mem_append_left _ h_mem), h_request⟩

/-- Only what is meant to stop the shell does. A sound line is harmless to read, so the shell stops
at a command that it executes, and of the proper ones `q` and `die` are the two that stop it. -/
theorem Accounted.stops (h : Accounted names keys s p)
    (h_run : (shellSystem names).Reaches (Sound names) keys s) (h_sound : Sound names s c)
    {f : Fault} (h_error : s.getc names c = .error f) : f = .shutdown ∨ f = .die := by
  have h_harmless := (harmless_iff names s c).mpr h_sound
  rw [Harmless] at h_harmless
  rw [getc] at h_error
  rcases of_bind_error h_error with h_key | ⟨⟨editor, entered⟩, h_key, h_error⟩
  · -- the tokenizer stays inside its arrays
    rw [h_key] at h_harmless
    exact h_harmless.elim
  · cases entered with
    | none => cases h_error
    | some tokens =>
      rcases of_bind_error h_error with h_parsed | ⟨parsed, h_parsed, h_answer⟩
      · -- the line names nothing that there is not
        rw [h_key, EntersProperly, h_parsed] at h_harmless
        exact h_harmless.elim
      · obtain ⟨before, command, after, h_executed, s₁, h_execute, -⟩ :=
          (h.refines.withEditor editor).answer_error h_answer
        have h_mem : command ∈ (p.after parsed).executed ++ (p.after parsed).pending.items := by
          rw [h_executed]
          exact List.mem_append_left _ (List.mem_append_right _ List.mem_cons_self)
        -- the command that stops the shell was typed, now or before
        obtain ⟨_, _, -, -, -, h_proper⟩ :=
          h.entered_after h_run h_sound h_key h_parsed command h_mem
        -- a sensor that is proper lies inside the readings
        rcases execute_error h_execute with rfl | rfl | ⟨sensor, rfl, h_group⟩
        · exact .inl rfl
        · exact .inr rfl
        · exact absurd h_proper.2 h_group

/-- A line that is neither a command nor the end of a plan sends nothing. -/
theorem Accounted.quiet (h : Accounted names keys s p) (h_step : s.getc names c = .ok s')
    (h_command : ∀ command, ¬s.Takes names c command) (h_plan : ¬s.EndsPlan names c) :
    s'.requests = s.requests := by
  rw [getc] at h_step
  obtain ⟨⟨editor, entered⟩, h_key, h_step⟩ := of_bind_ok h_step
  cases entered with
  | none =>
    obtain rfl := Except.ok.inj h_step
    rfl
  | some tokens =>
    obtain ⟨parsed, h_parsed, h_answer⟩ := of_bind_ok h_step
    -- the same commands have been executed, so the same requests sent
    have h_same : (p.after parsed).executed = p.executed := by
      cases parsed with
      | plan | rejected _ | invalid => rfl
      | doneplan =>
        have h_mode : ¬p.isPlanningMode = true := by
          rw [← h.refines.mode]
          exact fun h_mode => h_plan ⟨h_mode, editor, tokens, h_key, h_parsed⟩
        rw [Planner.after, if_neg h_mode]
      | command command => exact (h_command command ⟨editor, tokens, h_key, h_parsed⟩).elim
    have h_requests := ((h.refines.withEditor editor).answer h_answer).requests
    rw [h_same, ← h.refines.requests] at h_requests
    exact List.map_injective_iff.mpr (Option.some_injective _) h_requests

end

end Shell
end PollingExpress
