import PollingExpress.Framework.Fallible
import PollingExpress.Framework.Fifo
import PollingExpress.Shell.Commands

/-!
# Plans

The loop of the shell a line at a time. A `Planner` is what the modes and the ring are for: it knows
which commands wait for the end of the plan, and which have been executed. With the capacity of the
ring, the shell refines it (`Refines.answer`).

A key does nothing that a line does not do (`exists_lines`).
-/

namespace PollingExpress
namespace Shell

/-! ### The requests -/

/-- What becomes of a command, if it does not stop the shell. -/
def Command.request? : Command → Option Request
  | .tr train speed => some (.speed train speed)
  | .sw num orientation => some (.switch num (if orientation = 99 then 1 else 0))
  | .rv train => some (.speed train 15)
  | .gt train dest offset => some (.navigation train dest offset)
  | .reg train source => some (.registerLocation train source)
  | .mock sensor =>
    if sensor.val / sensorsPerGroup < numSensorGroups then
      some (.sensorUpdate (sensor.val / sensorsPerGroup) (0x80 >>> (sensor.val % sensorsPerGroup)))
    else none
  | .random type train => some (.random type train)
  | .q | .die => none

variable {s s' : Shell} {command : Command} {parsed : Parsed} {f : Fault}

theorem execute_ok (h : s.execute command = .ok s') :
    ∃ r, command.request? = some r ∧ s' = s.request r := by
  match command with
  | .tr _ _ | .sw _ _ | .rv _ | .gt _ _ _ | .reg _ _ | .random _ _ =>
    exact ⟨_, rfl, (Except.ok.inj h).symm⟩
  | .q | .die => cases h
  | .mock sensor =>
    rw [execute] at h
    split at h
    · next h_group => exact ⟨_, if_pos h_group, (Except.ok.inj h).symm⟩
    · cases h

/-- Where a command stops the shell. -/
theorem execute_error (h : s.execute command = .error f) : f = .shutdown ∨ f = .die ∨
    ∃ sensor, command = .mock sensor ∧ ¬sensor.val / sensorsPerGroup < numSensorGroups := by
  match command with
  | .tr _ _ | .sw _ _ | .rv _ | .gt _ _ _ | .reg _ _ | .random _ _ => cases h
  | .q => exact .inl (Except.error.inj h).symm
  | .die => exact .inr (.inl (Except.error.inj h).symm)
  | .mock sensor =>
    rw [execute] at h
    split at h
    · cases h
    · next h_group => exact .inr (.inr ⟨sensor, rfl, h_group⟩)

/-- The loop over the ring: each command is executed, in the order of the ring. -/
theorem flush_ok {items : List Command} (h : s.commandCb.Valid)
    (h_items : s.commandCb.cbToArray = items) (h_ok : s.flush items.length = .ok s') :
    ∃ commandCb sent, s' = { s with commandCb, requests := s.requests ++ sent } ∧
      commandCb.Valid ∧ commandCb.capacity = s.commandCb.capacity ∧ commandCb.cbToArray = [] ∧
      sent.map some = items.map Command.request? := by
  induction items generalizing s with
  | nil =>
    obtain rfl := Except.ok.inj h_ok
    refine ⟨s.commandCb, [], ?_, h, rfl, h_items, rfl⟩
    rw [List.append_nil]
  | cons command items ih =>
    -- the oldest command is taken out and executed; the loop goes on with the others
    obtain ⟨commandCb, h_pop, h_valid, h_capacity, h_rest⟩ :=
      CircularBuffer.cbPopFront_cons h h_items
    rw [List.length_cons, flush, h_pop] at h_ok
    obtain ⟨s₁, h_execute, h_flush⟩ := of_bind_ok h_ok
    obtain ⟨r, h_request, rfl⟩ := execute_ok h_execute
    obtain ⟨commandCb', sent, rfl, h_valid', h_capacity', h_empty, h_sent⟩ :=
      ih h_valid h_rest h_flush
    refine ⟨commandCb', r :: sent, ?_, h_valid', h_capacity'.trans h_capacity, h_empty, ?_⟩
    · change Shell.mk _ _ _ (s.requests ++ [r] ++ sent) = _
      rw [List.append_assoc]
      rfl
    · rw [List.map_cons, List.map_cons, h_request, h_sent]

/-- Where the loop stops, the commands before that one have been executed. -/
theorem flush_error {items : List Command} (h : s.commandCb.Valid)
    (h_items : s.commandCb.cbToArray = items) (h_error : s.flush items.length = .error f) :
    ∃ before command after, items = before ++ command :: after ∧
      ∃ s₁ : Shell, s₁.execute command = .error f ∧
        s₁.requests.map some = s.requests.map some ++ before.map Command.request? := by
  induction items generalizing s with
  | nil => cases h_error
  | cons command items ih =>
    obtain ⟨commandCb, h_pop, h_valid, -, h_rest⟩ := CircularBuffer.cbPopFront_cons h h_items
    rw [List.length_cons, flush, h_pop] at h_error
    -- either this command stops the loop, or it is executed and a later one does
    rcases of_bind_error h_error with h_execute | ⟨s₁, h_execute, h_flush⟩
    · exact ⟨[], command, items, rfl, _, h_execute, (List.append_nil _).symm⟩
    · obtain ⟨r, h_request, rfl⟩ := execute_ok h_execute
      obtain ⟨before, other, after, rfl, s₂, h_fails, h_requests⟩ := ih h_valid h_rest h_flush
      refine ⟨command :: before, other, after, rfl, s₂, h_fails, ?_⟩
      rw [h_requests, List.map_cons, h_request]
      change (s.requests ++ [r]).map some ++ _ = _
      rw [List.map_append, List.append_assoc]
      rfl

/-! ### The planner -/

structure Planner where
  isPlanningMode : Bool
  /-- The commands that wait for the end of the plan. -/
  pending : Fifo Command
  executed : List Command
  /-- Nothing waits outside a plan. -/
  idle : isPlanningMode = false → pending.items = []

namespace Planner

/-- `capacity` is how many commands a plan can have. -/
def start (capacity : Option ℕ) : Planner where
  isPlanningMode := false
  pending := .empty capacity
  executed := []
  idle _ := rfl

/-- What a line changes. -/
def after (p : Planner) : Parsed → Planner
  | .plan => { p with isPlanningMode := true, idle := nofun }
  | .doneplan =>
    if p.isPlanningMode then {
      isPlanningMode := false
      pending := p.pending.clear
      executed := p.executed ++ p.pending.items
      idle := fun _ => rfl }
    else p
  | .command command =>
    if h : p.isPlanningMode then {
      p with
      pending := p.pending.push command
      idle := fun h_not => absurd (h.symm.trans h_not) nofun }
    else { p with executed := p.executed ++ [command] }
  | .rejected _ | .invalid => p

variable {p : Planner} {parsed : Parsed}

@[simp] theorem capacity_after (p : Planner) (parsed : Parsed) :
    (p.after parsed).pending.capacity = p.pending.capacity := by
  cases parsed with
  | plan | rejected _ | invalid => rfl
  | doneplan =>
    rw [after]
    split <;> rfl
  | command command =>
    rw [after]
    split
    · exact Fifo.capacity_push _ _
    · rfl

theorem after_doneplan (h : p.isPlanningMode = true) :
    (p.after .doneplan).pending = p.pending.clear ∧
    (p.after .doneplan).executed = p.executed ++ p.pending.items ∧
      (p.after .doneplan).isPlanningMode = false := by
  rw [after, if_pos h]
  exact ⟨rfl, rfl, rfl⟩

theorem after_planned (command : Command) (h : p.isPlanningMode = true) :
    (p.after (.command command)).pending = p.pending.push command ∧
      (p.after (.command command)).executed = p.executed ∧
      (p.after (.command command)).isPlanningMode = true := by
  rw [after, dif_pos h]
  exact ⟨rfl, rfl, h⟩

theorem after_now (command : Command) (h : p.isPlanningMode = false) :
    (p.after (.command command)).pending = p.pending ∧
      (p.after (.command command)).executed = p.executed ++ [command] ∧
      (p.after (.command command)).isPlanningMode = false := by
  rw [after, dif_neg (by rw [h]; nofun)]
  exact ⟨rfl, rfl, h⟩

/-- The commands that the planner knows come from the lines. It executes or keeps nothing that was
not typed. -/
theorem mem_after {command : Command}
    (h : command ∈ (p.after parsed).executed ++ (p.after parsed).pending.items) :
    command ∈ p.executed ++ p.pending.items ∨ parsed = .command command := by
  cases parsed with
  | plan | rejected _ | invalid => exact .inl h
  -- what waits is executed, or nothing happens
  | doneplan =>
    rw [after] at h
    split at h
    · exact .inl (by simpa using h)
    · exact .inl h
  | command other =>
    cases h_mode : p.isPlanningMode with
    | true =>
      obtain ⟨h_pending, h_executed, -⟩ := after_planned other h_mode
      rw [h_pending, h_executed] at h
      rcases List.mem_append.mp h with h | h
      · exact .inl (List.mem_append_left _ h)
      · rcases Fifo.mem_push h with h | rfl
        · exact .inl (List.mem_append_right _ h)
        · exact .inr rfl
    | false =>
      obtain ⟨h_pending, h_executed, -⟩ := after_now other h_mode
      rw [h_pending, h_executed] at h
      rcases List.mem_append.mp h with h | h
      · rcases List.mem_append.mp h with h | h
        · exact .inl (List.mem_append_left _ h)
        · exact .inr (congrArg _ (List.mem_singleton.mp h).symm)
      · exact .inl (List.mem_append_right _ h)

end Planner

/-! ### Refinement -/

/-- The shell has in its ring what waits, and has sent what was executed, in the same order; only
commands that send something leave a request. -/
structure Refines (s : Shell) (p : Planner) : Prop where
  valid : s.commandCb.Valid
  capacity : s.commandCb.capacity = maxPlannedCommands
  bound : p.pending.capacity = some maxPlannedCommands
  pending : s.commandCb.cbToArray = p.pending.items
  mode : s.isPlanningMode = p.isPlanningMode
  requests : s.requests.map some = p.executed.map Command.request?

theorem refines_start : Refines .start (.start (some maxPlannedCommands)) where
  valid := CircularBuffer.valid_cbInit _ (Nat.succ_pos _)
  capacity := rfl
  bound := rfl
  pending := rfl
  mode := rfl
  requests := rfl

theorem Refines.withEditor {p : Planner} (h : Refines s p) (editor : Editor) :
    Refines { s with editor } p :=
  ⟨h.valid, h.capacity, h.bound, h.pending, h.mode, h.requests⟩

/-- The push onto the ring. A full ring stays as it is, and so does a full `Fifo`. -/
theorem push_ring {cb : CircularBuffer Command} {q : Fifo Command} (h : cb.Valid)
    (h_capacity : q.capacity = some cb.capacity) (h_items : cb.cbToArray = q.items)
    (command : Command) : ∃ cb', (cb.cbPushBack command false).getD cb = cb' ∧
      cb'.Valid ∧ cb'.capacity = cb.capacity ∧ cb'.cbToArray = (q.push command).items := by
  have h_count : q.count = cb.count := by
    rw [Fifo.count, ← h_items, CircularBuffer.length_cbToArray]
  by_cases h_full : cb.count = cb.capacity
  · -- `CB_FULL`, which nobody looks at
    refine ⟨cb, ?_, h, rfl, ?_⟩
    · rw [CircularBuffer.cbPushBack, if_pos h_full]
      rfl
    · rw [Fifo.push, if_pos (by rw [h_capacity, h_count, h_full]), h_items]
  · obtain ⟨cb', h_push, h_valid, h_cap, h_array⟩ :=
      CircularBuffer.cbPushBack_spec h (Nat.lt_of_le_of_ne h.count_le h_full) command false
    refine ⟨cb', by rw [h_push]; rfl, h_valid, h_cap, ?_⟩
    rw [h_array, Fifo.push,
      if_neg (by rw [h_capacity, h_count]; exact fun h_eq => h_full (Option.some.inj h_eq).symm),
      h_items]

/-- The end of a line outside a plan: what is in the ring is executed. -/
theorem finish_ok (h : s.commandCb.Valid) (h_mode : s.isPlanningMode = false)
    (h_ok : s.finish = .ok s') :
    ∃ commandCb sent,
      s' = { s with editor := s.editor.clear, commandCb, requests := s.requests ++ sent } ∧
      commandCb.Valid ∧ commandCb.capacity = s.commandCb.capacity ∧ commandCb.cbToArray = [] ∧
      sent.map some = s.commandCb.cbToArray.map Command.request? := by
  rw [finish, h_mode] at h_ok
  obtain ⟨s₁, h_flush, h_ok⟩ := of_bind_ok h_ok
  obtain rfl := Except.ok.inj h_ok
  change s.flush s.commandCb.count = _ at h_flush
  rw [← CircularBuffer.length_cbToArray] at h_flush
  obtain ⟨commandCb, sent, rfl, h_rest⟩ := flush_ok h rfl h_flush
  exact ⟨commandCb, sent, rfl, h_rest⟩

theorem finish_planning (h_mode : s.isPlanningMode = true) :
    s.finish = .ok { s with editor := s.editor.clear } := by
  rw [finish, if_pos h_mode]
  rfl

variable {p : Planner}

theorem Refines.room_of_idle (h : Refines s p) (h_mode : p.isPlanningMode = false) :
    p.pending.Room 1 := by
  intro c h_c
  rw [Fifo.count, p.idle h_mode]
  obtain rfl := Option.some.inj (h.bound.symm.trans h_c)
  exact Nat.succ_le_succ (Nat.zero_le _)

/-- The ring is empty outside a plan, so a line that is no command sends nothing. -/
theorem Refines.finish (h : Refines s p) (h_ok : s.finish = .ok s') : Refines s' p := by
  cases h_mode : s.isPlanningMode with
  | true =>
    rw [finish_planning h_mode] at h_ok
    obtain rfl := Except.ok.inj h_ok
    exact h.withEditor _
  | false =>
    obtain ⟨commandCb, sent, rfl, h_valid, h_capacity, h_empty, h_sent⟩ :=
      finish_ok h.valid h_mode h_ok
    have h_idle := p.idle (h.mode.symm.trans h_mode)
    rw [h.pending, h_idle] at h_sent
    obtain rfl := List.map_eq_nil_iff.mp h_sent
    refine ⟨h_valid, h_capacity.trans h.capacity, h.bound, h_empty.trans h_idle.symm, h.mode, ?_⟩
    rw [List.append_nil]
    exact h.requests

/-- `doneplan`. The shell pops its ring from the front and executes what it pops, as the planner
does with what is pending. -/
theorem Refines.answer_doneplan (h : Refines s p) (h_ok : s.answer .doneplan = .ok s') :
    Refines s' (p.after .doneplan) := by
  have h_bound := (p.capacity_after .doneplan).trans h.bound
  change (if s.isPlanningMode then _ else _) = _ at h_ok
  cases h_mode : s.isPlanningMode with
  | true =>
    -- planning is over before the ring is looked at, so it is emptied
    rw [if_pos h_mode] at h_ok
    obtain ⟨commandCb, sent, rfl, h_valid, h_capacity, h_empty, h_sent⟩ :=
      finish_ok (by exact h.valid) rfl h_ok
    obtain ⟨h_after, h_executed, h_done⟩ := Planner.after_doneplan (h.mode.symm.trans h_mode)
    refine ⟨h_valid, h_capacity.trans h.capacity, h_bound, ?_, h_done.symm, ?_⟩
    · rw [h_after]
      exact h_empty
    · rw [h_executed, List.map_append, List.map_append, h.requests, h_sent, ← h.pending]
  | false =>
    -- "Not in planning mode"
    rw [if_neg (by rw [h_mode]; nofun)] at h_ok
    obtain rfl := Except.ok.inj h_ok
    rw [Planner.after, if_neg (by rw [← h.mode, h_mode]; nofun)]
    exact h

/-- A command. It is pushed to the ring in either mode. In planning mode it stays there; if not, the
ring held nothing else, and the command is executed at once. -/
theorem Refines.answer_command (h : Refines s p) (h_ok : s.answer (.command command) = .ok s') :
    Refines s' (p.after (.command command)) := by
  have h_bound := (p.capacity_after (.command command)).trans h.bound
  obtain ⟨cb, h_cb, h_valid, h_capacity, h_items⟩ :=
    push_ring h.valid (h.capacity ▸ h.bound) h.pending command
  change ({ s with commandCb := (s.commandCb.cbPushBack command false).getD s.commandCb } :
    Shell).finish = _ at h_ok
  rw [h_cb] at h_ok
  cases h_mode : s.isPlanningMode with
  | true =>
    -- the command waits in the ring
    rw [finish_planning (by exact h_mode)] at h_ok
    obtain rfl := Except.ok.inj h_ok
    obtain ⟨h_after, h_executed, h_still⟩ :=
      Planner.after_planned command (h.mode.symm.trans h_mode)
    refine ⟨h_valid, h_capacity.trans h.capacity, h_bound, ?_, h_mode.trans h_still.symm, ?_⟩
    · rw [h_after]
      exact h_items
    · rw [h_executed]
      exact h.requests
  | false =>
    -- the command is alone in the ring, and is executed at once
    obtain ⟨commandCb, sent, rfl, h_valid', h_capacity', h_empty, h_sent⟩ :=
      finish_ok (by exact h_valid) (by exact h_mode) h_ok
    have h_idle := p.idle (h.mode.symm.trans h_mode)
    obtain ⟨h_after, h_executed, h_still⟩ := Planner.after_now command (h.mode.symm.trans h_mode)
    rw [h_items, Fifo.items_push_of_room (h.room_of_idle (h.mode.symm.trans h_mode)), h_idle]
      at h_sent
    refine ⟨h_valid', (h_capacity'.trans h_capacity).trans h.capacity, h_bound, ?_,
      h_mode.trans h_still.symm, ?_⟩
    · rw [h_after, h_idle]
      exact h_empty
    · rw [h_executed, List.map_append, List.map_append, h.requests, h_sent]
      rfl

/-- **The shell refines the planner** that has room for as many commands as the ring. There is a
case for each kind of line; those that are planned or executed have lemmas of their own. -/
theorem Refines.answer (h : Refines s p) (h_ok : s.answer parsed = .ok s') :
    Refines s' (p.after parsed) := by
  cases parsed with
  | plan =>
    obtain rfl := Except.ok.inj h_ok
    exact ⟨h.valid, h.capacity, h.bound, h.pending, rfl, h.requests⟩
  | rejected _ =>
    obtain rfl := Except.ok.inj h_ok
    exact h
  | invalid => exact h.finish h_ok
  | doneplan => exact h.answer_doneplan h_ok
  | command command => exact h.answer_command h_ok

theorem finish_error {executed : List Command} (h : s.commandCb.Valid)
    (h_requests : s.requests.map some = executed.map Command.request?)
    (h_error : s.finish = .error f) :
    s.isPlanningMode = false ∧ ∃ before command after,
      s.commandCb.cbToArray = before ++ command :: after ∧
      ∃ s₁ : Shell, s₁.execute command = .error f ∧
      s₁.requests.map some = (executed ++ before).map Command.request? := by
  rw [finish] at h_error
  split at h_error
  · cases h_error
  · next h_mode =>
    refine ⟨Bool.eq_false_iff.mpr h_mode, ?_⟩
    -- the commands of the plan come first, and after them nothing fails
    rcases of_bind_error h_error with h_error | ⟨s₁, -, h_error⟩
    · rw [← CircularBuffer.length_cbToArray] at h_error
      obtain ⟨before, command, after, h_ring, s₁, h_fails, h_sent⟩ := flush_error h rfl h_error
      refine ⟨before, command, after, h_ring, s₁, h_fails, ?_⟩
      rw [h_sent, h_requests, List.map_append]
    · cases h_error

/-- A line stops the shell at a command that it executes; those before it have been executed.
Outside of a plan there is one command, and at the end of one there are those that waited. -/
theorem Refines.answer_error (h : Refines s p) (h_error : s.answer parsed = .error f) :
    ∃ before command after,
    (p.after parsed).executed = p.executed ++ before ++ command :: after ∧
      ∃ s₁ : Shell, s₁.execute command = .error f ∧
      s₁.requests.map some = (p.executed ++ before).map Command.request? := by
  cases parsed with
  | plan | rejected _ => cases h_error
  | invalid =>
    -- the ring is empty
    obtain ⟨h_mode, before, command, after, h_ring, -⟩ := finish_error h.valid h.requests h_error
    rw [h.pending, p.idle (h.mode.symm.trans h_mode)] at h_ring
    cases before <;> cases h_ring
  | doneplan =>
    change (if s.isPlanningMode then _ else _) = _ at h_error
    split at h_error
    · next h_mode =>
      obtain ⟨-, before, command, after, h_ring, h_stop⟩ :=
        finish_error (by exact h.valid) (by exact h.requests) h_error
      refine ⟨before, command, after, ?_, h_stop⟩
      rw [(Planner.after_doneplan (h.mode.symm.trans h_mode)).2.1, ← h.pending, List.append_assoc]
      exact congrArg _ h_ring
    · cases h_error
  | command command =>
    obtain ⟨cb, h_cb, h_valid, -, h_items⟩ :=
      push_ring h.valid (h.capacity ▸ h.bound) h.pending command
    obtain ⟨h_mode, before, other, after, h_ring, h_stop⟩ :=
      finish_error (by exact h_cb ▸ h_valid) (by exact h.requests) h_error
    refine ⟨before, other, after, ?_, h_stop⟩
    have h_idle := h.mode.symm.trans h_mode
    have h_only : (p.pending.push command).items = [command] := by
      rw [Fifo.items_push_of_room (h.room_of_idle h_idle), p.idle h_idle]
      rfl
    rw [(Planner.after_now _ h_idle).2.1, List.append_assoc, ← h_ring, h_cb, h_items, h_only]

/-! ### Lines and keys -/

/-- The planner after a line. A line that stops the shell changes nothing. -/
def Planner.enterLine (names : TrackNames) (p : Planner) (tokens : Tokens) : Planner :=
  match interpret names tokens with
  | .ok parsed => p.after parsed
  | .error _ => p

/-- The planner after some lines. -/
def planner (names : TrackNames) (capacity : Option ℕ) (lines : List Tokens) : Planner :=
  lines.foldl (Planner.enterLine names) (.start capacity)

theorem planner_snoc (names : TrackNames) (capacity : Option ℕ) (lines : List Tokens)
    (tokens : Tokens) :
    planner names capacity (lines ++ [tokens]) =
      (planner names capacity lines).enterLine names tokens :=
  List.foldl_append

theorem Planner.enterLine_ok {names : TrackNames} {tokens : Tokens}
    (h : interpret names tokens = .ok parsed) :
    p.enterLine names tokens = p.after parsed := by
  rw [Planner.enterLine, h]

end Shell

/-- The shell, for lines that are entered. -/
def lineSystem (names : TrackNames) : System Shell Shell.Tokens where
  init s := s = .start
  step s tokens s' := s.enterLine names tokens = .ok s'

namespace Shell

theorem refines_planner {names : TrackNames} {ok : Shell → Tokens → Prop}
    {lines : List Tokens} {s : Shell} (h : (lineSystem names).Reaches ok lines s) :
    Refines s (planner names (some maxPlannedCommands) lines) := by
  induction h with
  | start h_init =>
    obtain rfl := h_init
    exact refines_start
  | next _ _ h_step ih =>
    obtain ⟨parsed, h_parsed, h_answer⟩ := of_bind_ok h_step
    rw [planner_snoc, Planner.enterLine_ok h_parsed]
    exact ih.answer h_answer

/-- The two shells are alike but for what is typed: the ring, the mode and the requests are all that
a line looks at. -/
structure Alike (s t : Shell) : Prop where
  ring : t.commandCb = s.commandCb
  mode : t.isPlanningMode = s.isPlanningMode
  requests : t.requests = s.requests

theorem Alike.execute {t : Shell} (h : Alike s t) (command : Command) :
    Agree Alike (s.execute command) (t.execute command) := by
  have h_request : ∀ r, Alike (s.request r) (t.request r) :=
    fun r => ⟨h.ring, h.mode, congrArg (· ++ [r]) h.requests⟩
  match command with
  | .tr _ _ | .sw _ _ | .rv _ | .gt _ _ _ | .reg _ _ | .random _ _ => exact h_request _
  | .q | .die => exact rfl
  | .mock sensor =>
    rw [Shell.execute, Shell.execute]
    split
    · exact h_request _
    · exact rfl

theorem Alike.flush {t : Shell} (h : Alike s t) (n : ℕ) : Agree Alike (s.flush n) (t.flush n) := by
  induction n generalizing s t with
  | zero => exact h
  | succ n ih =>
    rw [Shell.flush, Shell.flush, h.ring]
    split
    · exact h
    · next command commandCb _ =>
      -- the same command is taken out of both rings
      have h_popped : Alike { s with commandCb } { t with commandCb } := ⟨rfl, h.mode, h.requests⟩
      exact (h_popped.execute command).bind fun _ _ h_next => ih h_next

theorem Alike.finish {t : Shell} (h : Alike s t) : Agree Alike s.finish t.finish := by
  rw [Shell.finish, Shell.finish, h.mode, h.ring]
  split
  · exact ⟨h.ring, h.mode, h.requests⟩
  · exact (h.flush s.commandCb.count).bind fun _ _ h_flushed =>
      ⟨h_flushed.ring, h_flushed.mode, h_flushed.requests⟩

theorem Alike.answer {t : Shell} (h : Alike s t) (parsed : Parsed) :
    Agree Alike (s.answer parsed) (t.answer parsed) := by
  cases parsed with
  | plan => exact ⟨h.ring, rfl, h.requests⟩
  | rejected _ => exact h
  | invalid => exact h.finish
  | doneplan =>
    change Agree Alike (if s.isPlanningMode then _ else _) (if t.isPlanningMode then _ else _)
    rw [h.mode]
    split
    · exact Alike.finish ⟨h.ring, rfl, h.requests⟩
    · exact h
  | command command =>
    refine Alike.finish ⟨?_, h.mode, h.requests⟩
    rw [h.ring]

/-- **Keys come to lines**: but for what is typed, the shell is where some lines lead to. A key that
enters nothing is no line, and one that enters tokens is the line with these tokens. -/
theorem exists_lines {names : TrackNames} {ok : Shell → Byte → Prop} {keys : List Byte} {s : Shell}
    (h : (shellSystem names).Reaches ok keys s) :
    ∃ lines t, (lineSystem names).Reaches (fun _ _ => True) lines t ∧ Alike t s := by
  induction h with
  | start h_init => exact ⟨[], _, .start h_init, rfl, rfl, rfl⟩
  | @next _ s _ _ _ _ h_step ih =>
    obtain ⟨lines, t, h_t, h_alike⟩ := ih
    change Shell.getc _ _ _ = _ at h_step
    rw [getc] at h_step
    obtain ⟨⟨editor, entered⟩, -, h_step⟩ := of_bind_ok h_step
    cases entered with
    | none =>
      -- only the editor has changed
      obtain rfl := Except.ok.inj h_step
      exact ⟨lines, t, h_t, h_alike.ring, h_alike.mode, h_alike.requests⟩
    | some tokens =>
      obtain ⟨parsed, h_parsed, h_answer⟩ := of_bind_ok h_step
      have h_editor : Alike t { s with editor } := ⟨h_alike.ring, h_alike.mode, h_alike.requests⟩
      have h_agree := h_editor.answer parsed
      rw [h_answer] at h_agree
      cases h_line : t.answer parsed with
      | error f =>
        rw [h_line] at h_agree
        exact h_agree.elim
      | ok t' =>
        rw [h_line] at h_agree
        refine ⟨lines ++ [tokens], t', h_t.next trivial ?_, h_agree⟩
        change (interpret names tokens >>= t.answer) = _
        rw [h_parsed]
        exact h_line

end Shell
end PollingExpress
