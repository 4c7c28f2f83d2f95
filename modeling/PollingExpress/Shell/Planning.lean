import PollingExpress.Framework.History
import PollingExpress.Shell.Planner

/-!
# Long plans

What is accepted in a plan is acknowledged at once, and waits in the ring until the plan is done.
The ring has room for `MAX_PLANNED_COMMANDS`, and nobody looks at whether a push found room. So what
is executed is what a planner without a bound would execute, just if no plan that is done was longer
(`executed_iff`).
-/

namespace PollingExpress

open Shell

namespace Shell

variable {names : TrackNames} {n : ℕ} {p u : Planner} {lines : List Tokens} {parsed : Parsed}

/-- The commands that the lines ask for. -/
def accepted (names : TrackNames) (lines : List Tokens) : List Command :=
  lines.filterMap fun tokens =>
    match interpret names tokens with
    | .ok (.command command) => some command
    | _ => none

/-- The end of the plan, if this is it, executes no more than `n` commands. -/
def FitsPlan (n : ℕ) (u : Planner) (parsed : Parsed) : Prop :=
  parsed = .doneplan → u.isPlanningMode = true → u.pending.count ≤ n

/-- No plan that is done has more commands than the ring has room for. -/
def PlansFit (names : TrackNames) (lines : List Tokens) : Prop :=
  AtEach (fun before tokens => ∀ parsed, interpret names tokens = .ok parsed →
    FitsPlan maxPlannedCommands (planner names none before) parsed) lines

/-! ### Without a bound -/

theorem capacity_planner (names : TrackNames) (capacity : Option ℕ) (lines : List Tokens) :
    (planner names capacity lines).pending.capacity = capacity := by
  induction lines using List.reverseRecOn with
  | nil => rfl
  | append_singleton lines tokens ih =>
    rw [planner_snoc, Planner.enterLine]
    split
    · rw [Planner.capacity_after, ih]
    · exact ih

/-- Every accepted command is executed or waits, in the order of the lines. There is no bound here,
so none is dropped. -/
theorem executed_append_pending (names : TrackNames) (lines : List Tokens) :
    (planner names none lines).executed ++ (planner names none lines).pending.items =
      accepted names lines := by
  induction lines using List.reverseRecOn with
  | nil => rfl
  | append_singleton lines tokens ih =>
    rw [planner_snoc, Planner.enterLine, accepted, List.filterMap_append]
    change _ = accepted names lines ++ _
    rw [← ih, List.filterMap_cons]
    have h_unbounded := capacity_planner names none lines
    generalize planner names none lines = u at h_unbounded ⊢
    cases interpret names tokens with
    | error _ => exact (List.append_nil _).symm
    | ok parsed =>
      cases parsed with
      | plan | rejected _ | invalid => exact (List.append_nil _).symm
      | doneplan =>
        dsimp only
        rw [List.filterMap_nil, List.append_nil]
        cases h_mode : u.isPlanningMode with
        | true =>
          -- what waited has been executed, behind the rest
          obtain ⟨h_pending, h_executed, -⟩ := Planner.after_doneplan h_mode
          rw [h_pending, h_executed]
          exact List.append_nil _
        | false => rw [Planner.after, if_neg (by simp [h_mode])]
      | command command =>
        dsimp only
        rw [List.filterMap_nil]
        cases h_mode : u.isPlanningMode with
        | true =>
          obtain ⟨h_pending, h_executed, -⟩ := Planner.after_planned command h_mode
          rw [h_pending, h_executed, Fifo.items_push_of_unbounded h_unbounded, List.append_assoc]
        | false =>
          obtain ⟨h_pending, h_executed, -⟩ := Planner.after_now command h_mode
          -- nothing waits that the command could overtake
          rw [h_pending, h_executed, u.idle h_mode, List.append_nil, List.append_nil]

/-- Outside a plan everything has been executed. -/
theorem executed_eq_accepted (h : (planner names none lines).isPlanningMode = false) :
    (planner names none lines).executed = accepted names lines := by
  rw [← executed_append_pending, Planner.idle _ h, List.append_nil]

theorem count_pending_le (names : TrackNames) (lines : List Tokens) :
    (planner names none lines).pending.count ≤ lines.length := by
  calc (planner names none lines).pending.count
    _ ≤ (accepted names lines).length := by
        rw [← executed_append_pending, List.length_append]
        exact Nat.le_add_left _ _
    _ ≤ lines.length := List.length_filterMap_le _ _

/-! ### With a bound -/

/-- The same lines, with room for `n` commands and with room for all: what waits in the smaller one
is the front of what waits in the other. -/
structure Bounded (n : ℕ) (p u : Planner) : Prop where
  mode : p.isPlanningMode = u.isPlanningMode
  pending : p.pending.items = u.pending.items.take n
  capacity : p.pending.capacity = some n
  unbounded : u.pending.capacity = none

/-- One more line for the planner with the bound and for the one without. What waits in the first is
the front of what waits in the second, as far as the bound allows. -/
theorem Bounded.after (h : Bounded n p u) (parsed : Parsed) :
    Bounded n (p.after parsed) (u.after parsed) := by
  have h_capacity := (p.capacity_after parsed).trans h.capacity
  have h_unbounded := (u.capacity_after parsed).trans h.unbounded
  cases parsed with
  | plan => exact ⟨rfl, h.pending, h_capacity, h_unbounded⟩
  | rejected _ | invalid => exact h
  | doneplan =>
    -- the end of a plan empties both rings; outside of one it means nothing
    cases h_mode : u.isPlanningMode with
    | true =>
      obtain ⟨h_p, -, h_mode_p⟩ := Planner.after_doneplan (h.mode.trans h_mode)
      obtain ⟨h_u, -, h_mode_u⟩ := Planner.after_doneplan h_mode
      refine ⟨h_mode_p.trans h_mode_u.symm, ?_, h_capacity, h_unbounded⟩
      rw [h_p, h_u]
      exact List.take_nil.symm
    | false =>
      rw [Planner.after, Planner.after, if_neg (by simp [h.mode, h_mode]),
        if_neg (by simp [h_mode])]
      exact h
  | command command =>
    -- in a plan the command is kept, in the ring if there is room; else it is executed
    cases h_mode : u.isPlanningMode with
    | true =>
      obtain ⟨h_p, -, h_mode_p⟩ := Planner.after_planned command (h.mode.trans h_mode)
      obtain ⟨h_u, -, h_mode_u⟩ := Planner.after_planned command h_mode
      refine ⟨h_mode_p.trans h_mode_u.symm, ?_, h_capacity, h_unbounded⟩
      rw [h_p, h_u, Fifo.items_push_take h.capacity h.pending,
        Fifo.items_push_of_unbounded h.unbounded]
    | false =>
      obtain ⟨h_p, -, h_mode_p⟩ := Planner.after_now command (h.mode.trans h_mode)
      obtain ⟨h_u, -, h_mode_u⟩ := Planner.after_now command h_mode
      refine ⟨h_mode_p.trans h_mode_u.symm, ?_, h_capacity, h_unbounded⟩
      rw [h_p, h_u]
      exact h.pending

/-- What one line executes: the same, if the plan fits, and otherwise only the first commands. The
lengths tell which of the two it is. -/
theorem Bounded.executed (h : Bounded n p u) (parsed : Parsed) : ∃ xs ys,
    (p.after parsed).executed = p.executed ++ xs ∧ (u.after parsed).executed = u.executed ++ ys ∧
      xs <+: ys ∧ (FitsPlan n u parsed → xs = ys) ∧
      (xs.length = ys.length → FitsPlan n u parsed) := by
  cases parsed with
  | plan | rejected _ | invalid =>
    exact ⟨[], [], (List.append_nil _).symm, (List.append_nil _).symm, List.prefix_rfl,
      fun _ => rfl, by simp [FitsPlan]⟩
  | doneplan =>
    cases h_mode : u.isPlanningMode with
    | true =>
      refine ⟨_, _, (Planner.after_doneplan (h.mode.trans h_mode)).2.1,
        (Planner.after_doneplan h_mode).2.1, ?_, ?_, ?_⟩
      · rw [h.pending]
        exact List.take_prefix _ _
      · intro h_fits
        rw [h.pending]
        exact List.take_of_length_le (h_fits rfl h_mode)
      · -- the queue with the bound is as long as the other one only if it dropped nothing
        intro h_length _ _
        rw [h.pending, List.length_take] at h_length
        exact min_eq_right_iff.mp h_length
    | false =>
      refine ⟨[], [], ?_, ?_, List.prefix_rfl, fun _ => rfl,
        fun _ _ h_not => absurd (h_mode.symm.trans h_not) (by simp)⟩
      · rw [Planner.after, if_neg (by simp [h.mode, h_mode]), List.append_nil]
      · rw [Planner.after, if_neg (by simp [h_mode]), List.append_nil]
  | command command =>
    cases h_mode : u.isPlanningMode with
    | true =>
      refine ⟨[], [], ?_, ?_, List.prefix_rfl, fun _ => rfl, by simp [FitsPlan]⟩
      · rw [(Planner.after_planned _ (h.mode.trans h_mode)).2.1, List.append_nil]
      · rw [(Planner.after_planned _ h_mode).2.1, List.append_nil]
    | false =>
      exact ⟨[command], [command], (Planner.after_now _ (h.mode.trans h_mode)).2.1,
        (Planner.after_now _ h_mode).2.1,
        List.prefix_rfl, fun _ => rfl, by simp [FitsPlan]⟩

theorem bounded_planner (names : TrackNames) (n : ℕ) (lines : List Tokens) :
    Bounded n (planner names (some n) lines) (planner names none lines) := by
  induction lines using List.reverseRecOn with
  | nil => exact ⟨rfl, List.take_nil.symm, rfl, rfl⟩
  | append_singleton lines tokens ih =>
    rw [planner_snoc, planner_snoc, Planner.enterLine, Planner.enterLine]
    split
    · exact ih.after _
    · exact ih

/-- What is lost is never made up for. So the planner with the bound has executed as many commands
as the one without only if no plan was too long, and then they are the same commands. -/
theorem executed_planner (names : TrackNames) (lines : List Tokens) :
    (planner names (some maxPlannedCommands) lines).executed.length ≤
      (planner names none lines).executed.length ∧
      (PlansFit names lines →
        (planner names (some maxPlannedCommands) lines).executed =
          (planner names none lines).executed) ∧
      ((planner names (some maxPlannedCommands) lines).executed.length =
        (planner names none lines).executed.length →
        PlansFit names lines) := by
  induction lines using List.reverseRecOn with
  | nil => exact ⟨le_rfl, fun _ => rfl, fun _ => atEach_nil⟩
  | append_singleton lines tokens ih =>
    obtain ⟨h_le, h_same, h_fits⟩ := ih
    rw [planner_snoc, planner_snoc, Planner.enterLine, Planner.enterLine, PlansFit, atEach_snoc]
    have h_bounded := bounded_planner names maxPlannedCommands lines
    cases h_read : interpret names tokens with
    | error f => exact ⟨h_le, fun h => h_same h.1, fun h => ⟨h_fits h, by simp⟩⟩
    | ok parsed =>
      obtain ⟨xs, ys, h_p, h_u, h_begins, h_eq, h_line⟩ := h_bounded.executed parsed
      dsimp only
      rw [h_p, h_u, List.length_append, List.length_append]
      have h_length := h_begins.length_le
      refine ⟨Nat.add_le_add h_le h_length, ?_, ?_⟩
      · -- nothing was lost before, and nothing is lost now
        rintro ⟨h_past, h_last⟩
        rw [h_same h_past, h_eq (h_last parsed rfl)]
      · intro h_all
        refine ⟨h_fits (by omega), ?_⟩
        rintro _ ⟨⟩
        exact h_line (by omega)

/-- There is room for what a few lines ask for. -/
theorem plansFit_of_length (h : lines.length ≤ maxPlannedCommands) : PlansFit names lines := by
  rintro before tokens after rfl parsed - - -
  calc (planner names none before).pending.count
    _ ≤ before.length := count_pending_le names before
    _ ≤ (before ++ tokens :: after).length := by
        rw [List.length_append]
        exact Nat.le_add_right _ _
    _ ≤ maxPlannedCommands := h

/-- The shell stops in the line `tokens`, at one of the commands that are to be executed; those
before it have been. -/
def StopsAt (names : TrackNames) (lines : List Tokens) (tokens : Tokens) (f : Fault) : Prop :=
  ∃ before command after,
    (planner names none (lines ++ [tokens])).executed =
      (planner names none lines).executed ++ before ++ command :: after ∧
    ∃ s : Shell, s.execute command = .error f ∧
      s.requests.map some = ((planner names none lines).executed ++ before).map Command.request?

end Shell

/-- **Commands are executed as they are accepted**, outside a plan at once and in a plan when it is
done, just if no plan that is done has more commands than the ring has room for. Then it is also one
of these commands at which the shell stops, if it does.

The planner of the statement has no bound on its ring. The shell does what a planner with a bounded
one does (`refines_planner`), and the two are compared line by line (`Bounded`): the bounded ring
keeps the front of the other, so that they part at the first plan that is done with more in it, and
never come together again. -/
theorem executes_planned_iff {names : TrackNames} {lines : List Tokens} {s : Shell}
    (h : (lineSystem names).Reaches (fun _ _ => True) lines s) :
    (s.requests.map some = (planner names none lines).executed.map Command.request? ↔
      PlansFit names lines) ∧
      (PlansFit names lines → ∀ tokens parsed f, interpret names tokens = .ok parsed →
        s.enterLine names tokens = .error f → StopsAt names lines tokens f) := by
  have h_refines := refines_planner h
  obtain ⟨-, h_same, h_fits⟩ := executed_planner names lines
  refine ⟨⟨fun h_requests => ?_, fun h_plans => ?_⟩,
    fun h_plans tokens parsed f h_read h_error => ?_⟩
  · -- as many requests as commands, so none was lost
    apply h_fits
    have h_lengths := congrArg List.length (h_refines.requests.symm.trans h_requests)
    rwa [List.length_map, List.length_map] at h_lengths
  · rw [h_refines.requests, h_same h_plans]
  · have h_answer : s.answer parsed = .error f := by
      rwa [enterLine, bind_of_ok h_read] at h_error
    -- the command at which the shell stops is one of the ring, and so one of the plan
    obtain ⟨before, command, after, h_executed, s₁, h_stops, h_sent⟩ :=
      h_refines.answer_error h_answer
    obtain ⟨xs, ys, h_p, h_u, ⟨rest, rfl⟩, -⟩ :=
      (bounded_planner names maxPlannedCommands lines).executed parsed
    rw [h_p, List.append_assoc] at h_executed
    obtain rfl := List.append_cancel_left h_executed
    refine ⟨before, command, after ++ rest, ?_, s₁, h_stops, h_same h_plans ▸ h_sent⟩
    rw [planner_snoc, Planner.enterLine_ok h_read, h_u, List.append_assoc, List.append_assoc]
    rfl

def Shell.words (line : List (List Char)) : Tokens := fun i => ascii (line.getD i.val [])

def lineNext (names : TrackNames) (s : Shell) (tokens : Tokens) : Option Shell :=
  (s.enterLine names tokens).toOption

theorem lineNext_step (names : TrackNames) (s : Shell) (tokens : Tokens) (s' : Shell)
    (h : lineNext names s tokens = some s') : (lineSystem names).step s tokens s' := of_toOption h

/-- A plan of two commands. -/
def shortPlan : List Tokens :=
  [words [['p', 'l', 'a', 'n']], words [['r', 'v'], ['2', '4']],
    words [['t', 'r'], ['2', '4'], ['5']],
    words [['d', 'o', 'n', 'e', 'p', 'l', 'a', 'n']]]

theorem executes_shortPlan : ∃ s, (lineSystem fun _ => []).Reaches (fun _ _ => True) shortPlan s ∧
    s.requests = [.speed 1 15, .speed 1 5] ∧
      s.requests.map some =
        (planner (fun _ => []) none shortPlan).executed.map Command.request? := by
  obtain ⟨s, h_s, h_requests⟩ :=
    System.exists_reaches_of_play (lineNext_step fun _ => []) (fun _ _ => True)
    (fun s => s.requests = [.speed 1 15, .speed 1 5]) shortPlan rfl (by decide +kernel)
  exact ⟨s, h_s, h_requests, (executes_planned_iff h_s).1.mpr (plansFit_of_length (by decide))⟩

/-- A plan of one command more than the ring has room for. -/
def longPlan : List Tokens :=
  words [['p', 'l', 'a', 'n']] :: List.replicate 11 (words [['t', 'r'], ['2', '4'], ['5']]) ++
    [words [['d', 'o', 'n', 'e', 'p', 'l', 'a', 'n']]]

/-- **The eleventh command of a plan is lost.** The ring has ten places, and the push of the
eleventh command is not checked: it leaves the ring as it is, and the user is told nothing. -/
theorem longPlan_loses : ∃ s, (lineSystem fun _ => []).Reaches (fun _ _ => True) longPlan s ∧
    s.requests = List.replicate 10 (.speed 1 5) ∧ (accepted (fun _ => []) longPlan).length = 11 ∧
      s.requests.map some ≠
        (planner (fun _ => []) none longPlan).executed.map Command.request? := by
  obtain ⟨s, h_s, h_requests⟩ :=
    System.exists_reaches_of_play (lineNext_step fun _ => []) (fun _ _ => True)
    (fun s => s.requests = List.replicate 10 (.speed 1 5)) longPlan rfl (by decide +kernel)
  refine ⟨s, h_s, h_requests, by decide +kernel, fun h_eq => ?_⟩
  have h_length := congrArg List.length h_eq
  rw [List.length_map, h_requests, List.length_map] at h_length
  exact absurd h_length (by decide +kernel)

end PollingExpress
