import Mathlib.Algebra.Order.Ring.Int
import Mathlib.Data.Set.Lattice
import Mathlib.Order.CompletePartialOrder
import Mathlib.Tactic.Common

/-!
# Labelled transition systems

The kernel and the servers are modelled as labelled transition systems: a label
is what the environment supplies for one step (a trap, a message, a sensor
report), and the step relation says where the program goes from there.

* `System` — initial states and steps.
* `System.Reaches sys ok ls s` — `s` ends a run of `sys` labelled `ls`, all of
  whose steps meet the guard `ok`. The guard is how a statement restricts its
  runs: an assumption on the environment, or the condition under which a
  property holds. `System.Reachable` is the unguarded case.

Everything proved about runs goes through `System.Reaches.invariant`: what the
initial states have and every guarded step keeps, every reached state has.
-/

namespace PollingExpress

/-- Initial states, and steps labelled by what the environment supplies. -/
structure System (State Label : Type*) where
  init : State → Prop
  step : State → Label → State → Prop

namespace System

variable {State Label : Type*} {sys : System State Label} {ok : State → Label → Prop}

/-- `s` ends a run labelled `ls`, every step of which meets `ok`.

The condition `ok` is on the state before the step and its label, so that it can speak of the
messages that come and of what the system knows then, and never of what it makes of them. -/
inductive Reaches (sys : System State Label) (ok : State → Label → Prop) :
    List Label → State → Prop
  | start {s : State} (h : sys.init s) : Reaches sys ok [] s
  | next {ls : List Label} {s s' : State} {l : Label} (h : Reaches sys ok ls s)
      (hok : ok s l) (hstep : sys.step s l s') : Reaches sys ok (ls ++ [l]) s'

/-- `s` ends some run. -/
def Reachable (sys : System State Label) (s : State) : Prop :=
  ∃ ls, Reaches sys (fun _ _ => True) ls s

/-- **The invariant rule.** What holds initially and is kept by every guarded step out of a reached
state holds of every reached state. The induction over runs is done here, once; what is left to the
systems are the two hypotheses. -/
theorem Reaches.invariant {Inv : State → Prop} (h_init : ∀ s, sys.init s → Inv s)
    (h_step : ∀ s l s', Inv s → ok s l → sys.step s l s' → Inv s')
    {ls : List Label} {s : State} (h : Reaches sys ok ls s) : Inv s := by
  induction h with
  | start h => exact h_init _ h
  | next _ hok hstep ih => exact h_step _ _ _ ih hok hstep

/-- Weakening the guard of a run. -/
theorem Reaches.mono {ok' : State → Label → Prop} (h_ok : ∀ s l, ok s l → ok' s l)
    {ls : List Label} {s : State} (h : Reaches sys ok ls s) : Reaches sys ok' ls s := by
  induction h with
  | start h => exact .start h
  | next _ hok hstep ih => exact .next ih (h_ok _ _ hok) hstep

/-- What the guard says of a label. -/
theorem Reaches.forall_label {P : Label → Prop} (h_ok : ∀ s l, ok s l → P l)
    {ls : List Label} {s : State} (h : Reaches sys ok ls s) : ∀ l ∈ ls, P l := by
  induction h with
  | start _ => simp
  | next _ hok _ ih =>
    intro l h_l
    rcases List.mem_append.mp h_l with h_l | h_l
    · exact ih l h_l
    · exact List.mem_singleton.mp h_l ▸ h_ok _ _ hok

theorem Reaches.reachable {ls : List Label} {s : State} (h : Reaches sys ok ls s) :
    sys.Reachable s :=
  ⟨ls, h.mono fun _ _ _ => trivial⟩

/-- The invariant rule for unguarded runs. -/
theorem Reachable.invariant {Inv : State → Prop} (h_init : ∀ s, sys.init s → Inv s)
    (h_step : ∀ s l s', Inv s → sys.step s l s' → Inv s')
    {s : State} (h : sys.Reachable s) : Inv s :=
  h.choose_spec.invariant h_init fun s l s' hi _ hs => h_step s l s' hi hs

/-- The same steps, from a state on. -/
def startAt (sys : System State Label) (s : State) : System State Label where
  init s' := s' = s
  step := sys.step

/-- The same steps under other labels, `f` saying what a new label stands for in a state. -/
def relabel {Label' : Type*} (sys : System State Label) (f : State → Label' → Label) :
    System State Label' where
  init := sys.init
  step s l s' := sys.step s (f s l) s'

/-- A run under the other labels is one under the old ones. -/
theorem Reaches.of_relabel {Label' : Type*} {f : State → Label' → Label} {ls' : List Label'}
    {s : State} (h : (sys.relabel f).Reaches (fun s l => ok s (f s l)) ls' s) :
    ∃ ls, sys.Reaches ok ls s := by
  induction h with
  | start h => exact ⟨[], .start h⟩
  | next _ hok hstep ih =>
    obtain ⟨ls, h_ls⟩ := ih
    exact ⟨_, h_ls.next hok hstep⟩

/-- **The component rule.** A larger system has `sys` in it as the part `part` of its states.
Its steps that are `visible` are steps of `sys`, by what a run so far tells of them, and the
others leave the part alone; so its runs contain runs of `sys`. -/
theorem Reaches.component {State' Label' : Type*} {sys' : System State' Label'}
    {ok' : State' → Label' → Prop} (part : State' → State) (visible : Label' → Option Label)
    (h_init : ∀ s, sys'.init s → sys.init (part s))
    (h_visible : ∀ {ls s l s' m}, sys'.Reaches ok' ls s → ok' s l → sys'.step s l s' →
      visible l = some m → ok (part s) m ∧ sys.step (part s) m (part s'))
    (h_hidden : ∀ {s l s'}, sys'.step s l s' → visible l = none → part s' = part s)
    {ls : List Label'} {s : State'} (h : sys'.Reaches ok' ls s) :
    sys.Reaches ok (ls.filterMap visible) (part s) := by
  induction h with
  | start h => exact .start (h_init _ h)
  | @next ls s s' l h_run hok hstep ih =>
    rw [List.filterMap_append]
    -- a hidden step is no step of the part; a visible one prolongs its run
    cases h_l : visible l with
    | none =>
      rw [List.filterMap_cons_none h_l, List.filterMap_nil, List.append_nil, h_hidden hstep h_l]
      exact ih
    | some m =>
      rw [List.filterMap_cons_some h_l, List.filterMap_nil]
      obtain ⟨h_ok, h_step⟩ := h_visible h_run hok hstep h_l
      exact ih.next h_ok h_step

/-! ### Runs that are computed -/

/-- The state after `ls`, if every step meets `ok` and goes through. -/
def play (next : State → Label → Option State) (ok : State → Label → Prop)
    [∀ s l, Decidable (ok s l)] : State → List Label → Option State
  | s, [] => some s
  | s, l :: ls => if ok s l then (next s l).bind fun s' => play next ok s' ls else none

theorem Reaches.play [∀ s l, Decidable (ok s l)] {next : State → Label → Option State}
    (h_next : ∀ s l s', next s l = some s' → sys.step s l s') {ls ls' : List Label} {s s' : State}
    (h : sys.Reaches ok ls s) (h_play : play next ok s ls' = some s') :
    sys.Reaches ok (ls ++ ls') s' := by
  induction ls' generalizing ls s with
  | nil =>
    obtain rfl := Option.some.inj h_play
    rwa [List.append_nil]
  | cons l ls' ih =>
    rw [System.play] at h_play
    -- a label that may not come ends the play
    split at h_play
    · next h_ok =>
      obtain ⟨s₁, h_step, h_play⟩ := Option.bind_eq_some_iff.mp h_play
      rw [List.append_cons]
      exact ih (.next h h_ok (h_next _ _ _ h_step)) h_play
    · cases h_play

/-- A run that has been computed, for what can be decided of its last state. -/
theorem exists_reaches_of_play {next : State → Label → Option State}
    (h_next : ∀ s l s', next s l = some s' → sys.step s l s') (ok : State → Label → Prop)
    [∀ s l, Decidable (ok s l)] (P : State → Prop) [DecidablePred P] (ls : List Label)
    {s : State} (h_init : sys.init s)
    (h : (play next ok s ls).any (fun s' => decide (P s')) = true) :
    ∃ s', sys.Reaches ok ls s' ∧ P s' := by
  obtain ⟨s', h_play, h_P⟩ := (Option.any_eq_true _ _).mp h
  exact ⟨s', (Reaches.start h_init).play h_next h_play, of_decide_eq_true h_P⟩

end System
end PollingExpress
