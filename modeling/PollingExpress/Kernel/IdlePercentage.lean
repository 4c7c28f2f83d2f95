import Mathlib.Data.UInt
import PollingExpress.Kernel.Events

/-!
# The idle percentage

The idle task of `idle.c` adds up, in 64 bits, what `AwaitEvent(BREAK_IDLE)` returns, and after
every tenth call divides by the difference of two readings of TIMER3, which has 32 bits. A label of
`idleSystem` says how far TIMER3 counts in one turn of the loop; `elapsed` is how far it has counted
altogether.

What has been added up is never more than what has elapsed since the start (`Sums.returned_le`). So
the percentage is right as long as TIMER3 has not been around once; from then on the divisor is only
what is left of the time that has elapsed, and can be as small as 0.
-/

namespace PollingExpress

/-- TIMER3 when it has counted `elapsed` times. -/
def timer3At (elapsed : ℕ) : UInt32 := UInt32.ofNat (2 ^ 32 - 1 - elapsed % 2 ^ 32)

/-- The loop of idle ends only by a division by 0. -/
inductive IdleFault
  | zeroDivisor
  deriving DecidableEq

structure IdleTask where
  start : UInt32
  sleepingTime : UInt64
  i : Int32
  /-- What has been stored in `idle_percentage`, in order. -/
  idlePercentage : List Int32

/-- One turn of the loop: `s` is what `AwaitEvent` returns, and `now` what TIMER3 reads as
afterwards. The counter of the turns wraps around. -/
def IdleTask.turn (t : IdleTask) (s now : UInt32) : Except IdleFault IdleTask :=
  let t := { t with sleepingTime := t.sleepingTime + s.toUInt64, i := t.i + 1 }
  if t.i % 10 = 0 then
    let run := t.start - now
    if run = 0 then .error .zeroDivisor
    else .ok { t with
      idlePercentage := t.idlePercentage ++
        [((100 * t.sleepingTime) / run.toUInt64).toUInt32.toInt32] }
  else .ok t

/-- How far TIMER3 counts before the processor halts, while it is halted, and from then to the end
of a turn. -/
structure IdleTurn where
  before : ℕ
  halted : ℕ
  after : ℕ

def IdleTurn.length (l : IdleTurn) : ℕ := l.before + l.halted + l.after

structure IdleRun where
  elapsed : ℕ
  startedAt : ℕ
  /-- The sum of what `AwaitEvent` has returned. -/
  returned : ℕ
  task : Except IdleFault IdleTask

namespace IdleRun

/-- How long the task has run by the end of a turn. -/
def runAfter (s : IdleRun) (l : IdleTurn) : ℕ := s.elapsed + l.length - s.startedAt

/-- What `AwaitEvent` returns: `start_time - end_time` of `kmain`, two readings of TIMER3. -/
def halt (s : IdleRun) (l : IdleTurn) : UInt32 :=
  timer3At (s.elapsed + l.before) - timer3At (s.elapsed + l.before + l.halted)

def next (s : IdleRun) (t : IdleTask) (l : IdleTurn) : IdleRun where
  elapsed := s.elapsed + l.length
  startedAt := s.startedAt
  returned := s.returned + (s.halt l).toNat
  task := t.turn (s.halt l) (timer3At (s.elapsed + l.length))

/-- No division by 0 so far, and nothing but percentages has been stored, one for each ten turns. -/
def Meaningful (s : IdleRun) : Prop := ∃ t, s.task = .ok t ∧ ∀ p ∈ t.idlePercentage, 0 ≤ p ∧ p ≤ 100

/-- At the end of a turn that stores a percentage, TIMER3 has counted since the start, and has not
been around. -/
def Timely (s : IdleRun) (l : IdleTurn) : Prop :=
  ∀ t, s.task = .ok t → (t.i + 1) % 10 = 0 → 0 < s.runAfter l ∧ s.runAfter l < 2 ^ 32

end IdleRun

/-- The runs of the idle task. -/
def idleSystem : System IdleRun IdleTurn where
  init s := s.elapsed = s.startedAt ∧ s.returned = 0 ∧ s.task = .ok ⟨timer3At s.startedAt, 0, 0, []⟩
  step s l s' := ∃ t, s.task = .ok t ∧ s' = s.next t l

section
variable {s s' : IdleRun} {t : IdleTask} {l : IdleTurn} {ls : List IdleTurn}

/-! ### TIMER3 -/

/-- TIMER3 counts down from its largest value. -/
theorem timer3At_eq (elapsed : ℕ) : timer3At elapsed = -1 - UInt32.ofNat elapsed := by
  have h_last : (-1 : UInt32).toNat = 2 ^ 32 - 1 := by decide
  rw [← UInt32.toNat_inj, timer3At, UInt32.toNat_sub, UInt32.toNat_ofNat',
    UInt32.toNat_ofNat', h_last]
  omega

/-- The difference of two readings is how far TIMER3 has counted in between, but for its turns. -/
theorem timer3At_sub {a b : ℕ} (h : a ≤ b) : timer3At a - timer3At b = UInt32.ofNat (b - a) := by
  rw [timer3At_eq, timer3At_eq, sub_sub_sub_cancel_left, sub_eq_iff_eq_add, ← UInt32.ofNat_add,
    Nat.sub_add_cancel h]

theorem IdleRun.halt_eq (s : IdleRun) (l : IdleTurn) : s.halt l = UInt32.ofNat l.halted := by
  rw [halt, timer3At_sub (Nat.le_add_right _ _), Nat.add_sub_cancel_left]

/-! ### The sum -/

/-- What a turn does. -/
theorem IdleTask.turn_ok {t' : IdleTask} {halt now : UInt32} (h : t.turn halt now = .ok t') :
    t' = { t with
      sleepingTime := t.sleepingTime + halt.toUInt64
      i := t.i + 1
      idlePercentage := t.idlePercentage ++ if (t.i + 1) % 10 = 0 then
        [((100 * (t.sleepingTime + halt.toUInt64)) /
          (t.start - now).toUInt64).toUInt32.toInt32] else [] } := by
  rw [turn] at h
  dsimp only at h
  -- a percentage is stored in every tenth turn, unless the time is 0
  split at h
  · next h_tenth =>
    split at h
    · cases h
    · rw [if_pos h_tenth]
      exact (Except.ok.inj h).symm
  · next h_tenth =>
    rw [if_neg h_tenth, List.append_nil]
    exact (Except.ok.inj h).symm

theorem IdleTask.exists_turn {halt now : UInt32} (h : (t.i + 1) % 10 = 0 → t.start - now ≠ 0) :
    ∃ t', t.turn halt now = .ok t' := by
  rw [turn]
  dsimp only
  split
  · next h_tenth => exact ⟨_, if_neg (h h_tenth)⟩
  · exact ⟨_, rfl⟩

/-- The task has added up what it got, which is part of the time that has elapsed since it started.
The sum has 64 bits, the reading of the timer at the start 32. -/
structure IdleRun.Sums (s : IdleRun) (t : IdleTask) : Prop where
  start : t.start = timer3At s.startedAt
  startedAt_le : s.startedAt ≤ s.elapsed
  sleepingTime : t.sleepingTime = UInt64.ofNat s.returned
  returned_le : s.returned ≤ s.elapsed - s.startedAt

namespace IdleRun

/-- A halt is part of its turn. -/
theorem halt_le (s : IdleRun) (l : IdleTurn) : (s.halt l).toNat ≤ l.length := by
  rw [halt_eq, UInt32.toNat_ofNat']
  refine Nat.le_trans (Nat.mod_le _ _) ?_
  unfold IdleTurn.length
  omega

theorem toUInt64_eq (x : UInt32) : x.toUInt64 = UInt64.ofNat x.toNat := by
  rw [← UInt64.toNat_inj, UInt32.toNat_toUInt64, UInt64.toNat_ofNat', Nat.mod_eq_of_lt]
  exact Nat.lt_trans (UInt32.toNat_lt x) (by decide)

theorem Sums.sum (h : s.Sums t) (l : IdleTurn) :
    t.sleepingTime + (s.halt l).toUInt64 = UInt64.ofNat (s.next t l).returned := by
  rw [h.sleepingTime, next, UInt64.ofNat_add, toUInt64_eq]

theorem Sums.next {t' : IdleTask} (h : s.Sums t) (h_turn : (s.next t l).task = .ok t') :
    (s.next t l).Sums t' := by
  obtain rfl := IdleTask.turn_ok h_turn
  have h_halt := s.halt_le l
  have h_le := h.startedAt_le
  have h_returned := h.returned_le
  refine ⟨h.start, Nat.le_add_right_of_le h_le, h.sum l, ?_⟩
  change s.returned + (s.halt l).toNat ≤ s.elapsed + l.length - s.startedAt
  omega

/-! ### The percentage -/

/-- The divisor is how long the task has run, but for the turns of TIMER3. -/
theorem Sums.run (h : s.Sums t) (l : IdleTurn) :
    t.start - timer3At (s.elapsed + l.length) = UInt32.ofNat (s.runAfter l) := by
  rw [h.start, timer3At_sub (Nat.le_add_right_of_le h.startedAt_le)]
  rfl

theorem Sums.run_ne_zero (h : s.Sums t) (h_time : 0 < s.runAfter l ∧ s.runAfter l < 2 ^ 32) :
    t.start - timer3At (s.elapsed + l.length) ≠ 0 := by
  rw [h.run l, ← UInt32.toNat_inj.ne, UInt32.toNat_ofNat', Nat.mod_eq_of_lt h_time.2]
  exact h_time.1.ne'

/-- As long as TIMER3 has not been around, what is stored is the percentage. -/
theorem percentage_eq {returned run : ℕ} (h_run : run < 2 ^ 32) (h : returned ≤ run) :
    ((100 * UInt64.ofNat returned) / (UInt32.ofNat run).toUInt64).toUInt32.toInt32 =
      Int32.ofNat (100 * returned / run) := by
  have h_divisor : (UInt32.ofNat run).toUInt64.toNat = run := by
    rw [UInt32.toNat_toUInt64, UInt32.toNat_ofNat', Nat.mod_eq_of_lt h_run]
  have h_sum : (100 * UInt64.ofNat returned).toNat = 100 * returned := by
    have h_hundred : (100 : UInt64).toNat = 100 := rfl
    rw [UInt64.toNat_mul, UInt64.toNat_ofNat', h_hundred,
      Nat.mod_eq_of_lt (show returned < 2 ^ 64 by omega),
      Nat.mod_eq_of_lt (by omega)]
  rw [← UInt32.toInt32_ofNat']
  refine congrArg UInt32.toInt32 (UInt32.toNat.inj ?_)
  rw [UInt64.toNat_toUInt32, UInt64.toNat_div, h_sum, h_divisor, UInt32.toNat_ofNat']

theorem percentage_range {returned run : ℕ} (h : returned ≤ run) :
    0 ≤ Int32.ofNat (100 * returned / run) ∧ Int32.ofNat (100 * returned / run) ≤ 100 := by
  have h_le : 100 * returned / run < 101 := by
    refine Nat.lt_succ_of_le (Nat.div_le_of_le_mul ?_)
    rw [Nat.mul_comm run]
    exact Nat.mul_le_mul_left _ h
  have h_all : ∀ p < 101, 0 ≤ Int32.ofNat p ∧ Int32.ofNat p ≤ 100 := by decide
  exact h_all _ h_le

/-- One event of the idle task's life. The percentage that is stored was stored before, or it comes
of the turn that has just been made, in which the sums were right. -/
theorem Meaningful.next (h : s.Meaningful) (h_sums : ∀ t, s.task = .ok t → s.Sums t)
    (h_timely : s.Timely l) (h_task : s.task = .ok t) : (s.next t l).Meaningful := by
  have h_t := h_sums t h_task
  obtain ⟨t₀, h_task₀, h_stored⟩ := h
  obtain rfl := Except.ok.inj (h_task₀.symm.trans h_task)
  have h_turn : ∃ t', (s.next t₀ l).task = .ok t' :=
    IdleTask.exists_turn fun h_tenth => h_t.run_ne_zero (h_timely _ h_task h_tenth)
  obtain ⟨t', h_turn⟩ := h_turn
  refine ⟨t', h_turn, ?_⟩
  obtain rfl := IdleTask.turn_ok h_turn
  intro p h_p
  -- `p` was stored before, or in this turn
  rcases List.mem_append.mp h_p with h_p | h_p
  · exact h_stored p h_p
  · split at h_p
    · next h_tenth =>
      obtain ⟨-, h_lt⟩ := h_timely _ h_task h_tenth
      have h_next := (h_t.next h_turn).returned_le
      rw [List.mem_singleton.mp h_p, h_t.sum l, h_t.run l, percentage_eq h_lt h_next]
      exact percentage_range h_next
    · cases h_p

end IdleRun

/-- **While TIMER3 has not been around, the percentages are percentages.**

A turn that stores a percentage divides what `AwaitEvent` has returned since the start by what
TIMER3 has counted since then. Both are right as long as TIMER3 has counted, and by less than `2 ^
32`; this is `Timely`, and it is a condition on the time at which the turn ends. The invariant is
`Sums`: what the task has summed up is the time halted, and it is no more than the time that has
passed. -/
theorem idle_percentage_meaningful (h : idleSystem.Reaches IdleRun.Timely ls s) : s.Meaningful := by
  -- beside the property: what the task has summed up is what the readings say
  have h_inv : s.Meaningful ∧ ∀ t, s.task = .ok t → s.Sums t := by
    refine @System.Reaches.invariant _ _ _ _
      (fun s => s.Meaningful ∧ ∀ t, s.task = .ok t → s.Sums t) ?_ ?_ _ _ h
    · rintro s ⟨h_elapsed, h_returned, h_task⟩
      refine ⟨⟨_, h_task, by simp⟩, fun t h_t => ?_⟩
      obtain rfl := Except.ok.inj (h_task.symm.trans h_t)
      -- at the start nothing has been summed up
      refine ⟨rfl, h_elapsed.ge, ?_, ?_⟩
      · rw [h_returned]
        rfl
      · rw [h_returned]
        exact Nat.zero_le _
    · rintro s l s' ⟨h_meaningful, h_sums⟩ h_timely ⟨t, h_task, rfl⟩
      exact ⟨h_meaningful.next h_sums h_timely h_task, fun t' h_t' => (h_sums t h_task).next h_t'⟩
  exact h_inv.1

/-! ### Once around -/

/-- A turn in a system that does nothing: TIMER1 ends the halt after a tick of 5080 counts. -/
def idleTurn : IdleTurn := ⟨15, 5060, 5⟩

/-- The task has gone through `k` such turns. Of the 5080 ticks of a turn it got 5060, so it has
been running for almost the whole time. -/
structure IdleFor (k : ℕ) (s : IdleRun) (t : IdleTask) : Prop where
  elapsed : s.elapsed = 5080 * k
  startedAt : s.startedAt = 0
  returned : s.returned = 5060 * k
  task : s.task = .ok t
  sums : s.Sums t
  i : t.i = Int32.ofNat k

theorem IdleFor.runAfter {k : ℕ} (h : IdleFor k s t) : s.runAfter idleTurn = 5080 * (k + 1) := by
  rw [IdleRun.runAfter, h.elapsed, h.startedAt, Nat.sub_zero, Nat.mul_succ]
  rfl

/-- A number of ticks is not a turn of TIMER3. -/
theorem ticks_mod_ne_zero {k : ℕ} (h : k < 845470) : 5080 * (k + 1) % 2 ^ 32 ≠ 0 := by
  by_cases h_lt : 5080 * (k + 1) < 2 ^ 32
  · rw [Nat.mod_eq_of_lt h_lt]
    omega
  · have h_ne : 5080 * (k + 1) ≠ 2 ^ 32 :=
      fun h_eq => absurd (congrArg (· % 5) h_eq) (by simp [Nat.mul_mod])
    rw [Nat.mod_eq_sub_mod (Nat.not_lt.mp h_lt), Nat.mod_eq_of_lt (by omega)]
    omega

/-- The turns go on until TIMER3 has been around. -/
theorem IdleFor.next {k : ℕ} (h : IdleFor k s t) (h_k : k < 845470) :
    ∃ t', IdleFor (k + 1) (s.next t idleTurn) t' := by
  have h_divisor : t.start - timer3At (s.elapsed + idleTurn.length) ≠ 0 := by
    rw [h.sums.run idleTurn, h.runAfter, ← UInt32.toNat_inj.ne, UInt32.toNat_ofNat']
    exact ticks_mod_ne_zero h_k
  have h_turn : ∃ t', (s.next t idleTurn).task = .ok t' := IdleTask.exists_turn fun _ => h_divisor
  obtain ⟨t', h_turn⟩ := h_turn
  refine ⟨t', ?_, h.startedAt, ?_, h_turn, h.sums.next h_turn, ?_⟩
  · rw [IdleRun.next, h.elapsed, Nat.mul_succ]
    rfl
  · rw [IdleRun.next, h.returned, s.halt_eq, Nat.mul_succ]
    rfl
  · obtain rfl := IdleTask.turn_ok h_turn
    rw [Int32.ofNat_add, ← h.i]
    rfl

/-- A run of such turns, until TIMER3 has been around once. -/
theorem reaches_idleFor {ok : IdleRun → IdleTurn → Prop} {n : ℕ}
    (h_ok : ∀ k < n, ∀ s t, IdleFor k s t → ok s idleTurn)
    (h_n : n ≤ 845470) :
    ∃ s t, idleSystem.Reaches ok (List.replicate n idleTurn) s ∧ IdleFor n s t := by
  induction n with
  | zero =>
    refine ⟨⟨0, 0, 0, .ok ⟨timer3At 0, 0, 0, []⟩⟩, _, .start ⟨rfl, rfl, rfl⟩, rfl, rfl, rfl, rfl,
      ?_, rfl⟩
    exact ⟨rfl, le_rfl, rfl, le_rfl⟩
  | succ n ih =>
    obtain ⟨s, t, h_reaches, h_idle⟩ := ih (fun k h_k => h_ok k (by omega)) (by omega)
    obtain ⟨t', h_next⟩ := h_idle.next (by omega)
    refine ⟨s.next t idleTurn, t', ?_, h_next⟩
    rw [List.replicate_succ']
    exact .next h_reaches (h_ok n (Nat.lt_succ_self n) s t h_idle) ⟨t, h_idle.task, rfl⟩

/-- An idle system for two hours and 20 minutes. -/
theorem idle_percentage_meaningful_idle :
    ∃ s, idleSystem.Reaches IdleRun.Timely (List.replicate 845460 idleTurn) s ∧ s.Meaningful := by
  have h_timely : ∀ k < 845460, ∀ s t, IdleFor k s t → s.Timely idleTurn := by
    intro k h_k s t h_idle t₁ h_task h_tenth
    rw [h_idle.runAfter]
    omega
  obtain ⟨s, t, h_reaches, -⟩ := reaches_idleFor h_timely (by decide)
  exact ⟨s, h_reaches, idle_percentage_meaningful h_reaches⟩

/-- Ten turns later TIMER3 has been around, and 21070125 percent are stored. -/
theorem idle_percentage_counterexample :
    ∃ s, idleSystem.Reaches (fun _ _ => True) (List.replicate 845470 idleTurn) s ∧
      ¬s.Meaningful := by
  obtain ⟨s, t, h_reaches, h_idle⟩ :=
    @reaches_idleFor (fun _ _ => True) 845469 (fun _ _ _ _ _ => trivial) (by decide)
  obtain ⟨t', h_next⟩ := h_idle.next (by decide)
  refine ⟨s.next t idleTurn, ?_, ?_⟩
  · rw [List.replicate_succ']
    exact .next h_reaches trivial ⟨t, h_idle.task, rfl⟩
  · rintro ⟨t₁, h_task, h_all⟩
    obtain rfl := Except.ok.inj (h_next.task.symm.trans h_task)
    obtain rfl := IdleTask.turn_ok h_next.task
    have h_tenth : (t.i + 1) % 10 = 0 := by
      rw [h_idle.i]
      decide
    rw [if_pos h_tenth] at h_all
    -- the percentage that the last turn stores, with the time that the timer shows
    have h_stored := h_all _ (List.mem_append_right _ (List.mem_singleton_self _))
    rw [h_idle.sums.sum idleTurn, h_idle.sums.run idleTurn, h_next.returned,
      h_idle.runAfter] at h_stored
    exact absurd h_stored.2 (by decide)

end
end PollingExpress
