import PollingExpress.Framework.History
import PollingExpress.Kernel.Partition

/-!
# Round robin

The order in which tasks of equal priority leave the ready heap, read off the
log: `waiting` is the line the log describes, and `Fifo` says that no task is
popped while one of its priority stands before it in the line.

The kernel has no line. It orders equal priorities by the TIMER3 readings at
their insertion, and TIMER3 counts down. So the line is kept as long as each
insertion reads less than the waiting tasks of that priority did
(`FreshStamps`): then stamps fall along the line (`HeapInv.falling`), and the
root of the heap is the first of its priority (`HeapInv.pop`). Two insertions
within one tick, or a reload of the counter between them, break it.
-/

namespace PollingExpress
namespace Kernel

/-- A task in line, as it was put into the heap. -/
structure Entry where
  task : TaskTid
  priority : Int
  stamp : ℕ
  deriving DecidableEq

/-- The line after one more event. -/
def lineAfter (w : List Entry) : KernelEvent → List Entry
  | .ready t priority stamp => w ++ [⟨t, priority, stamp⟩]
  | .popped t => w.eraseP fun e => e.task = t
  | _ => w

/-- The tasks in line, in the order in which they were put there. -/
def waiting (log : List KernelEvent) : List Entry := log.foldl lineAfter []

theorem waiting_snoc (log : List KernelEvent) (e : KernelEvent) :
    waiting (log ++ [e]) = lineAfter (waiting log) e := by
  simp [waiting]

/-- `t` is in line, behind nobody of its priority. -/
def FirstOfPriority (w : List Entry) (t : TaskTid) : Prop :=
  ∃ w₁ e w₂, w = w₁ ++ e :: w₂ ∧ e.task = t ∧ ∀ e' ∈ w₁, e'.priority ≠ e.priority

/-- Equal priorities are served in line: whenever a task is popped, no other one of its priority has
been waiting for longer. -/
def Fifo (log : List KernelEvent) : Prop :=
  AtEach (fun past e => ∀ t, e = .popped t → FirstOfPriority (waiting past) t) log

/-- Each insertion reads less than the waiting tasks of the same priority did. -/
def FreshStamps (log : List KernelEvent) : Prop :=
  AtEach (fun past e => ∀ t priority stamp, e = .ready t priority stamp →
    ∀ w ∈ waiting past, w.priority = priority → stamp < w.stamp) log

theorem fifo_snoc {log : List KernelEvent} {e : KernelEvent} :
    Fifo (log ++ [e]) ↔ Fifo log ∧ ∀ t, e = .popped t → FirstOfPriority (waiting log) t :=
  atEach_snoc

theorem freshStamps_snoc {log : List KernelEvent} {e : KernelEvent} :
    FreshStamps (log ++ [e]) ↔ FreshStamps log ∧ ∀ t priority stamp,
      e = .ready t priority stamp → ∀ w ∈ waiting log, w.priority = priority → stamp < w.stamp :=
  atEach_snoc

/-- Events of message passing leave the line alone. -/
theorem waiting_append_message {log es : List KernelEvent} (h : ∀ e ∈ es, e.IsMessage) :
    waiting (log ++ es) = waiting log := by
  induction es generalizing log with
  | nil => simp
  | cons e es ih =>
    rw [show log ++ e :: es = log ++ [e] ++ es by simp,
      ih fun e' he' => h e' (List.mem_cons_of_mem e he'), waiting_snoc]
    have h_e := h e List.mem_cons_self
    cases e <;> first | rfl | exact absurd h_e id

/-- What the heap and the log have to do with each other. The line of the log holds those that have
been added and not yet popped, in that order, and they are the tasks of the heap; a task that is
ready keeps its priority and its stamp. As long as the stamps are fresh they fall along the line,
since TIMER3 counts down. -/
structure HeapInv (k : Kernel) : Prop where
  ordered : k.HeapOrdered
  tasks : Multiset.ofList ((waiting k.log).map Entry.task) = k.readyTasks
  keys : ∀ e ∈ waiting k.log,
    (k.backing e.task).priority = e.priority ∧ (k.backing e.task).addedTime = e.stamp
  /-- Along the line, stamps fall within a priority. -/
  falling : FreshStamps k.log →
    (waiting k.log).Pairwise fun a b => a.priority = b.priority → b.stamp < a.stamp
  fifo : FreshStamps k.log → Fifo k.log

namespace HeapInv

variable {k k' : Kernel} {t : TaskTid}

theorem mem_task (h : HeapInv k) : t ∈ k.readyTasks ↔ ∃ e ∈ waiting k.log, e.task = t := by
  rw [← h.tasks]
  simp

/-- A step that leaves the heap and the keys of its tasks alone. It notes messages only, so the line
of the log is what it was. -/
theorem quiet (h : HeapInv k) (h_q : Quiet k k') : HeapInv k' := by
  obtain ⟨es, h_log, h_es⟩ := h_q.log
  have h_line : waiting k'.log = waiting k.log := by rw [h_log, waiting_append_message h_es]
  have h_ready : k'.readyTasks = k.readyTasks := by
    rw [readyTasks, h_q.heap.1, h_q.heap.2, readyTasks]
  have h_fresh : FreshStamps k'.log → FreshStamps k.log := fun h_f =>
    AtEach.of_append (h_log ▸ h_f)
  refine ⟨?_, by rw [h_line, h_ready, h.tasks], ?_, fun h_f => ?_, fun h_f => ?_⟩
  · intro i h_pos hi
    rw [h_q.heap.2] at hi
    -- `Quiet` keeps the rank of every task in the heap, so the order carries over
    have h_rank : ∀ j < k.count, rank (k'.backing (k'.readyQueue j)) =
        rank (k.backing (k.readyQueue j)) := by
      intro j hj
      rw [h_q.heap.1]
      obtain ⟨h_prio, h_time⟩ := h_q.keys _ (mem_slots.mpr ⟨j, hj, rfl⟩)
      rw [rank, rank, h_prio, h_time]
    change rank _ ≤ rank _
    rw [h_rank i hi, h_rank _ ((heapParent_lt h_pos).trans hi)]
    exact h.ordered i h_pos hi
  · -- the priority and the stamp of an entry are those in the descriptor
    intro e he
    rw [h_line] at he
    obtain ⟨h_prio, h_time⟩ := h_q.keys e.task (h.mem_task.mpr ⟨e, he, rfl⟩)
    rw [h_prio, h_time]
    exact h.keys e he
  · rw [h_line]
    exact h.falling (h_fresh h_f)
  · rw [h_log]
    -- a quiet step pops nobody
    refine (h.fifo (h_fresh h_f)).append fun past e he t h_eq => ?_
    subst h_eq
    exact absurd (h_es _ he) id

/-- A task is added: it goes to the end of the line with the stamp that it has just got, which is
below those in front of it if it is fresh. -/
theorem add (h : HeapInv k) (ht : t ∉ k.readyTasks) (h_add : Added k t k') : HeapInv k' := by
  have h_line : waiting k'.log =
      waiting k.log ++ [⟨t, (k.backing t).priority, k.timer3 k.reads⟩] := by
    rw [h_add.log, waiting_snoc]; rfl
  have h_fresh : FreshStamps k'.log → FreshStamps k.log ∧ ∀ w ∈ waiting k.log,
      w.priority = (k.backing t).priority → k.timer3 k.reads < w.stamp := by
    intro h_f
    rw [h_add.log, freshStamps_snoc] at h_f
    exact ⟨h_f.1, h_f.2 _ _ _ rfl⟩
  refine ⟨h_add.ordered ht h.ordered, ?_, ?_, fun h_f => ?_, fun h_f => ?_⟩
  · rw [h_line, h_add.tasks, List.map_append, ← Multiset.coe_add, h.tasks]
    exact Multiset.add_comm _ _
  · intro e he
    rw [h_line, List.mem_append, List.mem_singleton] at he
    rw [h_add.backing]
    -- an old entry is of another task; the new one has just been stamped
    obtain he | rfl := he
    · have h_ne : e.task ≠ t := by
        rintro rfl
        exact ht (h.mem_task.mpr ⟨e, he, rfl⟩)
      rw [modify_of_ne _ _ h_ne]
      exact h.keys e he
    · rw [modify_self]
      exact ⟨rfl, rfl⟩
  · obtain ⟨h_old, h_new⟩ := h_fresh h_f
    rw [h_line, List.pairwise_append]
    refine ⟨h.falling h_old, List.pairwise_singleton _ _, fun a ha b hb => ?_⟩
    obtain rfl := List.mem_singleton.mp hb
    exact h_new a ha
  · rw [h_add.log, fifo_snoc]
    -- an add pops nobody
    exact ⟨h.fifo (h_fresh h_f).1, fun t h_eq => by simp at h_eq⟩

/-- The root of the heap is the first of its priority. -/
theorem first_of_popped (h : HeapInv k) (h_f : FreshStamps k.log) (h_pop : Popped k t k') :
    FirstOfPriority (waiting k.log) t := by
  have ht : t ∈ k.readyTasks := by
    rw [h_pop.tasks]
    exact Multiset.mem_cons_self t _
  obtain ⟨e, he, rfl⟩ := h.mem_task.mp ht
  obtain ⟨w₁, w₂, h_eq⟩ := List.append_of_mem he
  refine ⟨w₁, e, w₂, h_eq, rfl, fun e' he' h_prio => ?_⟩
  have h_mem : e' ∈ waiting k.log := by simp [h_eq, he']
  have h_lt : e.stamp < e'.stamp := by
    have h_fall := h.falling h_f
    rw [h_eq, List.pairwise_append] at h_fall
    exact h_fall.2.2 e' he' e List.mem_cons_self h_prio
  -- a waiting task of the same priority with a larger stamp would be above the root
  have h_max := h_pop.max h.ordered e'.task (h.mem_task.mpr ⟨e', h_mem, rfl⟩)
  rw [rank, rank, (h.keys e he).1, (h.keys e he).2, (h.keys e' h_mem).1, (h.keys e' h_mem).2,
    h_prio, Prod.Lex.toLex_le_toLex] at h_max
  simp only [lt_irrefl, true_and, false_or] at h_max
  omega

/-- A task is popped: its entry goes out of the line. If the stamps are fresh it is the first of its
priority, since the largest stamp of a priority comes out, and stamps fall along the line. -/
theorem pop (h : HeapInv k) (h_pop : Popped k t k') : HeapInv k' := by
  have ht : t ∈ k.readyTasks := by
    rw [h_pop.tasks]
    exact Multiset.mem_cons_self t _
  obtain ⟨e, he, rfl⟩ := h.mem_task.mp ht
  have h_line : waiting k'.log = (waiting k.log).eraseP fun e' => e'.task = e.task := by
    rw [h_pop.log, waiting_snoc]; rfl
  have h_sub : (waiting k'.log).Sublist (waiting k.log) := h_line ▸ List.eraseP_sublist
  have h_fresh : FreshStamps k'.log → FreshStamps k.log := fun h_f =>
    AtEach.of_append (h_pop.log ▸ h_f)
  -- one entry goes out; what is left is still in order and still falls
  refine ⟨h_pop.ordered h.ordered, ?_, fun e' he' => ?_, fun h_f => ?_, fun h_f => ?_⟩
  · have h_cons : Multiset.ofList ((waiting k.log).map Entry.task) =
        e.task ::ₘ Multiset.ofList ((waiting k'.log).map Entry.task) := by
      obtain ⟨e', w₁, w₂, -, h_e', h_eq, h_erase⟩ :=
        @List.exists_of_eraseP _ (fun e' => decide (e'.task = e.task)) _ _ he (by simp)
      rw [h_line, h_erase, h_eq, ← of_decide_eq_true h_e', List.map_append, List.map_append,
        List.map_cons]
      exact (Multiset.coe_eq_coe.mpr List.perm_middle)
    rw [h.tasks, h_pop.tasks] at h_cons
    exact ((Multiset.cons_inj_right _).mp h_cons).symm
  · rw [h_pop.backing]
    exact h.keys e' (h_sub.subset he')
  · exact (h.falling (h_fresh h_f)).sublist h_sub
  · rw [h_pop.log, fifo_snoc]
    refine ⟨h.fifo (h_fresh h_f), fun t h_eq => ?_⟩
    -- the task that is popped is the first of its priority
    obtain rfl : e.task = t := by simpa using h_eq
    exact h.first_of_popped (h_fresh h_f) h_pop

theorem heapSteps (h : HeapInv k) (h_steps : HeapSteps k k') : HeapInv k' := by
  induction h_steps with
  | refl => exact h
  | pop _ h_pop ih => exact ih.pop h_pop
  | add _ ht h_add ih => exact ih.add ht h_add
  | quiet _ h_q ih => exact ih.quiet h_q

end HeapInv

/-! ### Runs -/

/-- In this round, each insertion reads less than the waiting tasks of the same priority did. TIMER3
counts down, so this is so as long as it is read at different values and is not reloaded while they
wait. -/
def FreshStep (k : Kernel) (u : UserRun) : Prop := ∀ k', k.kmain u = .ok k' → FreshStamps k'.log

/-- Nothing is in the heap yet. -/
theorem heapInv_bootKernel (env : BootEnv) : HeapInv (bootKernel env) where
  ordered i _ hi := absurd hi (Nat.not_lt_zero i)
  tasks := rfl
  keys e he := absurd (show e ∈ [] from he) List.not_mem_nil
  falling _ := List.Pairwise.nil
  fifo _ := atEach_nil

/-- The first two tasks have different priorities. -/
theorem freshStamps_boot {env : BootEnv} {k : Kernel} (h : boot env = .ok k) :
    FreshStamps k.log := by
  have h_log : k.log = [.ready ⟨0, by decide⟩ (-99) (env.timer3 0),
      .ready ⟨1, by decide⟩ 100 (env.timer3 1)] := by
    rw [← Except.ok.inj ((show boot env = .ok _ from rfl).symm.trans h)]
    rfl
  rw [h_log]
  change FreshStamps (([] ++ [_]) ++ [_])
  rw [freshStamps_snoc, freshStamps_snoc]
  refine ⟨⟨atEach_nil, fun _ _ _ _ w hw => absurd hw List.not_mem_nil⟩, ?_⟩
  rintro t priority stamp h_eq w hw rfl
  obtain rfl := List.mem_singleton.mp hw
  simp at h_eq

/-- The invariant of a run whose insertions are fresh. The partition is needed for the heap to hold
no task twice. -/
structure FreshInv (k : Kernel) : Prop where
  partitioned : Partitioned k
  heap : HeapInv k
  fresh : FreshStamps k.log

theorem freshInv_boot {env : BootEnv} {k : Kernel} (h : boot env = .ok k) : FreshInv k := by
  obtain ⟨L, h_k, h_settled⟩ := (boot_returns env).of_eq h
  exact ⟨⟨L, h_k.partition, h_settled⟩, (heapInv_bootKernel env).heapSteps h_k.heap,
    freshStamps_boot h⟩

theorem FreshInv.step {k k' : Kernel} {u : UserRun} (h : FreshInv k) (h_fresh : FreshStep k u)
    (h_step : k.kmain u = .ok k') : FreshInv k' := by
  obtain ⟨h_part, h_steps⟩ := (kmain_returns h.partitioned u).of_eq h_step
  exact ⟨h_part, h.heap.heapSteps h_steps, h_fresh k' h_step⟩

/-- An accepted `Reply` puts the sender into the heap before the replier. -/
theorem syscallReply_log {k k' : Kernel} {cur target : TaskTid} (h : k.syscallReply cur = .ok k')
    (h_target : taskAt (k.mem.replyArgs (k.getData cur)).tid = some target)
    (h_reply : (k.backing target).state = .reply) :
    ∃ p s e p' s', k'.log = k.log ++ [.ready target p s, e, .ready cur p' s'] := by
  unfold syscallReply at h
  simp only [h_target, h_reply] at h
  -- the sender is put into the heap first
  cases h_add : (k.deliverReply cur target).addToReadyQueue target with
  | error e => simp [h_add, bind, Except.bind] at h
  | ok k₁ =>
    simp only [h_add, bind, Except.bind, reduceCtorEq, ↓reduceIte, ne_eq, not_true_eq_false] at h
    have h_log := (addToReadyQueue_ok h_add).log
    have h_log' := (addToReadyQueue_ok h).log
    -- the log grows by the two insertions, with the event of the reply between them
    have h_rec : ((k₁.setReturn cur (k.replyCopy cur target).1).record
        (k.replyEvent (k₁.setReturn cur (k.replyCopy cur target).1) cur target)).log =
        k₁.log ++ [k.replyEvent (k₁.setReturn cur (k.replyCopy cur target).1) cur target] := rfl
    have h_same : (k.deliverReply cur target).log = k.log := rfl
    rw [h_rec, h_log, h_same, List.append_assoc, List.append_assoc] at h_log'
    exact ⟨_, _, _, _, _, h_log'⟩

/-- **Round robin.** In a run in which each insertion into the ready heap reads less than the
waiting tasks of the same priority did, tasks of equal priority leave the heap in the order in which
they were put there; and an accepted `Reply` puts the sender there before the replier.

Priorities that are equal are ordered by readings of TIMER3, which counts down. Two equal readings,
or a reading behind a reload, put a task before one that has waited for longer. `FreshStep` is about
the readings of one round and the heap before it. -/
theorem fifo_of_fresh {ls : List UserRun} {k : Kernel} (h : system.Reaches FreshStep ls k) :
    Fifo k.log ∧ ∀ (k₁ k₂ : Kernel) (cur target : TaskTid),
      k₁.syscallReply cur = .ok k₂ →
      taskAt (k₁.mem.replyArgs (k₁.getData cur)).tid = some target →
      (k₁.backing target).state = .reply →
      ∃ p s e p' s', k₂.log = k₁.log ++ [.ready target p s, e, .ready cur p' s'] := by
  -- in a fresh step, whoever comes in has the smallest stamp of its priority
  have h_inv : FreshInv k := h.invariant (fun _ ⟨_, _, h_boot⟩ => freshInv_boot h_boot)
    fun _ _ _ h_k h_fresh h_step => h_k.step h_fresh h_step
  exact ⟨h_inv.heap.fifo h_inv.fresh, fun _ _ _ _ => syscallReply_log⟩

/-! ### Runs of a board -/

/-- A task that yields. -/
def yieldRun : UserRun := userRun zeroMemory 0 .yield

/-- Logs in which each insertion reads less, on a concrete run. -/
theorem reaches_of_logAfter {env : BootEnv} {us : List UserRun} {log : List KernelEvent}
    (h_timer : Timer3 env.timer3) (h : (logAfter env us).toOption = some log)
    (h_fresh : FreshStamps log) : ∃ ls k, system.Reaches FreshStep ls k ∧ k.log = log := by
  obtain ⟨k, k', h_boot, h_rounds, rfl⟩ := ok_of_logAfter h
  have h_start : system.Reaches FreshStep [] k := .start ⟨env, h_timer, h_boot⟩
  obtain ⟨ls, h_ls⟩ := reaches_rounds h_start (freshInv_boot h_boot).partitioned h_rounds
    fun k₁ u k₂ h_step ⟨es, h_es⟩ k₂' h_step' => by
      obtain rfl := Except.ok.inj (h_step.symm.trans h_step')
      exact AtEach.of_append (h_es ▸ h_fresh)
  exact ⟨ls, k', h_ls, rfl⟩

/-- One round, in which the first task creates another. -/
theorem fifo_of_fresh_create : ∃ k : Kernel, k.log = [.ready 0 (-99) (2 ^ 32 - 1),
    .ready 1 100 (2 ^ 32 - 2), .popped 1, .ready 2 100 (2 ^ 32 - 3), .ready 1 100 (2 ^ 32 - 4)] ∧
    Fifo k.log := by
  have h_log : (logAfter (zeroBoard tickingTimer) [createRun 100]).toOption =
      some [.ready 0 (-99) (2 ^ 32 - 1), .ready 1 100 (2 ^ 32 - 2), .popped 1,
        .ready 2 100 (2 ^ 32 - 3), .ready 1 100 (2 ^ 32 - 4)] := by decide +kernel
  obtain ⟨ls, k, h_reach, h_eq⟩ := reaches_of_logAfter timer3_ticking h_log (by
    change FreshStamps ((((([] ++ [_]) ++ [_]) ++ [_]) ++ [_]) ++ [_])
    simp only [freshStamps_snoc]
    refine ⟨⟨⟨⟨⟨atEach_nil, ?_⟩, ?_⟩, ?_⟩, ?_⟩, ?_⟩ <;> rintro t priority stamp ⟨⟩ <;> decide)
  exact ⟨k, h_eq, (fifo_of_fresh h_reach).1⟩

/-! ### Where it fails -/

/-- TIMER3 read once per tick, but for the readings 4 and 5, which fall within
one tick. -/
def repeatingTimer (i : ℕ) : ℕ := 2 ^ 32 - 1 - (if i ≤ 4 then i else i - 1) % 2 ^ 32

theorem timer3_repeating : Timer3 repeatingTimer := by
  refine ⟨fun i => if i ≤ 4 then i else i - 1, fun i j h => ?_, fun _ => rfl⟩
  dsimp only
  split_ifs <;> omega

/-- Three tasks of one priority, two of which are put into the heap within one
tick: the one that was put there later is popped first. -/
theorem not_fifo_repeating : ¬∀ k, system.Reachable k → Fifo k.log := by
  intro h_all
  have h_log : (logAfter (zeroBoard repeatingTimer)
      [createRun 100, createRun 100, yieldRun, yieldRun]).toOption =
      some ([.ready 0 (-99) (2 ^ 32 - 1), .ready 1 100 (2 ^ 32 - 2), .popped 1,
        .ready 2 100 (2 ^ 32 - 3), .ready 1 100 (2 ^ 32 - 4), .popped 2,
        .ready 3 100 (2 ^ 32 - 5), .ready 2 100 (2 ^ 32 - 5), .popped 1,
        .ready 1 100 (2 ^ 32 - 6)] ++ .popped 2 :: [.ready 2 100 (2 ^ 32 - 7)]) := by
    decide +kernel
  obtain ⟨k, k', h_boot, h_rounds, h_eq⟩ := ok_of_logAfter h_log
  have h_start : system.Reaches (fun _ _ => True) [] k := .start ⟨_, timer3_repeating, h_boot⟩
  obtain ⟨ls, h_ls⟩ := reaches_rounds h_start (freshInv_boot h_boot).partitioned h_rounds
    fun _ _ _ _ _ => trivial
  obtain ⟨w₁, e, w₂, h_line, h_task, h_first⟩ := h_all k' ⟨ls, h_ls⟩ _ _ _ h_eq 2 rfl
  have h_line : w₁ ++ e :: w₂ = [⟨0, -99, 2 ^ 32 - 1⟩, ⟨3, 100, 2 ^ 32 - 5⟩,
    ⟨2, 100, 2 ^ 32 - 5⟩, ⟨1, 100, 2 ^ 32 - 6⟩] := h_line.symm.trans (by decide +kernel)
  -- task 3 has the priority of task 2 and stands before it
  rcases w₁ with _ | ⟨a, _ | ⟨b, w₁⟩⟩
  · obtain ⟨rfl, -⟩ := List.cons.inj h_line
    exact absurd h_task (by decide)
  · obtain ⟨-, h_line⟩ := List.cons.inj h_line
    obtain ⟨rfl, -⟩ := List.cons.inj h_line
    exact absurd h_task (by decide)
  · obtain ⟨-, h_tail⟩ := List.cons.inj h_line
    obtain ⟨h_b, h_rest⟩ := List.cons.inj h_tail
    have h_mem : e ∈ w₁ ++ e :: w₂ := by simp
    have h_prio : e.priority = 100 := by
      rw [show w₁ ++ e :: w₂ = _ from h_rest] at h_mem
      simp only [List.mem_cons, List.not_mem_nil, or_false] at h_mem
      obtain rfl | rfl := h_mem <;> rfl
    refine h_first b (List.mem_cons_of_mem a List.mem_cons_self) ?_
    rw [h_b, h_prio]

end Kernel
end PollingExpress
