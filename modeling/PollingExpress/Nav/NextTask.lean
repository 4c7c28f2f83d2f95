import PollingExpress.Nav.Handover

/-!
# There is a task when one is taken

`process_next_task` is called with a task in the queue and the straightpath worker
parked, and behind a REVERSE task there is a STRAIGHT one or nothing (`CallReady`).
The queue is empty until a route comes, and the tasks of a route alternate (`QueueOk`).

A search that finds no path at all for a train that has no client recorded is not told
apart from a found route, of no nodes: the queue stays empty, and is popped if the
straightpath worker is parked. `NoEmptyRoute` excludes just that.
-/

namespace PollingExpress
namespace Nav

/-- The tasks of train `t` can be executed one after the other. Between two reversals there is a
straight task, so that `process_next_task` finds one behind a reversal, or nothing; and a straight
task is for this train, with a path to drive on. -/
structure QueueOk (t : TrainNum) (tasks : List NavigationTask) : Prop where
  alternates : Cut.Alternates tasks
  straight : ∀ task, .straight task ∈ tasks → task.train = t ∧ task.path ≠ []

theorem QueueOk.nil (t : TrainNum) : QueueOk t [] := ⟨.nil, fun _ h => by cases h⟩

theorem QueueOk.tail {t : TrainNum} {a : NavigationTask} {tasks : List NavigationTask}
    (h : QueueOk t (a :: tasks)) : QueueOk t tasks :=
  ⟨h.alternates.of_cons, fun task h_mem => h.straight task (List.mem_cons_of_mem a h_mem)⟩

theorem QueueOk.take {t : TrainNum} {tasks : List NavigationTask} (h : QueueOk t tasks) (k : ℕ) :
    QueueOk t (tasks.take k) :=
  ⟨List.IsChain.take h.alternates k, fun task h_mem => h.straight task (List.mem_of_mem_take h_mem)⟩

/-- What a call of `process_next_task` for `t` finds. -/
structure CallReady (t : TrainNum) (tasks : List NavigationTask) (worker : Option NavTask) :
    Prop where
  tasks_ne : tasks ≠ []
  parked : worker = some (.straightpathWorker t)
  straight_next : ∀ next rest, tasks = .reverse :: next :: rest → ∃ task, next = .straight task
  path_ne : ∀ task, .straight task ∈ tasks → task.path ≠ []

theorem QueueOk.callReady {t : TrainNum} {tasks : List NavigationTask} (h : QueueOk t tasks)
    (h_ne : tasks ≠ []) : CallReady t tasks (some (.straightpathWorker t)) := by
  refine ⟨h_ne, rfl, ?_, fun task h_mem => (h.straight task h_mem).2⟩
  rintro next rest rfl
  cases next with
  | reverse => exact absurd ⟨rfl, rfl⟩ (List.isChain_cons_cons.mp h.alternates).1
  | straight task => exact ⟨task, rfl⟩

/-- A search that found no path at all is answered, or the straightpath worker is not parked.

If no client is recorded for the train, the report is taken for one of a route, and nothing is
queued for it; a straightpath worker that is parked is then handed the next task of the empty
queue. -/
def NoEmptyRoute (w : NavWorld) (m : NavMessage) : Prop :=
  match m.req with
  | .pathfindWorkerDone t .noPathAtAll _ =>
    w.server.clients t ≠ none ∨ w.server.straightpathWorkersParking t = none
  | _ => True

instance (w : NavWorld) (m : NavMessage) : Decidable (NoEmptyRoute w m) := by
  unfold NoEmptyRoute
  generalize m.req = req
  rcases req with _ | _
  case pathfindWorkerDone t result path => rcases result with _ | _ <;> infer_instance
  all_goals infer_instance

section

variable {T : Track} {t : TrainNum} {client : NavTask} {d d' : Desk} {p q : NavTaskState}
  {f f' : Table} {req : NavRequest} {es : List NavEvent}

/-- The queue after a report. It was empty, and holds the front of the tasks of the route now, of
which there is at least one if a path was found. -/
theorem queue_of_fill {result : PathfindResult} {source destination : Option NodeNum}
    {path : RoutePath} {tasks : Fifo NavigationTask} {offset : Int32}
    (h_reported : Reported T source destination result path)
    (h_cap : d.tasks.capacity = some maxNavigationTasks) (h_empty : d.tasks.items = [])
    (h : segmentsFillNavigationTasks T path d.tasks t offset = .ok tasks) :
    QueueOk t tasks.items ∧ (result = .foundPath → tasks.items ≠ []) := by
  obtain ⟨new, rfl, h_cut⟩ := segmentsFillNavigationTasks_cut h
  have h_items : (d.tasks.pushAll new).items = new.take maxNavigationTasks :=
    @Fifo.items_pushAll_take _ d.tasks _ [] h_cap (by rw [h_empty]; rfl) new
  -- a reported route passes no node twice; any other report has no nodes
  have h_nodup : path.nodes.Nodup := by
    unfold Reported at h_reported
    split at h_reported
    · exact h_reported.2.2.1
    · rw [h_reported.2]
      exact .nil
  have h_new : QueueOk t new := by
    refine ⟨h_cut.alternates h_nodup, fun task h_mem => ?_⟩
    obtain ⟨offset, h_task⟩ := h_cut.taskFor h_mem
    exact ⟨h_task.train_eq, h_task.path_ne⟩
  -- the queue keeps the front of the tasks, which is as good
  rw [h_items]
  refine ⟨h_new.take _, fun h_found => ?_⟩
  rw [Reported, if_pos h_found] at h_reported
  have h_ne := h_cut.ne_nil h_reported.2.1
  rw [Ne, List.take_eq_nil_iff, not_or]
  exact ⟨by decide, h_ne⟩

theorem NextTask.queue (h : NextTask T t d f es d' f') (h_queue : QueueOk t d.tasks.items) :
    QueueOk t d'.tasks.items := by
  have h_app : ∀ {d₁ es task}, Approach T t d d₁ es task → QueueOk t d₁.tasks.items := by
    rintro d₁ es task (h | ⟨h, -, h'⟩)
    · exact (Fifo.items_of_pop h ▸ h_queue).tail
    · exact (Fifo.items_of_pop h' ▸ (Fifo.items_of_pop h ▸ h_queue).tail).tail
  cases h with
  | drive h =>
    have h_rest := h_app h
    exact h_rest
  | blocked h => exact .nil t
  | arrive h_pop _ h_next =>
    rw [Desk.finished_tasks]
    exact (Fifo.items_of_pop h_pop ▸ h_queue).tail

/-- A message of the train keeps the shape of its queue. A report fills one that was empty, and
`process_next_task` takes tasks off from the front. -/
theorem DeskStep.queue {phase : NavPhase} (h : DeskStep T t client d f req es d' f')
    (h_cell : Cell t d p q) (h_calls : Calls T client phase req)
    (h_p : client = .pathfindWorker t → p.waiting = none ∧ p.phase = phase)
    (h_queue : QueueOk t d.tasks.items) : QueueOk t d'.tasks.items := by
  -- a queue is filled where the train was searching for, so it was empty before
  have h_filled : ∀ {result path tasks}, req = .pathfindWorkerDone t result path →
      segmentsFillNavigationTasks T path d.tasks t d.trainState.destOffset = .ok tasks →
      QueueOk t tasks.items := by
    rintro result path tasks rfl h_tasks
    obtain ⟨rfl, source, destination, rfl, h_reported⟩ := h_calls.pathfindWorkerDone
    have h_state := (h_cell.searching _ _ (h_p rfl).2).1
    exact (queue_of_fill h_reported h_cell.capacity
      (h_cell.queue_empty (by simp [h_state])) h_tasks).1
  cases h with
  | busy | needRegister | search | searchLater | parkPathfinder | giveSearch | noPath | parkDriver
  | drove | register => exact h_queue
  | searchAgain => exact .nil t
  | follow _ _ h_tasks => exact h_filled rfl h_tasks
  | followNow _ _ h_tasks _ h_next => exact h_next.queue (h_filled rfl h_tasks)
  | next _ _ h_next => exact h_next.queue h_queue
  | arrived =>
    rw [Desk.finished_tasks]
    exact h_queue

theorem NextTask.no_call (h : NextTask T t d f es d' f') {u : TrainNum}
    {tasks : List NavigationTask} {worker : Option NavTask} : .nextTask u tasks worker ∉ es := by
  have h_app : ∀ {d₁ es task}, Approach T t d d₁ es task → .nextTask u tasks worker ∉ es := by
    rintro d₁ es task (h | ⟨h, -, h'⟩) h_mem <;> simp at h_mem
  intro h_mem
  cases h with
  | drive h => simp [h_app h] at h_mem
  | blocked h => exact h_app h h_mem
  | arrive =>
    unfold Desk.finishAnswers at h_mem
    split at h_mem <;> simp at h_mem

/-- The calls of `process_next_task`: behind a report, if the driver is parked, and for a driver
that asks for work while there is some. In both cases the queue is not empty, but for a report of no
path at all. -/
theorem DeskStep.call {phase : NavPhase} (h : DeskStep T t client d f req es d' f')
    (h_cell : Cell t d p q) (h_calls : Calls T client phase req)
    (h_p : client = .pathfindWorker t → p.waiting = none ∧ p.phase = phase)
    (h_route : ∀ path, req = .pathfindWorkerDone t .noPathAtAll path →
      d.client ≠ none ∨ d.driver = none)
    (h_queue : QueueOk t d.tasks.items) {u : TrainNum} {tasks : List NavigationTask}
    {worker : Option NavTask} (h_mem : .nextTask u tasks worker ∈ es) :
    CallReady u tasks worker := by
  -- the answers to the client are no calls
  have h_answers : .nextTask u tasks worker ∉ d.answers := by
    unfold Desk.answers
    split <;> simp
  cases h with
  | searchAgain => simp [h_answers] at h_mem
  | follow => simp [h_answers] at h_mem
  | @followNow result path queued es d' f' h_path h_result h_tasks h_driver h_next =>
    simp only [List.cons_append, List.mem_cons, List.mem_append, h_answers, h_next.no_call,
      reduceCtorEq, false_or, or_false, NavEvent.nextTask.injEq] at h_mem
    obtain ⟨rfl, rfl, rfl⟩ := h_mem
    obtain ⟨rfl, source, destination, rfl, h_reported⟩ := h_calls.pathfindWorkerDone
    have h_state := (h_cell.searching _ _ (h_p rfl).2).1
    obtain ⟨h_ok, h_ne⟩ := queue_of_fill h_reported h_cell.capacity
      (h_cell.queue_empty (by simp [h_state])) h_tasks
    have h_found : result = .foundPath := by
      cases result with
      | foundPath => rfl
      | noPathWithReserve => exact absurd rfl h_result
      | noPathAtAll =>
        -- without a client, the worker would not be parked
        obtain h_client | h_none := h_route path rfl
        · exact absurd ⟨h_client, rfl⟩ h_path
        · exact absurd h_none h_driver
    obtain h_none | h_some := h_cell.driver
    · exact absurd h_none.1 h_driver
    · rw [h_some.1]
      exact h_ok.callReady (h_ne h_found)
  -- the driver has reported, so it is parked, and there is a task for it
  | next h_state h_tasks h_next =>
    simp only [List.mem_cons, h_next.no_call, or_false, NavEvent.nextTask.injEq] at h_mem
    obtain ⟨rfl, rfl, rfl⟩ := h_mem
    obtain ⟨rfl, -⟩ := h_calls.straightpathWorker
    exact h_queue.callReady h_tasks
  | arrived =>
    unfold Desk.finishAnswers at h_mem
    split at h_mem <;> simp at h_mem
  | _ => simp at h_mem

end

/-! ### Nothing uninitialised is executed -/

section

variable {T : Track} {s : NavServer} {t : TrainNum}

/-- Where `process_next_task` would go on with what it has not got. -/
def Fault.Uninitialised (fault : Fault) : Prop := fault = .emptyQueue ∨ fault = .emptyPath

/-- `process_next_task` reads nothing that is not there, if the queue has its shape and is not
empty: a straight task has a last node, and behind a reversal comes a straight task, if anything. -/
theorem processNextTask_defined (h_queue : QueueOk t (s.navigationTasks t).items)
    (h_ne : (s.navigationTasks t).items ≠ []) {fault : Fault} (h_fault : fault.Uninitialised) :
    s.processNextTask T t ≠ .error fault := by
  -- the path of a task in the queue has a last node
  have h_task : ∀ {s : NavServer} {task : StraightpathTask}, task.path ≠ [] →
      s.processStraightpathTask T t task ≠ .error fault := by
    intro s task h_path h
    unfold NavServer.processStraightpathTask at h
    dsimp only at h
    split at h
    · rw [List.getLast?_eq_some_getLast h_path] at h
      cases h
    · cases h
  intro h
  unfold NavServer.processNextTask at h
  dsimp only at h
  split at h
  · next h_pop => exact h_ne (Fifo.items_of_pop_none h_pop)
  · next task tasks h_pop =>
    have h_mem : .straight task ∈ (s.navigationTasks t).items := by
      rw [show (s.navigationTasks t).items = _ from Fifo.items_of_pop h_pop]
      exact List.mem_cons_self
    exact h_task (h_queue.straight task h_mem).2 h
  · next tasks h_pop =>
    have h_items : (s.navigationTasks t).items = .reverse :: tasks.items := Fifo.items_of_pop h_pop
    obtain h | ⟨s₁, -, h⟩ := of_bind_error h
    · unfold NavServer.hardReverse at h
      dsimp only at h
      split at h
      · obtain rfl := Except.error.inj h
        obtain h_eq | h_eq := h_fault <;> cases h_eq
      · cases h
    · split at h
      · cases h
      · next next tasks' h_pop' =>
        have h_next := Fifo.items_of_pop h_pop'
        rw [h_next] at h_items
        -- behind a reversal comes a straight task, if anything
        obtain ⟨task, rfl⟩ := (h_queue.callReady h_ne).straight_next next _ h_items
        refine h_task (h_queue.straight task ?_).2 h
        rw [h_items]
        simp

theorem processOrRestart_defined (h_queue : QueueOk t (s.navigationTasks t).items)
    (h_ne : (s.navigationTasks t).items ≠ []) {fault : Fault} (h_fault : fault.Uninitialised) :
    s.processOrRestart T t ≠ .error fault := by
  intro h
  obtain h | ⟨⟨again, s₁⟩, -, h⟩ := of_bind_error h
  · exact processNextTask_defined h_queue h_ne h_fault h
  · dsimp only at h
    split at h <;> cases h

/-- **Where a report goes wrong**: the route cannot be cut, or the first of its tasks cannot be
handed out. The answers to the worker and to the client come before that, and they do not fail. -/
theorem pathfindWorkerDone_error {client : NavTask} {result : PathfindResult} {path : RoutePath}
    {fault : Fault} (h : s.pathfindWorkerDone T client t result path = .error fault) :
    ∃ s₁ f es, Acts s s₁ t ({ s.desk t with state := .straightpathing } : Desk).answered f es ∧
      ¬((s.desk t).client ≠ none ∧ result = .noPathAtAll) ∧ result ≠ .noPathWithReserve ∧
      (segmentsFillNavigationTasks T path (s.desk t).tasks t (s.desk t).trainState.destOffset =
          .error fault ∨
        ∃ tasks, segmentsFillNavigationTasks T path (s.desk t).tasks t
            (s.desk t).trainState.destOffset = .ok tasks ∧ (s.desk t).driver ≠ none ∧
          (s₁.setNavigationTasks t tasks).processOrRestart T t = .error fault) := by
  unfold NavServer.pathfindWorkerDone at h
  dsimp only at h
  -- before the path is looked at, the worker and the client are answered; none of this fails
  have h_acts :=
    (((Acts.refl s t).reply (some client) .good).setState .straightpathing).answerClient
  have h_client : ((s.reply (some client) .good).setState t .straightpathing).clients t =
      (s.desk t).client := rfl
  rw [h_client] at h
  generalize ((s.reply (some client) .good).setState t .straightpathing).answerClient t = s₁
    at h_acts h
  split at h
  · cases h
  · next h_path =>
    split at h
    · cases h
    · next h_result =>
      -- what the answers leave alone: the queue, the driver and the offset of the destination
      have h_tasks : s₁.navigationTasks t = (s.desk t).tasks :=
        (congrArg Desk.tasks h_acts.self).trans (Desk.answered_tasks _)
      have h_driver : s₁.straightpathWorkersParking t = (s.desk t).driver :=
        (congrArg Desk.driver h_acts.self).trans (Desk.answered_driver _)
      have h_offset : (s₁.trainStates t).destOffset = (s.desk t).trainState.destOffset :=
        congrArg TrainState.destOffset
          ((congrArg Desk.trainState h_acts.self).trans (Desk.answered_trainState _))
      refine ⟨s₁, _, _, h_acts, h_path, h_result, ?_⟩
      rw [← h_tasks, ← h_driver, ← h_offset]
      obtain h | ⟨tasks, h_fill, h⟩ := of_bind_error h
      · exact .inl h
      · dsimp only at h
        split at h
        · next h_parked => exact .inr ⟨tasks, h_fill, h_parked, h⟩
        · cases h

variable {w : NavWorld} {m : NavMessage}

/-- No message makes the server read what is not there, but a report of no path at all that finds no
client and a parked worker. The cases are the requests. -/
theorem navigationServer_defined (h : Coupled T w)
    (h_queue : ∀ t, QueueOk t (w.server.navigationTasks t).items) (h_send : w.MaySend T m)
    (h_route : NoEmptyRoute w m) {fault : Fault} (h_fault : fault.Uninitialised) :
    w.server.navigationServer T m.client m.req ≠ .error fault := by
  obtain ⟨client, req⟩ := m
  intro h_error
  cases req with
  -- these messages do not fail
  | navigationRequest | straightpathWorkerDone | pathfindWorker | attributionCourier
  | getReservations | getTrainState | registerLocation => cases h_error
  | whoami workerType =>
    change w.server.whoami client workerType = .error fault at h_error
    unfold NavServer.whoami at h_error
    split at h_error
    · cases h_error
    · cases h_error
    · obtain rfl := Except.error.inj h_error
      obtain h_eq | h_eq := h_fault <;> cases h_eq
  -- the worker is given a task only from a queue that is not empty
  | straightpathWorker t =>
    change w.server.straightpathWorker T client t = .error fault at h_error
    unfold NavServer.straightpathWorker at h_error
    dsimp only at h_error
    split at h_error
    · cases h_error
    · next h_work =>
      exact @processOrRestart_defined T (w.server.parkStraightpathWorker t (some client)) t
        (h_queue t)
        (not_or.mp h_work).2 fault h_fault h_error
  | pathfindWorkerDone t result path =>
    obtain ⟨rfl, source, destination, h_phase, h_reported⟩ := h_send.2.pathfindWorkerDone
    have h_cell := h.cells t
    have h_state := (h_cell.searching _ _ h_phase).1
    obtain ⟨s₁, f, es, -, h_path, h_result, h_error | ⟨tasks, h_fill, h_parked, h_error⟩⟩ :=
      pathfindWorkerDone_error h_error
    · obtain rfl | rfl := segmentsFillNavigationTasks_fault h_error <;>
        obtain h_eq | h_eq := h_fault <;> cases h_eq
    · obtain ⟨h_ok, h_ne⟩ := queue_of_fill h_reported h_cell.capacity
        (h_cell.queue_empty (by simp [h_state])) h_fill
      -- an empty route is answered, or finds no worker that is parked
      have h_found : result = .foundPath := by
        cases result with
        | foundPath => rfl
        | noPathWithReserve => exact absurd rfl h_result
        | noPathAtAll =>
          obtain h_some | h_none := h_route
          · exact absurd ⟨h_some, rfl⟩ h_path
          · exact absurd h_none h_parked
      have h_queued : (s₁.setNavigationTasks t tasks).navigationTasks t = tasks :=
        Function.update_self ..
      refine processOrRestart_defined ?_ ?_ h_fault h_error
      · rwa [h_queued]
      · rw [h_queued]
        exact h_ne h_found

end

/-- **The queues keep their shape** in every step of the world. The desks of the other trains stay
as they are, and of the train itself the inversion says what has been queued or taken off. -/
theorem queue_of_step {T : Track} {w w' : NavWorld} {m : NavMessage} (h_w : Coupled T w)
    (h_queue : ∀ t, QueueOk t (w.server.desk t).tasks.items) (h_step : (worldSystem T).step w m w')
    (u : TrainNum) : QueueOk u (w'.server.desk u).tasks.items := by
  obtain h_same | ⟨es, d', f', h_train, h_desk⟩ := desk_of_step h_w.symmetric h_step u
  · rw [h_same]
    exact h_queue u
  · rw [h_desk]
    exact h_train.step.queue (h_w.cells u) h_step.1.2
      (fun h_eq => ⟨h_eq ▸ h_step.1.1, h_eq ▸ rfl⟩) (h_queue u)

theorem queues_of_reaches {T : Track} {ok : NavWorld → NavMessage → Prop} {ms : List NavMessage}
    {w : NavWorld} (h : (worldSystem T).Reaches ok ms w) :
    Coupled T w ∧ ∀ t, QueueOk t (w.server.desk t).tasks.items := by
  induction h with
  | start h =>
    obtain rfl := h
    exact ⟨coupled_start, fun t => .nil t⟩
  | next _ _ h_step ih => exact ⟨ih.1.step h_step, queue_of_step ih.1 ih.2 h_step⟩

/-- Every call of `process_next_task` so far was ready, and the next message does not lead to one
that is not: the server reads no task where there is none, and no train's place before it is
known. -/
structure NextTaskReady (T : Track) (w : NavWorld) : Prop where
  calls : ∀ t tasks worker, .nextTask t tasks worker ∈ w.server.log → CallReady t tasks worker
  defined : ∀ m, w.MaySend T m → NoEmptyRoute w m → ∀ fault : Fault, fault.Uninitialised →
    w.server.navigationServer T m.client m.req ≠ .error fault

/-- **There is a task**, in every run in which no empty route comes while the straightpath worker is
parked.

The queue holds what a report has put there, or the rest of it, and its tasks alternate (`QueueOk`);
`process_next_task` is called where the queue is not empty and the worker parked, with a STRAIGHT
task behind each reversal but the last. So none of the reads of the function is of something that
has not been written, for the next message either. -/
theorem next_task_ready {T : Track} {ms : List NavMessage} {w : NavWorld}
    (h : (worldSystem T).Reaches NoEmptyRoute ms w) : NextTaskReady T w := by
  let Inv : NavWorld → Prop := fun w => Coupled T w ∧
    (∀ t, QueueOk t (w.server.desk t).tasks.items) ∧
    ∀ t tasks worker, .nextTask t tasks worker ∈ w.server.log → CallReady t tasks worker
  have h_inv : Inv w := by
    refine h.invariant ?_ ?_
    · rintro w rfl
      exact ⟨coupled_start, fun t => .nil t, fun t tasks worker h_mem => by cases h_mem⟩
    · rintro w m w' ⟨h_w, h_queue, h_calls⟩ h_ok h_step
      -- a worker that sends has nothing to wait for, and is in the phase it sends from
      have h_p : ∀ t, m.client = .pathfindWorker t →
          (w.tasks (.pathfindWorker t)).waiting = none ∧
            (w.tasks (.pathfindWorker t)).phase = (w.tasks m.client).phase :=
        fun t h_eq => ⟨h_eq ▸ h_step.1.1, h_eq ▸ rfl⟩
      refine ⟨h_w.step h_step, queue_of_step h_w h_queue h_step, fun u tasks worker h_mem => ?_⟩
      -- the call is an old one, or one of this message; the printers are told of none
      obtain ⟨h_send, ⟨t, es, d', f', h_train⟩ | ⟨h_shared, -⟩⟩ :=
        world_step_cases h_w.symmetric h_step
      · obtain ⟨a, b, fl, h_printed, h_log, -⟩ := h_train.printed
        rw [h_log, List.mem_append, List.mem_append] at h_mem
        obtain h_mem | h_mem | h_mem := h_mem
        · exact h_calls u tasks worker h_mem
        · refine h_train.step.call (h_w.cells t) h_send.2 (h_p t) ?_ (h_queue t) h_mem
          intro path h_req
          rw [NoEmptyRoute, h_req] at h_ok
          exact h_ok
        · obtain ⟨res, res', rfl⟩ := h_printed.answers
          cases a <;> cases b <;> simp at h_mem
      · obtain ⟨own, s₁, a, b, fl, h_fl, -, h_log, h_own, -⟩ := h_shared.effect
        rw [h_fl.log, h_log, List.mem_append, List.mem_append] at h_mem
        obtain (h_mem | h_mem) | h_mem := h_mem
        · exact h_calls u tasks worker h_mem
        · obtain ⟨rfl, -⟩ | ⟨rfl, -⟩ | ⟨t, _, rfl, -⟩ := h_own <;> simp at h_mem
        · obtain ⟨res, res', rfl⟩ := h_fl.answers
          cases a <;> cases b <;> simp at h_mem
  obtain ⟨h_coupled, h_queue, h_calls⟩ := h_inv
  exact ⟨h_calls, fun m h_send h_route fault h_fault =>
    navigationServer_defined h_coupled h_queue h_send h_route h_fault⟩

theorem next_task_ready_driving : ∃ w : NavWorld,
    w.server.states 0 = .straightpathing ∧ NextTaskReady ringTrack w := by
  obtain ⟨w, h_reach, h_w⟩ := System.exists_reaches_of_play (@worldNext_step ringTrack) NoEmptyRoute
    (fun w => w.server.states 0 = .straightpathing) thereAndBack rfl (by decide +kernel)
  exact ⟨w, h_w, next_task_ready h_reach⟩

/-- What `pathfind_worker` reports when it has no path. -/
def noRoute : RoutePath := ⟨[], List.replicate trackMax 0, by simp⟩

/-- The search that was started again because of reservations finds no path at all, and the
client has its answer already: a task is taken from the empty queue. -/
theorem not_next_task_ready : ¬∀ w, (worldSystem ringTrack).Reachable w →
      ∀ m, w.MaySend ringTrack m →
    w.server.navigationServer ringTrack m.client m.req ≠ .error .emptyQueue := by
  intro h_all
  obtain ⟨w, h_reach, h_send, h_w⟩ := System.exists_reaches_of_play (@worldNext_step ringTrack)
    (fun _ _ => True) (fun w => w.MaySend ringTrack
        ⟨.pathfindWorker 0, .pathfindWorkerDone 0 .noPathAtAll noRoute⟩ ∧
      (match w.server.navigationServer ringTrack (.pathfindWorker 0)
        (.pathfindWorkerDone 0 .noPathAtAll noRoute) with
      | .error fault => fault == .emptyQueue
      | .ok _ => false) = true)
    (thereAndBack.take 6 ++ [
      ⟨.pathfindWorker 0, .pathfindWorkerDone 0 .noPathWithReserve noRoute⟩,
      ⟨.pathfindWorker 0, .pathfindWorker 0⟩]) rfl (by decide +kernel)
  refine h_all w h_reach.reachable _ h_send ?_
  split at h_w
  · next h_error =>
    rw [← eq_of_beq h_w]
    exact h_error
  · cases h_w

end Nav
end PollingExpress
