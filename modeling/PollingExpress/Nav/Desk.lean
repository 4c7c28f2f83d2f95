import PollingExpress.Nav.Reservations

/-!
# What the server does for one train

A message of train `t` changes what the server knows of `t` (its `Desk`), the
reservation table and the log, and leaves the desks of the other trains alone.
`DeskStep` says once what such a message can do, with everything that is tested on the
way and every answer in its order; `NextTask` is the part of it that
`process_next_task` does. `navigationServer_deskStep` is the inversion: what the
handlers compute is a `DeskStep`. All invariants of the server are read off it.

A handler is followed operation by operation (`Acts`). The two printers are answered at
the end of most of them (`flush`), so they are kept out of it (`Handled`).
-/

namespace PollingExpress

open Ownership

namespace Nav

abbrev Table : Type := NodeNum → Option TrainNum

/-- What the server knows of one train. -/
structure Desk where
  state : NavigationState
  client : Option NavTask
  shouldHang : Bool
  trainState : TrainState
  curTask : StraightpathTask
  /-- The parked straightpath worker. -/
  driver : Option NavTask
  tasks : Fifo NavigationTask
  /-- The parked pathfind worker. -/
  pathfinder : Option NavTask
  search : PathfindTask

namespace NavServer

def desk (s : NavServer) (t : TrainNum) : Desk where
  state := s.states t
  client := s.clients t
  shouldHang := s.shouldHang t
  trainState := s.trainStates t
  curTask := s.curStraightpathTasks t
  driver := s.straightpathWorkersParking t
  tasks := s.navigationTasks t
  pathfinder := s.pathfindWorkersParking t
  search := s.pathfindTasks t

end NavServer

/-! ### One operation -/

/-- From `s` to `s'` only the desk of `t` and the table change, and `es` is logged. -/
structure Acts (s s' : NavServer) (t : TrainNum) (d : Desk) (f : Table) (es : List NavEvent) :
    Prop where
  desk : s'.desk = Function.update s.desk t d
  table : s'.reservedNodes = f
  log : s'.log = s.log ++ es
  reservationClient : s'.reservationClient = s.reservationClient
  trainstatePrintClient : s'.trainstatePrintClient = s.trainstatePrintClient

namespace Acts

variable {T : Track} {s s₁ s₂ : NavServer} {t : TrainNum} {d d₁ : Desk} {f f₁ : Table}
  {es es₁ : List NavEvent}

theorem refl (s : NavServer) (t : TrainNum) : Acts s s t (s.desk t) s.reservedNodes [] where
  desk := (Function.update_eq_self t s.desk).symm
  table := rfl
  log := (List.append_nil _).symm
  reservationClient := rfl
  trainstatePrintClient := rfl

theorem self (h : Acts s s₁ t d f es) : s₁.desk t = d := by rw [h.desk, Function.update_self]

/-- An operation on the arrays of `t` that logs nothing. -/
theorem then_desk (h : Acts s s₁ t d f es) (h_desk : s₂.desk = Function.update s₁.desk t d₁)
    (h_rest : s₂.reservedNodes = s₁.reservedNodes ∧ s₂.log = s₁.log ∧
      s₂.reservationClient = s₁.reservationClient ∧
      s₂.trainstatePrintClient = s₁.trainstatePrintClient) : Acts s s₂ t d₁ f es where
  desk := by rw [h_desk, h.desk, Function.update_idem]
  table := h_rest.1.trans h.table
  log := h_rest.2.1.trans h.log
  reservationClient := h_rest.2.2.1.trans h.reservationClient
  trainstatePrintClient := h_rest.2.2.2.trans h.trainstatePrintClient

/-- Two servers with the same arrays, except for those of `t`. -/
theorem desk_eq_update {s s' : NavServer} {t : TrainNum} {d : Desk} (h_self : s'.desk t = d)
    (h_ne : ∀ u, u ≠ t → s'.desk u = s.desk u) : s'.desk = Function.update s.desk t d := by
  funext u
  by_cases h_u : u = t
  · subst h_u
    rw [Function.update_self, h_self]
  · rw [Function.update_of_ne h_u, h_ne u h_u]

theorem setState (h : Acts s s₁ t d f es) (state : NavigationState) :
    Acts s (s₁.setState t state) t { d with state } f es := by
  refine h.then_desk (desk_eq_update ?_ fun u h_u => ?_) ⟨rfl, rfl, rfl, rfl⟩
  · simp [← h.self, NavServer.desk, NavServer.setState]
  · simp [NavServer.desk, NavServer.setState, h_u]

theorem setClient (h : Acts s s₁ t d f es) (client : Option NavTask) :
    Acts s (s₁.setClient t client) t { d with client } f es := by
  refine h.then_desk (desk_eq_update ?_ fun u h_u => ?_) ⟨rfl, rfl, rfl, rfl⟩
  · simp [← h.self, NavServer.desk, NavServer.setClient]
  · simp [NavServer.desk, NavServer.setClient, h_u]

theorem setShouldHang (h : Acts s s₁ t d f es) (shouldHang : Bool) :
    Acts s (s₁.setShouldHang t shouldHang) t { d with shouldHang } f es := by
  refine h.then_desk (desk_eq_update ?_ fun u h_u => ?_) ⟨rfl, rfl, rfl, rfl⟩
  · simp [← h.self, NavServer.desk, NavServer.setShouldHang]
  · simp [NavServer.desk, NavServer.setShouldHang, h_u]

theorem setTrainState (h : Acts s s₁ t d f es) (g : TrainState → TrainState) :
    Acts s (s₁.setTrainState t g) t { d with trainState := g d.trainState } f es := by
  refine h.then_desk (desk_eq_update ?_ fun u h_u => ?_) ⟨rfl, rfl, rfl, rfl⟩
  · simp [← h.self, NavServer.desk, NavServer.setTrainState]
  · simp [NavServer.desk, NavServer.setTrainState, h_u]

theorem setCurTask (h : Acts s s₁ t d f es) (curTask : StraightpathTask) :
    Acts s { s₁ with
      curStraightpathTasks := Function.update s₁.curStraightpathTasks t curTask } t
      { d with curTask } f es := by
  refine h.then_desk (desk_eq_update ?_ fun u h_u => ?_) ⟨rfl, rfl, rfl, rfl⟩
  · simp [← h.self, NavServer.desk]
  · simp [NavServer.desk, h_u]

theorem parkStraightpathWorker (h : Acts s s₁ t d f es) (driver : Option NavTask) :
    Acts s (s₁.parkStraightpathWorker t driver) t { d with driver } f es := by
  refine h.then_desk (desk_eq_update ?_ fun u h_u => ?_) ⟨rfl, rfl, rfl, rfl⟩
  · simp [← h.self, NavServer.desk, NavServer.parkStraightpathWorker]
  · simp [NavServer.desk, NavServer.parkStraightpathWorker, h_u]

theorem setNavigationTasks (h : Acts s s₁ t d f es) (tasks : Fifo NavigationTask) :
    Acts s (s₁.setNavigationTasks t tasks) t { d with tasks } f es := by
  refine h.then_desk (desk_eq_update ?_ fun u h_u => ?_) ⟨rfl, rfl, rfl, rfl⟩
  · simp [← h.self, NavServer.desk, NavServer.setNavigationTasks]
  · simp [NavServer.desk, NavServer.setNavigationTasks, h_u]

theorem parkPathfindWorker (h : Acts s s₁ t d f es) (pathfinder : Option NavTask) :
    Acts s (s₁.parkPathfindWorker t pathfinder) t { d with pathfinder } f es := by
  refine h.then_desk (desk_eq_update ?_ fun u h_u => ?_) ⟨rfl, rfl, rfl, rfl⟩
  · simp [← h.self, NavServer.desk, NavServer.parkPathfindWorker]
  · simp [NavServer.desk, NavServer.parkPathfindWorker, h_u]

theorem setPathfindTask (h : Acts s s₁ t d f es) (search : PathfindTask) :
    Acts s (s₁.setPathfindTask t search) t { d with search } f es := by
  refine h.then_desk (desk_eq_update ?_ fun u h_u => ?_) ⟨rfl, rfl, rfl, rfl⟩
  · simp [← h.self, NavServer.desk, NavServer.setPathfindTask]
  · simp [NavServer.desk, NavServer.setPathfindTask, h_u]

theorem emit (h : Acts s s₁ t d f es) (e : NavEvent) : Acts s (s₁.emit e) t d f (es ++ [e]) where
  desk := h.desk
  table := h.table
  log := by rw [← List.append_assoc, ← h.log]; rfl
  reservationClient := h.reservationClient
  trainstatePrintClient := h.trainstatePrintClient

theorem reply (h : Acts s s₁ t d f es) (client : Option NavTask) (res : NavResponse) :
    Acts s (s₁.reply client res) t d f (es ++ [.reply client res]) := h.emit _

theorem touchTrainStates (h : Acts s s₁ t d f es) : Acts s s₁.touchTrainStates t d f es :=
  ⟨h.desk, h.table, h.log, h.reservationClient, h.trainstatePrintClient⟩

theorem withTable (h : Acts s s₁ t d f es) (f₁ : Table) (dirty : Bool) :
    Acts s (s₁.withTable f₁ dirty) t d f₁ es :=
  ⟨h.desk, rfl, h.log, h.reservationClient, h.trainstatePrintClient⟩

end Acts

/-- The table after `clear_reserved_by_train`. -/
def Desk.cleared (T : Track) (t : TrainNum) (d : Desk) (f : Table) : Table :=
  free T.reverse d.trainState.regedAtNum t (List.finRange trackMax) f

theorem Acts.clearReservedByTrain {T : Track} {s s₁ : NavServer} {t : TrainNum} {d : Desk}
    {f : Table} {es : List NavEvent} (h : Acts s s₁ t d f es) (h_f : Symmetric T.reverse f) :
    Acts s (s₁.clearReservedByTrain T t) t d (d.cleared T t f) es := by
  obtain ⟨dirty, h_eq⟩ := NavServer.clearReservedByTrain_eq T t (h.table.symm ▸ h_f)
  have h_reged : s₁.regedAtNum t = d.trainState.regedAtNum :=
    congrArg (fun d => d.trainState.regedAtNum) h.self
  rw [h_eq, h.table, h_reged]
  exact h.withTable _ dirty

theorem Acts.reservePath {T : Track} {s s₁ : NavServer} {t : TrainNum} {d : Desk} {f : Table}
    {es : List NavEvent} (h : Acts s s₁ t d f es) (path : List NodeNum) :
    Acts s (s₁.reservePath T path t) t d (take T.reverse t path f) es := by
  obtain ⟨dirty, h_eq⟩ := @NavServer.reservePath_eq T s₁ t path
  rw [h_eq, h.table]
  exact h.withTable _ dirty

/-! ### What a message of a train does -/

namespace Desk

/-- `done_navigation`, but for the table. -/
def finished (d : Desk) : Desk :=
  if d.shouldHang then { d with state := .idle, client := none, shouldHang := false }
  else { d with state := .idle }

def finishAnswers (d : Desk) : List NavEvent :=
  if d.shouldHang then [.reply d.client .good] else []

def restarted (d : Desk) : Desk :=
  { d with
    state := .pathfinding
    tasks := d.tasks.clear
    search := {
      isValid := true
      train := d.trainState.trainNum
      sourceNum := d.trainState.regedAtNum
      destinationNum := d.trainState.destNum
      delayTime := 100 } }

/-- The client has been told that there is a route, unless it waits for the train. -/
def answered (d : Desk) : Desk :=
  if d.client ≠ none ∧ ¬d.shouldHang then { d with client := none } else d

def answers (d : Desk) : List NavEvent :=
  if d.client ≠ none ∧ ¬d.shouldHang then [.reply d.client .good] else []

/-- The train has been turned around at `n`. -/
def turned (T : Track) (n : NodeNum) (d : Desk) : Desk :=
  { d with trainState := { d.trainState with
      reversed := !d.trainState.reversed
      regedAtNum := some (T.reverse n)
      regedAtOffset := -100 } }

@[simp] theorem finished_state (d : Desk) : d.finished.state = .idle := by
  unfold finished
  split <;> rfl

@[simp] theorem finished_trainState (d : Desk) : d.finished.trainState = d.trainState := by
  unfold finished
  split <;> rfl

@[simp] theorem finished_curTask (d : Desk) : d.finished.curTask = d.curTask := by
  unfold finished
  split <;> rfl

@[simp] theorem finished_driver (d : Desk) : d.finished.driver = d.driver := by
  unfold finished
  split <;> rfl

@[simp] theorem finished_tasks (d : Desk) : d.finished.tasks = d.tasks := by
  unfold finished
  split <;> rfl

@[simp] theorem finished_pathfinder (d : Desk) : d.finished.pathfinder = d.pathfinder := by
  unfold finished
  split <;> rfl

@[simp] theorem finished_search (d : Desk) : d.finished.search = d.search := by
  unfold finished
  split <;> rfl

@[simp] theorem answered_state (d : Desk) : d.answered.state = d.state := by
  unfold answered
  split <;> rfl

@[simp] theorem answered_shouldHang (d : Desk) : d.answered.shouldHang = d.shouldHang := by
  unfold answered
  split <;> rfl

@[simp] theorem answered_trainState (d : Desk) : d.answered.trainState = d.trainState := by
  unfold answered
  split <;> rfl

@[simp] theorem answered_curTask (d : Desk) : d.answered.curTask = d.curTask := by
  unfold answered
  split <;> rfl

@[simp] theorem answered_driver (d : Desk) : d.answered.driver = d.driver := by
  unfold answered
  split <;> rfl

@[simp] theorem answered_tasks (d : Desk) : d.answered.tasks = d.tasks := by
  unfold answered
  split <;> rfl

@[simp] theorem answered_pathfinder (d : Desk) : d.answered.pathfinder = d.pathfinder := by
  unfold answered
  split <;> rfl

@[simp] theorem answered_search (d : Desk) : d.answered.search = d.search := by
  unfold answered
  split <;> rfl

/-- A client that is still recorded was recorded before. -/
theorem client_of_finished {d : Desk} {c : NavTask} (h : d.finished.client = some c) :
    d.client = some c := by
  unfold finished at h
  split at h
  · cases h
  · exact h

theorem client_of_answered {d : Desk} {c : NavTask} (h : d.answered.client = some c) :
    d.client = some c := by
  unfold answered at h
  split at h
  · cases h
  · exact h

/-- The desk after the request has been accepted. -/
def accepted (d : Desk) (client : NavTask) (destinationNum : NodeNum) (offset : Int32)
    (shouldHang : Bool) : Desk :=
  { d with
    state := .pathfinding
    client := some client
    shouldHang
    trainState := { d.trainState with destNum := some destinationNum, destOffset := offset } }

end Desk

/-- The straight path that `process_next_task` comes to, with a reversal before it or not. -/
inductive Approach (T : Track) (t : TrainNum) (d : Desk) :
    Desk → List NavEvent → StraightpathTask → Prop
  | straight {task : StraightpathTask} {tasks : Fifo NavigationTask}
      (h_pop : d.tasks.pop = some (.straight task, tasks)) :
      Approach T t d { d with tasks } [] task
  | turned {n : NodeNum} {task : NavigationTask} {tasks tasks' : Fifo NavigationTask}
      (h_pop : d.tasks.pop = some (.reverse, tasks)) (h_n : d.trainState.regedAtNum = some n)
      (h_next : tasks.pop = some (task, tasks')) :
      Approach T t d { d.turned T n with tasks := tasks' } [.hardReverse t] task.straightpathTask

/-- What `process_next_task` and the restart after it do. -/
inductive NextTask (T : Track) (t : TrainNum) (d : Desk) (f : Table) :
    List NavEvent → Desk → Table → Prop
  | drive {d₁ : Desk} {es : List NavEvent} {task : StraightpathTask} {last : NodeNum}
      {offset : Int32} (h : Approach T t d d₁ es task)
      (h_can : ∀ n ∈ task.path, d₁.cleared T t f n = none ∨ d₁.cleared T t f n = some t)
      (h_last : task.path.getLast? = some last)
      (h_offset : task.train = t → offset = d₁.trainState.regedAtOffset) :
      NextTask T t d f
        (es ++ [.reply d₁.driver (.straightpathHeresWork task.path (task.pathDist - offset)
          (if task.isStartupTask then 0 else 30))])
        { d₁ with
          curTask := task
          driver := none
          trainState := { d₁.trainState with regedAtNum := some last, regedAtOffset := 0 } }
        (take T.reverse t task.path (d₁.cleared T t f))
  | blocked {d₁ : Desk} {es : List NavEvent} {task : StraightpathTask}
      (h : Approach T t d d₁ es task)
      (h_not : ¬∀ n ∈ task.path, d₁.cleared T t f n = none ∨ d₁.cleared T t f n = some t) :
      NextTask T t d f es ({ d₁ with curTask := task } : Desk).restarted (d₁.cleared T t f)
  /-- The route ends with a reversal. -/
  | arrive {n : NodeNum} {tasks : Fifo NavigationTask}
      (h_pop : d.tasks.pop = some (.reverse, tasks)) (h_n : d.trainState.regedAtNum = some n)
      (h_next : tasks.pop = none) :
      NextTask T t d f (.hardReverse t :: d.finishAnswers)
        ({ d.turned T n with tasks } : Desk).finished ((d.turned T n).cleared T t f)

/-- What a message of train `t` does. -/
inductive DeskStep (T : Track) (t : TrainNum) (client : NavTask) (d : Desk) (f : Table) :
    NavRequest → List NavEvent → Desk → Table → Prop
  | busy {n : NodeNum} {offset : Int32} {hang : Bool} (h : d.state ≠ .idle) :
      DeskStep T t client d f (.navigationRequest t n offset hang) [.reply (some client) .busy] d f
  | needRegister {n : NodeNum} {offset : Int32} {hang : Bool} (h_idle : d.state = .idle)
      (h : d.trainState.regedAtNum = none) :
      DeskStep T t client d f (.navigationRequest t n offset hang)
        [.reply (some client) .needRegister] d f
  /-- The parked worker starts to search. -/
  | search {n source : NodeNum} {offset : Int32} {hang : Bool} {reserved : NodeNum → Bool}
      (h_idle : d.state = .idle) (h_source : d.trainState.regedAtNum = some source)
      (h_parked : d.pathfinder ≠ none) :
      DeskStep T t client d f (.navigationRequest t n offset hang)
        [.reply d.pathfinder (.pathfindHeresWork t (some source) (some n) reserved 0)]
        { d.accepted client n offset hang with pathfinder := none } f
  | searchLater {n source : NodeNum} {offset : Int32} {hang : Bool} (h_idle : d.state = .idle)
      (h_source : d.trainState.regedAtNum = some source) (h_parked : d.pathfinder = none) :
      DeskStep T t client d f (.navigationRequest t n offset hang) []
        { d.accepted client n offset hang with search := {
            isValid := true
            train := t
            sourceNum := some source
            destinationNum := some n
            delayTime := 0 } } f
  | parkPathfinder (h : ¬(d.state = .pathfinding ∧ d.search.isValid)) :
      DeskStep T t client d f (.pathfindWorker t) [] { d with pathfinder := some client } f
  | giveSearch {reserved : NodeNum → Bool} (h_state : d.state = .pathfinding)
      (h_valid : d.search.isValid) :
      DeskStep T t client d f (.pathfindWorker t)
        [.reply (some client) (.pathfindHeresWork d.search.train d.search.sourceNum
          d.search.destinationNum reserved d.search.delayTime)]
        { d with pathfinder := none, search := { d.search with isValid := false } } f
  | noPath {path : RoutePath} (h_client : d.client ≠ none) :
      DeskStep T t client d f (.pathfindWorkerDone t .noPathAtAll path)
        [.reply (some client) .good, .reply d.client .noPath] { d with state := .idle } f
  | searchAgain {path : RoutePath} :
      DeskStep T t client d f (.pathfindWorkerDone t .noPathWithReserve path)
        (.reply (some client) .good :: d.answers)
        ({ d with state := .straightpathing } : Desk).answered.restarted f
  | follow {result : PathfindResult} {path : RoutePath} {tasks : Fifo NavigationTask}
      (h_path : ¬(d.client ≠ none ∧ result = .noPathAtAll)) (h_result : result ≠ .noPathWithReserve)
      (h_tasks : segmentsFillNavigationTasks T path d.tasks t d.trainState.destOffset = .ok tasks)
      (h_driver : d.driver = none) :
      DeskStep T t client d f (.pathfindWorkerDone t result path)
        (.reply (some client) .good :: d.answers)
        { ({ d with state := .straightpathing } : Desk).answered with tasks } f
  | followNow {result : PathfindResult} {path : RoutePath} {tasks : Fifo NavigationTask}
      {es : List NavEvent} {d' : Desk} {f' : Table}
      (h_path : ¬(d.client ≠ none ∧ result = .noPathAtAll)) (h_result : result ≠ .noPathWithReserve)
      (h_tasks : segmentsFillNavigationTasks T path d.tasks t d.trainState.destOffset = .ok tasks)
      (h_driver : d.driver ≠ none)
      (h : NextTask T t { ({ d with state := .straightpathing } : Desk).answered with tasks } f
        es d' f') :
      DeskStep T t client d f (.pathfindWorkerDone t result path)
        (.reply (some client) .good :: d.answers ++ .nextTask t tasks.items d.driver :: es) d' f'
  | parkDriver (h : ¬(d.state = .straightpathing ∧ d.tasks.items ≠ [])) :
      DeskStep T t client d f (.straightpathWorker t) [] { d with driver := some client } f
  | next {es : List NavEvent} {d' : Desk} {f' : Table} (h_state : d.state = .straightpathing)
      (h_tasks : d.tasks.items ≠ [])
      (h : NextTask T t { d with driver := some client } f es d' f') :
      DeskStep T t client d f (.straightpathWorker t)
        (.nextTask t d.tasks.items (some client) :: es) d' f'
  | arrived (h : d.tasks.items = []) :
      DeskStep T t client d f (.straightpathWorkerDone t)
        (d.finishAnswers ++ [.reply (some client) .good]) d.finished (d.cleared T t f)
  | drove (h : d.tasks.items ≠ []) :
      DeskStep T t client d f (.straightpathWorkerDone t) [.reply (some client) .good] d f
  | register {n : NodeNum} :
      DeskStep T t client d f (.registerLocation t n) [.reply (some client) .good]
        { d with trainState := { d.trainState with
            regedAtOffset := if (T.node n).type = .enter then 250 else 0
            regedAtNum := some n } }
        (take T.reverse t [n] (free T.reverse (some n) t (List.finRange trackMax) f))

/-- `Acts`, and the printers may have been answered behind it. -/
def Handled (s s' : NavServer) (t : TrainNum) (d : Desk) (f : Table) (es : List NavEvent) : Prop :=
  ∃ s₁, Acts s s₁ t d f es ∧ (s' = s₁ ∨ s' = s₁.flush)

/-! ### The handlers -/

section Handlers

variable {T : Track} {s s₁ s' : NavServer} {t : TrainNum} {client : NavTask} {d : Desk} {f : Table}
  {es : List NavEvent}

/-- The path of a task is free for the train, once the train has given back its nodes. -/
def Desk.Can (T : Track) (t : TrainNum) (d : Desk) (f : Table) (path : List NodeNum) : Prop :=
  ∀ n ∈ path, d.cleared T t f n = none ∨ d.cleared T t f n = some t

/-- A straight path is tried: the train gives back what it has, and then the path is free, is
reserved and handed to the driver, or it is not, and the caller has the route searched again. -/
theorem Acts.processStraightpathTask {task : StraightpathTask} {again : Bool}
    (h : Acts s s₁ t d f es) (h_f : Symmetric T.reverse f)
    (h_ok : s₁.processStraightpathTask T t task = .ok (again, s')) :
    (again = false ∧ d.Can T t f task.path ∧ ∃ last offset, task.path.getLast? = some last ∧
      (task.train = t → offset = d.trainState.regedAtOffset) ∧
      Acts s s' t
        { d with
          curTask := task
          driver := none
          trainState := { d.trainState with regedAtNum := some last, regedAtOffset := 0 } }
        (take T.reverse t task.path (d.cleared T t f))
        (es ++ [.reply d.driver (.straightpathHeresWork task.path (task.pathDist - offset)
          (if task.isStartupTask then 0 else 30))])) ∨
    (again = true ∧ ¬d.Can T t f task.path ∧
      Acts s s' t { d with curTask := task } (d.cleared T t f) es) := by
  unfold NavServer.processStraightpathTask at h_ok
  have h_clear := (h.setCurTask task).clearReservedByTrain h_f
  dsimp only at h_ok
  generalize ({ s₁ with
    curStraightpathTasks := Function.update s₁.curStraightpathTasks t task } :
    NavServer).clearReservedByTrain T t = s₂ at h_ok h_clear
  -- the table that is looked at is the one without the train's own reservations
  have h_can : s₂.canReserveSegment task.path t = true ↔ d.Can T t f task.path := by
    rw [NavServer.canReserveSegment_iff, h_clear.table]
    rfl
  split at h_ok
  · -- the path is free: it is reserved and given to the driver
    next h_yes =>
    cases h_last : task.path.getLast? with
    | none => simp [h_last] at h_ok
    | some last =>
      simp only [h_last, Except.ok.injEq, Prod.mk.injEq] at h_ok
      obtain ⟨rfl, rfl⟩ := h_ok
      have h_path := h_clear.reservePath (T := T) task.path
      generalize s₂.reservePath T task.path t = s₃ at h_path
      refine .inl ⟨rfl, h_can.mp h_yes, last, (s₃.trainStates task.train).regedAtOffset,
        rfl, ?_, ?_⟩
      · rintro rfl
        exact congrArg (fun d => d.trainState.regedAtOffset) h_path.self
      · have h_give := h_path.reply d.driver (.straightpathHeresWork task.path
          (task.pathDist - (s₃.trainStates task.train).regedAtOffset)
          (if task.isStartupTask then 0 else 30))
        have h_driver : s₃.straightpathWorkersParking t = d.driver :=
          congrArg Desk.driver h_path.self
        rw [NavServer.giveStraightpathWork, h_driver]
        exact (h_give.parkStraightpathWorker none).setTrainState _
  · -- the path is not free; the search is restarted by the caller
    next h_no =>
    obtain ⟨rfl, rfl⟩ := Prod.mk.inj (Except.ok.inj h_ok)
    exact .inr ⟨rfl, fun h_yes => h_no (h_can.mpr h_yes), h_clear⟩

theorem Acts.doneNavigation (h : Acts s s₁ t d f es) (h_f : Symmetric T.reverse f) :
    Acts s (s₁.doneNavigation T t) t d.finished (d.cleared T t f) (es ++ d.finishAnswers) := by
  have h_idle := (h.clearReservedByTrain h_f).setState .idle
  unfold NavServer.doneNavigation
  dsimp only
  generalize (s₁.clearReservedByTrain T t).setState t .idle = s₂ at h_idle
  have h_hang : s₂.shouldHang t = d.shouldHang := congrArg Desk.shouldHang h_idle.self
  have h_client : s₂.clients t = d.client := congrArg Desk.client h_idle.self
  rw [h_hang, h_client, Desk.finished, Desk.finishAnswers]
  split
  · exact ((h_idle.reply d.client .good).setClient none).setShouldHang false
  · rw [List.append_nil]
    exact h_idle

theorem Acts.hardReverse (h : Acts s s₁ t d f es) (h_ok : s₁.hardReverse T t = .ok s') :
    ∃ n, d.trainState.regedAtNum = some n ∧
      Acts s s' t (d.turned T n) f (es ++ [.hardReverse t]) := by
  unfold NavServer.hardReverse at h_ok
  have h_reged : s₁.regedAtNum t = d.trainState.regedAtNum :=
    congrArg (fun d => d.trainState.regedAtNum) h.self
  have h_emit := h.emit (.hardReverse t)
  dsimp only at h_ok
  split at h_ok
  · cases h_ok
  · next n h_n =>
    obtain rfl := Except.ok.inj h_ok
    exact ⟨n, h_reged.symm.trans h_n, (h_emit.setTrainState _).touchTrainStates⟩

theorem Acts.restartPathfind (h : Acts s s₁ t d f es) :
    Acts s (s₁.restartPathfind t) t d.restarted f es := by
  have h_desk := h.self
  subst h_desk
  exact ((h.setState .pathfinding).setNavigationTasks _).setPathfindTask _

/-- `process_next_task`, and what its callers do if the route has to be searched again. The queue
has a straight path in front, or a reversal, which is done at once before what is behind it is
looked at; with nothing behind it the navigation is over. -/
theorem Acts.processOrRestart (h : Acts s s₁ t d f es) (h_f : Symmetric T.reverse f)
    (h_ok : s₁.processOrRestart T t = .ok s') :
    ∃ es' d' f', NextTask T t d f es' d' f' ∧
      Handled s s' t d' f' (es ++ .nextTask t d.tasks.items d.driver :: es') := by
  have h_desk := h.self
  -- the straight path that is tried, once it has been found
  have h_path : ∀ {d₁ es₁ task again s₂ s₃}, Approach T t d d₁ es₁ task →
      Acts s s₂ t d₁ f (es ++ .nextTask t d.tasks.items d.driver :: es₁) →
      s₂.processStraightpathTask T t task = .ok (again, s₃) →
      (if again then .ok (s₃.restartPathfind t) else .ok s₃.flush) = (.ok s' : Except Fault _) →
      ∃ es' d' f', NextTask T t d f es' d' f' ∧
        Handled s s' t d' f' (es ++ .nextTask t d.tasks.items d.driver :: es') := by
    intro d₁ es₁ task again s₂ s₃ h_app h_acts h_task h_end
    obtain ⟨rfl, h_can, last, offset, h_last, h_offset, h_drive⟩ | ⟨rfl, h_not, h_blocked⟩ :=
      h_acts.processStraightpathTask h_f h_task
    · obtain rfl := Except.ok.inj h_end
      refine ⟨_, _, _, .drive h_app h_can h_last h_offset, _, ?_, .inr rfl⟩
      rwa [List.append_assoc, List.cons_append] at h_drive
    · obtain rfl := Except.ok.inj h_end
      exact ⟨_, _, _, .blocked h_app h_not, _, h_blocked.restartPathfind, .inl rfl⟩
  obtain ⟨⟨again, s₃⟩, h_next, h_end⟩ := of_bind_ok h_ok
  unfold NavServer.processNextTask at h_next
  have h_tasks : s₁.navigationTasks t = d.tasks := congrArg Desk.tasks h_desk
  have h_driver : s₁.straightpathWorkersParking t = d.driver := congrArg Desk.driver h_desk
  have h_emit := h.emit (.nextTask t d.tasks.items d.driver)
  dsimp only at h_next
  rw [h_tasks, h_driver] at h_next
  generalize h_called : s₁.emit (.nextTask t d.tasks.items d.driver) = called at h_next h_emit
  have h_called_tasks : called.navigationTasks t = d.tasks := congrArg Desk.tasks h_emit.self
  rw [h_called_tasks] at h_next
  -- the queue is empty, which is a fault, or it has a straight path or a reversal in front
  split at h_next
  · cases h_next
  · next task tasks h_pop =>
    exact h_path (.straight h_pop) (h_emit.setNavigationTasks tasks) h_next h_end
  · -- a reversal is done at once, and what is behind it is looked at
    next tasks h_pop =>
    obtain ⟨s₂, h_reverse, h_next⟩ := of_bind_ok h_next
    obtain ⟨n, h_n, h_turned⟩ := (h_emit.setNavigationTasks tasks).hardReverse h_reverse
    -- nothing behind the reversal: the navigation is over
    split at h_next
    · next h_empty =>
      obtain ⟨rfl, rfl⟩ := Prod.mk.inj (Except.ok.inj h_next)
      obtain rfl := Except.ok.inj h_end
      refine ⟨_, _, _, .arrive h_pop h_n h_empty, _, ?_, .inr rfl⟩
      have h_done := h_turned.doneNavigation h_f
      simp only [List.append_assoc, List.cons_append, List.nil_append] at h_done
      exact h_done
    · next task tasks' h_pop' =>
      have h_rest := h_turned.setNavigationTasks tasks'
      rw [List.append_assoc] at h_rest
      exact h_path (.turned h_pop h_n h_pop') h_rest h_next h_end

theorem Acts.answerClient (h : Acts s s₁ t d f es) :
    Acts s (s₁.answerClient t) t d.answered f (es ++ d.answers) := by
  have h_client : s₁.clients t = d.client := congrArg Desk.client h.self
  have h_hang : s₁.shouldHang t = d.shouldHang := congrArg Desk.shouldHang h.self
  unfold NavServer.answerClient
  rw [h_client, h_hang, Desk.answered, Desk.answers]
  split
  · exact (h.reply d.client .good).setClient none
  · rw [List.append_nil]
    exact h

/-- `NAVIGATION_REQUEST`: refused for a train that navigates already or was never registered, or
accepted, and then the search goes to the pathfinder if it is parked, and is kept for it if not. -/
theorem navigationRequest_deskStep (s : NavServer) (client : NavTask) (t : TrainNum) (n : NodeNum)
    (offset : Int32) (hang : Bool) : ∃ es d' f',
      DeskStep T t client (s.desk t) s.reservedNodes (.navigationRequest t n offset hang) es d' f' ∧
        Handled s (s.navigationRequest client t n offset hang) t d' f' es := by
  have h := Acts.refl s t
  unfold NavServer.navigationRequest
  split
  · -- the train navigates already
    next h_busy => exact ⟨_, _, _, .busy h_busy, _, h.reply _ _, .inl rfl⟩
  · next h_idle =>
    have h_idle : s.states t = .idle := not_not.mp h_idle
    split
    · -- the train was never registered
      next h_none => exact ⟨_, _, _, .needRegister h_idle h_none, _, h.reply _ _, .inl rfl⟩
    · next h_reged =>
      obtain ⟨source, h_source⟩ := Option.ne_none_iff_exists'.mp h_reged
      have h_accepted := ((((h.setState .pathfinding).setClient (some client)).setShouldHang
        hang).setTrainState fun st => { st with destNum := some n, destOffset :=
          offset }).touchTrainStates
      have h_from : (((s.setState t .pathfinding).setClient t (some client)).setShouldHang t
          hang).regedAtNum t = some source := h_source
      dsimp only
      rw [h_from]
      generalize ((((s.setState t .pathfinding).setClient t (some client)).setShouldHang t
        hang).setTrainState t _).touchTrainStates = s₁ at h_accepted ⊢
      have h_parked : s₁.pathfindWorkersParking t = (s.desk t).pathfinder :=
        congrArg Desk.pathfinder h_accepted.self
      unfold NavServer.startSearch
      rw [h_parked]
      -- a parked pathfinder is given the search; otherwise the search is kept
      split
      · next h_some =>
        exact ⟨_, _, _, .search h_idle h_source h_some, _,
          (h_accepted.reply _ _).parkPathfindWorker none, .inr rfl⟩
      · next h_no =>
        refine ⟨_, _, _, .searchLater h_idle h_source (not_not.mp h_no), _, ?_, .inr rfl⟩
        exact h_accepted.setPathfindTask _

/-- `PATHFIND_WORKER`. -/
theorem pathfindWorker_deskStep (s : NavServer) (client : NavTask) (t : TrainNum) : ∃ es d' f',
    DeskStep T t client (s.desk t) s.reservedNodes (.pathfindWorker t) es d' f' ∧
      Handled s (s.pathfindWorker client t) t d' f' es := by
  -- the worker is parked first, and unparked again if there is something to search
  have h := (Acts.refl s t).parkPathfindWorker (some client)
  unfold NavServer.pathfindWorker
  dsimp only
  split
  · next h_not =>
    refine ⟨_, _, _, .parkPathfinder fun h_work => ?_, _, h, .inl rfl⟩
    exact h_not.elim (fun h_state => h_state h_work.1) fun h_valid => h_valid h_work.2
  · next h_work =>
    obtain ⟨h_state, h_valid⟩ := not_or.mp h_work
    have h_parked : (s.parkPathfindWorker t (some client)).pathfindWorkersParking t = some client :=
      Function.update_self ..
    have h_search : (s.parkPathfindWorker t (some client)).pathfindTasks t = (s.desk t).search :=
      rfl
    rw [NavServer.givePathfinderWork, h_parked, h_search]
    exact ⟨_, _, _, .giveSearch (not_not.mp h_state) (not_not.mp h_valid), _,
      ((h.reply _ _).parkPathfindWorker none).setPathfindTask _, .inr rfl⟩

/-- `PATHFIND_WORKER_DONE`. The client is answered first; then the search is kept for another try,
or its route is cut into tasks, of which a parked driver gets the first at once. -/
theorem pathfindWorkerDone_deskStep {result : PathfindResult} {path : RoutePath}
    (h_f : Symmetric T.reverse s.reservedNodes)
    (h_ok : s.pathfindWorkerDone T client t result path = .ok s') : ∃ es d' f',
      DeskStep T t client (s.desk t) s.reservedNodes (.pathfindWorkerDone t result path) es d' f' ∧
        Handled s s' t d' f' es := by
  have h := ((Acts.refl s t).reply (some client) .good).setState .straightpathing
  unfold NavServer.pathfindWorkerDone at h_ok
  dsimp only at h_ok
  have h_client : ((s.reply (some client) .good).setState t .straightpathing).clients t =
      (s.desk t).client := rfl
  rw [h_client] at h_ok
  generalize (s.reply (some client) .good).setState t .straightpathing = s₁ at h h_ok
  -- no path and a client that is still to be answered
  split at h_ok
  · next h_no =>
    obtain ⟨h_some, rfl⟩ := h_no
    obtain rfl := Except.ok.inj h_ok
    exact ⟨_, _, _, .noPath h_some, _, (h.setState .idle).reply _ _, .inl rfl⟩
  · next h_path =>
    have h_answered := h.answerClient
    generalize s₁.answerClient t = s₂ at h_answered h_ok
    -- blocked by reservations, or a route that is cut into tasks
    split at h_ok
    · next h_result =>
      subst h_result
      obtain rfl := Except.ok.inj h_ok
      exact ⟨_, _, _, .searchAgain, _, h_answered.restartPathfind, .inl rfl⟩
    · next h_result =>
      obtain ⟨tasks, h_tasks, h_ok⟩ := of_bind_ok h_ok
      have h_desk := h_answered.self
      generalize h_d : ({ s.desk t with state := .straightpathing } : Desk).answered = answered
        at h_desk h_answered
      have h_same : answered.tasks = (s.desk t).tasks ∧ answered.driver = (s.desk t).driver ∧
          answered.trainState = (s.desk t).trainState := by
        rw [← h_d, Desk.answered_tasks, Desk.answered_driver, Desk.answered_trainState]
        exact ⟨rfl, rfl, rfl⟩
      have h_fill : segmentsFillNavigationTasks T path (s.desk t).tasks t
          (s.desk t).trainState.destOffset = .ok tasks := by
        have h_old : s₂.navigationTasks t = answered.tasks := congrArg Desk.tasks h_desk
        have h_offset : (s₂.trainStates t).destOffset = answered.trainState.destOffset :=
          congrArg (fun d => d.trainState.destOffset) h_desk
        rw [← h_same.1, ← h_same.2.2, ← h_old, ← h_offset]
        exact h_tasks
      have h_queued := h_answered.setNavigationTasks tasks
      have h_driver : (s₂.setNavigationTasks t tasks).straightpathWorkersParking t =
          (s.desk t).driver := (congrArg Desk.driver h_queued.self).trans h_same.2.1
      dsimp only at h_ok
      rw [h_driver] at h_ok
      subst h_d
      -- a parked driver gets the first of the tasks now
      split at h_ok
      · next h_parked =>
        obtain ⟨es', d', f', h_next, h_handled⟩ := h_queued.processOrRestart h_f h_ok
        refine ⟨_, d', f', .followNow h_path h_result h_fill h_parked h_next, ?_⟩
        rwa [h_same.2.1] at h_handled
      · next h_none =>
        obtain rfl := Except.ok.inj h_ok
        exact ⟨_, _, _, .follow h_path h_result h_fill (not_not.mp h_none), _, h_queued, .inr rfl⟩

/-- `STRAIGHTPATH_WORKER`. -/
theorem straightpathWorker_deskStep (h_f : Symmetric T.reverse s.reservedNodes)
    (h_ok : s.straightpathWorker T client t = .ok s') : ∃ es d' f',
      DeskStep T t client (s.desk t) s.reservedNodes (.straightpathWorker t) es d' f' ∧
        Handled s s' t d' f' es := by
  -- the worker is parked first; the next task, if there is one, finds it parked
  have h := (Acts.refl s t).parkStraightpathWorker (some client)
  unfold NavServer.straightpathWorker at h_ok
  dsimp only at h_ok
  split at h_ok
  · next h_not =>
    obtain rfl := Except.ok.inj h_ok
    refine ⟨_, _, _, .parkDriver fun h_work => ?_, _, h, .inl rfl⟩
    exact h_not.elim (fun h_state => h_state h_work.1) fun h_tasks => h_work.2 h_tasks
  · next h_work =>
    obtain ⟨h_state, h_tasks⟩ := not_or.mp h_work
    obtain ⟨es', d', f', h_next, h_handled⟩ := h.processOrRestart h_f h_ok
    exact ⟨_, d', f', .next (not_not.mp h_state) h_tasks h_next, h_handled⟩

/-- `STRAIGHTPATH_WORKER_DONE`. -/
theorem straightpathWorkerDone_deskStep (client : NavTask) (t : TrainNum)
    (h_f : Symmetric T.reverse s.reservedNodes) : ∃ es d' f',
      DeskStep T t client (s.desk t) s.reservedNodes (.straightpathWorkerDone t) es d' f' ∧
        Handled s (s.straightpathWorkerDone T client t) t d' f' es := by
  have h := Acts.refl s t
  unfold NavServer.straightpathWorkerDone
  dsimp only
  split
  · next h_empty =>
    exact ⟨_, _, _, .arrived h_empty, _, (h.doneNavigation h_f).reply _ _, .inr rfl⟩
  · next h_tasks => exact ⟨_, _, _, .drove h_tasks, _, h.reply _ _, .inr rfl⟩

/-- `REGISTER_LOCATION`. -/
theorem registerLocation_deskStep (client : NavTask) (t : TrainNum) (n : NodeNum)
    (h_f : Symmetric T.reverse s.reservedNodes) : ∃ es d' f',
      DeskStep T t client (s.desk t) s.reservedNodes (.registerLocation t n) es d' f' ∧
        Handled s (s.registerLocation T client t n) t d' f' es := by
  have h := ((Acts.refl s t).setTrainState fun st => { st with
    regedAtOffset := if (T.node n).type = .enter then 250 else 0
    regedAtNum := some n }).clearReservedByTrain h_f
  unfold NavServer.registerLocation
  dsimp only
  generalize (s.setTrainState t _).clearReservedByTrain T t = s₁ at h ⊢
  refine ⟨_, _, _, .register, _, ?_, .inr rfl⟩
  -- one node is reserved, and its reverse
  have h_node :
      s₁.reserveNode T n t = s₁.withTable (take T.reverse t [n] s₁.reservedNodes) true := by
    rw [take_singleton T.involutive]
    rfl
  rw [h_node, h.table]
  exact ((h.withTable _ true).reply (some client) .good).touchTrainStates

/-- A message that is not about one train. -/
inductive SharedStep (T : Track) (client : NavTask) (s : NavServer) : NavRequest → NavServer → Prop
  | greetDriver {t : TrainNum} (h : client = .straightpathWorker t) :
      SharedStep T client s (.whoami .straightpath) (s.reply (some client) (.whoami t)).flush
  | greetPathfinder {t : TrainNum} (h : client = .pathfindWorker t) :
      SharedStep T client s (.whoami .pathfind) (s.reply (some client) (.whoami t)).flush
  | getReservations :
      SharedStep T client s .getReservations { s with reservationClient := some client }.flush
  | getTrainState :
      SharedStep T client s .getTrainState { s with trainstatePrintClient := some client }.flush
  | attribution {sensorPool : Fin numSensors → Option TrainNum} {dirty : Bool} :
      SharedStep T client s (.attributionCourier sensorPool)
        ((s.withTable (NavServer.freeAttributed T s sensorPool (List.finRange numSensors)
          s.reservedNodes) dirty).reply (some client) .good).flush

/-- **The inversion.** Whatever the server does is one of these steps: there is a case for each
request, and a lemma for each of those that are about a train. From here on the desk of a train
stands for what the server has recorded about it in half a dozen tables. -/
theorem navigationServer_deskStep {req : NavRequest} (h_f : Symmetric T.reverse s.reservedNodes)
    (h_ok : s.navigationServer T client req = .ok s') :
    (∃ t es d' f', DeskStep T t client (s.desk t) s.reservedNodes req es d' f' ∧
      Handled s s' t d' f' es) ∨ SharedStep T client s req s' := by
  cases req with
  | navigationRequest t n offset hang =>
    obtain rfl := Except.ok.inj h_ok
    exact .inl ⟨t, navigationRequest_deskStep s client t n offset hang⟩
  | straightpathWorker t => exact .inl ⟨t, straightpathWorker_deskStep h_f h_ok⟩
  | straightpathWorkerDone t =>
    obtain rfl := Except.ok.inj h_ok
    exact .inl ⟨t, straightpathWorkerDone_deskStep client t h_f⟩
  | pathfindWorker t =>
    obtain rfl := Except.ok.inj h_ok
    exact .inl ⟨t, pathfindWorker_deskStep s client t⟩
  | pathfindWorkerDone t result path => exact .inl ⟨t, pathfindWorkerDone_deskStep h_f h_ok⟩
  | registerLocation t n =>
    obtain rfl := Except.ok.inj h_ok
    exact .inl ⟨t, registerLocation_deskStep client t n h_f⟩
  | getReservations =>
    obtain rfl := Except.ok.inj h_ok
    exact .inr .getReservations
  | getTrainState =>
    obtain rfl := Except.ok.inj h_ok
    exact .inr .getTrainState
  -- a worker of the type is told its train; anything else is a fault
  | whoami workerType =>
    change s.whoami client workerType = .ok s' at h_ok
    unfold NavServer.whoami at h_ok
    split at h_ok
    · obtain rfl := Except.ok.inj h_ok
      exact .inr (.greetDriver rfl)
    · obtain rfl := Except.ok.inj h_ok
      exact .inr (.greetPathfinder rfl)
    · cases h_ok
  | attributionCourier sensorPool =>
    obtain rfl := Except.ok.inj h_ok
    obtain ⟨dirty, h_eq⟩ := NavServer.attributionCourier_eq client sensorPool h_f
    rw [h_eq]
    exact .inr .attribution

end Handlers

end Nav
end PollingExpress
