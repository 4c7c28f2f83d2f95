import Mathlib.Data.List.FinRange
import Mathlib.Logic.Function.Basic
import PollingExpress.Framework.System
import PollingExpress.Nav.Segments

/-!
# The navigation server

`navigationserver.c`: one server for all trains. A client asks for a train to be
navigated; a pathfind worker of the train finds the route; the route is cut into
tasks; a straightpath worker of the train drives them one by one. A worker that has
nothing to do is parked: its message is not answered until there is work for it.
Nodes are reserved for the train that is about to drive over them.

The server answers one message at a time (`navigationServer`). Its answers, the
reversals it orders from the train server, and its calls of `process_next_task` are
appended to a ghost log.

A node number or a task id of -1 is `none`. Task ids are told apart by role
(`NavTask`), since `Create` gives each worker one of its own.

One assumption is made that the source does not keep. The answer to `GET_TRAIN_STATE`
passes `memcpy` a length that is `MAX_NUM_TRAINS` times too large: 864 bytes are copied,
out of an array of 144 bytes into a union of 588. Here the copy is taken to do no harm
(`NavServer.flush`), and is not a `Fault` as the other accesses outside an array are. So
every run of the model in which nobody asks for the train states is a run of the source,
and the results hold for those; in the source nothing is known of a run behind that answer.
-/

namespace PollingExpress
namespace Nav

inductive NavigationState
  | idle | pathfinding | straightpathing
  deriving DecidableEq

inductive PathfindResult
  | foundPath | noPathWithReserve | noPathAtAll
  deriving DecidableEq

inductive WorkerType
  | pathfind | straightpath
  deriving DecidableEq

/-- The tasks that send to the server. -/
inductive NavTask
  | pathfindWorker (train : TrainNum)
  | straightpathWorker (train : TrainNum)
  | other (tid : ℕ)
  deriving DecidableEq

/-- The number of sensors, which are the first nodes of the track. -/
def numSensors : ℕ := 80

instance : NeZero numSensors := ⟨by decide⟩

structure TrainState where
  trainNum : TrainNum
  regedAtNum : Option NodeNum
  destNum : Option NodeNum
  reversed : Bool
  regedAtOffset : Int32
  destOffset : Int32

structure PathfindTask where
  isValid : Bool
  train : TrainNum
  sourceNum : Option NodeNum
  destinationNum : Option NodeNum
  delayTime : Int

inductive NavRequest
  | navigationRequest (train : TrainNum) (destinationNum : NodeNum) (offset : Int32)
      (shouldHang : Bool)
  | straightpathWorker (train : TrainNum)
  | straightpathWorkerDone (train : TrainNum)
  | pathfindWorker (train : TrainNum)
  | pathfindWorkerDone (train : TrainNum) (result : PathfindResult) (path : RoutePath)
  /-- The train that each sensor is attributed to, if it is. -/
  | attributionCourier (sensorPool : Fin numSensors → Option TrainNum)
  | whoami (workerType : WorkerType)
  | getReservations
  | getTrainState
  | registerLocation (train : TrainNum) (nodeNum : NodeNum)

inductive NavResponse
  | good | noPath | needRegister | busy
  | straightpathHeresWork (path : List NodeNum) (pathDist : Int32) (delayTime : Int)
  | pathfindHeresWork (train : TrainNum) (srcNum destNum : Option NodeNum)
      (reservedNodes : NodeNum → Bool) (delayTime : Int)
  | whoami (train : TrainNum)
  | reservations (reservedNodes : NodeNum → Option TrainNum)
  | trainStates (trainStates : TrainNum → TrainState)

/-- What the ghost log records. -/
inductive NavEvent
  | reply (client : Option NavTask) (res : NavResponse)
  | hardReverse (train : TrainNum)
  /-- `process_next_task` is called, with these tasks in the queue and this worker parked. -/
  | nextTask (train : TrainNum) (tasks : List NavigationTask) (worker : Option NavTask)

/-- The variables of `navigation_server`, an entry for each train or node, and the log of its
replies. A tid of -1 is `none`, and so is a number of -1; a reservation is the train that has it. -/
structure NavServer where
  states : TrainNum → NavigationState
  reservedNodes : NodeNum → Option TrainNum
  reservationClient : Option NavTask
  trainstatePrintClient : Option NavTask
  reservationDirty : Bool
  trainStatesDirty : Bool
  clients : TrainNum → Option NavTask
  shouldHang : TrainNum → Bool
  trainStates : TrainNum → TrainState
  curStraightpathTasks : TrainNum → StraightpathTask
  straightpathWorkersParking : TrainNum → Option NavTask
  navigationTasks : TrainNum → Fifo NavigationTask
  pathfindWorkersParking : TrainNum → Option NavTask
  pathfindTasks : TrainNum → PathfindTask
  log : List NavEvent

namespace NavServer

variable (T : Track)

/-- `navigation_server` up to its loop. -/
def start : NavServer where
  states _ := .idle
  reservedNodes _ := none
  reservationClient := none
  trainstatePrintClient := none
  reservationDirty := false
  trainStatesDirty := true
  clients _ := none
  shouldHang _ := false
  trainStates t := ⟨t, none, none, false, -1, -1⟩
  curStraightpathTasks _ := zeroTask
  straightpathWorkersParking _ := none
  navigationTasks _ := .empty (some maxNavigationTasks)
  pathfindWorkersParking _ := none
  pathfindTasks _ := ⟨false, 0, some 0, some 0, 0⟩
  log := []

def emit (s : NavServer) (e : NavEvent) : NavServer := { s with log := s.log ++ [e] }

def reply (s : NavServer) (client : Option NavTask) (res : NavResponse) : NavServer :=
  s.emit (.reply client res)

def setState (s : NavServer) (t : TrainNum) (state : NavigationState) : NavServer :=
  { s with states := Function.update s.states t state }

def setTrainState (s : NavServer) (t : TrainNum) (f : TrainState → TrainState) : NavServer :=
  { s with trainStates := Function.update s.trainStates t (f (s.trainStates t)) }

def setClient (s : NavServer) (t : TrainNum) (client : Option NavTask) : NavServer :=
  { s with clients := Function.update s.clients t client }

def setShouldHang (s : NavServer) (t : TrainNum) (shouldHang : Bool) : NavServer :=
  { s with shouldHang := Function.update s.shouldHang t shouldHang }

def touchTrainStates (s : NavServer) : NavServer := { s with trainStatesDirty := true }

def setNavigationTasks (s : NavServer) (t : TrainNum) (tasks : Fifo NavigationTask) : NavServer :=
  { s with navigationTasks := Function.update s.navigationTasks t tasks }

def setPathfindTask (s : NavServer) (t : TrainNum) (task : PathfindTask) : NavServer :=
  { s with pathfindTasks := Function.update s.pathfindTasks t task }

def parkPathfindWorker (s : NavServer) (t : TrainNum) (client : Option NavTask) : NavServer :=
  { s with pathfindWorkersParking := Function.update s.pathfindWorkersParking t client }

def parkStraightpathWorker (s : NavServer) (t : TrainNum) (client : Option NavTask) : NavServer :=
  { s with straightpathWorkersParking := Function.update s.straightpathWorkersParking t client }

/-- Where the train is registered. -/
def regedAtNum (s : NavServer) (t : TrainNum) : Option NodeNum := (s.trainStates t).regedAtNum

/-! ### Reservations -/

/-- `can_reserve_segment`. -/
def canReserveSegment (s : NavServer) (path : List NodeNum) (t : TrainNum) : Bool :=
  path.all fun n => s.reservedNodes n = none ∨ s.reservedNodes n = some t

/-- `reserve_node`. -/
def reserveNode (s : NavServer) (n : NodeNum) (t : TrainNum) : NavServer :=
  { s with
    reservedNodes :=
      Function.update (Function.update s.reservedNodes n (some t)) (T.reverse n) (some t)
    reservationDirty := true }

/-- `reserve_path`. -/
def reservePath (s : NavServer) (path : List NodeNum) (t : TrainNum) : NavServer :=
  path.foldl (fun s n => s.reserveNode T n t) s

/-- `unreserve_node`. The place where the train is registered stays reserved. -/
def unreserveNode (s : NavServer) (n : NodeNum) (t : TrainNum) : NavServer :=
  if s.reservedNodes n = some t ∧ some n ≠ s.regedAtNum t ∧ some (T.reverse n) ≠ s.regedAtNum t then
    { s with
      reservationDirty := true
      reservedNodes := Function.update (Function.update s.reservedNodes n none) (T.reverse n) none }
  else s

/-- The loop of `unreserve_path_src_up_to_node`, over the rest of the path. -/
def unreserveUpTo (s : NavServer) (node : NodeNum) (t : TrainNum) : List NodeNum → NavServer
  | [] => s
  | n :: rest =>
    let s := s.unreserveNode T n t
    -- `node` itself is given back too
    if n = node then s else unreserveUpTo s node t rest

/-- `unreserve_path_src_up_to_node`. -/
def unreservePathSrcUpToNode (s : NavServer) (node : NodeNum) (t : TrainNum) : NavServer :=
  s.unreserveUpTo T node t (s.curStraightpathTasks t).path

/-- `clear_reserved_by_train`. -/
def clearReservedByTrain (s : NavServer) (t : TrainNum) : NavServer :=
  (List.finRange trackMax).foldl (fun s n => s.unreserveNode T n t) s

/-! ### Handing out work -/

/-- `give_pathfinder_work`. -/
def givePathfinderWork (s : NavServer) (worker : Option NavTask) (task : PathfindTask) :
    NavServer :=
  s.reply worker (.pathfindHeresWork task.train task.sourceNum task.destinationNum
    (fun n => !(s.reservedNodes n = none ∨ s.reservedNodes n = some task.train)) task.delayTime)

/-- `give_straightpath_work`. -/
def giveStraightpathWork (s : NavServer) (worker : Option NavTask) (task : StraightpathTask) :
    NavServer :=
  s.reply worker (.straightpathHeresWork task.path
    (task.pathDist - (s.trainStates task.train).regedAtOffset)
    (if task.isStartupTask then 0 else 30))

/-- `process_straightpath_task`: `true` if the route has to be searched again. -/
def processStraightpathTask (s : NavServer) (t : TrainNum) (task : StraightpathTask) :
    Except Fault (Bool × NavServer) :=
  let s := { s with curStraightpathTasks := Function.update s.curStraightpathTasks t task }
  let s := s.clearReservedByTrain T t
  -- what the train had reserved is free by now, but for its own place
  if s.canReserveSegment task.path t then
    let s := s.reservePath T task.path t
    let s := s.giveStraightpathWork (s.straightpathWorkersParking t) task
    let s := s.parkStraightpathWorker t none
    match task.path.getLast? with
    | none => .error .emptyPath
    | some last => .ok (false, s.setTrainState t fun st =>
        { st with regedAtNum := some last, regedAtOffset := 0 })
  else .ok (true, s)

/-- `done_navigation`. -/
def doneNavigation (s : NavServer) (t : TrainNum) : NavServer :=
  let s := s.clearReservedByTrain T t
  let s := s.setState t .idle
  if s.shouldHang t then
    ((s.reply (s.clients t) .good).setClient t none).setShouldHang t false
  else s

/-- The reversal that `process_next_task` starts with. -/
def hardReverse (s : NavServer) (t : TrainNum) : Except Fault NavServer :=
  let s := s.emit (.hardReverse t)
  match s.regedAtNum t with
  | none => .error .notRegistered
  | some n => .ok (s.setTrainState t fun st => { st with
      reversed := !st.reversed
      regedAtNum := some (T.reverse n)
      regedAtOffset := -100 }).touchTrainStates

/-- `process_next_task`: `true` if the route has to be searched again. -/
def processNextTask (s : NavServer) (t : TrainNum) : Except Fault (Bool × NavServer) :=
  let s := s.emit (.nextTask t (s.navigationTasks t).items (s.straightpathWorkersParking t))
  match (s.navigationTasks t).pop with
  -- `cb_pop_front` leaves the task unset
  | none => .error .emptyQueue
  | some (.straight task, tasks) => (s.setNavigationTasks t tasks).processStraightpathTask T t task
  | some (.reverse, tasks) => do
    let s ← (s.setNavigationTasks t tasks).hardReverse T t
    -- what is behind the reversal is read as a straight path
    match tasks.pop with
    | none => .ok (false, s.doneNavigation T t)
    | some (task, tasks) =>
      (s.setNavigationTasks t tasks).processStraightpathTask T t task.straightpathTask

/-- `restart_pathfind`. -/
def restartPathfind (s : NavServer) (t : TrainNum) : NavServer :=
  let s := s.setState t .pathfinding
  let s := s.setNavigationTasks t (s.navigationTasks t).clear
  s.setPathfindTask t {
    isValid := true
    train := (s.trainStates t).trainNum
    sourceNum := s.regedAtNum t
    destinationNum := (s.trainStates t).destNum
    delayTime := 100 }

/-! ### The loop -/

/-- The end of the loop body, which the branches that `continue` do not get to: the two
printers are answered if something has changed.

The copy of the train states reads and writes past the ends of both arrays in the source
(864 bytes for 144). It is assumed to do no harm: the answer has the train states, and the
server goes on. -/
def flush (s : NavServer) : NavServer :=
  let s := if s.reservationClient ≠ none ∧ s.reservationDirty then
      { s.reply s.reservationClient (.reservations s.reservedNodes) with
        reservationClient := none
        reservationDirty := false }
    else s
  if s.trainstatePrintClient ≠ none ∧ s.trainStatesDirty then
    { s.reply s.trainstatePrintClient (.trainStates s.trainStates) with
      trainstatePrintClient := none
      trainStatesDirty := false }
  else s

/-- The search goes to the parked worker, or waits for the worker to come. -/
def startSearch (s : NavServer) (t : TrainNum) (task : PathfindTask) : NavServer :=
  if s.pathfindWorkersParking t ≠ none then
    (s.givePathfinderWork (s.pathfindWorkersParking t) task).parkPathfindWorker t none
  else s.setPathfindTask t task

/-- `NAVIGATION_REQUEST`. -/
def navigationRequest (s : NavServer) (client : NavTask) (t : TrainNum)
    (destinationNum : NodeNum) (offset : Int32) (shouldHang : Bool) : NavServer :=
  if s.states t ≠ .idle then s.reply (some client) .busy
  else if s.regedAtNum t = none then s.reply (some client) .needRegister
  else
    let s := ((s.setState t .pathfinding).setClient t (some client)).setShouldHang t shouldHang
    let task : PathfindTask := {
      destinationNum := some destinationNum
      sourceNum := s.regedAtNum t
      train := t
      isValid := true
      delayTime := 0 }
    let s := (s.setTrainState t fun st => { st with
      destNum := some destinationNum, destOffset := offset }).touchTrainStates
    (s.startSearch t task).flush

/-- `PATHFIND_WORKER`. -/
def pathfindWorker (s : NavServer) (client : NavTask) (t : TrainNum) : NavServer :=
  let s := s.parkPathfindWorker t (some client)
  if s.states t ≠ .pathfinding ∨ ¬(s.pathfindTasks t).isValid then s
  else
    let s := s.givePathfinderWork (s.pathfindWorkersParking t) (s.pathfindTasks t)
    let s := s.parkPathfindWorker t none
    (s.setPathfindTask t { s.pathfindTasks t with isValid := false }).flush

/-- What `PATHFIND_WORKER_DONE` and `STRAIGHTPATH_WORKER` do with the next task. -/
def processOrRestart (s : NavServer) (t : TrainNum) : Except Fault NavServer := do
  let (shouldRestartPathfind, s) ← s.processNextTask T t
  if shouldRestartPathfind then .ok (s.restartPathfind t)
  else .ok s.flush

/-- The client that does not wait for the train to arrive is answered when there is a
route for it. -/
def answerClient (s : NavServer) (t : TrainNum) : NavServer :=
  if s.clients t ≠ none ∧ ¬s.shouldHang t then (s.reply (s.clients t) .good).setClient t none
  else s

/-- `PATHFIND_WORKER_DONE` with a route. -/
def followPath (s : NavServer) (t : TrainNum) (path : RoutePath) : Except Fault NavServer := do
  let tasks ← segmentsFillNavigationTasks T path (s.navigationTasks t) t
    (s.trainStates t).destOffset
  let s := s.setNavigationTasks t tasks
  if s.straightpathWorkersParking t ≠ none then s.processOrRestart T t
  else .ok s.flush

/-- `PATHFIND_WORKER_DONE`. -/
def pathfindWorkerDone (s : NavServer) (client : NavTask) (t : TrainNum)
    (result : PathfindResult) (path : RoutePath) : Except Fault NavServer :=
  let s := s.reply (some client) .good
  let s := s.setState t .straightpathing
  if s.clients t ≠ none ∧ result = .noPathAtAll then
    -- this branch continues, and the client stays noted
    .ok ((s.setState t .idle).reply (s.clients t) .noPath)
  else
    let s := s.answerClient t
    if result = .noPathWithReserve then .ok (s.restartPathfind t)
    -- without a client, also the path of a search that found none
    else s.followPath T t path

/-- `STRAIGHTPATH_WORKER`. -/
def straightpathWorker (s : NavServer) (client : NavTask) (t : TrainNum) :
    Except Fault NavServer :=
  let s := s.parkStraightpathWorker t (some client)
  -- nothing to hand out, and the branch continues
  if s.states t ≠ .straightpathing ∨ (s.navigationTasks t).items = [] then .ok s
  else s.processOrRestart T t

/-- `STRAIGHTPATH_WORKER_DONE`. -/
def straightpathWorkerDone (s : NavServer) (client : NavTask) (t : TrainNum) : NavServer :=
  let s := if (s.navigationTasks t).items = [] then s.doneNavigation T t else s
  (s.reply (some client) .good).flush

/-- `WHOAMI`. -/
def whoami (s : NavServer) (client : NavTask) (workerType : WorkerType) :
    Except Fault NavServer :=
  match workerType, client with
  | .straightpath, .straightpathWorker t => .ok (s.reply (some client) (.whoami t)).flush
  | .pathfind, .pathfindWorker t => .ok (s.reply (some client) (.whoami t)).flush
  | _, _ => .error .invalidWorker

/-- `REGISTER_LOCATION`. -/
def registerLocation (s : NavServer) (client : NavTask) (t : TrainNum) (n : NodeNum) :
    NavServer :=
  let offset := if (T.node n).type = .enter then 250 else 0
  let s := s.setTrainState t fun st => { st with
    regedAtOffset := offset, regedAtNum := some n }
  -- the new place is noted already, so it is not given back here
  let s := s.clearReservedByTrain T t
  let s := s.reserveNode T n t
  (s.reply (some client) .good).touchTrainStates.flush

/-- The node of a sensor. -/
def sensorNode (i : Fin numSensors) : NodeNum := i.castLE (by decide)

/-- `NAVIGATIONSERVER_ATTRIBUTION_COURIER`. -/
def attributionCourier (s : NavServer) (client : NavTask)
    (sensorPool : Fin numSensors → Option TrainNum) : NavServer :=
  let s := (List.finRange numSensors).foldl (fun s i =>
    match sensorPool i with
    | some t => s.unreservePathSrcUpToNode T (sensorNode i) t
    | none => s) s
  (s.reply (some client) .good).flush

/-- The loop body of `navigation_server`, for the message `req` of `client`. -/
def navigationServer (s : NavServer) (client : NavTask) : NavRequest → Except Fault NavServer
  | .navigationRequest t destinationNum offset shouldHang =>
    .ok (s.navigationRequest client t destinationNum offset shouldHang)
  | .pathfindWorker t => .ok (s.pathfindWorker client t)
  | .pathfindWorkerDone t result path => s.pathfindWorkerDone T client t result path
  | .straightpathWorker t => s.straightpathWorker T client t
  | .straightpathWorkerDone t => .ok (s.straightpathWorkerDone T client t)
  | .whoami workerType => s.whoami client workerType
  | .getReservations => .ok { s with reservationClient := some client }.flush
  | .getTrainState => .ok { s with trainstatePrintClient := some client }.flush
  | .registerLocation t n => .ok (s.registerLocation T client t n)
  | .attributionCourier sensorPool => .ok (s.attributionCourier T client sensorPool)

end NavServer

/-- A message, with its sender. -/
structure NavMessage where
  client : NavTask
  req : NavRequest

/-- The server, for messages of any tasks in any order. -/
def navSystem (T : Track) : System NavServer NavMessage where
  init s := s = .start
  step s m s' := s.navigationServer T m.client m.req = .ok s'

end Nav
end PollingExpress
