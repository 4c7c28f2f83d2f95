import Mathlib.Data.List.DropRight
import PollingExpress.Nav.Desk

/-!
# The navigation server and its clients

The server together with the tasks that send to it. Each train has a pathfind worker
and a straightpath worker that do what their loops do (`pathworker.c`,
`straightpathworker.c`): a worker says who it is once, then asks for work, does it and
reports. Any other task sends what it likes. Every task waits for the answer to a
message before it sends the next one.

A pathfind worker reports a route that `pathfind_worker` can build (`Reported`), or that
there is none. A straightpath worker is somewhere on its path: `ahead` is the part
behind the last sensor of the path that has been attributed to the train.

`Coupled` is what the server and the tasks know of each other; it holds in every
reachable world (`coupled_of_reaches`).
-/

namespace PollingExpress

open Ownership

namespace Nav

/-! ### The tasks -/

/-- What a worker is doing. -/
inductive NavPhase
  /-- It has not been told its train. -/
  | starting
  /-- It is about to ask for work. -/
  | calling
  | searching (source destination : Option NodeNum)
  | driving (path ahead : List NodeNum)
  deriving DecidableEq

structure NavTaskState where
  phase : NavPhase
  /-- The message that has not been answered. -/
  waiting : Option NavRequest

/-- What `pathfind_worker` can report for a search. -/
def Reported (T : Track) (source destination : Option NodeNum) (result : PathfindResult)
    (path : RoutePath) : Prop :=
  (∀ n ∈ path.padding, n = 0) ∧
    if result = .foundPath then
      path.nodes ≠ [] ∧ path.nodes.Nodup ∧ path.nodes.IsChain T.Joined ∧
        path.nodes.head? = source ∧ path.nodes.getLast? = destination
    else path.nodes = []

instance (T : Track) (source destination : Option NodeNum) (result : PathfindResult)
    (path : RoutePath) : Decidable (Reported T source destination result path) :=
  inferInstanceAs (Decidable (_ ∧ _))

/-- The messages of a task, in the order of its loop. -/
def Calls (T : Track) : NavTask → NavPhase → NavRequest → Prop
  | .pathfindWorker _, .starting, .whoami .pathfind => True
  | .pathfindWorker t, .calling, .pathfindWorker u => u = t
  | .pathfindWorker t, .searching source destination, .pathfindWorkerDone u result path =>
    u = t ∧ Reported T source destination result path
  | .straightpathWorker _, .starting, .whoami .straightpath => True
  | .straightpathWorker t, .calling, .straightpathWorker u => u = t
  | .straightpathWorker t, .driving _ _, .straightpathWorkerDone u => u = t
  | .other _, _, .navigationRequest _ _ _ _ => True
  | .other _, _, .getReservations => True
  | .other _, _, .getTrainState => True
  | .other _, _, .registerLocation _ _ => True
  | .other _, _, .attributionCourier _ => True
  | _, _, _ => False

instance (T : Track) (c : NavTask) (phase : NavPhase) (req : NavRequest) :
    Decidable (Calls T c phase req) := by
  unfold Calls
  split <;> infer_instance

namespace NavTaskState

/-- The task gets its answer. -/
def hear (x : NavTaskState) (res : NavResponse) : NavTaskState where
  waiting := none
  phase := match x.waiting, res with
    | some (.pathfindWorker _), .pathfindHeresWork _ source destination _ _ =>
      .searching source destination
    | some (.straightpathWorker _), .straightpathHeresWork path _ _ => .driving path path
    | _, _ => .calling

/-- Some sensor of the message is attributed to `t`, and is at node `n`. -/
def Attributed (sensorPool : Fin numSensors → Option TrainNum) (t : TrainNum) (n : NodeNum) :
    Prop :=
  ∃ i, sensorPool i = some t ∧ NavServer.sensorNode i = n

instance (sensorPool : Fin numSensors → Option TrainNum) (t : TrainNum) (n : NodeNum) :
    Decidable (Attributed sensorPool t n) :=
  inferInstanceAs (Decidable (∃ i, sensorPool i = some t ∧ NavServer.sensorNode i = n))

/-- A message of the courier says which sensors the trains have passed. -/
def pass (x : NavTaskState) (c : NavTask) (req : NavRequest) : NavTaskState :=
  match c, req, x.phase with
  | .straightpathWorker t, .attributionCourier sensorPool, .driving path ahead =>
    { x with phase := .driving path (ahead.rtakeWhile fun n => ¬Attributed sensorPool t n) }
  | _, _, _ => x

end NavTaskState

/-! ### The world -/

/-- The answers to task `c`. -/
def heardBy (c : NavTask) (es : List NavEvent) : List NavResponse :=
  es.filterMap fun
    | .reply client res => if client = some c then some res else none
    | _ => none

/-- The server, and for each task what it is doing and what it waits for. -/
structure NavWorld where
  server : NavServer
  tasks : NavTask → NavTaskState

namespace NavWorld

def start : NavWorld := ⟨.start, fun _ => ⟨.starting, none⟩⟩

/-- What the server has done between two states. -/
def newEvents (s s' : NavServer) : List NavEvent := s'.log.drop s.log.length

/-- The task after it has sent `m`, if it is the sender, and after what `m` says. -/
def sent (w : NavWorld) (m : NavMessage) (c : NavTask) : NavTaskState :=
  (if c = m.client then { w.tasks c with waiting := some m.req } else w.tasks c).pass c m.req

/-- The world after the server has handled `m`, and is in `s'`. -/
def after (w : NavWorld) (m : NavMessage) (s' : NavServer) : NavWorld where
  server := s'
  tasks c := (heardBy c (newEvents w.server s')).foldl NavTaskState.hear (w.sent m c)

/-- `m` can be sent next. -/
def MaySend (T : Track) (w : NavWorld) (m : NavMessage) : Prop :=
  (w.tasks m.client).waiting = none ∧ Calls T m.client (w.tasks m.client).phase m.req

instance (T : Track) (w : NavWorld) (m : NavMessage) : Decidable (w.MaySend T m) :=
  inferInstanceAs (Decidable (_ ∧ _))

end NavWorld

/-- The server with its tasks: the two workers of each train, and any number of others. A message is
one that its sender may send next (`MaySend`), in any order among the tasks, and the tasks hear the
answers to it at once. -/
def worldSystem (T : Track) : System NavWorld NavMessage where
  init w := w = .start
  step w m w' := w.MaySend T m ∧
    ∃ s', w.server.navigationServer T m.client m.req = .ok s' ∧ w' = w.after m s'

/-- The world after `m`, if it can be sent and the server's behaviour is defined. -/
def worldNext (T : Track) (w : NavWorld) (m : NavMessage) : Option NavWorld :=
  if w.MaySend T m then (navNext T w.server m).map (w.after m) else none

theorem worldNext_step {T : Track} (w : NavWorld) (m : NavMessage) (w' : NavWorld)
    (h : worldNext T w m = some w') : (worldSystem T).step w m w' := by
  unfold worldNext at h
  split at h
  · next h_send =>
    obtain ⟨s', h_next, rfl⟩ := Option.map_eq_some_iff.mp h
    exact ⟨h_send, s', navNext_step _ _ _ h_next, rfl⟩
  · cases h

end Nav
end PollingExpress
