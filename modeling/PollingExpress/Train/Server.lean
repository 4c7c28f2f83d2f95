import Mathlib.Data.Fin.VecNotation
import PollingExpress.Common.Heap
import PollingExpress.Framework.Chain
import PollingExpress.Framework.System
import PollingExpress.Nav.Segments

/-!
# The train server

`trainserver.c`: the server between the other tasks and the track. A request for a train
or a switch becomes one to three commands, each with the time at which it is to be sent;
they wait in a heap. The worker polls with the time of the clock and gets the command on
top of the heap if its time has come.

A command is held in one of `MAX_TRAIN_CMDS` slots. The slots that are not in the heap
are linked through their `next` fields. What is in the fields of a slot that
`build_task` does not set is what was there before.

The server also passes on what it hears of the sensors and the switches (`flush`). All it
does for others goes into a ghost log; a command is logged when it goes into the heap and
when the worker gets it. `char` is unsigned, and a number becomes one modulo 256.
-/

namespace PollingExpress
namespace Train

open Nav (TrainNum maxNumTrains)

/-- `MAX_TRAIN_CMDS`. -/
def maxTrainCmds : ℕ := 100

/-- An element of `backing`. -/
abbrev Slot := Fin maxTrainCmds

instance : NeZero maxTrainCmds := ⟨by decide⟩

/-- Where the server's behaviour is undefined, or the kernel is stopped. -/
inductive Fault
  /-- The assertion of `build_task`. -/
  | noFreeTask
  /-- The assertion on the number of a switch. -/
  | badBranch
  /-- `branch_a` was written in front of its start. -/
  | branchUnderrun
  deriving DecidableEq

structure TrainTask where
  time : Int
  a : UInt8
  b : UInt8
  len : ℕ
  /-- The switch that is moved, or -1. -/
  branch : Int
  branchState : Int
  reqid : ℕ
  next : Option Slot

structure TrainEvent where
  time : Int
  sensors : Fin 10 → UInt8
  branchA : Fin 20 → UInt8
  branchB : Fin 4 → UInt8

inductive TrainRequest
  /-- `trackKnown` is `which_track != '?'` when the message is handled. -/
  | worker (time : Int) (trackKnown : Bool)
  | workerSensor (sensors : Fin 10 → UInt8) (time : Int)
  | sensorEvent
  | branchEvent
  | speed (target : TrainNum) (data time : Int)
  | reverse (target : TrainNum) (data time : Int)
  | switch (target data time : Int)

inductive TrainReply
  /-- An answer without content. -/
  | done
  /-- The worker is to ask the track for its sensors. -/
  | workerSensor
  /-- There is nothing to do. -/
  | worker
  | event (event : TrainEvent)

/-- What a command is. -/
structure Command where
  time : Int
  a : UInt8
  b : UInt8
  len : ℕ
  /-- The switch that is moved, and its new position. -/
  switch : Option (Int × Int)
  deriving DecidableEq

namespace TrainTask

def command (task : TrainTask) : Command where
  time := task.time
  a := task.a
  b := task.b
  len := task.len
  switch := if task.branch = -1 then none else some (task.branch, task.branchState)

/-- The command, with the number of the request. -/
def numbered (task : TrainTask) : Command × ℕ := (task.command, task.reqid)

end TrainTask

/-- What the ghost log records. -/
inductive TrainLog
  | reply (client : ℕ) (res : TrainReply)
  /-- A command goes into the heap. -/
  | scheduled (cmd : Command × ℕ)
  /-- `WORKER_CMD`, with `a`, `b`, `len` and `reqid` of the command, for a poll at this time. -/
  | command (client : ℕ) (cmd : Command × ℕ) (time : Int)

/-- The variables of `task_trainserver`, and the log of its replies. The heap holds indices of slots
into `backing`; those that are free are linked through the slots themselves. -/
structure TrainServer where
  backing : Slot → TrainTask
  heap : Heap Slot
  free : Option Slot
  reqid : ℕ
  sensors : Fin 10 → UInt8
  sensorDirty : Bool
  sensorWaiting : Option ℕ
  branchDirty : Bool
  branchWaiting : Option ℕ
  event : TrainEvent
  log : List TrainLog

/-- `supported_trains`. -/
def supportedTrains : TrainNum → Int := ![1, 24, 58, 74, 78, 79]

/-- `v_p_train_num`. -/
def vPTrainNum (num : TrainNum) : Int := supportedTrains num

namespace TrainServer

/-- `task_trainserver` up to its loop. -/
def start : TrainServer where
  backing i := {
    time := 0, a := 0, b := 0, len := 0, branch := 0, branchState := 0, reqid := 0
    next := if h : i.val + 1 < maxTrainCmds then some ⟨i.val + 1, h⟩ else none }
  heap := ⟨fun _ => 0, 0⟩
  free := some 0
  reqid := 0
  sensors _ := 0
  sensorDirty := false
  sensorWaiting := none
  branchDirty := false
  branchWaiting := none
  event := ⟨0, fun _ => 0, fun _ => 2, fun _ => 2⟩
  log := []

def emit (s : TrainServer) (e : TrainLog) : TrainServer := { s with log := s.log ++ [e] }

def reply (s : TrainServer) (client : ℕ) (res : TrainReply) : TrainServer :=
  s.emit (.reply client res)

/-- What the heap compares. -/
def timeOf (s : TrainServer) (i : Slot) : Int := (s.backing i).time

/-! ### Scheduling -/

/-- `build_task`. -/
def buildTask (s : TrainServer) (time : Int) (a b : UInt8) (len : ℕ) :
    Except Fault (Slot × TrainServer) :=
  match s.free with
  | none => .error .noFreeTask
  | some cur => .ok (cur, { s with
      free := (s.backing cur).next
      backing := Function.update s.backing cur { s.backing cur with
        time, a, b, len, branch := -1, reqid := s.reqid }
      reqid := s.reqid + 1 })

def heapAdd (s : TrainServer) (task : Slot) : TrainServer :=
  { s with heap := s.heap.heapAdd s.timeOf task }.emit (.scheduled (s.backing task).numbered)

/-- A command that moves no switch. -/
def schedule (s : TrainServer) (time : Int) (a b : UInt8) (len : ℕ) : Except Fault TrainServer := do
  let (task, s) ← s.buildTask time a b len
  .ok (s.heapAdd task)

/-- A command that moves switch `sw`. -/
def scheduleSwitch (s : TrainServer) (time sw data : Int) : Except Fault TrainServer := do
  let (task, s) ← s.buildTask time (UInt8.ofInt (33 + data)) (UInt8.ofInt sw) 2
  .ok ({ s with backing := Function.update s.backing task { s.backing task with
    branch := sw, branchState := data } }.heapAdd task)

/-- The other half of a three-way switch. -/
def partner (sw : Int) : Option Int :=
  if sw = 153 then some 154
  else if sw = 154 then some 153
  else if sw = 155 then some 156
  else if sw = 156 then some 155
  else none

/-- `!` of C. -/
def cNot (x : Int) : Int := if x = 0 then 1 else 0

/-! ### The messages -/

/-- `SPEED`. -/
def speed (s : TrainServer) (client : ℕ) (target : TrainNum) (data time : Int) :
    Except Fault TrainServer := do
  let target := UInt8.ofInt (vPTrainNum target)
  let s ← s.schedule time (UInt8.ofInt data ||| 16) target 2
  .ok (s.reply client .done)

/-- `REVERSE`. -/
def reverse (s : TrainServer) (client : ℕ) (target : TrainNum) (data time : Int) :
    Except Fault TrainServer := do
  let target := UInt8.ofInt (vPTrainNum target)
  let s ← s.schedule time 16 target 2
  -- the train has stopped by then
  let s ← s.schedule (time + 500) 15 target 2
  let s ← s.schedule (time + 510) (UInt8.ofInt data ||| 16) target 2
  .ok (s.reply client .done)

/-- The part of `SWITCH` for the other half of a three-way switch; the rest is for the time
that it leaves. -/
def switchPartner (s : TrainServer) (target data time : Int) : Except Fault (TrainServer × Int) :=
  match partner target with
  -- the other half goes the opposite way
  | some other => do
    let s ← s.scheduleSwitch (time + 20) other (cNot data)
    .ok (s, time + 20)
  | none => .ok (s, time)

/-- `SWITCH`. -/
def switch (s : TrainServer) (client : ℕ) (target data time : Int) : Except Fault TrainServer := do
  let s ← s.scheduleSwitch time target data
  let (s, time) ← s.switchPartner target data time
  let s ← s.schedule (time + 20) 32 0 1
  .ok (s.reply client .done)

/-- The event says where the switch is that a command moves. -/
def recordBranch (s : TrainServer) (top : TrainTask) : Except Fault TrainServer :=
  if top.branch = -1 then .ok s
  else if top.branch < 20 then
    if h : 0 ≤ top.branch ∧ top.branch < 20 then
      let branchA := Function.update s.event.branchA ⟨top.branch.toNat, by omega⟩
        (UInt8.ofInt top.branchState)
      .ok { s with event := { s.event with branchA }, branchDirty := true }
    -- a negative number passes the test of the source
    else .error .branchUnderrun
  else if h : 153 ≤ top.branch ∧ top.branch ≤ 156 then
    let branchB := Function.update s.event.branchB ⟨(top.branch - 153).toNat, by omega⟩
      (UInt8.ofInt top.branchState)
    .ok { s with event := { s.event with branchB }, branchDirty := true }
  else .error .badBranch

/-- `heap_pop`, and the slot goes to the free ones. -/
def retire (s : TrainServer) (top : Slot) : TrainServer :=
  { s with
    heap := s.heap.heapPop s.timeOf
    backing := Function.update s.backing top { s.backing top with next := s.free }
    free := some top }

/-- `WORKER`. -/
def worker (s : TrainServer) (client : ℕ) (time : Int) (trackKnown : Bool) :
    Except Fault TrainServer :=
  match s.heap.heapPeek with
  | some top =>
    if time ≥ s.timeOf top then do
      let task := s.backing top
      -- the event is written before the command is sent
      let s ← s.recordBranch task
      .ok ((s.retire top).emit (.command client task.numbered time))
    -- there is time for the sensors before the next command
    else if time + 7 < s.timeOf top ∧ trackKnown then .ok (s.reply client .workerSensor)
    else .ok (s.reply client .worker)
  | none =>
    if trackKnown then .ok (s.reply client .workerSensor) else .ok (s.reply client .worker)

/-- `WORKER_SENSOR`. -/
def workerSensor (s : TrainServer) (client : ℕ) (readings : Fin 10 → UInt8) (time : Int) :
    TrainServer :=
  -- what is on now and was not before adds to what nobody has fetched
  let triggered := fun i => s.event.sensors i ||| readings i &&& ~~~s.sensors i
  { s with
    event := { s.event with sensors := triggered, time }
    sensorDirty := s.sensorDirty || decide (∃ i, triggered i ≠ 0)
    sensors := readings }.reply client .done

/-- The end of the loop body: the tasks that wait for an event. -/
def flush (s : TrainServer) : TrainServer :=
  let s := match s.sensorWaiting with
    | some client =>
      if s.sensorDirty then
        { s.reply client (.event s.event) with
          sensorWaiting := none
          sensorDirty := false
          -- the sensors are handed out once
          event := { s.event with sensors := fun _ => 0 } }
      else s
    | none => s
  match s.branchWaiting with
  | some client =>
    if s.branchDirty then
      { s.reply client (.event s.event) with branchWaiting := none, branchDirty := false }
    else s
  | none => s

/-- What the message does, up to `flush`. -/
def handle (s : TrainServer) (client : ℕ) : TrainRequest → Except Fault TrainServer
  | .worker time trackKnown => s.worker client time trackKnown
  | .workerSensor readings time => .ok (s.workerSensor client readings time)
  | .sensorEvent => .ok { s with sensorWaiting := some client }
  | .branchEvent => .ok { s with branchWaiting := some client }
  | .speed target data time => s.speed client target data time
  | .reverse target data time => s.reverse client target data time
  | .switch target data time => s.switch client target data time

/-- The loop body of `task_trainserver`, for the message `req` of `client`. -/
def taskTrainserver (s : TrainServer) (client : ℕ) (req : TrainRequest) :
    Except Fault TrainServer := do
  let s ← s.handle client req
  .ok s.flush

end TrainServer

/-- A message, with its sender. -/
structure TrainMessage where
  client : ℕ
  req : TrainRequest

/-- The server, for messages of any tasks in any order. -/
def trainSystem : System TrainServer TrainMessage where
  init s := s = .start
  step s m s' := s.taskTrainserver m.client m.req = .ok s'

end Train
end PollingExpress
