import Mathlib.Data.Fintype.Pi
import PollingExpress.Common.CircularBuffer
import PollingExpress.Framework.System
import PollingExpress.Nav.Server

/-!
# The dispatch server

`dispatchserver.c`: the server between the sensors and the workers. A worker subscribes to a
few sensors for its train. An update of the sensors answers the trains whose sensors it
triggers, takes back all that they have subscribed to, and says of each triggered sensor whom
it is attributed to; this pool goes to the sensor printer and, through a buffer for one of
them, to the attribution courier.

What the server does for a message is logged as a `Round`, with the answers in the order in
which they are given. A sensor number is one of the `NUM_SENSOR_GROUPS * SENSORS_PER_GROUP`,
which is what the arrays are indexed by, and times are as the clock has them.
-/

namespace PollingExpress
namespace Dispatch

open Nav (TrainNum maxNumTrains numSensors)

/-- `MAX_SUBSCRIBED_SENSORS`. -/
def maxSubscribedSensors : ℕ := 5

abbrev Sensor := Fin numSensors

/-- `NOT_TRIGGERED`. -/
def notTriggered : Int := -1

/-- `UNATTRIBUTED`. -/
def unattributed : Int := -2

abbrev Pool := Sensor → Int

inductive Fault
  | tooManySensors
  | alreadySubscribed
  /-- `CB_FULL`. -/
  | attributionFull
  /-- A train is answered whose worker is not known. -/
  | noWorker
  deriving DecidableEq

inductive DispatchRequest
  | subscribeSensorList (sensors : List Sensor) (train : TrainNum)
  | attributionPrint
  | subscriptionPrint
  | attributionCourier
  | straightpathworkerInit (train : TrainNum)
  | sensorUpdate (readings : Fin 10 → UInt8) (time : ℕ)

inductive DispatchResponse
  /-- `DISPATCHSERVER_GOOD` and nothing else. -/
  | good
  | subscribeSensorList (triggered : List Sensor) (len : ℕ) (time : ℕ)
  | subscribeSensorPrint (pool : Pool) (time : ℕ)
  /-- The time in it is not set. -/
  | attributionCourier (pool : Pool)
  | subscriptionPrint (subscriptions : Sensor → Option TrainNum)
  deriving DecidableEq

structure DispatchMessage where
  client : ℕ
  req : DispatchRequest

/-- What the server did for a message. -/
structure Round where
  message : DispatchMessage
  replies : List (ℕ × DispatchResponse)
  /-- `sensor_pool`, for an update. -/
  pool : Option Pool

structure DispatchServer where
  straightpathworkers : TrainNum → Option ℕ
  sensorPrinter : Option ℕ
  subscribePrinter : Option ℕ
  attributionCourier : Option ℕ
  /-- The buffer, if it is valid. -/
  attributionCourierBuffer : Option Pool
  subscribers : Sensor → Option TrainNum
  subscriptionChanged : Bool
  /-- What has been answered in this round, and its pool. -/
  replies : List (ℕ × DispatchResponse)
  pool : Option Pool
  log : List Round

/-- `sensor_readings[a] & 0x80 >> b`. -/
def triggered (readings : Fin 10 → UInt8) (i : Sensor) : Bool :=
  readings ⟨i.val / 8, by
    have h_i : i.val < 80 := i.isLt
    omega⟩ &&& 0x80 >>> UInt8.ofNat (i.val % 8) ≠ 0

namespace DispatchServer

/-- `dispatchserver` up to its loop. -/
def start : DispatchServer where
  straightpathworkers _ := none
  sensorPrinter := none
  subscribePrinter := none
  attributionCourier := none
  attributionCourierBuffer := none
  subscribers _ := none
  subscriptionChanged := false
  replies := []
  pool := none
  log := []

def reply (s : DispatchServer) (client : ℕ) (res : DispatchResponse) : DispatchServer :=
  { s with replies := s.replies ++ [(client, res)] }

/-! ### The messages -/

/-- The loop of `DISPATCHSERVER_SUBSCRIBE_SENSOR_LIST`. -/
def subscribe (subscribers : Sensor → Option TrainNum) (train : TrainNum) :
    List Sensor → Except Fault (Sensor → Option TrainNum)
  | [] => .ok subscribers
  | i :: rest =>
    if subscribers i = none then subscribe (Function.update subscribers i (some train)) train rest
    -- the assertion: nobody waits for the sensor
    else .error .alreadySubscribed

/-- `DISPATCHSERVER_SUBSCRIBE_SENSOR_LIST`. -/
def subscribeSensorList (s : DispatchServer) (client : ℕ) (sensors : List Sensor)
    (train : TrainNum) :
    Except Fault DispatchServer :=
  if sensors.length ≤ maxSubscribedSensors then do
    let subscribers ← subscribe s.subscribers train sensors
    .ok { s with
      straightpathworkers := Function.update s.straightpathworkers train (some client)
      subscribers
      subscriptionChanged := true }
  else .error .tooManySensors

/-- What the loop over the sensors makes. -/
structure Attribution where
  sensorAttribution : TrainNum → CircularBuffer Sensor
  sensorPool : Pool
  triggeringTrains : TrainNum → Bool

/-- Before the loop over the sensors. -/
def Attribution.start : Attribution where
  sensorAttribution _ := .cbInit 0 maxSubscribedSensors
  sensorPool _ := 0
  triggeringTrains _ := false

/-- The loop over the sensors. -/
def attributeSensors (subscribers : Sensor → Option TrainNum) (readings : Fin 10 → UInt8) :
    Attribution → List Sensor → Except Fault Attribution
  | a, [] => .ok a
  | a, i :: rest =>
    if triggered readings i then
      match subscribers i with
      | none =>
        attributeSensors subscribers readings
          { a with sensorPool := Function.update a.sensorPool i unattributed } rest
      | some train =>
        match (a.sensorAttribution train).cbPushBack i false with
        | none => .error .attributionFull
        | some cb =>
          attributeSensors subscribers readings {
            sensorAttribution := Function.update a.sensorAttribution train cb
            sensorPool := Function.update a.sensorPool i train.val
            triggeringTrains := Function.update a.triggeringTrains train true } rest
    else
      attributeSensors subscribers readings
        { a with sensorPool := Function.update a.sensorPool i notTriggered } rest

/-- The train has triggered: what it has subscribed to is taken back. -/
def unsubscribe (s : DispatchServer) (train : TrainNum) : DispatchServer :=
  { s with
    subscribers := fun i => if s.subscribers i = some train then none else s.subscribers i
    subscriptionChanged := s.subscriptionChanged || decide (∃ i, s.subscribers i = some train) }

/-- The loop over the trains. -/
def answerTrains (a : Attribution) (time : ℕ) :
    DispatchServer → List TrainNum → Except Fault DispatchServer
  | s, [] => .ok s
  | s, train :: rest =>
    -- all that the train has subscribed to, hit or not
    let s := if a.triggeringTrains train then s.unsubscribe train else s
    let cb := a.sensorAttribution train
    -- nothing was hit for this train
    if cb.count = 0 then answerTrains a time s rest
    else
      match s.straightpathworkers train with
      | none => .error .noWorker
      | some client =>
        answerTrains a time (s.reply client (.subscribeSensorList cb.cbToArray cb.count time)) rest

/-- The pool goes to the sensor printer, if it waits. -/
def informPrinter (s : DispatchServer) (pool : Pool) (time : ℕ) : DispatchServer :=
  match s.sensorPrinter with
  | some client =>
    { s.reply client (.subscribeSensorPrint pool time) with sensorPrinter := none }
  | none => s

/-- The pool goes to the attribution courier, or into the buffer; it is lost if the buffer is
in use. -/
def informCourier (s : DispatchServer) (pool : Pool) : DispatchServer :=
  match s.attributionCourierBuffer, s.attributionCourier with
  -- the buffer is in use: the pool is dropped
  | some _, _ => s
  | none, some client =>
    { s.reply client (.attributionCourier pool) with attributionCourier := none }
  | none, none => { s with attributionCourierBuffer := some pool }

/-- `DISPATCHSERVER_SENSOR_UPDATE`. -/
def sensorUpdate (s : DispatchServer) (client : ℕ) (readings : Fin 10 → UInt8) (time : ℕ) :
    Except Fault DispatchServer := do
  let s := s.reply client .good
  let a ← attributeSensors s.subscribers readings .start (List.finRange numSensors)
  let s ← answerTrains a time s (List.finRange maxNumTrains)
  .ok { (s.informPrinter a.sensorPool time).informCourier a.sensorPool with
    pool := some a.sensorPool }

/-- `DISPATCHSERVER_ATTRIBUTION_COURIER`. -/
def courier (s : DispatchServer) (client : ℕ) : DispatchServer :=
  match s.attributionCourierBuffer with
  | some pool =>
    { s.reply client (.attributionCourier pool) with
      attributionCourierBuffer := none
      attributionCourier := none }
  -- the courier waits for the next update
  | none => { s with attributionCourier := some client }

/-- What the message does, up to the end of the loop body. -/
def handle (s : DispatchServer) (client : ℕ) : DispatchRequest → Except Fault DispatchServer
  | .subscribeSensorList sensors train => s.subscribeSensorList client sensors train
  | .attributionPrint => .ok { s with sensorPrinter := some client }
  | .subscriptionPrint => .ok { s with subscribePrinter := some client }
  | .attributionCourier => .ok (s.courier client)
  | .straightpathworkerInit train =>
    .ok { s with straightpathworkers := Function.update s.straightpathworkers train (some client) }
  | .sensorUpdate readings time => s.sensorUpdate client readings time

/-- The end of the loop body: the subscription printer. -/
def flush (s : DispatchServer) : DispatchServer :=
  match s.subscribePrinter with
  | some client =>
    if s.subscriptionChanged then
      { s.reply client (.subscriptionPrint s.subscribers) with
        subscriptionChanged := false
        subscribePrinter := none }
    else s
  | none => s

/-- The loop body of `dispatchserver`. -/
def dispatchserver (s : DispatchServer) (m : DispatchMessage) : Except Fault DispatchServer := do
  let s ← s.handle m.client m.req
  let s := s.flush
  .ok { s with replies := [], pool := none, log := s.log ++ [⟨m, s.replies, s.pool⟩] }

end DispatchServer

/-- The server, for messages of any tasks in any order. -/
def dispatchSystem : System DispatchServer DispatchMessage where
  init s := s = .start
  step s m s' := s.dispatchserver m = .ok s'

end Dispatch
end PollingExpress
