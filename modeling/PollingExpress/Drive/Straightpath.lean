import PollingExpress.Drive.Neutron
import PollingExpress.Framework.Fallible
import PollingExpress.Track.Basic

/-!
# The straightpath worker

`straightpathworker.c`: how a train is driven along a straight path. `process_path` takes the path
apart into three arrays: the sensors on it (`next`), how far each of them is from the one before
(`distance`), and the switches in the order in which they are come to (`branches`). An entry of
`branches` is 0 for a sensor, and -1 after the last one. `send_branches` goes on through `branches`
to the next sensor, and sends the switches on its way to the train server. `Train.processPath` is
about the same code, with lists for these arrays: there what matters is which requests the train
server is sent.

Before the train starts, the worker looks for the sensor at which to count down to the stop
(`planStop`).

The commands for the switches go into a ghost list. Of the record of a train, what is printed, the
times at which sensors are passed, and what is asked of the other servers are not in the model.
-/

namespace PollingExpress
namespace Drive

open Nav (TrainNum)

/-- The length of the arrays `next` and `distance`. -/
def maxSensors : ℕ := 160

/-- The length of `branches`. -/
def maxBranches : ℕ := 2 * trackMax

/-- The fields of `train_record` that a path and its stop are about, with the commands that have
been sent for the switches. `distance` and `branches` are the arrays that `process_path` fills, one
entry for each sensor and switch that it passes. -/
structure TrainRecord where
  n : Neutron
  distance : ℕ → Int32
  next : ℕ → Int
  len : ℕ
  branches : ℕ → Int32
  /-- Where `send_branches` has come to. -/
  j : Int
  /-- The length of the path. -/
  dist : Int32
  stopMarker : Int
  stopOffset : Int32
  /-- The commands for the switches, each with its number and its direction. -/
  sent : List (Int32 × Int32)

/-- A record that has not been used. -/
def blankRecord : TrainRecord where
  n := createNeutron 0 0
  distance := fun _ => 0
  next := fun _ => 0
  len := 0
  branches := fun _ => 0
  j := 0
  dist := 0
  stopMarker := 0
  stopOffset := 0
  sent := []

/-- An assignment to an entry of an array of length `size`. -/
def store {α : Type} (a : ℕ → α) (size i : ℕ) (v : α) : Except Fault (ℕ → α) :=
  if i < size then .ok (Function.update a i v) else .error .overrun

/-! ### The path is taken apart -/

/-- The variables of `process_path`. -/
structure PathState where
  record : TrainRecord
  dist : Int32
  j : ℕ
  k : ℕ

/-- `branches[k] = v; k++`. -/
def PathState.addBranch (s : PathState) (v : Int32) : Except Fault PathState := do
  let branches ← store s.record.branches maxBranches s.k v
  .ok { s with record := { s.record with branches := branches }, k := s.k + 1 }

/-- What is done at a sensor. -/
def PathState.addSensor (s : PathState) (num : Int) : Except Fault PathState := do
  let next ← store s.record.next maxSensors s.j num
  let distance ← store s.record.distance maxSensors s.j (s.dist * 1000)
  { s with
    record := { s.record with next := next, distance := distance }
    dist := 0
    j := s.j + 1 }.addBranch 0

/-- `dir << 8 | num`. -/
def branchCode (dir : Int32) (num : Int) : Int32 := dir <<< 8 ||| Int32.ofInt num

/-- `dist += cur->edge[dir].dist`. -/
def PathState.advance (s : PathState) (e : TrackEdge) : PathState :=
  { s with dist := s.dist + Int32.ofInt e.dist }

section
variable (T : Track)

/-- What the loop of `process_path` does at `cur`, which is between `prev` and `next`. -/
def processNode (prev : Option NodeNum) (cur : NodeNum) (next : Option NodeNum) (s : PathState) :
    Except Fault PathState :=
  let node := T.node cur
  match node.type, prev, next with
  | .sensor, _, _ => do
    let s ← s.addSensor node.num
    .ok (s.advance (node.edge dirAhead))
  | .branch, _, some next => do
    let dir := if (node.edge dirCurved).dest = some next then dirCurved else dirStraight
    let s ← s.addBranch (branchCode (if dir = dirCurved then 1 else 0) node.num)
    .ok (s.advance (node.edge dir))
  | .merge, some prev, _ => do
    let rdir : Int32 :=
      if ((T.node node.reverse).edge dirCurved).dest = some (T.node prev).reverse then 1 else 0
    let s ← s.addBranch (branchCode rdir node.num)
    .ok (s.advance (node.edge dirAhead))
  | _, _, _ => .ok (s.advance (node.edge dirAhead))

/-- The loop of `process_path`, which has come from `prev`. -/
def processNodes : Option NodeNum → List NodeNum → PathState → Except Fault PathState
  | _, [], s => .ok s
  | prev, cur :: rest, s => do
    let s ← processNode T prev cur rest.head? s
    processNodes (some cur) rest s

/-- `process_path`. It walks along the path and writes the distances between the sensors, the
sensors and the switches, and a `-1` behind the last entry of `branches`; an entry behind the end of
an array is a fault. -/
def processPath (r : TrainRecord) (path : List NodeNum) : Except Fault TrainRecord := do
  let s ← processNodes T none path { record := r, dist := 0, j := 0, k := 0 }
  let branches ← store s.record.branches maxBranches s.k (-1)
  .ok { s.record with len := s.j, branches := branches }

end

/-! ### The switches are moved -/

namespace TrainRecord

variable (r : TrainRecord)

/-- `branches[j]`. -/
def branch : Except Fault Int32 :=
  if 0 ≤ r.j ∧ r.j < maxBranches then .ok (r.branches r.j.toNat) else .error .overrun

/-- `TrainCommand(trainctl, time, SWITCH, branches[j] & 0xff, branches[j] >> 8); j++`. -/
def sendBranch (b : Int32) : TrainRecord :=
  { r with j := r.j + 1, sent := r.sent ++ [(b &&& 0xff, b >>> 8)] }

/-- The loop of `send_branches`. -/
def sendLoop (r : TrainRecord) : Except Fault TrainRecord :=
  if 0 ≤ r.j ∧ r.j < maxBranches then
    let b := r.branches r.j.toNat
    if b > 0 then sendLoop (r.sendBranch b) else .ok r
  else .error .overrun
termination_by (maxBranches - r.j).toNat
decreasing_by
  change (maxBranches - (r.j + 1)).toNat < _
  omega

/-- `send_branches`. -/
def sendBranches : Except Fault TrainRecord :=
  if 0 ≤ r.j then do
    let b ← r.branch
    if b = -1 then .ok r else sendLoop ({ r with j := r.j + 1 })
  else sendLoop { r with j := r.j + 1 }

/-- So many calls of `send_branches`. -/
def sendTimes : ℕ → TrainRecord → Except Fault TrainRecord
  | 0, r => .ok r
  | c + 1, r => do
    let r ← sendTimes c r
    r.sendBranches

/-- `while (branches[j] != -1) send_branches(..)`, with no more than so many calls. -/
def sendRest (calls : ℕ) (r : TrainRecord) : Except Fault TrainRecord := do
  let b ← r.branch
  if b = -1 then .ok r
  else match calls with
    | 0 => .error .endless
    | calls + 1 => do
      let r ← r.sendBranches
      sendRest calls r

/-- The path is new: nothing has been sent. -/
def started : TrainRecord := { r with j := -1, sent := [] }

/-! ### The stop is planned -/

/-- The loop that looks for `stop_marker`, with so many sensors to come; it leaves `dist` and
`stop_marker`. -/
def markLoop (r : TrainRecord) : ℕ → ℕ → Int32 → Int → Int32 × Int
  | 0, _, dist, stopMarker => (dist, stopMarker)
  | more + 1, i, dist, stopMarker =>
    if (dist + r.distance i).toUInt32 < r.n.distA +
      r.n.distB then markLoop r more (i + 1) (dist + r.distance i) i
    else (dist, stopMarker)

/-- The profile for the path. -/
def withProfile (train : TrainNum) (pathDist : Int32) : TrainRecord :=
  { r with dist := pathDist * 1000, n := createNeutron train (pathDist * 1000).toUInt32 }

/-- The way to the sensor `stop_marker`, and which one it is. -/
def stopMark : Int32 × Int := r.markLoop r.len 0 0 (-1)

/-- From `create_neutron` to the stop offset. -/
def planStop (train : TrainNum) (pathDist : Int32) : Except Fault TrainRecord := do
  let r := r.withProfile train pathDist
  let time ← findTime r.n r.stopMark.1.toUInt32
  .ok { r with stopMarker := r.stopMark.2, stopOffset := (r.n.timeA + r.n.timeB - time).toInt32 }

end TrainRecord

end Drive
end PollingExpress
