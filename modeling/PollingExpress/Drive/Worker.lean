import PollingExpress.Dispatch.Server
import PollingExpress.Drive.Stopping
import PollingExpress.Train.Switches

/-!
# One path of a straightpath worker

`task_straightpathworker` from the path it is given to the report that the train has stopped. The
worker takes the path apart, plans the stop, sets the first switches and starts the train. Then it
goes along the sensors of the path up to `stop_marker`: it waits for the next sensor or the one
after it, so that a sensor may fail, and sends the switches up to the one after that. In the end it
orders the stop, and sets the switches that are left.

What the worker does between two of its messages to the dispatch server is one function here, which
is told what the clock says at its calls of `Time`. The stage says what comes next: a subscription,
an answer to wait for, the rest of the loop body, or the stop. `Drive/Fleet` runs the workers
together with the dispatch server.

* `Tour` — the variables of the worker while it is on a path.
* `Tour.depart` — the way to the first subscription.
* `Tour.pass` — the rest of the loop body, `Tour.rebuild` what is there instead for a short path.
* `Tour.halt` — the stop.

The commands to the train server go into a ghost list. What is printed, and the waiting for the
clock before the start and after the stop, are not in the model.
-/

namespace PollingExpress
namespace Drive

open Nav (TrainNum)
open Train (TrainRequest switchOf)

/-- Which branch the worker takes after the start. -/
inductive Course
  /-- A short stop, with a sensor on the path: the profile is built again at the first sensor. -/
  | short
  /-- There is a `stop_marker`. -/
  | marked
  /-- The braking point is before the first sensor. -/
  | blind
  deriving DecidableEq

inductive Stage
  /-- About to subscribe. -/
  | ready
  /-- The subscription has not been answered. -/
  | waiting
  /-- `dis_res` is there. -/
  | heard
  /-- The sensors are done with. -/
  | over
  deriving DecidableEq

/-- The variables of `task_straightpathworker` on a path. -/
structure Tour where
  train : TrainNum
  record : TrainRecord
  /-- `train.time`. -/
  time : ℕ → Int32
  course : Course
  stage : Stage
  i : ℕ
  skip : Bool
  /-- `triggered_sensors[0]` of `dis_res`. -/
  triggered : Int
  /-- `time` of `dis_res`. -/
  triggeredTime : Int32
  startTime : Int32
  markerTime : Int32
  /-- What the train server has been sent. -/
  commands : List TrainRequest

/-- The time and the speed that are asked for. -/
def speedOf : TrainRequest → Option (Int × Int)
  | .speed _ data time => some (time, data)
  | _ => none

namespace Tour

/-- `TrainCommand`. -/
def trainCommand (w : Tour) (req : TrainRequest) : Tour :=
  { w with commands := w.commands ++ [req] }

/-- The command for a switch. -/
def switchCommand (time : Int32) (p : Int32 × Int32) : TrainRequest :=
  .switch p.1.toInt p.2.toInt time.toInt

/-- `send_branches(&train, Time(clock), trainctl)`. -/
def sendBranches (w : Tour) (time : Int32) : Except Fault Tour := do
  let r ← w.record.sendBranches
  .ok { w with
    record := r
    commands := w.commands ++ (r.sent.drop w.record.sent.length).map (switchCommand time) }

/-- The head of the loop over the sensors, and what follows the loop. -/
def head (w : Tour) : Tour :=
  if (w.i : Int) ≤ w.record.stopMarker then
    -- a sensor that was passed over needs no subscription: `dis_res` is still that of the sensor
    -- after it
    if w.skip then { w with skip := false, stage := .heard } else { w with stage := .ready }
  else { w with markerTime := w.time w.record.stopMarker.toNat, stage := .over }

/-- Which branch is taken. -/
def courseOf (r : TrainRecord) : Course :=
  if r.n.distB = 0 ∧ r.len ≠ 0 then .short else if r.stopMarker ≠ -1 then .marked else .blind

/-- The train has started. -/
def started (w : Tour) : Tour :=
  match courseOf w.record with
  | .short => { w with course := .short, stage := .ready }
  | .marked => { w with course := .marked }.head
  | .blind => { w with course := .blind, stage := .over }

/-- From the path to the first subscription; the clock says `t₁` and `t₂` for the first switches,
and `start` for the start of the train. `dis_res` is not read before it is written. -/
def depart (T : Track) (r : TrainRecord) (train : TrainNum) (path : List NodeNum)
    (pathDist t₁ t₂ start : Int32) :
    Except Fault Tour := do
  let r ← processPath T r path
  let r ← r.started.planStop train pathDist
  let w : Tour := {
    train, record := r, time := fun _ => 0, course := .blind, stage := .over, i := 0, skip := false
    triggered := 0, triggeredTime := 0, startTime := start, markerTime := start, commands := [] }
  -- to the first sensor, and one sensor margin
  let w ← w.sendBranches t₁
  let w ← w.sendBranches t₂
  .ok (w.trainCommand (.speed train w.record.n.speed.toUInt8.toNat start.toInt)).started

/-- `subscribed_sensors`. -/
def subscription (w : Tour) : List Int :=
  match w.course with
  | .short => [w.record.next 0]
  | _ => w.record.next w.i :: if w.i + 1 < w.record.len then [w.record.next (w.i + 1)] else []

/-- The answer of the dispatch server. -/
def hear (w : Tour) (triggered : List Dispatch.Sensor) (time : ℕ) : Tour :=
  { w with
    triggered := (triggered.head?.map fun i => (i.val : Int)).getD 0
    triggeredTime := Int32.ofNat time
    stage := .heard }

/-- What is done with the answer for a short path. -/
def rebuild (w : Tour) : Tour :=
  let n := adjustOffset w.record.n w.train (w.triggeredTime - 100 - w.startTime)
  { w with
    record := { w.record with n, stopOffset := (n.timeA + n.timeB).toInt32 }
    markerTime := w.startTime
    stage := .over }

/-- The rest of the loop body, up to the head of the loop. -/
def pass (w : Tour) (now : Int32) : Except Fault Tour := do
  let time ← store w.time maxSensors w.i
      (if w.i = 0 then w.triggeredTime - 100 else w.triggeredTime)
  let w : Tour := { w with
    time
    skip := decide (w.i + 1 < w.record.len ∧ w.triggered = w.record.next (w.i + 1)) }
  let w ← w.sendBranches now
  .ok { w with i := w.i + 1 }.head

/-- What is done with the answer. -/
def proceed (w : Tour) (now : Int32) : Except Fault Tour :=
  match w.course with
  | .short => .ok w.rebuild
  | _ => w.pass now

/-- `while (branches[j] != -1) send_branches(..)`; the clock says `times`. -/
def sendRest (w : Tour) : List Int32 → Except Fault Tour
  | [] => do
    let b ← w.record.branch
    if b = -1 then .ok w else .error .endless
  | now :: times => do
    let b ← w.record.branch
    if b = -1 then .ok w else do
      let w ← w.sendBranches now
      w.sendRest times

/-- From the last sensor to the report. -/
def halt (w : Tour) (times : List Int32) : Except Fault Tour :=
  let w := w.trainCommand (.speed w.train 0 (w.markerTime + w.record.stopOffset).toInt)
  { w with record := { w.record with stopMarker := -1 } }.sendRest times

end Tour

/-! ### The sensors of a path -/

/-- The numbers of the sensors on a path. -/
def sensorNums (T : Track) (path : List NodeNum) : List Int :=
  (path.filter fun n => (T.node n).type = .sensor).map fun n => (T.node n).num

section
variable {T : Track} {prev next : Option NodeNum} {cur : NodeNum} {path : List NodeNum}
  {s s' : PathState}

theorem length_sensorNums : (sensorNums T path).length = sensors T path := by
  rw [sensorNums, List.length_map, sensors, List.countP_eq_length_filter]

theorem sensorNums_cons : sensorNums T (cur :: path) = sensorNums T [cur] ++ sensorNums T path := by
  unfold sensorNums
  rw [← List.map_append, ← List.filter_append]
  rfl

theorem next_of_addBranch {v : Int32} (h : s.addBranch v = .ok s') :
    s'.record.next = s.record.next ∧ s'.j = s.j := by
  obtain ⟨branches, -, h⟩ := of_bind_ok h
  cases h
  exact ⟨rfl, rfl⟩

theorem next_of_addSensor {num : Int} (h : s.addSensor num = .ok s') :
    s'.record.next = Function.update s.record.next s.j num ∧ s'.j = s.j + 1 := by
  obtain ⟨next, h_next, h⟩ := of_bind_ok h
  obtain ⟨distance, -, h⟩ := of_bind_ok h
  obtain ⟨h_same, h_j⟩ := next_of_addBranch h
  rw [h_same, h_j]
  unfold store at h_next
  split at h_next
  · cases h_next
    exact ⟨rfl, rfl⟩
  · cases h_next

/-- The sensors `nums` have been added to the array `next`, behind those that it held; the numbers
in front are left as they are. -/
structure PathState.Lists (s s' : PathState) (nums : List Int) : Prop where
  j : s'.j = s.j + nums.length
  old : ∀ i < s.j, s'.record.next i = s.record.next i
  new : ∀ i num, nums[i]? = some num → s'.record.next (s.j + i) = num

/-- A sensor puts its number at the end of the array `next`, and a node of another type leaves the
array as it is. -/
theorem lists_of_processNode (h : processNode T prev cur next s = .ok s') :
    s.Lists s' (sensorNums T [cur]) := by
  -- a node that is no sensor leaves the array as it is
  have h_silent : (T.node cur).type ≠ .sensor → s'.record.next = s.record.next ∧ s'.j = s.j →
      s.Lists s' (sensorNums T [cur]) := by
    intro h_type h_same
    have h_nums : sensorNums T [cur] = [] := by
      unfold sensorNums
      rw [List.filter_cons_of_neg (by simpa using h_type)]
      rfl
    rw [h_nums]
    exact ⟨h_same.2, fun i _ => congrFun h_same.1 i, fun _ _ h_num => by cases h_num⟩
  unfold processNode at h
  dsimp only at h
  split at h
  · next h_type =>
    obtain ⟨s₁, h_sensor, h⟩ := of_bind_ok h
    cases h
    obtain ⟨h_next, h_j⟩ := next_of_addSensor h_sensor
    -- a sensor: its number is written to the next place
    have h_nums : sensorNums T [cur] = [(T.node cur).num] := by
      unfold sensorNums
      rw [List.filter_cons_of_pos (by simpa using h_type)]
      rfl
    rw [h_nums]
    refine ⟨h_j, fun i h_i => ?_, fun i num h_num => ?_⟩
    · exact (congrFun h_next i).trans (Function.update_of_ne h_i.ne _ _)
    · cases i with
      | zero =>
        cases h_num
        exact (congrFun h_next s.j).trans (Function.update_self _ _ _)
      | succ i => cases h_num
  · next h_type =>
    obtain ⟨s₁, h_branch, h⟩ := of_bind_ok h
    cases h
    have h_same := next_of_addBranch h_branch
    exact h_silent (by rw [h_type]; decide) h_same
  · next h_type =>
    obtain ⟨s₁, h_branch, h⟩ := of_bind_ok h
    cases h
    have h_same := next_of_addBranch h_branch
    exact h_silent (by rw [h_type]; decide) h_same
  · next h_sensor _ _ =>
    cases h
    exact h_silent (fun h_type => h_sensor h_type) ⟨rfl, rfl⟩

/-- **The array `next`** is made of the sensors of the path, in order. The induction is on the
nodes: each adds its own number, or none, and what the others add comes behind. -/
theorem lists_of_processNodes (h : processNodes T prev path s = .ok s') :
    s.Lists s' (sensorNums T path) := by
  induction path generalizing prev s with
  | nil =>
    cases h
    exact ⟨rfl, fun _ _ => rfl, fun _ _ h_num => by cases h_num⟩
  | cons cur rest ih =>
    obtain ⟨s₁, h_node, h_rest⟩ := of_bind_ok h
    obtain ⟨h_j, h_old, h_new⟩ := lists_of_processNode h_node
    obtain ⟨h_j', h_old', h_new'⟩ := ih h_rest
    rw [sensorNums_cons]
    refine ⟨by rw [h_j', h_j, List.length_append, Nat.add_assoc], fun i h_i => ?_,
      fun i num h_num => ?_⟩
    · rw [h_old' i (by omega), h_old i h_i]
    · -- a sensor of the first node, or one behind it
      rcases Nat.lt_or_ge i (sensorNums T [cur]).length with h_lt | h_ge
      · rw [List.getElem?_append_left h_lt] at h_num
        rw [h_old' _ (by omega), h_new i num h_num]
      · rw [List.getElem?_append_right h_ge] at h_num
        have h_eq : s.j + i = s₁.j + (i - (sensorNums T [cur]).length) := by omega
        rw [h_eq]
        exact h_new' _ num h_num

/-- On a path that is not too long, no distance wraps around. The induction is on the nodes; `e` is
the way since the last sensor, which is stored with the next one. -/
theorem distance_nonneg {e : Int} (h_wf : T.raw.WellFormed) (h_drivable : T.Drivable path)
    (h_dist : s.dist = Int32.ofInt e) (h_e : 0 ≤ e)
    (h_short : 1000 * T.getPathDistFrom e path < 2 ^ 31) (h_j : s.j + path.length ≤ maxSensors)
    (h_k : s.k + path.length ≤ maxBranches) (h_ok : processNodes T prev path s = .ok s')
    (h_old : ∀ i < s.j, 0 ≤ (s.record.distance i).toInt) :
    ∀ i < s'.j, 0 ≤ (s'.record.distance i).toInt := by
  -- `e` is the way since the last sensor, and `h_short` bounds it together with what is left of the
  -- path
  induction path generalizing prev s e with
  | nil =>
    cases h_ok
    exact h_old
  | cons cur rest ih =>
    have h_long := Nav.getPathDistFrom_ge h_wf h_drivable e
    rw [List.length_cons] at h_j h_k
    obtain ⟨s₁, h_node_ok, h_node⟩ :=
      @exists_processNode T prev rest.head? cur s (by omega) (by omega)
    have h_j₁ := h_node.j
    have h_k₁ := h_node.k
    have h_sensor : sensors T [cur] ≤ 1 := sensors_le
    have h_mark := @length_mark_le T prev rest.head? cur
    -- a sensor stores the way to it
    have h_old₁ : ∀ i < s₁.j, 0 ≤ (s₁.record.distance i).toInt := by
      intro i h_i
      rw [h_node.distance]
      rw [sensors_singleton] at h_j₁
      split
      · next h_type =>
        rw [if_pos h_type] at h_j₁
        rcases Nat.lt_or_eq_of_le (Nat.le_of_lt_succ (h_j₁ ▸ h_i)) with h_lt | rfl
        · rw [Function.update_of_ne h_lt.ne]
          exact h_old i h_lt
        · rw [Function.update_self, h_dist, toInt_distance h_e (by omega)]
          omega
      · next h_type =>
        rw [if_neg h_type] at h_j₁
        exact h_old i (by omega)
    rw [processNodes, h_node_ok, bind_of_ok rfl] at h_ok
    cases rest with
    | nil =>
      cases h_ok
      exact h_old₁
    | cons m rest =>
      obtain ⟨d, h_d, h_nonneg⟩ := Nav.exists_edgeDist h_wf (List.isChain_cons_cons.mp h_drivable).1
      have h_tail : T.Drivable (m :: rest) := h_drivable.tail
      rw [getPathDistFrom_cons h_d rfl] at h_short
      have h_dist₁ := h_node.dist m d rfl h_d
      by_cases h_type : (T.node cur).type = .sensor
      · -- the next distance begins here
        rw [if_pos h_type] at h_dist₁
        have h_eq := getPathDistFrom_add h_wf h_tail e d
        exact ih h_tail (h_dist₁.trans (Int32.zero_add _)) h_nonneg (by omega) (by omega)
          (by omega) h_ok h_old₁
      · rw [if_neg h_type, h_dist, ← Int32.ofInt_add] at h_dist₁
        exact ih h_tail h_dist₁ (by omega) h_short (by omega) (by omega) h_ok h_old₁

end

/-! ### What stays -/

section
variable {r r' : TrainRecord}

/-- What `send_branches` does not touch, which is everything but its place in the table; and what
has been sent only becomes more. -/
structure TrainRecord.Sends (r r' : TrainRecord) : Prop where
  same : r' = { r with j := r'.j, sent := r'.sent }
  grows : r.sent <+: r'.sent

theorem TrainRecord.Sends.trans {r'' : TrainRecord} (h : r.Sends r') (h' : r'.Sends r'') :
    r.Sends r'' where
  same := by
    rw [h'.same, h.same]
  grows := h.grows.trans h'.grows

theorem TrainRecord.sends_of_sendLoop (h : r.sendLoop = .ok r') : r.Sends r' := by
  induction r using TrainRecord.sendLoop.induct with
  -- the induction is that of the loop: a switch is sent, it is at a sensor or at the end, or out of
  -- range
  | case1 r h_range b h_pos ih =>
    rw [sendLoop, if_pos h_range] at h
    change (if b > 0 then _ else _) = _ at h
    rw [if_pos h_pos] at h
    exact TrainRecord.Sends.trans ⟨rfl, List.prefix_append _ _⟩ (ih h)
  | case2 r h_range b h_stop =>
    rw [sendLoop, if_pos h_range] at h
    change (if b > 0 then _ else _) = _ at h
    rw [if_neg h_stop] at h
    cases h
    exact ⟨rfl, List.prefix_rfl⟩
  | case3 r h_range =>
    rw [sendLoop, if_neg h_range] at h
    cases h

theorem TrainRecord.sends_of_sendBranches (h : r.sendBranches = .ok r') : r.Sends r' := by
  have h_loop : sendLoop { r with j := r.j + 1 } = .ok r' → r.Sends r' := by
    intro h_ok
    obtain ⟨h_same, h_grows⟩ := sends_of_sendLoop h_ok
    exact ⟨h_same, h_grows⟩
  unfold sendBranches at h
  split at h
  · obtain ⟨b, -, h⟩ := of_bind_ok h
    split at h
    · cases h
      exact ⟨rfl, List.prefix_rfl⟩
    · exact h_loop h
  · exact h_loop h

/-- The plan for the stop. -/
theorem TrainRecord.planStop_same {train : TrainNum} {pathDist : Int32}
    (h : r.planStop train pathDist = .ok r') :
    r' = { r with
      dist := r'.dist, n := createNeutron train (pathDist * 1000).toUInt32
      stopMarker := r'.stopMarker, stopOffset := r'.stopOffset } := by
  obtain ⟨time, -, h⟩ := of_bind_ok h
  cases h
  rfl

end

end Drive
end PollingExpress
