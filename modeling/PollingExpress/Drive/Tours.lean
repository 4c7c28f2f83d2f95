import PollingExpress.Drive.Worker

/-!
# A tour along a path

What holds of the variables of a worker while it is on a path (`OnPath`): where it is between its
sensors, and what it has sent. On a path that a worker can be given (`Suited`) nothing that it does
on its own fails, and the tour goes on as its stage says: it departs (`exists_depart`), it goes on
from sensor to sensor (`OnPath.exists_pass`), and it stops (`OnPath.exists_halt`). When it has
stopped, the switches of the path have been set in order, each of them once, and the train has been
started and stopped (`Told`).

When the sensors are passed is up to the dispatch server. `Timed` says so relative to the answers it
gives.
-/

namespace PollingExpress
namespace Drive

open Nav (TrainNum)
open Train (TrainRequest switchOf)

/-- A path that a worker can be given, with its length: a walk over unbroken edges, short enough for
the arrays of the worker and for lengths in thousandths of a millimetre, and with no sensor twice,
so that an answer tells where the train is. -/
structure Suited (T : Track) (path : List NodeNum) (pathDist : Int32) : Prop where
  drivable : T.Drivable path
  length : path.length ≤ trackMax
  short : T.getPathDist path * 1000 < 2 ^ 31
  dist : 1 ≤ pathDist.toInt ∧ pathDist.toInt ≤ (2 ^ 31 - 1) / 1000
  once : (sensorNums T path).Nodup

/-- The marker and the offset are those that are planned for the path. -/
def Planned (T : Track) (train : TrainNum) (path : List NodeNum) (pathDist : Int32) (marker : Int)
    (offset : Int32) :
    Prop :=
  ∃ r r₁ r₂, processPath T r path = .ok r₁ ∧ r₁.started.planStop train pathDist = .ok r₂ ∧
    r₂.stopMarker = marker ∧ r₂.stopOffset = offset

/-- The arrays of the record are those of the path: the sensors in order, the table of what is to be
switched, and a marker that lies below the number of the sensors. -/
structure Lined (T : Track) (path : List NodeNum) (r : TrainRecord) : Prop where
  len : r.len = (sensorNums T path).length
  next : ∀ i num, (sensorNums T path)[i]? = some num → r.next i = num
  table : Table (marks T path) r
  marker : r.stopMarker < r.len

/-- A switch and its position, as numbers. -/
def pairOf (p : Int32 × Int32) : Int × Int := (p.1.toInt, p.2.toInt)

namespace Tour

/-- Where the worker is, as it takes its branch. -/
def Where (w : Tour) : Prop :=
  match w.course with
  | .short => w.record.len ≠ 0 ∧ w.i = 0 ∧ (w.stage = .over → w.markerTime = w.startTime)
  | .blind => w.record.stopMarker = -1 ∧ w.stage = .over ∧ w.markerTime = w.startTime
  | .marked => 0 ≤ w.record.stopMarker ∧
      if w.stage = .over then w.i = w.record.stopMarker + 1 ∧
        w.markerTime = w.time w.record.stopMarker.toNat
      else (w.i : Int) ≤ w.record.stopMarker

/-- What has been sent: the switches of the record, and the start. Between the start and the stop a
tour sends nothing to the train itself, so there is one command of a speed. -/
structure Told (T : Track) (path : List NodeNum) (w : Tour) : Prop where
  switches : w.commands.filterMap switchOf = w.record.sent.map pairOf
  speeds : w.commands.filterMap speedOf = [(w.startTime.toInt, 7)]
  /-- Before the start, the switches up to the second sensor have been set. -/
  margin : ∃ before after r, w.commands = before ++ .speed w.train 7 w.startTime.toInt :: after ∧
    before.filterMap switchOf = r.sent.map pairOf ∧ InTime T path 2 r

/-- What holds while the worker is on the path. The switches up to two sensors ahead of it have been
set (`reached`), the plan is the one that was made for the path, and it is at one of the places in
the loop that `Where` allows for. -/
structure OnPath (T : Track) (path : List NodeNum) (pathDist : Int32) (w : Tour) : Prop where
  lined : Lined T path w.record
  reached : Reached (marks T path) (w.i + 2) w.record
  told : w.Told T path
  plan : w.course ≠ .short → Planned T w.train path pathDist w.record.stopMarker w.record.stopOffset
  profile : w.course = .short → w.stage ≠ .over →
    w.record.n = createNeutron w.train (pathDist * 1000).toUInt32
  place : w.Where

end Tour

variable {T : Track} {path : List NodeNum} {pathDist : Int32} {w w' : Tour}

namespace Tour

theorem OnPath.of_short (h : OnPath T path pathDist w) (h_course : w.course = .short) :
    w.record.len ≠ 0 ∧ w.i = 0 ∧ (w.stage = .over → w.markerTime = w.startTime) := by
  have h_place := h.place
  simp only [Where, h_course] at h_place
  exact h_place

theorem OnPath.of_blind (h : OnPath T path pathDist w) (h_course : w.course = .blind) :
    w.record.stopMarker = -1 ∧ w.stage = .over ∧ w.markerTime = w.startTime := by
  have h_place := h.place
  simp only [Where, h_course] at h_place
  exact h_place

/-- Between the sensors. -/
theorem OnPath.of_marked (h : OnPath T path pathDist w) (h_course : w.course = .marked)
    (h_stage : w.stage ≠ .over) :
    0 ≤ w.record.stopMarker ∧ (w.i : Int) ≤ w.record.stopMarker := by
  have h_place := h.place
  simp only [Where, h_course, if_neg h_stage] at h_place
  exact h_place

/-- Behind the marker. -/
theorem OnPath.of_passed (h : OnPath T path pathDist w) (h_course : w.course = .marked)
    (h_stage : w.stage = .over) :
    0 ≤ w.record.stopMarker ∧ w.i = w.record.stopMarker + 1 ∧
      w.markerTime = w.time w.record.stopMarker.toNat := by
  have h_place := h.place
  simp only [Where, h_course, if_pos h_stage] at h_place
  exact h_place

theorem sendBranches_eq {r : TrainRecord} (h : w.record.sendBranches = .ok r) (time : Int32) :
    w.sendBranches time = .ok { w with
      record := r
      commands := w.commands ++ (r.sent.drop w.record.sent.length).map (switchCommand time) } := by
  rw [sendBranches, h]
  rfl

@[simp] theorem filterMap_switchCommand (time : Int32) (l : List (Int32 × Int32)) :
    (l.map (switchCommand time)).filterMap switchOf = l.map pairOf := by
  rw [List.filterMap_map, ← List.filterMap_eq_map]
  rfl

@[simp] theorem speedOf_switchCommand (time : Int32) (l : List (Int32 × Int32)) :
    (l.map (switchCommand time)).filterMap speedOf = [] := by
  rw [List.filterMap_map]
  exact List.filterMap_eq_nil_iff.mpr fun _ _ => rfl

/-- The switches that a call sends are those that the record gets. -/
theorem switches_append {r : TrainRecord} (h_grows : w.record.sent <+: r.sent)
    (h : w.commands.filterMap switchOf = w.record.sent.map pairOf) (time : Int32) :
    (w.commands ++ (r.sent.drop w.record.sent.length).map (switchCommand time)).filterMap switchOf =
      r.sent.map pairOf := by
  obtain ⟨l, h_l⟩ := h_grows
  rw [List.filterMap_append, filterMap_switchCommand, h, ← h_l, List.drop_left, List.map_append]

/-- A call of `send_branches`. -/
theorem Told.sendBranches {r : TrainRecord} (h : w.Told T path)
    (h_ok : w.record.sendBranches = .ok r) (time : Int32) :
    ({ w with
      record := r
      commands := w.commands ++ (r.sent.drop w.record.sent.length).map (switchCommand time) } :
        Tour).Told T path where
  switches := switches_append (TrainRecord.sends_of_sendBranches h_ok).grows h.switches time
  speeds := by
    change (w.commands ++ _).filterMap speedOf = _
    rw [List.filterMap_append, speedOf_switchCommand, List.append_nil]
    exact h.speeds
  -- the margin was kept when the train started; what is sent now comes behind
  margin := by
    obtain ⟨before, after, r₀, h_commands, h_before⟩ := h.margin
    refine ⟨before, after ++ (r.sent.drop w.record.sent.length).map (switchCommand time), r₀,
      ?_, h_before⟩
    change w.commands ++ _ = _
    rw [h_commands, List.append_assoc]
    rfl

/-- The head of the loop. -/
theorem where_head (h_course : w.course = .marked) (h_marker : 0 ≤ w.record.stopMarker)
    (h_i : (w.i : Int) ≤ w.record.stopMarker + 1) : w.head.Where := by
  unfold head
  by_cases h_le : (w.i : Int) ≤ w.record.stopMarker
  · rw [if_pos h_le]
    by_cases h_skip : w.skip = true
    · rw [if_pos h_skip]
      simp only [Where, h_course]
      exact ⟨h_marker, h_le⟩
    · rw [if_neg h_skip]
      simp only [Where, h_course]
      exact ⟨h_marker, h_le⟩
  · rw [if_neg h_le]
    simp only [Where, h_course]
    exact ⟨h_marker, by omega, trivial⟩

/-- What the head of the loop changes. -/
theorem exists_head (w : Tour) : ∃ skip stage markerTime,
      w.head = { w with skip, stage, markerTime } ∧
    (stage = .ready ∧ ¬w.skip = true ∨ stage = .over ∨ stage = .heard ∧ w.skip = true) := by
  unfold head
  split
  · split
    · next h_skip => exact ⟨_, _, _, rfl, .inr (.inr ⟨rfl, h_skip⟩)⟩
    · next h_skip => exact ⟨_, _, _, rfl, .inl ⟨rfl, h_skip⟩⟩
  · exact ⟨_, _, _, rfl, .inr (.inl rfl)⟩

end Tour

/-! ### The departure -/

section
variable {r r' r₀ r₁ : TrainRecord} {train : TrainNum}

theorem Lined.of_sends (h : Lined T path r) (h_sends : r.Sends r') : Lined T path r' := by
  obtain ⟨h_same, -⟩ := h_sends
  rw [h_same]
  exact ⟨h.len, h.next, h.table.congr rfl, h.marker⟩

theorem createNeutron_speed (train : TrainNum) (distance : UInt32) :
    (createNeutron train distance).speed = 7 := by
  unfold createNeutron Constants.createNeutron
  split <;> rfl

/-- The record is made, and the stop is planned. The lengths of a suited path are those of numbers
that do not wrap around, which is what the plan needs of the distances. -/
theorem exists_planned (h_wf : T.raw.WellFormed) (h_num : Numbered T) (h : Suited T path pathDist)
    (r : TrainRecord) (train : TrainNum) : ∃ r₀ r₁, processPath T r path = .ok r₀ ∧
      r₀.started.planStop train pathDist = .ok r₁ ∧
      Lined T path r₁ ∧ -1 ≤ r₁.stopMarker ∧ Reached (marks T path) 0 r₁ ∧
      r₁.n = createNeutron train (pathDist * 1000).toUInt32 := by
  have h_sizes : trackMax ≤ maxSensors ∧ trackMax ≤ maxBranches := by decide
  have h_length := h.length
  -- the path is tabulated
  obtain ⟨s, r₀, h_nodes, h_ok, -, h_table⟩ := exists_processPath h_num h.length r
  obtain ⟨h_j, -, h_next⟩ := lists_of_processNodes h_nodes
  -- the marker is looked for among distances that have not wrapped around
  have h_nonneg :=
    distance_nonneg h_wf h.drivable (s := { record := r, dist := 0, j := 0, k := 0 }) rfl le_rfl
    (by have h_short := h.short; rw [Track.getPathDist] at h_short; omega)
      (by change 0 + _ ≤ _; omega)
    (by change 0 + _ ≤ _; omega) h_nodes fun i h_i => absurd h_i (Nat.not_lt_zero i)
  have h_path := h_ok
  rw [processPath, h_nodes, bind_of_ok rfl] at h_ok
  obtain ⟨branches, -, h_ok⟩ := of_bind_ok h_ok
  obtain rfl := Except.ok.inj h_ok
  -- the stop is planned, which changes nothing in the tables
  obtain ⟨r₁, h_plan_ok, h_plan, -⟩ := @exists_planStop train pathDist
    (TrainRecord.started { s.record with len := s.j, branches := branches }) h.dist.1
      h.dist.2 h_nonneg
  have h_same := TrainRecord.planStop_same h_plan_ok
  refine ⟨_, r₁, h_path, h_plan_ok, ⟨?_, ?_, ?_, ?_⟩, h_plan.range.1, .start rfl ?_ ?_, ?_⟩
  · rw [h_same]
    exact h_j.trans (Nat.zero_add _)
  · intro i num h_i
    rw [h_same]
    have h_next_i := h_next i num h_i
    rw [Nat.zero_add] at h_next_i
    exact h_next_i
  · exact h_table.congr (by rw [h_same])
  · have h_marker := h_plan.range.2
    rw [h_same]
    exact h_marker
  · rw [h_same]
    rfl
  · rw [h_same]
    rfl
  · rw [h_same]

end

namespace Tour

/-- The train has started, and the tour is on its way. Which course it takes depends on the plan: a
short move waits for its first sensor, one with a marker begins its loop, and one without is
over. -/
theorem onPath_started (h_lined : Lined T path w.record)
    (h_reached : Reached (marks T path) 2 w.record) (h_told : w.Told T path)
    (h_marker : -1 ≤ w.record.stopMarker) (h_i : w.i = 0) (h_skip : w.skip = false)
    (h_plan : Planned T w.train path pathDist w.record.stopMarker w.record.stopOffset)
    (h_n : w.record.n = createNeutron w.train (pathDist * 1000).toUInt32)
    (h_time : w.markerTime = w.startTime) :
    ∃ course stage, w.started = { w with course, stage } ∧
      (stage = .ready ∨ stage = .over ∧ course ≠ .short) ∧
      OnPath T path pathDist { w with course, stage } := by
  have h_reached : Reached (marks T path) (w.i + 2) w.record := by
    rw [h_i]
    exact h_reached
  have h_told : ∀ course stage, ({ w with course, stage } : Tour).Told T path := fun _ _ =>
    ⟨h_told.switches, h_told.speeds, h_told.margin⟩
  by_cases h_short : w.record.n.distB = 0 ∧ w.record.len ≠ 0
  · -- the first sensor is waited for
    refine ⟨.short, .ready, ?_, .inl rfl, h_lined, h_reached, h_told _ _,
      fun h_ne => absurd rfl h_ne, fun _ _ => h_n, ?_⟩
    · rw [started, courseOf, if_pos h_short]
    · exact ⟨h_short.2, h_i, fun h_stage => by cases h_stage⟩
  by_cases h_marked : w.record.stopMarker ≠ -1
  · -- the loop begins
    have h_le : ((0 : ℕ) : Int) ≤ w.record.stopMarker := by omega
    refine ⟨.marked, .ready, ?_, .inl rfl, h_lined, h_reached, h_told _ _, fun _ => h_plan,
      fun h_course => ?_, ?_⟩
    · rw [started, courseOf, if_neg h_short, if_pos h_marked]
      change head _ = _
      unfold head
      dsimp only
      rw [h_i, if_pos h_le, h_skip]
      rfl
    · cases h_course
    · refine ⟨h_le, ?_⟩
      change if Stage.ready = Stage.over then _ else (w.i : Int) ≤ _
      rw [if_neg (by decide), h_i]
      exact h_le
  · refine ⟨.blind, .over, ?_, .inr ⟨rfl, by decide⟩, h_lined, h_reached, h_told _ _,
      fun _ => h_plan, fun h_course => ?_, ?_⟩
    · rw [started, courseOf, if_neg h_short, if_neg h_marked]
    · cases h_course
    · exact ⟨not_not.mp h_marked, rfl, h_time⟩

/-- **Departure**: on a path that it can be given, the worker gets under way.

The calls before the loop are `process_path`, the plan of the stop, and `send_branches` twice, in
front of the start of the train. The tour after each of them has a name, and what was shown of the
one before is carried over to it. -/
theorem exists_depart (h_wf : T.raw.WellFormed) (h_num : Numbered T) (h : Suited T path pathDist)
    (r : TrainRecord) (train : TrainNum) (t₁ t₂ start : Int32) :
    ∃ w, depart T r train path pathDist t₁ t₂ start = .ok w ∧
      OnPath T path pathDist w ∧ (w.stage = .ready ∨ w.stage = .over ∧ w.course ≠ .short) ∧
      w.i = 0 ∧
        w.train = train := by
  obtain ⟨r₀, r₁, h_path, h_plan, h_lined, h_marker, h_reached, h_n⟩ :=
    exists_planned h_wf h_num h r train
  obtain ⟨r₂, h_ok₂, h_table₂, h_reached₂⟩ := h_reached.sendBranches h_lined.table
  obtain ⟨r₃, h_ok₃, h_table₃, h_reached₃⟩ := h_reached₂.sendBranches h_table₂
  have h_sends₂ := TrainRecord.sends_of_sendBranches h_ok₂
  have h_sends₃ := TrainRecord.sends_of_sendBranches h_ok₃
  have h_sends := h_sends₂.trans h_sends₃
  have h_sent : r₁.sent = [] := by
    cases h_reached with
    | start _ _ h_sent => exact h_sent
    | sensor done rest _ h_calls => exact absurd h_calls (Nat.succ_ne_zero _)
    | finish h_calls => exact absurd h_calls (Nat.not_lt_zero _)
  -- the tour before the first switches
  let w₀ : Tour := {
    train, record := r₁, time := fun _ => 0, course := .blind, stage := .over, i := 0, skip := false
    triggered := 0, triggeredTime := 0, startTime := start, markerTime := start, commands := [] }
  -- the tour after each call gets a name, so that the updates of one are not unfolded with those of
  -- the next
  have h_w₁ := @sendBranches_eq w₀ r₂ h_ok₂ t₁
  obtain ⟨w₁, h_eq₁⟩ : ∃ w₁ : Tour, w₁ = { w₀ with
    record := r₂, commands :=
      w₀.commands ++ (r₂.sent.drop w₀.record.sent.length).map (switchCommand t₁) } := ⟨_, rfl⟩
  rw [← h_eq₁] at h_w₁
  have h_record₁ : w₁.record = r₂ := by rw [h_eq₁]
  have h_switches₁ : w₁.commands.filterMap switchOf = w₁.record.sent.map pairOf := by
    rw [h_eq₁]
    exact @switches_append w₀ r₂ h_sends₂.grows
      (by change _ = List.map _ r₁.sent; rw [h_sent]; rfl) t₁
  have h_speeds₁ : w₁.commands.filterMap speedOf = [] := by
    rw [h_eq₁]
    exact speedOf_switchCommand _ _
  have h_w₂ := @sendBranches_eq w₁ r₃ (h_record₁ ▸ h_ok₃) t₂
  obtain ⟨w₂, h_eq₂⟩ : ∃ w₂ : Tour, w₂ = { w₁ with
    record := r₃, commands :=
      w₁.commands ++ (r₃.sent.drop w₁.record.sent.length).map (switchCommand t₂) } := ⟨_, rfl⟩
  rw [← h_eq₂] at h_w₂
  have h_record₂ : w₂.record = r₃ := by rw [h_eq₂]
  have h_switches₂ : w₂.commands.filterMap switchOf = r₃.sent.map pairOf := by
    rw [h_eq₂]
    exact switches_append (h_record₁ ▸ h_sends₃.grows) h_switches₁ t₂
  have h_speeds₂ : w₂.commands.filterMap speedOf = [] := by
    rw [h_eq₂, List.filterMap_append, h_speeds₁, speedOf_switchCommand]
    rfl
  -- the start
  have h_speed : w₂.record.n.speed.toUInt8.toNat = 7 := by
    rw [h_record₂, h_sends.same, h_n, createNeutron_speed]
    rfl
  obtain ⟨h_start, h_time, h_i, h_skip, h_train⟩ :
      w₂.startTime = start ∧ w₂.markerTime = start ∧ w₂.i = 0 ∧
      w₂.skip = false ∧ w₂.train = train := by
    rw [h_eq₂, h_eq₁]
    exact ⟨rfl, rfl, rfl, rfl, rfl⟩
  have h_told : (w₂.trainCommand (.speed train 7 start.toInt)).Told T path := by
    refine ⟨?_, ?_, w₂.commands, [], r₃, ?_, h_switches₂, h_reached₃.inTime h_table₃⟩
    · change (w₂.commands ++ [_]).filterMap switchOf = w₂.record.sent.map pairOf
      rw [List.filterMap_append, h_switches₂, h_record₂]
      exact List.append_nil _
    · change (w₂.commands ++ [_]).filterMap speedOf = [(w₂.startTime.toInt, 7)]
      rw [List.filterMap_append, h_speeds₂, h_start]
      rfl
    · change w₂.commands ++ [_] = w₂.commands ++ [TrainRequest.speed w₂.train 7 w₂.startTime.toInt]
      rw [h_train, h_start]
  have h_record : (w₂.trainCommand (.speed train 7 start.toInt)).record = r₃ := h_record₂
  have h_same := h_sends.same
  obtain ⟨course, stage, h_started, h_stage, h_on⟩ := @onPath_started T path pathDist
    (w₂.trainCommand (.speed train 7 start.toInt)) (h_record ▸ h_lined.of_sends h_sends)
      (h_record ▸ h_reached₃) h_told
    (by rw [h_record, h_same]; exact h_marker) h_i h_skip
    (by
      rw [h_record, h_same]
      change Planned T w₂.train path pathDist r₁.stopMarker r₁.stopOffset
      rw [h_train]
      exact ⟨r, r₀, r₁, h_path, h_plan, rfl, rfl⟩)
    (by
      rw [h_record, h_same]
      change _ = createNeutron w₂.train _
      rw [h_train]
      exact h_n)
    (h_time.trans h_start.symm)
  refine ⟨_, ?_, h_on, h_stage, h_i, h_train⟩
  rw [depart, h_path, bind_of_ok rfl, h_plan, bind_of_ok rfl]
  change (do
    let w ← w₀.sendBranches t₁
    let w ← w.sendBranches t₂
    .ok (w.trainCommand (.speed train w.record.n.speed.toUInt8.toNat start.toInt)).started) = _
  rw [h_w₁, bind_of_ok rfl, h_w₂, bind_of_ok rfl, h_speed]
  exact congrArg Except.ok h_started

/-! ### From sensor to sensor -/

/-- What the loop body does to the sensors: it goes on by one, and the time of the answer is kept
for the sensor, less 100 ticks for the first one. The record of the path and the answer stay. -/
structure Passes (w w' : Tour) : Prop where
  i : w'.i = w.i + 1
  time : w'.time =
    Function.update w.time w.i (if w.i = 0 then w.triggeredTime - 100 else w.triggeredTime)
  same : w'.train = w.train ∧ w'.course = w.course ∧ w'.record.len = w.record.len ∧
    w'.record.next = w.record.next
  answer : w'.triggered = w.triggered ∧ w'.triggeredTime = w.triggeredTime
  /-- The answer is kept if it is from the sensor after the one that was waited for. -/
  stage : w'.stage = .ready ∧ ¬(w.i + 1 < w.record.len ∧ w.triggered = w.record.next (w.i + 1)) ∨
    w'.stage = .over ∨
    w'.stage = .heard ∧ w.i + 1 < w.record.len ∧ w.triggered = w.record.next (w.i + 1)

theorem OnPath.i_lt (h : OnPath T path pathDist w) (h_course : w.course = .marked)
    (h_stage : w.stage ≠ .over) :
    w.i < w.record.len := by
  have h_marker := h.lined.marker
  obtain ⟨-, h_i⟩ := h.of_marked h_course h_stage
  omega

/-- **The loop body**: the worker goes on to the next sensor, or is done with them. The switches in
front of the next sensors are sent on the way; the array of times has a place for each sensor of a
path that is suited. -/
theorem OnPath.exists_pass (h : OnPath T path pathDist w) (h_length : path.length ≤ trackMax)
    (h_course : w.course = .marked) (h_stage : w.stage = .heard) (now : Int32) :
    ∃ w', w.pass now = .ok w' ∧ OnPath T path pathDist w' ∧ w.Passes w' := by
  have h_not : w.stage ≠ .over := by rw [h_stage]; decide
  obtain ⟨h_marker, h_i⟩ := h.of_marked h_course h_not
  have h_lt := h.i_lt h_course h_not
  -- the sensor has a place in the array
  have h_room : w.i < maxSensors := by
    have h_sizes : trackMax ≤ maxSensors := by decide
    have h_len := h.lined.len
    have h_le := @sensors_le T path
    rw [length_sensorNums] at h_len
    omega
  obtain ⟨r, h_ok, h_table, h_reached⟩ := h.reached.sendBranches h.lined.table
  have h_sends := TrainRecord.sends_of_sendBranches h_ok
  have h_same := h_sends.same
  -- the time is noted, with 100 ticks taken off for the first sensor
  obtain ⟨w₁, h_w₁⟩ : ∃ w₁ : Tour, w₁ = { w with
      time :=
        Function.update w.time w.i (if w.i = 0 then w.triggeredTime - 100 else w.triggeredTime)
      skip := decide (w.i + 1 < w.record.len ∧ w.triggered = w.record.next (w.i + 1)) } := ⟨_, rfl⟩
  have h_told₁ : w₁.Told T path := by
    rw [h_w₁]
    exact ⟨h.told.switches, h.told.speeds, h.told.margin⟩
  have h_ok₁ : w₁.record.sendBranches = .ok r := by rw [h_w₁]; exact h_ok
  have h_told₂ := h_told₁.sendBranches h_ok₁ now
  have h_send := sendBranches_eq h_ok₁ now
  -- the switches behind the sensor are set
  obtain ⟨w₂, h_w₂⟩ : ∃ w₂ : Tour, w₂ = { w₁ with
      record := r, commands :=
        w₁.commands ++ (r.sent.drop w₁.record.sent.length).map (switchCommand now) } := ⟨_, rfl⟩
  rw [← h_w₂] at h_told₂ h_send
  have h_pass : w.pass now = .ok { w₂ with i := w₂.i + 1 }.head := by
    rw [pass, store, if_pos h_room, bind_of_ok rfl, ← h_w₁]
    exact bind_of_ok h_send
  -- the next sensor is waited for, or the marker has been passed
  have h_where := @where_head { w₂ with i := w₂.i + 1 } (by rw [h_w₂, h_w₁]; exact h_course)
    (by rw [h_w₂, h_same, h_w₁]; exact h_marker) (by
      rw [h_w₂, h_same, h_w₁]
      change ((w.i + 1 : ℕ) : Int) ≤ w.record.stopMarker + 1
      omega)
  obtain ⟨skip, stage, markerTime, h_head, h_stages⟩ := exists_head { w₂ with i := w₂.i + 1 }
  rw [h_head] at h_where h_pass
  refine ⟨_, h_pass, ?_, ?_⟩
  · refine ⟨?_, ?_, ⟨h_told₂.switches, h_told₂.speeds, h_told₂.margin⟩, fun h_ne => ?_,
      fun h_short => ?_, h_where⟩
    · change Lined T path w₂.record
      rw [h_w₂]
      exact h.lined.of_sends h_sends
    · change Reached _ (w₂.i + 1 + 2) w₂.record
      rw [h_w₂, h_w₁]
      exact h_reached
    · have h_plan := h.plan (by rw [h_course]; decide)
      change Planned T w₂.train path pathDist w₂.record.stopMarker w₂.record.stopOffset
      rw [h_w₂, h_same, h_w₁]
      exact h_plan
    · change w₂.course = _ at h_short
      rw [h_w₂, h_w₁] at h_short
      cases h_course.symm.trans h_short
  · -- what the step has done, field by field
    have h_skip : w₂.skip = true ↔ w.i + 1 < w.record.len ∧
        w.triggered = w.record.next (w.i + 1) := by
      rw [h_w₂, h_w₁]
      exact decide_eq_true_iff
    constructor
    · change w₂.i + 1 = _
      rw [h_w₂, h_w₁]
    · change w₂.time = _
      rw [h_w₂, h_w₁]
    · change w₂.train = _ ∧ w₂.course = _ ∧ w₂.record.len = _ ∧ w₂.record.next = _
      rw [h_w₂, h_same, h_w₁]
      exact ⟨rfl, rfl, rfl, rfl⟩
    · change w₂.triggered = _ ∧ w₂.triggeredTime = _
      rw [h_w₂, h_w₁]
      exact ⟨rfl, rfl⟩
    · rw [h_skip] at h_stages
      exact h_stages

/-- The branch for a short stop. -/
theorem OnPath.rebuild (h : OnPath T path pathDist w) (h_course : w.course = .short) :
    OnPath T path pathDist w.rebuild where
  lined := ⟨h.lined.len, h.lined.next, h.lined.table.congr rfl, h.lined.marker⟩
  reached := h.reached.congr rfl rfl
  told := ⟨h.told.switches, h.told.speeds, h.told.margin⟩
  plan h_ne := absurd h_course h_ne
  profile _ h_over := absurd rfl h_over
  place := by
    obtain ⟨h_len, h_i, -⟩ := h.of_short h_course
    change match w.course with | .short => _ | .blind => _ | .marked => _
    rw [h_course]
    exact ⟨h_len, h_i, fun _ => rfl⟩

/-! ### The stop -/

/-- What the loop after the stop looks at. -/
theorem branch_of_reached {c : ℕ} {ms : List Mark} {r : TrainRecord} (h : Reached ms c r)
    (h_table : Table ms r) (h_pos : 0 < c) : r.branch = .ok (-1) ∧
      r.sent = ms.filterMap Mark.command ∨
      ∃ b, r.branch = .ok b ∧ b ≠ -1 ∧ c ≤ ms.count .sensor := by
  cases h with
  | start h_calls => omega
  | sensor done rest h_marks h_calls h_j =>
    -- a sensor has the code 0, and there are at least `c` of them
    obtain ⟨h_range, h_branch⟩ := h_table.branch_eq h_marks h_j
    refine .inr ⟨_, if_pos h_range, by rw [h_branch]; exact (by decide : (0 : Int32) ≠ -1), ?_⟩
    rw [h_marks, List.count_append, List.count_cons_self]
    omega
  | finish h_calls h_j h_sent =>
    obtain ⟨h_range, h_branch⟩ := h_table.branch_eq (List.append_nil ms).symm h_j
    refine .inl ⟨?_, h_sent⟩
    rw [TrainRecord.branch, if_pos h_range, h_branch]
    rfl

/-- **The loop after the stop** sends the switches that are left, and nothing else. -/
theorem exists_sendRest {c : ℕ} (h_reached : Reached (marks T path) c w.record)
    (h_table : Table (marks T path) w.record) (h_pos : 0 < c)
    (h_switches : w.commands.filterMap switchOf = w.record.sent.map pairOf) {times : List Int32}
    (h_enough : (marks T path).count .sensor < c + times.length) :
    ∃ r more, w.sendRest times = .ok { w with record := r, commands := w.commands ++ more } ∧
      w.record.Sends r ∧
      (w.commands ++ more).filterMap switchOf = (passages T path).map pairOf ∧
      more.filterMap speedOf = [] := by
  -- a call goes on to the next sensor, so `c + times.length` stays what it is
  induction times generalizing c w with
  | nil =>
    rw [List.length_nil] at h_enough
    -- no more calls: as many have been made as there are sensors, and one more
    obtain ⟨h_branch, h_sent⟩ | ⟨b, -, -, h_left⟩ := branch_of_reached h_reached h_table h_pos
    · refine ⟨w.record, [], ?_, ⟨rfl, List.prefix_rfl⟩, ?_, rfl⟩
      · rw [List.append_nil, sendRest, h_branch]
        rfl
      · rw [List.append_nil, h_switches, h_sent]
        rfl
    · omega
  | cons now times ih =>
    rw [List.length_cons] at h_enough
    obtain ⟨h_branch, h_sent⟩ | ⟨b, h_branch, h_b, -⟩ := branch_of_reached h_reached h_table h_pos
    · -- all have been sent
      refine ⟨w.record, [], ?_, ⟨rfl, List.prefix_rfl⟩, ?_, rfl⟩
      · rw [List.append_nil, sendRest, h_branch]
        rfl
      · rw [List.append_nil, h_switches, h_sent]
        rfl
    · -- one call of `send_branches`, and then the others
      obtain ⟨r, h_ok, h_table', h_reached'⟩ := h_reached.sendBranches h_table
      have h_sends := TrainRecord.sends_of_sendBranches h_ok
      have h_send := sendBranches_eq h_ok now
      have h_switches' := switches_append h_sends.grows h_switches now
      obtain ⟨r', more, h_rest, h_sends', h_all, h_none⟩ := @ih { w with
        record := r
        commands := w.commands ++ (r.sent.drop w.record.sent.length).map (switchCommand now) }
          (c + 1) h_reached' h_table'
        (by omega) h_switches' (by omega)
      refine ⟨r', (r.sent.drop w.record.sent.length).map (switchCommand now) ++ more, ?_,
        h_sends.trans h_sends', ?_, ?_⟩
      · rw [sendRest, h_branch, bind_of_ok rfl, if_neg h_b, ← List.append_assoc]
        exact (bind_of_ok h_send).trans h_rest
      · rw [← List.append_assoc]
        exact h_all
      · rw [List.filterMap_append, speedOf_switchCommand, h_none]
        rfl

/-- What has been sent on a tour that has come to its end. -/
structure Completes (T : Track) (path : List NodeNum) (w w' : Tour) : Prop where
  /-- Each switch of the path once, in order. -/
  switches : w'.commands.filterMap switchOf = (passages T path).map pairOf
  /-- The start and the stop. -/
  speeds : w'.commands.filterMap speedOf =
    [(w.startTime.toInt, 7), ((w.markerTime + w.record.stopOffset).toInt, 0)]
  /-- Before the start, the switches up to the second sensor have been set. -/
  margin : ∃ before after r, w'.commands = before ++ .speed w.train 7 w.startTime.toInt :: after ∧
    before.filterMap switchOf = r.sent.map pairOf ∧ InTime T path 2 r
  same : w'.train = w.train ∧ w'.time = w.time ∧ w'.i = w.i ∧ w'.course = w.course ∧
    w'.startTime = w.startTime ∧
    w'.markerTime = w.markerTime ∧ w'.record.stopOffset = w.record.stopOffset

/-- **The stop.** The command for it comes first, at the time that was counted from the marker; then
the switches that are left are sent, one sensor at a time, until the table has come to its end. -/
theorem OnPath.exists_halt (h : OnPath T path pathDist w) {times : List Int32}
    (h_times : path.length ≤ times.length) :
    ∃ w', w.halt times = .ok w' ∧ w.Completes T path w' := by
  -- the stop is ordered first
  have h_count : (marks T path).count .sensor ≤ path.length := by
    rw [marks, count_marksFrom]
    exact sensors_le
  have h_reached : Reached (marks T path) (w.i + 2) { w.record with stopMarker := -1 } :=
    h.reached.congr rfl rfl
  have h_switches :
      (w.commands ++
        [TrainRequest.speed w.train 0 (w.markerTime + w.record.stopOffset).toInt]).filterMap
      switchOf = w.record.sent.map pairOf := by
    rw [List.filterMap_append, h.told.switches]
    exact List.append_nil _
  obtain ⟨r, more, h_ok, h_sends, h_all, h_none⟩ := @exists_sendRest T path
    { w with
      record := { w.record with stopMarker := -1 }
      commands := w.commands ++ [.speed w.train 0 (w.markerTime + w.record.stopOffset).toInt] }
    (w.i + 2) h_reached (h.lined.table.congr rfl) (by omega) h_switches times (by omega)
  refine ⟨_, h_ok, h_all, ?_, ?_, ?_⟩
  · change (w.commands ++ [_] ++ more).filterMap speedOf = _
    rw [List.filterMap_append, List.filterMap_append, h.told.speeds, h_none]
    rfl
  · obtain ⟨before, after, r₀, h_commands, h_before⟩ := h.told.margin
    refine ⟨before, after ++ [.speed w.train 0 (w.markerTime + w.record.stopOffset).toInt] ++ more,
      r₀, ?_, h_before⟩
    change w.commands ++ [_] ++ more = _
    rw [h_commands]
    simp
  · refine ⟨rfl, rfl, rfl, rfl, rfl, rfl, ?_⟩
    change r.stopOffset = _
    rw [h_sends.same]

/-! ### When the sensors are passed -/

/-- What the worker waits for when it is at the `k`th of the sensors `nums`. -/
def awaited (course : Course) (nums : List Int) (k : ℕ) : List Int :=
  if course = .short then nums.take 1 else (nums.drop k).take 2

/-- The offset for a short stop, if the first sensor is passed at `time`. -/
def rebuiltOffset (train : TrainNum) (pathDist start time : Int32) : Int32 :=
  let n := adjustOffset (createNeutron train (pathDist * 1000).toUInt32) train (time - 100 - start)
  (n.timeA + n.timeB).toInt32

/-- The answer for the `k`th sensor: to the subscription for it, or, if it has been passed over, to
the one before. `A` says which subscriptions have been answered, with which sensor first, and
when. -/
def AnsweredAt (A : List Int → Int → Int32 → Prop) (nums : List Int) (k : ℕ) (first : Int)
    (time : Int32) : Prop :=
  A ((nums.drop k).take 2) first time ∨
    ∃ k', k = k' + 1 ∧ A ((nums.drop k').take 2) first time ∧ nums[k]? = some first

/-- The times are those of the answers; `A` says which subscriptions have been answered. What is
kept for a sensor is the time of its own answer, or of the one that showed that it had been passed
over, and 100 ticks less for the first one. On a short path the one answer leads to the stop. -/
structure Timed (A : List Int → Int → Int32 → Prop) (nums : List Int) (pathDist : Int32)
    (w : Tour) : Prop where
  passed : ∀ k < w.i, ∃ first time, AnsweredAt A nums k first time ∧
    w.time k = if k = 0 then time - 100 else time
  heard : w.course ≠ .short → w.stage = .heard → AnsweredAt A nums w.i w.triggered w.triggeredTime
  short : w.course = .short → w.stage = .heard → A (nums.take 1) w.triggered w.triggeredTime
  rebuilt : w.course = .short → w.stage = .over → ∃ first time, A (nums.take 1) first time ∧
    w.record.stopOffset = rebuiltOffset w.train pathDist w.startTime time

section
variable {A A' : List Int → Int → Int32 → Prop} {nums : List Int}

theorem AnsweredAt.mono (h : ∀ l first time, A l first time → A' l first time) {k : ℕ} {first : Int}
    {time : Int32} (h_at : AnsweredAt A nums k first time) : AnsweredAt A' nums k first time := by
  rcases h_at with h_own | ⟨k', h_k, h_before, h_first⟩
  · exact .inl (h _ _ _ h_own)
  · exact .inr ⟨k', h_k, h _ _ _ h_before, h_first⟩

theorem Timed.mono (h_le : ∀ l first time, A l first time → A' l first time)
    (h : Timed A nums pathDist w) :
    Timed A' nums pathDist w where
  passed k h_k := by
    obtain ⟨first, time, h_at, h_time⟩ := h.passed k h_k
    exact ⟨first, time, h_at.mono h_le, h_time⟩
  heard h_course h_stage := (h.heard h_course h_stage).mono h_le
  short h_course h_stage := h_le _ _ _ (h.short h_course h_stage)
  rebuilt h_course h_stage := by
    obtain ⟨first, time, h_first, h_offset⟩ := h.rebuilt h_course h_stage
    exact ⟨first, time, h_le _ _ _ h_first, h_offset⟩

/-- **What is subscribed to** are the sensors that come next: the one that the worker waits for and
the one after it, or on a short path the first one alone. There is one, as long as the tour is not
over. -/
theorem OnPath.subscription_eq (h : OnPath T path pathDist w) (h_stage : w.stage ≠ .over) :
    w.subscription = awaited w.course (sensorNums T path) w.i ∧
      w.i < (sensorNums T path).length := by
  have h_len := h.lined.len
  -- the sensors of the record are those of the path
  have h_next : ∀ k < (sensorNums T path).length,
      (sensorNums T path)[k]? = some (w.record.next k) := by
    intro k h_k
    rw [h.lined.next k _ (List.getElem?_eq_getElem h_k)]
    exact List.getElem?_eq_getElem h_k
  unfold subscription awaited
  cases h_course : w.course with
  -- on a short path only the first sensor is waited for
  | short =>
    obtain ⟨h_ne, h_i, -⟩ := h.of_short h_course
    have h_zero := h_next 0 (by omega)
    rw [if_pos rfl]
    refine ⟨?_, by omega⟩
    cases h_nums : sensorNums T path with
    | nil =>
      rw [h_nums] at h_zero
      cases h_zero
    | cons num nums =>
      rw [h_nums] at h_zero
      exact congrArg (fun n => [n]) (Option.some.inj h_zero).symm
  -- without a sensor before the stop nothing is waited for
  | blind => exact absurd (h.of_blind h_course).2.1 h_stage
  -- the next sensor, and the one behind it if there is one
  | marked =>
    have h_lt := h.i_lt h_course h_stage
    rw [h_len] at h_lt
    refine ⟨?_, h_lt⟩
    rw [if_neg (show Course.marked ≠ .short by decide), List.drop_eq_getElem_cons h_lt,
      List.take_succ_cons,
      Option.some.inj ((List.getElem?_eq_getElem h_lt).symm.trans (h_next _ h_lt))]
    refine congrArg (_ :: ·) ?_
    rw [h_len]
    split
    · next h_more =>
      rw [List.drop_eq_getElem_cons h_more, List.take_succ_cons,
        Option.some.inj ((List.getElem?_eq_getElem h_more).symm.trans (h_next _ h_more))]
      rfl
    · next h_last =>
      rw [List.drop_eq_nil_of_le (by omega)]
      rfl

/-- The answer comes. -/
theorem Timed.hear (h : Timed A nums pathDist w) {triggered : List Dispatch.Sensor} {time : ℕ}
    {first : Dispatch.Sensor} (h_first : triggered.head? = some first)
    (h_answer : A (awaited w.course nums w.i) first.val (Int32.ofNat time)) :
    Timed A nums pathDist (w.hear triggered time) where
  passed := h.passed
  heard h_course _ := by
    refine .inl ?_
    change A _ (((triggered.head?.map fun i => (i.val : Int)).getD 0)) _
    have h_course : w.course ≠ .short := h_course
    -- the worker waits for the sensor that it is at and the next one
    rw [awaited, if_neg h_course] at h_answer
    rw [h_first]
    exact h_answer
  short h_course _ := by
    change A _ (((triggered.head?.map fun i => (i.val : Int)).getD 0)) _
    have h_course : w.course = .short := h_course
    -- on a short path it waits for any of the sensors
    rw [awaited, if_pos h_course] at h_answer
    rw [h_first]
    exact h_answer
  rebuilt _ h_stage := by cases h_stage

/-- The worker goes on. The time that is kept is that of the answer it has heard; and if the answer
is kept for the next sensor as well, it is the one that showed that the first had been passed
over. -/
theorem Timed.pass (h : Timed A (sensorNums T path) pathDist w) (h_on : OnPath T path pathDist w)
    (h_once : (sensorNums T path).Nodup) (h_course : w.course = .marked)
    (h_stage : w.stage = .heard) (h_passes : w.Passes w') :
    Timed A (sensorNums T path) pathDist w' := by
  have h_not : w.course ≠ .short := by rw [h_course]; decide
  have h_not' : w'.course ≠ .short := by rw [h_passes.same.2.1]; exact h_not
  have h_heard := h.heard h_not h_stage
  have h_lt := h_on.i_lt h_course (by rw [h_stage]; decide)
  have h_len := h_on.lined.len
  refine ⟨fun k h_k => ?_, fun _ h_stage' => ?_, fun h_short => absurd h_short h_not',
    fun h_short => absurd h_short h_not'⟩
  · rw [h_passes.time]
    rw [h_passes.i] at h_k
    rcases Nat.lt_or_eq_of_le (Nat.le_of_lt_succ h_k) with h_k | rfl
    · rw [Function.update_of_ne h_k.ne]
      exact h.passed k h_k
    · rw [Function.update_self]
      exact ⟨_, _, h_heard, rfl⟩
  · -- the sensor that was waited for has been passed over
    obtain ⟨h_more, h_triggered⟩ : w.i + 1 < w.record.len ∧
        w.triggered = w.record.next (w.i + 1) := by
      rcases h_passes.stage with ⟨h_ready, -⟩ | h_over | ⟨-, h_skip⟩
      · cases h_ready.symm.trans h_stage'
      · cases h_over.symm.trans h_stage'
      · exact h_skip
    have h_next : (sensorNums T path)[w.i + 1]? = some w.triggered := by
      rw [h_triggered, h_on.lined.next _ _ (List.getElem?_eq_getElem (h_len ▸ h_more))]
      exact List.getElem?_eq_getElem _
    rw [h_passes.i, h_passes.answer.1, h_passes.answer.2]
    rcases h_heard with h_own | ⟨k', -, -, h_first⟩
    · exact .inr ⟨w.i, rfl, h_own, h_next⟩
    · -- it cannot be the one before as well: the sensors are different
      have h_lt' : w.i < (sensorNums T path).length := h_len ▸ h_lt
      have h_eq := (List.getElem?_inj h_lt' h_once).mp (h_first.trans h_next.symm)
      omega

/-- The profile has been built again. -/
theorem Timed.rebuild (h : Timed A nums pathDist w) (h_on : OnPath T path pathDist w)
    (h_course : w.course = .short) (h_stage : w.stage = .heard) :
    Timed A nums pathDist w.rebuild where
  passed := h.passed
  heard h_ne := absurd h_course h_ne
  short _ h_heard := by cases h_heard
  rebuilt _ _ := by
    refine ⟨_, _, h.short h_course h_stage, ?_⟩
    change (let n := adjustOffset w.record.n w.train (w.triggeredTime - 100 - w.startTime);
      (n.timeA + n.timeB).toInt32) = _
    rw [h_on.profile h_course (by rw [h_stage]; decide)]
    rfl

end

end Tour

end Drive
end PollingExpress
