import PollingExpress.Drive.Journeys

/-!
# In step with the train

A worker knows of its train what the sensors say, and some of them fail. This is why it waits for
the next sensor and the one after it.

`ride` is where the train is by the history of the dispatch server alone: an update that triggers a
sensor in front of the train moves it over that sensor, and over those before it that have failed.
`KeepsPace` is what the worker is built for: an update triggers at most one sensor in front of the
train, no two sensors in a row are missed, and the worker has subscribed by then.

Then the worker and its train are in step (`in_step_of_reaches`): the time that the worker keeps for
a sensor is that at which the train has come over it, and the stop is counted from the time at which
the train has come over the marker.
-/

namespace PollingExpress
namespace Drive

open Nav (TrainNum numSensors maxNumTrains)
open Dispatch

/-! ### The train -/

/-- The sensors in front of a train that an update triggers; the train is before the `pos`th of the
sensors `nums`. -/
def tripped (nums : List Int) (pos : ℕ) (readings : Fin 10 → UInt8) : List ℕ :=
  (List.range nums.length).filter fun k => pos ≤ k ∧
    ((nums[k]?.bind sensorOf).any (triggered readings)) = true

/-- Where a train is on its path, and when it came over the sensors behind it. -/
structure Ride where
  pos : ℕ
  times : ℕ → Option ℕ

/-- The train comes over the last of the sensors that are triggered. -/
def Ride.update (nums : List Int) (x : Ride) (readings : Fin 10 → UInt8) (time : ℕ) : Ride :=
  match (tripped nums x.pos readings).getLast? with
  | none => x
  | some k => ⟨k + 1, fun j => if x.pos ≤ j ∧ j ≤ k then some time else x.times j⟩

def Ride.after (nums : List Int) (x : Ride) : DispatchRequest → Ride
  | .sensorUpdate readings time => x.update nums readings time
  | _ => x

/-- The train, by these rounds. -/
def ride (nums : List Int) (rounds : List Round) : Ride :=
  rounds.foldl (fun x round => x.after nums round.message.req) ⟨0, fun _ => none⟩

/-- The time that the worker keeps for a sensor that the train comes over at `time`. -/
def timeOf (k time : ℕ) : Int32 := if k = 0 then Int32.ofNat time - 100 else Int32.ofNat time

/-- An update that the worker is prepared for. -/
def WorkerState.KeepsPace (T : Track) (log : List Round) (readings : Fin 10 → UInt8) :
    WorkerState → Prop
  | .driving path _ departed w => w.course = .marked → w.stage ≠ .over →
      tripped (sensorNums T path) (ride (sensorNums T path) (log.drop departed)).pos readings = [] ∨
        w.stage = .waiting ∧
        (tripped (sensorNums T path) (ride (sensorNums T path) (log.drop departed)).pos readings =
            [(ride (sensorNums T path) (log.drop departed)).pos] ∨
          tripped (sensorNums T path) (ride (sensorNums T path) (log.drop departed)).pos readings =
            [(ride (sensorNums T path) (log.drop departed)).pos + 1])
  | .calling _ => True

instance (T : Track) (log : List Round) (readings : Fin 10 → UInt8) : ∀ x :
    WorkerState, Decidable (x.KeepsPace T log readings)
  | .driving .. => inferInstanceAs (Decidable (_ → _ → _ ∨ _ ∧ (_ ∨ _)))
  | .calling _ => .isTrue trivial

def readingsOf : DispatchRequest → Option (Fin 10 → UInt8)
  | .sensorUpdate readings _ => some readings
  | _ => none

/-- All workers are prepared for what comes. -/
def Paced (T : Track) (s : Fleet) : FleetLabel → Prop
  | .other m => ∀ readings ∈ readingsOf m.req, ∀ t, (s.workers t).KeepsPace T s.server.log readings
  | _ => True

instance (T : Track) (s : Fleet) : ∀ l, Decidable (Paced T s l)
  -- not by going through all readings
  | .other m => Option.decidableForallMem (readingsOf m.req)
  | .depart .. | .subscribe _ | .proceed .. | .halt .. => .isTrue trivial

/-! ### The worker -/

/-- The worker is in step with its train.

`nums` are the sensors of the path, and `x` is where the train is, by the reports; the worker has
the times of the sensors it is past, but for the 100 ticks that it takes off the first one
(`timeOf`). -/
structure InStep (nums : List Int) (x : Ride) (w : Tour) : Prop where
  behind : w.i ≤ x.pos
  passed : ∀ k < w.i, ∃ time, x.times k = some time ∧ w.time k = timeOf k time
  /-- About to subscribe, or waiting, the worker is where the train is. -/
  next : w.stage = .ready ∨ w.stage = .waiting → x.pos = w.i
  /-- With an answer, it is one sensor behind, or two if that sensor has failed. -/
  heard : w.stage = .heard → ∃ time, x.times w.i = some time ∧ w.triggeredTime = Int32.ofNat time ∧
    (x.pos = w.i + 1 ∧ nums[w.i]? = some w.triggered ∨
      x.pos = w.i + 2 ∧ nums[w.i + 1]? = some w.triggered ∧ x.times (w.i + 1) = some time)

/-- The stop is counted from the time at which the train came over the marker, less the 100 ticks
that are taken off if the marker is the first sensor. -/
def OnTime (T : Track) (j : Journey) : Prop :=
  ∃ marker time : ℕ, Planned T j.tour.train j.path j.pathDist marker j.tour.record.stopOffset ∧
    (ride (sensorNums T j.path) j.rounds).times marker = some time ∧
      j.tour.markerTime = timeOf marker time

variable {T : Track} {tids : TrainNum ↪ ℕ} {s s' : Fleet} {t : TrainNum} {tid : ℕ}
  {log rounds : List Round} {round : Round} {path : List NodeNum} {pathDist : Int32} {departed : ℕ}
    {w w' : Tour} {nums : List Int} {x : Ride}
  {readings : Fin 10 → UInt8} {time k : ℕ}

@[simp] theorem ride_snoc (nums : List Int) (rounds : List Round) (round : Round) :
    ride nums (rounds ++ [round]) = (ride nums rounds).after nums round.message.req :=
  List.foldl_append

theorem mem_tripped : k ∈ tripped nums x.pos readings ↔
    x.pos ≤ k ∧ ∃ num i, nums[k]? = some num ∧ sensorOf num = some i ∧
      triggered readings i = true := by
  unfold tripped
  rw [List.mem_filter, List.mem_range, decide_eq_true_iff, Option.any_eq_true]
  constructor
  · rintro ⟨-, h_pos, i, h_i, h_trig⟩
    obtain ⟨num, h_num, h_i⟩ := Option.bind_eq_some_iff.mp h_i
    exact ⟨h_pos, num, i, h_num, h_i, h_trig⟩
  · rintro ⟨h_pos, num, i, h_num, h_i, h_trig⟩
    obtain ⟨h_k, -⟩ := List.getElem?_eq_some_iff.mp h_num
    exact ⟨h_k, h_pos, i, Option.bind_eq_some_iff.mpr ⟨num, h_num, h_i⟩, h_trig⟩

theorem Ride.update_nil (h : tripped nums x.pos readings = []) :
    x.update nums readings time = x := by
  rw [Ride.update, h]
  rfl

theorem Ride.update_singleton (h : tripped nums x.pos readings = [k]) :
    x.update nums readings time =
    ⟨k + 1, fun j => if x.pos ≤ j ∧ j ≤ k then some time else x.times j⟩ := by
  rw [Ride.update, h]
  rfl

/-- What the train has behind it stays behind it. -/
theorem Ride.update_behind (x : Ride) : x.pos ≤ (x.update nums readings time).pos ∧
    ∀ j < x.pos, (x.update nums readings time).times j = x.times j := by
  unfold Ride.update
  cases h_last : (tripped nums x.pos readings).getLast? with
  | none => exact ⟨le_rfl, fun _ _ => rfl⟩
  | some k =>
    have h_k := (mem_tripped.mp (List.mem_of_getLast? h_last)).1
    refine ⟨h_k.trans (Nat.le_succ k), fun j h_j => ?_⟩
    exact if_neg fun h_in => absurd h_in.1 (Nat.not_le_of_lt h_j)

/-- With the sensors behind, nothing more can go wrong. -/
theorem InStep.over (h : InStep nums x w) (h_stage : w.stage = .over) (readings : Fin 10 → UInt8)
    (time : ℕ) :
    InStep nums (x.update nums readings time) w where
  behind := h.behind.trans x.update_behind.1
  passed k h_k := by
    rw [x.update_behind.2 k (h_k.trans_le h.behind)]
    exact h.passed k h_k
  next h_next := by
    rcases h_next with h_next | h_next <;> cases h_stage.symm.trans h_next
  heard h_heard := by cases h_stage.symm.trans h_heard

/-! ### What the worker hears -/

theorem sensorOf_numOf (i : Sensor) : sensorOf (numOf i) = some i := by
  have h_i : (0 : Int) ≤ numOf i ∧ (numOf i).toNat < numSensors := ⟨Int.natCast_nonneg _, i.isLt⟩
  exact dif_pos h_i

theorem mem_take_two {num : Int} {i : ℕ} : num ∈ (nums.drop i).take 2 ↔
      ∃ j, (j = i ∨ j = i + 1) ∧ nums[j]? = some num := by
  rw [List.mem_iff_getElem?]
  constructor
  · rintro ⟨j, h_j⟩
    rw [List.getElem?_take] at h_j
    split at h_j
    · next h_lt =>
      rw [List.getElem?_drop] at h_j
      exact ⟨i + j, by omega, h_j⟩
    · cases h_j
  · rintro ⟨j, h_j, h_num⟩
    refine ⟨j - i, ?_⟩
    rw [List.getElem?_take, if_pos (by omega), List.getElem?_drop, Nat.add_sub_cancel' (by omega)]
    exact h_num

section
variable {sensors : List Sensor} {i : Sensor}

/-- What the worker hears of are sensors that the train comes over. -/
theorem tripped_of_hit (h_map : sensors.map numOf = (nums.drop x.pos).take 2)
    (h_hit : i ∈ hits readings ⟨tid, sensors⟩) :
    ∃ j ∈ tripped nums x.pos readings, nums[j]? = some (numOf i) := by
  obtain ⟨h_mem, h_trig⟩ := of_decide_eq_true (List.mem_filter.mp h_hit).2
  have h_num : numOf i ∈ (nums.drop x.pos).take 2 := by
    rw [← h_map]
    exact List.mem_map_of_mem h_mem
  obtain ⟨j, h_j, h_eq⟩ := mem_take_two.mp h_num
  exact ⟨j, mem_tripped.mpr ⟨by omega, numOf i, i, h_eq, sensorOf_numOf i, h_trig⟩, h_eq⟩

/-- And it hears of the next two. -/
theorem hit_of_tripped (tid : ℕ) (h_map : sensors.map numOf = (nums.drop x.pos).take 2)
    (h_k : k ∈ tripped nums x.pos readings) (h_next : k = x.pos ∨ k = x.pos + 1) :
    ∃ i ∈ hits readings ⟨tid, sensors⟩, nums[k]? = some (numOf i) := by
  obtain ⟨-, num, i, h_num, h_i, h_trig⟩ := mem_tripped.mp h_k
  have h_eq := numOf_of_sensorOf h_i
  have h_mem : numOf i ∈ sensors.map numOf := by
    rw [h_map, h_eq]
    exact mem_take_two.mpr ⟨k, h_next, h_num⟩
  obtain ⟨i', h_i', h_same⟩ := List.mem_map.mp h_mem
  obtain rfl : i' = i :=
    Option.some.inj ((sensorOf_numOf i').symm.trans (h_same ▸ sensorOf_numOf i))
  exact ⟨i', List.mem_filter.mpr ⟨List.mem_finRange i', decide_eq_true ⟨h_i', h_trig⟩⟩,
    h_eq ▸ h_num⟩

/-- The worker hears that its train has come over one of the two sensors. The two that it waits for
are the two in front of the train, so the one that was triggered is among them, and no other is. -/
theorem InStep.hear (h : InStep nums x w) (h_pos : x.pos = w.i)
    (h_map : sensors.map numOf = (nums.drop x.pos).take 2)
    (h_one : tripped nums x.pos readings = [k]) (h_next : k = x.pos ∨ k = x.pos + 1)
    (tid time : ℕ) :
    hits readings ⟨tid, sensors⟩ ≠ [] ∧
      InStep nums (x.update nums readings time) (w.hear (hits readings ⟨tid, sensors⟩) time) := by
  obtain ⟨i, h_i, h_num⟩ := hit_of_tripped tid h_map (h_one ▸ List.mem_singleton_self k) h_next
  have h_ne : hits readings ⟨tid, sensors⟩ ≠ [] := List.ne_nil_of_mem h_i
  -- all that it hears of is that sensor
  have h_first : nums[k]? = some (w.hear (hits readings ⟨tid, sensors⟩) time).triggered := by
    obtain ⟨first, h_head⟩ : ∃ first, (hits readings ⟨tid, sensors⟩).head? = some first :=
      Option.isSome_iff_exists.mp (by simpa [List.isSome_head?] using h_ne)
    obtain ⟨j, h_j, h_eq⟩ := tripped_of_hit h_map (List.mem_of_head? h_head)
    rw [h_one] at h_j
    obtain rfl := List.mem_singleton.mp h_j
    rw [h_eq, Tour.hear, h_head]
    rfl
  rw [Ride.update_singleton h_one]
  have h_le : w.i ≤ k := by omega
  refine ⟨h_ne, h_le.trans (Nat.le_succ k), fun j h_j => ?_, fun h_stage => ?_,
    fun _ => ⟨time, ?_, rfl, ?_⟩⟩
  · have h_j : j < w.i := h_j
    obtain ⟨time', h_time, h_kept⟩ := h.passed j h_j
    exact ⟨time', (if_neg (by omega)).trans h_time, h_kept⟩
  · rcases h_stage with h_stage | h_stage <;> cases h_stage
  · exact if_pos ⟨h_pos.le, h_le⟩
  · change k + 1 = w.i + 1 ∧ nums[w.i]? = _ ∨ k + 1 = w.i + 2 ∧ nums[w.i + 1]? = _ ∧ _
    rw [← h_pos]
    rcases h_next with rfl | rfl
    · exact .inl ⟨rfl, h_first⟩
    · exact .inr
        ⟨rfl, h_first, if_pos ⟨h_pos.le.trans (Nat.le_succ _), (congrArg (· + 1) h_pos).ge⟩⟩

/-- An update that a waiting worker is prepared for: it triggers neither of the two sensors, or the
next one, or the one after it, if the next one has failed. -/
theorem InStep.answer (h : InStep nums x w) (h_pos : x.pos = w.i)
    (h_map : sensors.map numOf = (nums.drop x.pos).take 2)
    (h_pace : tripped nums x.pos readings = [] ∨ tripped nums x.pos readings = [x.pos] ∨
      tripped nums x.pos readings = [x.pos + 1]) (tid time : ℕ) :
        InStep nums (x.update nums readings time)
        (if hits readings ⟨tid, sensors⟩ = [] then w
          else w.hear (hits readings ⟨tid, sensors⟩) time) := by
  rcases h_pace with h_none | h_one | h_one
  · -- nothing is triggered that the worker waits for
    have h_hits : hits readings ⟨tid, sensors⟩ = [] := by
      rw [List.eq_nil_iff_forall_not_mem]
      intro i h_i
      obtain ⟨j, h_j, -⟩ := tripped_of_hit h_map h_i
      rw [h_none] at h_j
      cases h_j
    rw [if_pos h_hits, Ride.update_nil h_none]
    exact h
  · -- the train comes over the next sensor
    obtain ⟨h_ne, h_heard⟩ := h.hear h_pos h_map h_one (.inl rfl) tid time
    rw [if_neg h_ne]
    exact h_heard
  · -- the next sensor has failed, and the train comes over the one after it
    obtain ⟨h_ne, h_heard⟩ := h.hear h_pos h_map h_one (.inr rfl) tid time
    rw [if_neg h_ne]
    exact h_heard

end

/-- The worker goes on to the next sensor. If the train has come over the one after it, the worker
keeps the answer for the next turn and does not subscribe; if not, it waits for the next sensor, as
the train does. -/
theorem InStep.pass (h : InStep (sensorNums T path) x w) (h_on : w.OnPath T path pathDist)
    (h_once : (sensorNums T path).Nodup) (h_stage : w.stage = .heard) (h_passes : w.Passes w') :
    InStep (sensorNums T path) x w' := by
  obtain ⟨time, h_time, h_answer, h_where⟩ := h.heard h_stage
  have h_len := h_on.lined.len
  -- the worker sees whether it was the sensor after the one that it is at
  have h_skip : w.i + 1 < w.record.len ∧ w.triggered = w.record.next (w.i + 1) ↔
      (sensorNums T path)[w.i + 1]? = some w.triggered := by
    constructor
    · rintro ⟨h_more, h_eq⟩
      rw [h_eq, h_on.lined.next _ _ (List.getElem?_eq_getElem (h_len ▸ h_more))]
      exact List.getElem?_eq_getElem _
    · intro h_next
      obtain ⟨h_more, -⟩ := List.getElem?_eq_some_iff.mp h_next
      exact ⟨h_len ▸ h_more, (h_on.lined.next _ _ h_next).symm⟩
  refine ⟨?_, fun k h_k => ?_, fun h_next => ?_, fun h_heard => ?_⟩
  · rw [h_passes.i]
    omega
  · rw [h_passes.time]
    rw [h_passes.i] at h_k
    rcases Nat.lt_or_eq_of_le (Nat.le_of_lt_succ h_k) with h_k | rfl
    · rw [Function.update_of_ne h_k.ne]
      exact h.passed k h_k
    · refine ⟨time, h_time, ?_⟩
      rw [Function.update_self, h_answer]
      rfl
  · rw [h_passes.i]
    -- the sensor after it has not been heard of
    have h_not : ¬(sensorNums T path)[w.i + 1]? = some w.triggered := by
      rw [← h_skip]
      rcases h_passes.stage with ⟨-, h_not⟩ | h_over | ⟨h_heard, -⟩
      · exact h_not
      · rcases h_next with h_next | h_next <;> cases h_over.symm.trans h_next
      · rcases h_next with h_next | h_next <;> cases h_heard.symm.trans h_next
    rcases h_where with ⟨h_pos, -⟩ | ⟨-, h_next', -⟩
    · exact h_pos
    · exact absurd h_next' h_not
  · have h_next : (sensorNums T path)[w.i + 1]? = some w.triggered := by
      rw [← h_skip]
      rcases h_passes.stage with ⟨h_ready, -⟩ | h_over | ⟨-, h_next⟩
      · cases h_ready.symm.trans h_heard
      · cases h_over.symm.trans h_heard
      · exact h_next
    rw [h_passes.i, h_passes.answer.1, h_passes.answer.2]
    rcases h_where with ⟨-, h_own⟩ | ⟨h_pos, -, h_time'⟩
    · -- the sensors are different
      obtain ⟨h_lt, -⟩ := List.getElem?_eq_some_iff.mp h_own
      have h_eq := (List.getElem?_inj h_lt h_once).mp (h_own.trans h_next.symm)
      omega
    · exact ⟨time, h_time', h_answer, .inl ⟨h_pos, h_next⟩⟩

/-! ### One step -/

/-- The worker is in step, if it goes along its sensors. -/
def WorkerState.InPace (T : Track) (log : List Round) : WorkerState → Prop
  | .driving path _ departed w =>
    w.course = .marked → InStep (sensorNums T path) (ride (sensorNums T path) (log.drop departed)) w
  | .calling _ => True

/-- A round that is no update. -/
theorem WorkerState.InPace.quiet {y : WorkerState} (h : y.InPace T log)
    (h_past : ∀ path pathDist departed w, y = .driving path pathDist departed w →
      departed ≤ log.length)
    (h_req : ∀ readings time, round.message.req ≠ .sensorUpdate readings time) :
    y.InPace T (log ++ [round]) := by
  cases y with
  | calling record => exact trivial
  | driving path pathDist departed w =>
    intro h_course
    rw [List.drop_append_of_le_length (h_past path pathDist departed w rfl), ride_snoc]
    cases h_eq : round.message.req with
    | sensorUpdate readings time => exact absurd h_eq (h_req readings time)
    | _ => exact h h_course

/-- **A round** of the dispatch server, as the train and its worker see it. The train moves on with
an update that triggers one of the sensors in front of it; the worker hears of it in the same round,
if it waits for that sensor, and that it does is what keeping pace asks for. A worker that waits for
nothing stays as it is, and so does its train. -/
theorem WorkerState.InPace.after {y : WorkerState} (h : y.InPace T log) (h_labelled : Labelled T)
    (h_good : y.Good T tid t log) (round : Round)
    (h_pace : ∀ readings time, round.message.req = .sensorUpdate readings time →
      y.KeepsPace T log readings) :
    (y.after (y.owes tid) round.message.req).InPace T (log ++ [round]) := by
  cases y with
  | calling record =>
    cases round.message.req with
    | _ => exact trivial
  | driving path pathDist departed w =>
    have h_under : Underway T tid t log path pathDist departed w := h_good
    have h : w.course = .marked →
        InStep (sensorNums T path) (ride (sensorNums T path) (log.drop departed)) w := h
    have h_ride : ride (sensorNums T path) ((log ++ [round]).drop departed) =
        (ride (sensorNums T path) (log.drop departed)).after
          (sensorNums T path) round.message.req := by
      rw [List.drop_append_of_le_length h_under.past, ride_snoc]
    cases h_req : round.message.req with
    | sensorUpdate readings time =>
      rw [h_req] at h_ride
      have h_pace := h_pace readings time h_req
      cases h_owes : (driving path pathDist departed w).owes tid with
      | none =>
        -- the worker stays as it is, so the train must stay too, unless the worker is done with the
        -- sensors
        intro h_course
        rw [h_ride]
        by_cases h_over : w.stage = .over
        · exact (h h_course).over h_over readings time
        · rcases h_pace h_course h_over with h_none | ⟨h_stage, -⟩
          · change InStep _ (Ride.update _ _ readings time) w
            rw [Ride.update_nil h_none]
            exact h h_course
          · -- a worker that waits is owed something
            obtain ⟨sensors, -, -, h_some⟩ := h_under.owes_of_waiting h_labelled h_stage
            cases h_owes.symm.trans h_some
      | some sub =>
        have h_stage := (stage_of_owes h_owes).1
        obtain ⟨sensors, -, h_map, h_some⟩ := h_under.owes_of_waiting h_labelled h_stage
        obtain rfl := Option.some.inj (h_owes.symm.trans h_some)
        have h_not : w.stage ≠ .over := by rw [h_stage]; decide
        have h_after : (driving path pathDist departed w).after (some ⟨tid, sensors⟩)
            (.sensorUpdate readings time) =
            driving path pathDist departed (if hits readings ⟨tid, sensors⟩ = [] then w
              else w.hear (hits readings ⟨tid, sensors⟩) time) := by
          rw [after_sensorUpdate]
          split <;> rfl
        rw [h_after]
        intro h_marked
        have h_course : w.course = .marked := by
          split at h_marked <;> exact h_marked
        have h_step := h h_course
        have h_pos := h_step.next (.inr h_stage)
        rw [Tour.awaited, if_neg (by rw [h_course]; decide), ← h_pos] at h_map
        rw [h_ride]
        apply h_step.answer h_pos h_map
        rcases h_pace h_course h_not with h_none | ⟨-, h_one⟩
        · exact .inl h_none
        · exact .inr h_one
    | _ =>
      refine InPace.quiet h ?_ fun readings time h_eq => by cases h_req.symm.trans h_eq
      rintro _ _ _ _ ⟨⟩
      exact h_under.past

/-! ### Runs -/

/-- The workers are in step, and the tours so far have been stopped in time. This is the invariant
of the runs in which the updates keep pace with the trains; it goes with that of the fleet
(`FleetInv`). -/
structure Pacing (T : Track) (s : Fleet) : Prop where
  inPace : ∀ t, (s.workers t).InPace T s.server.log
  onTime : ∀ j ∈ s.finished, j.tour.course = .marked → OnTime T j

namespace Pacing

theorem setWorker (h : Pacing T s) {y : WorkerState} (h_y : y.InPace T s.server.log) :
    Pacing T (s.setWorker t y) where
  inPace := (Function.forall_update_iff s.workers fun _ z => z.InPace T s.server.log).mpr
    ⟨h_y, fun u _ => h.inPace u⟩
  onTime := h.onTime

/-- The departure: no sensor has been passed. -/
theorem depart (h : Pacing T s) (h_i : w.i = 0) (h_stage : w.stage ≠ .heard) :
    Pacing T (s.setWorker t (.driving path pathDist s.server.log.length w)) := by
  apply h.setWorker
  intro _
  rw [List.drop_length]
  refine ⟨h_i.le, fun k h_k => ?_, fun _ => h_i.symm, fun h_heard => absurd h_heard h_stage⟩
  rw [h_i] at h_k
  exact absurd h_k (Nat.not_lt_zero k)

/-- The worker has subscribed. The message is no update, so no train moves; the worker waits for the
two sensors in front of its own. -/
theorem subscribe (h : Pacing T s) (h_inv : FleetInv T tids s)
    (h_t : s.workers t = .driving path pathDist departed w) (h_stage : w.stage = .ready)
    {sensors : List Sensor}
    (h_delivers :
      (s.setWorker t (.driving path pathDist departed { w with stage := .waiting })).Delivers s'
      ⟨tids t, .subscribeSensorList sensors t⟩) : Pacing T s' := by
  have h_set :
      Pacing T (s.setWorker t (.driving path pathDist departed { w with stage := .waiting })) := by
    apply h.setWorker
    intro h_course
    have h_own := h.inPace t
    rw [h_t] at h_own
    have h_step := h_own h_course
    exact ⟨h_step.behind, h_step.passed, fun _ => h_step.next (.inl h_stage),
      fun h_heard => by cases h_heard⟩
  obtain ⟨round, h_log, h_message⟩ := h_delivers.log
  refine ⟨fun u => ?_, ?_⟩
  · -- the message changes no worker
    rw [h_delivers.workers, h_log]
    refine (h_set.inPace u).quiet (fun path' pathDist' departed' w' h_u => ?_) fun readings
      time h_req => ?_
    · change Function.update s.workers t _ u = _ at h_u
      by_cases h_eq : u = t
      · subst h_eq
        rw [Function.update_self] at h_u
        cases h_u
        exact (h_inv.underway h_t).past
      · rw [Function.update_of_ne h_eq] at h_u
        exact (h_inv.underway h_u).past
    · rw [h_message] at h_req
      cases h_req
  · rw [h_delivers.finished]
    exact h_set.onTime

/-- The worker goes on. -/
theorem proceed (h : Pacing T s) (h_inv : FleetInv T tids s)
    (h_t : s.workers t = .driving path pathDist departed w) (h_stage : w.stage = .heard)
    {now : Int32} (h_ok : w.proceed now = .ok w') :
    Pacing T (s.setWorker t (.driving path pathDist departed w')) := by
  have h_under := h_inv.underway h_t
  have h_own := h.inPace t
  rw [h_t] at h_own
  apply h.setWorker
  intro h_course'
  unfold Tour.proceed at h_ok
  cases h_course : w.course with
  | short =>
    -- the profile is built again, and the course is the same
    simp only [h_course] at h_ok
    cases h_ok
    cases h_course.symm.trans h_course'
  | blind =>
    cases h_stage.symm.trans (h_under.on.of_blind h_course).2.1
  | marked =>
    simp only [h_course] at h_ok
    obtain ⟨w₁, h_pass, -, h_passes⟩ :=
      h_under.on.exists_pass h_under.suited.length h_course h_stage now
    obtain rfl := Except.ok.inj (h_ok.symm.trans h_pass)
    exact (h_own h_course).pass h_under.on h_under.suited.once h_stage h_passes

/-- The stop. The marker is the last sensor that the worker has passed, and the time kept for it is
that at which the train came over it; so the tour has been stopped in time. -/
theorem halt (h : Pacing T s) (h_inv : FleetInv T tids s)
    (h_t : s.workers t = .driving path pathDist departed w) (h_stage : w.stage = .over)
    {times : List Int32} (h_times : path.length ≤ times.length) (h_ok : w.halt times = .ok w') :
    Pacing T { s.setWorker t (.calling w'.record) with
      finished := s.finished ++ [⟨path, pathDist, s.server.log.drop departed, w'⟩] } := by
  have h_under := h_inv.underway h_t
  have h_own := h.inPace t
  rw [h_t] at h_own
  obtain ⟨w₁, h_halt, h_completes⟩ := h_under.on.exists_halt h_times
  obtain rfl := Except.ok.inj (h_ok.symm.trans h_halt)
  obtain ⟨h_train, -, -, h_course, -, h_marker, h_offset⟩ := h_completes.same
  have h_set : Pacing T (s.setWorker t (.calling w'.record)) := h.setWorker trivial
  refine ⟨h_set.inPace, fun j h_j h_marked => ?_⟩
  rcases List.mem_append.mp h_j with h_j | h_j
  · exact h_set.onTime j h_j h_marked
  obtain rfl := List.mem_singleton.mp h_j
  -- the marker is the last sensor that the worker has passed
  have h_marked : w.course = .marked := h_course.symm.trans h_marked
  obtain ⟨h_nonneg, h_last, h_time⟩ := h_under.on.of_passed h_marked h_stage
  obtain ⟨marker, h_eq⟩ := Int.eq_ofNat_of_zero_le h_nonneg
  rw [h_eq] at h_last h_time
  obtain ⟨time, h_known, h_kept⟩ := (h_own h_marked).passed marker (by omega)
  have h_plan := h_under.on.plan (by rw [h_marked]; decide)
  refine ⟨marker, time, ?_, h_known, ?_⟩
  · change Planned T w'.train path pathDist marker w'.record.stopOffset
    rw [h_train, h_offset, ← h_eq]
    exact h_plan
  · change w'.markerTime = _
    rw [h_marker, h_time]
    exact h_kept

/-- **One step** keeps the workers in step. Only a message can move a train on; all the other steps
are those of one worker, which departs, subscribes, goes on or stops while its train stays where it
is. -/
theorem next (h : Pacing T s) (h_inv : FleetInv T tids s) (h_labelled : Labelled T) {l : FleetLabel}
    (h_ok : Allowed T tids s l) (h_paced : Paced T s l) (h_next : s.next T tids l = some (.ok s')) :
    Pacing T s' := by
  -- a worker that departs has missed nothing yet; the steps of the other workers, and of the
  -- dispatch server, are those of `FleetInv`
  cases l with
  | depart t path pathDist t₁ t₂ start =>
    obtain ⟨record, h_t, h_eq⟩ := next_depart h_next
    have h_pos : 0 < pathDist := Int32.lt_iff_toInt_lt.mpr h_ok.1.dist.1
    obtain ⟨w, h_depart, -, h_stage, h_i, -⟩ :=
      Tour.exists_depart h_labelled.wellFormed h_labelled.switches h_ok.1 record t t₁ t₂ start
    rw [if_pos h_pos, h_depart] at h_eq
    cases h_eq
    refine h.depart h_i ?_
    rcases h_stage with h_stage | ⟨h_stage, -⟩ <;> rw [h_stage] <;> decide
  | subscribe t =>
    obtain ⟨path, pathDist, departed, w, h_t, h_stage, h_eq⟩ := next_subscribe h_next
    obtain ⟨sensors, s₁, h_subscribe, h_delivers, -⟩ := h_inv.subscribe h_labelled h_t h_stage
    obtain rfl := Except.ok.inj (h_eq.trans h_subscribe)
    exact h.subscribe h_inv h_t h_stage h_delivers
  | proceed t now =>
    obtain ⟨path, pathDist, departed, w, h_t, h_stage, h_eq⟩ := next_proceed h_next
    obtain ⟨w', h_proceed, -⟩ := h_inv.proceed h_t h_stage now
    rw [h_proceed] at h_eq
    cases h_eq
    exact h.proceed h_inv h_t h_stage h_proceed
  | halt t clock =>
    obtain ⟨path, pathDist, departed, w, h_t, h_stage, h_eq⟩ := next_halt h_next
    obtain ⟨w', h_halt, -⟩ := h_inv.halt h_t h_stage clock
    rw [h_halt] at h_eq
    cases h_eq
    exact h.halt h_inv h_t h_stage (by rw [List.length_map, List.length_range]) h_halt
  | other m =>
    obtain ⟨s₁, h_deliver, h_delivers, -⟩ := h_inv.other h_ok
    obtain rfl := Except.ok.inj ((Option.some.inj h_next).symm.trans h_deliver)
    obtain ⟨round, h_log, rfl⟩ := h_delivers.log
    -- a round of the server triggers sensors: only here can a train get ahead of its worker
    refine ⟨fun u => ?_, ?_⟩
    · rw [h_delivers.workers, h_log, h_inv.owed]
      refine (h.inPace u).after h_labelled (h_inv.good u) round fun readings time h_req => ?_
      apply h_paced readings
      rw [h_req]
      rfl
    · rw [h_delivers.finished]
      exact h.onTime

end Pacing

/-- **In step with the trains**: in a run in which paths are given as they may be and no two sensors
in a row are missed, the workers are in step with their trains, and the stop is counted from the
time at which the train came over the marker.

`ride` reads off the log of the dispatch server how far the train is, without looking at the worker.
The worker waits for two sensors at a time, so it stays in step as long as one of any two in a row
triggers (`Paced`). -/
theorem in_step_of_reaches {record : TrainNum → TrainRecord} {ls : List FleetLabel}
    (h_labelled : Labelled T)
    (h : (fleetSystem T tids record).Reaches (fun s l => Allowed T tids s l ∧ Paced T s l) ls s) :
    (∀ t path pathDist departed w, s.workers t = .driving path pathDist departed w →
      w.course = .marked →
        InStep (sensorNums T path) (ride (sensorNums T path) (s.server.log.drop departed)) w) ∧
      ∀ j ∈ s.finished, j.tour.course = .marked → OnTime T j := by
  -- both invariants together, since a step of `Pacing` needs that of the fleet
  have h_both : FleetInv T tids s ∧ Pacing T s := by
    apply h.invariant
    · intro s h_init
      rw [h_init]
      exact ⟨.start T tids record, fun _ => trivial, fun _ h_j => absurd h_j List.not_mem_nil⟩
    · intro s l s' ⟨h_inv, h_pacing⟩ ⟨h_ok, h_paced⟩ h_step
      obtain ⟨s₁, h_eq, h_inv'⟩ := h_inv.next h_labelled h_ok h_step
      obtain rfl := Except.ok.inj h_eq
      exact ⟨h_inv', h_pacing.next h_inv h_labelled h_ok h_paced h_step⟩
  refine ⟨fun t path pathDist departed w h_t h_course => ?_, h_both.2.onTime⟩
  have h_own := h_both.2.inPace t
  rw [h_t] at h_own
  exact h_own h_course

/-- On track `b`, a train gets to D7 although C13 fails, and is in step. -/
theorem in_step_of_reaches_board :
    ∃ ls s, (fleetSystem trackB workerTids fun _ => blankRecord).Reaches
      (fun s l => Allowed trackB workerTids s l ∧ Paced trackB s l) ls s ∧
      (s.finished.map fun j => j.tour.markerTime) = [650] ∧
      (∀ t path pathDist departed w, s.workers t = .driving path pathDist departed w →
        w.course = .marked →
        InStep (sensorNums trackB path)
          (ride (sensorNums trackB path) (s.server.log.drop departed)) w) ∧
      ∀ j ∈ s.finished, j.tour.course = .marked → OnTime trackB j := by
  obtain ⟨s, h_reach, h_one⟩ := System.exists_reaches_of_play
    (@fleetNext_step trackB workerTids fun _ => blankRecord)
      (fun s l => Allowed trackB workerTids s l ∧ Paced trackB s l)
    (fun s => (s.finished.map fun j => j.tour.markerTime) = [650])
    [.depart 0 [44, 70, 54, 97] 1465 0 0 10, .depart 1 [0, 103, 101] 469 0 0 10, .subscribe 0,
      .other (trigger 70 500), .subscribe 1, .proceed 0 600, .proceed 0 601, .subscribe 0,
      .other (trigger 54 650), .proceed 0 700, .halt 0 fun _ => 800] rfl (by decide +kernel)
  exact ⟨_, s, h_reach, h_one, in_step_of_reaches labelled_b h_reach⟩

end Drive
end PollingExpress
