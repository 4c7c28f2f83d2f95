import PollingExpress.Drive.Fleet
import PollingExpress.Nav.Boards

/-!
# Tours among tours

What holds of the workers and of the dispatch server between two steps (`FleetInv`): the server owes
a worker exactly what the worker has subscribed to, no sensor is ahead of two workers, and what each
worker knows of its sensors are the answers that it has been given (`WorkerState.Good`).

`tours_of_reaches` is about every run in which paths are given as `Allowed` says. Whatever the order
of the steps, nothing fails in it: no worker subscribes to a sensor that another one waits for,
`find_time` gets a possible distance, and no array is too short. A tour that has come to its end has
set the switches of its path and started and stopped its train (`Complete`), with the stop counted
from the answer for its marker.
-/

namespace PollingExpress
namespace Drive

open Nav (TrainNum numSensors maxNumTrains)
open Dispatch
open Train (TrainRequest switchOf)

/-- What the nodes of a track are to be like: every edge leads to a node, over a distance that is at
most INF, the number of a switch fits into its byte, and the number of a sensor is one that the
dispatch server has room for. -/
structure Labelled (T : Track) : Prop where
  wellFormed : T.raw.WellFormed
  switches : Numbered T
  sensors : ∀ n, (T.node n).type = .sensor → 0 ≤ (T.node n).num ∧ (T.node n).num.toNat < numSensors

def numOf (i : Sensor) : Int := i.val

/-- In these rounds, a subscription of train `t` to the sensors `l` has been answered: `first` is
the first of the sensors that the update triggered, and `time` is its time. -/
def Answered (tid : ℕ) (t : TrainNum) (rounds : List Round) (l : List Int) (first : Int)
    (time : Int32) : Prop :=
  ∃ past round rest sensors readings time', rounds = past ++ round :: rest ∧ sensors.map numOf = l ∧
    Waits past t ⟨tid, sensors⟩ ∧ round.message.req = .sensorUpdate readings time' ∧
    (hits readings ⟨tid, sensors⟩).head?.map numOf = some first ∧ time = Int32.ofNat time'

/-- A tour that has come to its end. Its commands are those that the tour sent to the train server,
in order; its rounds are those of the dispatch server since it began. What the stop is counted from
depends on the course that the plan has taken. -/
structure Complete (T : Track) (tids : TrainNum ↪ ℕ) (j : Journey) : Prop where
  /-- Each switch of the path has been set once, in order. -/
  switches : j.tour.commands.filterMap switchOf = (passages T j.path).map pairOf
  /-- The train has been started, and then stopped. -/
  speeds : j.tour.commands.filterMap speedOf =
    [(j.tour.startTime.toInt, 7), ((j.tour.markerTime + j.tour.record.stopOffset).toInt, 0)]
  /-- Before the start, the switches up to the second sensor have been set. -/
  margin : ∃ before after r, j.tour.commands =
    before ++ .speed j.tour.train 7 j.tour.startTime.toInt :: after ∧
      before.filterMap switchOf = r.sent.map pairOf ∧
      InTime T j.path 2 r
  /-- The stop is counted from the answer for the marker that was planned, -/
  marked : j.tour.course = .marked → ∃ marker : ℕ, marker < (sensorNums T j.path).length ∧
    Planned T j.tour.train j.path j.pathDist marker j.tour.record.stopOffset ∧
    ∃ first time, Tour.AnsweredAt (Answered (tids j.tour.train) j.tour.train j.rounds)
      (sensorNums T j.path) marker first time ∧
      j.tour.markerTime = if marker = 0 then time - 100 else time
  /-- or from the start, if no sensor is before the braking point. -/
  blind : j.tour.course = .blind →
    Planned T j.tour.train j.path j.pathDist (-1) j.tour.record.stopOffset ∧
    j.tour.markerTime = j.tour.startTime
  /-- On a short path it is counted from the start, with the profile that the first sensor leads
  to. -/
  short : j.tour.course = .short → j.tour.markerTime = j.tour.startTime ∧ ∃ first time,
    Answered (tids j.tour.train) j.tour.train j.rounds ((sensorNums T j.path).take 1) first time ∧
    j.tour.record.stopOffset = Tour.rebuiltOffset j.tour.train j.pathDist j.tour.startTime time

/-! ### The invariant -/

/-- What holds of a worker on a path: the tour is as far along the path as it thinks it is (`on`),
the times that it has kept are those of answers in the rounds since it began (`timed`), and what it
waits for the dispatch server owes it. -/
structure Underway (T : Track) (tid : ℕ) (t : TrainNum) (log : List Round) (path : List NodeNum)
    (pathDist : Int32) (departed : ℕ) (w : Tour) : Prop where
  suited : Suited T path pathDist
  on : w.OnPath T path pathDist
  train : w.train = t
  past : departed ≤ log.length
  timed : w.Timed (Answered tid t (log.drop departed)) (sensorNums T path) pathDist
  waits : ∀ sub ∈ (WorkerState.driving path pathDist departed w).owes tid,
    Waits (log.drop departed) t sub

def WorkerState.Good (T : Track) (tid : ℕ) (t : TrainNum) (log : List Round) : WorkerState → Prop
  | .driving path pathDist departed w => Underway T tid t log path pathDist departed w
  | .calling _ => True

/-- What is left of a subscription after a message. -/
def stillOwed (o : Option Subscription) : DispatchRequest → Option Subscription
  | .sensorUpdate readings _ => o.filter fun sub => hits readings sub = []
  | _ => o

/-- What holds of the workers and the dispatch server together. The server owes just what the
workers wait for; no sensor is still ahead of two of them, which is what makes their subscriptions
admissible; and the tours that are over are complete. -/
structure FleetInv (T : Track) (tids : TrainNum ↪ ℕ) (s : Fleet) : Prop where
  exact : Dispatch.Exact s.server
  owed : ∀ t, owed s.server.log t = (s.workers t).owes (tids t)
  good : ∀ t, (s.workers t).Good T (tids t) t s.server.log
  apart : ∀ t u, t ≠ u → ((s.workers t).ahead T).Disjoint ((s.workers u).ahead T)
  finished : ∀ j ∈ s.finished, Complete T tids j

variable {T : Track} {tids : TrainNum ↪ ℕ} {s s' : Fleet} {t : TrainNum} {tid : ℕ} {x : WorkerState}
  {log : List Round} {round : Round} {path : List NodeNum} {pathDist : Int32} {departed : ℕ}
    {w w' : Tour}

/-! ### Sensors -/

theorem numOf_of_sensorOf {num : Int} {i : Sensor} (h : sensorOf num = some i) : numOf i = num := by
  unfold sensorOf at h
  split at h
  · next h_range =>
    cases h
    exact Int.toNat_of_nonneg h_range.1
  · cases h

theorem exists_sensors {l : List Int} (h : ∀ num ∈ l, 0 ≤ num ∧ num.toNat < numSensors) :
    ∃ sensors, l.mapM sensorOf = some sensors := by
  induction l with
  | nil => exact ⟨[], rfl⟩
  | cons num l ih =>
    obtain ⟨h_num, h_l⟩ := List.forall_mem_cons.mp h
    obtain ⟨sensors, h_sensors⟩ := ih h_l
    have h_one : sensorOf num = some ⟨num.toNat, h_num.2⟩ := dif_pos h_num
    refine ⟨⟨num.toNat, h_num.2⟩ :: sensors, ?_⟩
    rw [List.mapM_cons, h_one, h_sensors]
    rfl

theorem map_numOf {l : List Int} {sensors : List Sensor} (h : l.mapM sensorOf = some sensors) :
    sensors.map numOf = l := by
  induction l generalizing sensors with
  | nil =>
    cases h
    rfl
  | cons num l ih =>
    rw [List.mapM_cons] at h
    obtain ⟨i, h_i, h⟩ := Option.bind_eq_some_iff.mp h
    obtain ⟨rest, h_rest, h⟩ := Option.bind_eq_some_iff.mp h
    cases h
    rw [List.map_cons, ih h_rest, numOf_of_sensorOf h_i]

theorem Labelled.range (h : Labelled T) : ∀ num ∈ sensorNums T path, 0 ≤ num ∧
      num.toNat < numSensors := by
  intro num h_num
  obtain ⟨n, h_n, rfl⟩ := List.mem_map.mp h_num
  exact h.sensors n (of_decide_eq_true (List.mem_filter.mp h_n).2)

/-- What a worker subscribes to is ahead of it. -/
theorem subscription_sublist (h : w.OnPath T path pathDist) (h_stage : w.stage ≠ .over) :
    w.subscription.Sublist ((sensorNums T path).drop w.i) ∧ w.subscription.length ≤ 2 := by
  rw [(h.subscription_eq h_stage).1, Tour.awaited]
  split
  · next h_course =>
    rw [(h.of_short h_course).2.1]
    exact ⟨List.take_sublist _ _, (List.length_take_le _ _).trans (by decide)⟩
  · exact ⟨List.take_sublist _ _, List.length_take_le _ _⟩

/-- The subscription can be sent. -/
theorem exists_subscription (h_labelled : Labelled T) (h_suited : Suited T path pathDist)
    (h : w.OnPath T path pathDist) (h_stage : w.stage ≠ .over) :
    ∃ sensors, w.subscription.mapM sensorOf = some sensors ∧
      sensors.map numOf = w.subscription ∧ sensors.Nodup ∧
      sensors.length ≤ maxSubscribedSensors := by
  obtain ⟨h_sub, h_two⟩ := subscription_sublist h h_stage
  have h_all := h_sub.trans (List.drop_sublist _ _)
  obtain ⟨sensors, h_sensors⟩ :=
    exists_sensors fun num h_num => h_labelled.range num (h_all.subset h_num)
  have h_map := map_numOf h_sensors
  refine ⟨sensors, h_sensors, h_map, ?_, ?_⟩
  · exact List.Nodup.of_map numOf (h_map ▸ h_suited.once.sublist h_all)
  · rw [← h_map, List.length_map] at h_two
    exact h_two.trans (by decide)

/-! ### The dispatch server goes on -/

theorem Answered.snoc {l : List Int} {first : Int} {time : Int32} {rounds : List Round}
    (h : Answered tid t rounds l first time) (round : Round) :
    Answered tid t (rounds ++ [round]) l first time := by
  obtain ⟨past, round', rest, sensors, readings, time', rfl, h_rest⟩ := h
  exact ⟨past, round', rest ++ [round], sensors, readings, time', by simp, h_rest⟩

/-- The stage changes, and the answer. -/
theorem Tour.OnPath.restage (h : w.OnPath T path pathDist) (h_stage : w.stage ≠ .over)
    {stage : Stage} (h_stage' : stage ≠ .over) (triggered : Int) (triggeredTime : Int32) :
    ({ w with stage, triggered, triggeredTime } : Tour).OnPath T path pathDist where
  lined := h.lined
  reached := h.reached
  told := ⟨h.told.switches, h.told.speeds, h.told.margin⟩
  plan := h.plan
  profile h_course _ := h.profile h_course h_stage
  place := by
    unfold Tour.Where
    dsimp only
    -- what holds of a place depends on the course, and of a tour that is over on that
    cases h_course : w.course with
    | short =>
      obtain ⟨h_len, h_i, -⟩ := h.of_short h_course
      exact ⟨h_len, h_i, fun h_over => absurd h_over h_stage'⟩
    | blind => exact absurd (h.of_blind h_course).2.1 h_stage
    | marked =>
      simp only [if_neg h_stage']
      exact h.of_marked h_course h_stage

theorem Tour.Timed.waiting {A : List Int → Int → Int32 → Prop} {nums : List Int}
    (h : w.Timed A nums pathDist) :
    ({ w with stage := .waiting } : Tour).Timed A nums pathDist where
  passed := h.passed
  heard _ h_stage := by cases h_stage
  short _ h_stage := by cases h_stage
  rebuilt _ h_stage := by cases h_stage

theorem WorkerState.ahead_driving (h_stage : w.stage ≠ .over) :
    (WorkerState.driving path pathDist departed w).ahead T = (sensorNums T path).drop w.i :=
  if_neg h_stage

theorem WorkerState.ahead_over (h_stage : w.stage = .over) :
    (WorkerState.driving path pathDist departed w).ahead T = [] := if_pos h_stage

theorem WorkerState.owes_eq_none (h_stage : w.stage ≠ .waiting) :
    (WorkerState.driving path pathDist departed w).owes tid = none := if_neg h_stage

theorem WorkerState.owes_eq_some (h_stage : w.stage = .waiting) {sensors : List Sensor}
    (h_sensors : w.subscription.mapM sensorOf = some sensors) :
    (WorkerState.driving path pathDist departed w).owes tid = some ⟨tid, sensors⟩ := by
  refine (if_pos h_stage).trans ?_
  rw [h_sensors]
  rfl

theorem stage_of_owes {sub : Subscription}
    (h : sub ∈ (WorkerState.driving path pathDist departed w).owes tid) :
    w.stage = .waiting ∧ sub.client = tid ∧ w.subscription.mapM sensorOf = some sub.sensors := by
  change sub ∈ (if w.stage = .waiting then _ else none) at h
  split at h
  · next h_stage =>
    obtain ⟨sensors, h_sensors, rfl⟩ := Option.map_eq_some_iff.mp h
    exact ⟨h_stage, rfl, h_sensors⟩
  · cases h

/-- A round that says nothing to the worker. -/
theorem Underway.quiet (h : Underway T tid t log path pathDist departed w)
    (h_quiet : ∀ sub ∈ (WorkerState.driving path pathDist departed w).owes tid, ∀ readings time,
      round.message.req = .sensorUpdate readings time → hits readings sub = []) :
    Underway T tid t (log ++ [round]) path pathDist departed w where
  suited := h.suited
  on := h.on
  train := h.train
  past := h.past.trans (List.length_append ▸ Nat.le_add_right _ _)
  timed := by
    rw [List.drop_append_of_le_length h.past]
    exact h.timed.mono fun _ _ _ h_answered => h_answered.snoc round
  waits sub h_sub := by
    rw [List.drop_append_of_le_length h.past, waits_snoc]
    exact .inr ⟨h.waits sub h_sub, h_quiet sub h_sub⟩

/-- The update that the worker waits for. -/
theorem Underway.hear (h : Underway T tid t log path pathDist departed w) {sub : Subscription}
    (h_sub : sub ∈ (WorkerState.driving path pathDist departed w).owes tid)
    {readings : Fin 10 → UInt8} {time : ℕ} (h_req : round.message.req = .sensorUpdate readings time)
    (h_hits : hits readings sub ≠ []) :
    Underway T tid t (log ++ [round]) path pathDist departed (w.hear (hits readings sub) time) := by
  obtain ⟨h_stage, h_client, h_sensors⟩ := stage_of_owes h_sub
  obtain ⟨client, sensors⟩ := sub
  obtain rfl : client = tid := h_client
  have h_not : w.stage ≠ .over := by rw [h_stage]; decide
  obtain ⟨first, h_first⟩ : ∃ first, (hits readings ⟨client, sensors⟩).head? = some first :=
    Option.isSome_iff_exists.mp (by simpa [List.isSome_head?] using h_hits)
  refine ⟨h.suited, h.on.restage h_not (by decide) _ _, h.train, ?_, ?_, fun sub h_sub' => ?_⟩
  · exact h.past.trans (List.length_append ▸ Nat.le_add_right _ _)
  · rw [List.drop_append_of_le_length h.past]
    refine (h.timed.mono fun _ _ _ h_answered => h_answered.snoc round).hear h_first ?_
    -- the round is the answer
    refine ⟨log.drop departed, round, [], sensors, readings, time, rfl, ?_, h.waits _ h_sub,
      h_req, ?_, rfl⟩
    · rw [← (h.on.subscription_eq h_not).1]
      exact map_numOf h_sensors
    · rw [h_first]
      rfl
  · cases (stage_of_owes h_sub').1

theorem WorkerState.after_sensorUpdate (x : WorkerState) (sub : Subscription)
    (readings : Fin 10 → UInt8) (time : ℕ) :
    x.after (some sub) (.sensorUpdate readings time) = if hits readings sub = [] then x
      else x.hear (.subscribeSensorList (hits readings sub) (hits readings sub).length time) := by
  by_cases h_hits : hits readings sub = []
  · simp only [after, Option.bind_some, answer, if_pos h_hits]
  · simp only [after, Option.bind_some, answer, if_neg h_hits]

/-- **A round** of the dispatch server, as a worker sees it. It is about the worker only if the
message is an update that triggers one of the sensors that the worker waits for; then the worker
hears the answer and waits for nothing. What is ahead of it stays the same until it goes on. -/
theorem WorkerState.Good.after (h : x.Good T tid t log) (round : Round) :
    (x.after (x.owes tid) round.message.req).Good T tid t (log ++ [round]) ∧
      (x.after (x.owes tid) round.message.req).ahead T = x.ahead T ∧
      (x.after (x.owes tid) round.message.req).owes tid =
        stillOwed (x.owes tid) round.message.req := by
  -- a worker that calls for work waits for no sensor
  cases x with
  | calling record =>
    cases round.message.req with
    | _ => exact ⟨trivial, rfl, rfl⟩
  | driving path pathDist departed w =>
    have h : Underway T tid t log path pathDist departed w := h
    cases h_req : round.message.req with
    | sensorUpdate readings time =>
      cases h_owes : (WorkerState.driving path pathDist departed w).owes tid with
      | none =>
        -- it waits for nothing
        refine ⟨h.quiet fun sub h_sub => ?_, rfl, h_owes⟩
        rw [h_owes] at h_sub
        cases h_sub
      | some sub =>
        rw [after_sensorUpdate]
        by_cases h_hits : hits readings sub = []
        · -- none of its sensors went on
          rw [if_pos h_hits]
          refine ⟨h.quiet fun sub' h_sub readings' time' h_req' => ?_, rfl, ?_⟩
          · cases h_owes.symm.trans h_sub
            cases h_req.symm.trans h_req'
            exact h_hits
          · rw [h_owes, stillOwed, Option.filter_some, if_pos (decide_eq_true h_hits)]
        · -- it is answered, and nothing is owed to it any more
          rw [if_neg h_hits]
          have h_stage := (stage_of_owes h_owes).1
          refine ⟨h.hear h_owes h_req h_hits, ?_, ?_⟩
          · exact (ahead_driving (by decide : Stage.heard ≠ .over)).trans
              (ahead_driving (by rw [h_stage]; decide)).symm
          · rw [stillOwed, Option.filter_some, if_neg (by simpa using h_hits)]
            rfl
    | _ =>
      refine ⟨h.quiet fun sub _ readings time h_req' => ?_, rfl, rfl⟩
      cases h_req.symm.trans h_req'

theorem client_of_owes {sub : Subscription} (h : sub ∈ x.owes tid) : sub.client = tid := by
  cases x with
  | calling record => cases h
  | driving path pathDist departed w => exact (stage_of_owes h).2.1

/-- A worker waits for what is ahead of it. -/
theorem WorkerState.Good.ahead_of_owes (h : x.Good T tid t log) {sub : Subscription}
    (h_sub : sub ∈ x.owes tid) {i : Sensor} (h_i : i ∈ sub.sensors) : numOf i ∈ x.ahead T := by
  cases x with
  | calling record => cases h_sub
  | driving path pathDist departed w =>
    have h : Underway T tid t log path pathDist departed w := h
    obtain ⟨h_stage, -, h_sensors⟩ := stage_of_owes h_sub
    have h_not : w.stage ≠ .over := by rw [h_stage]; decide
    rw [ahead_driving h_not]
    apply (subscription_sublist h.on h_not).1.subset
    rw [← map_numOf h_sensors]
    exact List.mem_map_of_mem h_i

namespace FleetInv

theorem client (h : FleetInv T tids s) (t : TrainNum) :
    ∀ sub ∈ Dispatch.owed s.server.log t, sub.client = tids t := by
  intro sub h_sub
  rw [h.owed] at h_sub
  exact client_of_owes h_sub

/-- A worker goes on by itself. The server does not hear of it, so what it owes must not change, and
the sensors ahead of the worker must stay apart from those of the others. -/
theorem setWorker (h : FleetInv T tids s) (h_owes : x.owes (tids t) = (s.workers t).owes (tids t))
    (h_good : x.Good T (tids t) t s.server.log)
    (h_apart : ∀ u, u ≠ t → ((s.workers u).ahead T).Disjoint (x.ahead T)) :
    FleetInv T tids (s.setWorker t x) where
  exact := h.exact
  owed :=
    (Function.forall_update_iff s.workers fun u y => Dispatch.owed s.server.log u =
      y.owes (tids u)).mpr
    ⟨(h.owed t).trans h_owes.symm, fun u _ => h.owed u⟩
  good := (Function.forall_update_iff s.workers fun u y => y.Good T (tids u) u s.server.log).mpr
    ⟨h_good, fun u _ => h.good u⟩
  apart u v h_ne := by
    change ((Function.update s.workers t x u).ahead T).Disjoint
      ((Function.update s.workers t x v).ahead T)
    -- two other workers are as far apart as they were; the one that goes on comes no closer
    by_cases h_u : u = t
    · subst h_u
      rw [Function.update_self, Function.update_of_ne h_ne.symm]
      exact (h_apart v h_ne.symm).symm
    · rw [Function.update_of_ne h_u]
      by_cases h_v : v = t
      · subst h_v
        rw [Function.update_self]
        exact h_apart u h_u
      · rw [Function.update_of_ne h_v]
        exact h.apart u v h_ne
  finished := h.finished

/-- **A message** of another task. It is no subscription, so it is admitted as it is; an update may
answer some of the workers, and then the server owes them nothing more, as they know. -/
theorem other (h : FleetInv T tids s) {m : DispatchMessage}
    (h_allowed : Allowed T tids s (.other m)) :
    ∃ s', s.deliver tids m = .ok s' ∧ s.Delivers s' m ∧ FleetInv T tids s' := by
  obtain ⟨-, h_req⟩ := h_allowed
  have h_admitted : Admitted s.server m := by
    -- only the requests of workers have to be admitted
    unfold Admitted
    split
    · next h_m =>
      rw [h_m] at h_req
      cases h_req
    · next h_m =>
      rw [h_m] at h_req
      cases h_req
    · trivial
  obtain ⟨s', h_ok, h_exact, h_delivers⟩ := exists_deliver h.exact h.client h_admitted
  obtain ⟨round, h_log, rfl⟩ := h_delivers.log
  have h_good : ∀ u, (s'.workers u).Good T (tids u) u s'.server.log ∧
      (s'.workers u).ahead T = (s.workers u).ahead T ∧
      (s'.workers u).owes (tids u) =
        stillOwed (Dispatch.owed s.server.log u) round.message.req := by
    intro u
    rw [h_delivers.workers, h.owed, h_log]
    exact (h.good u).after round
  -- a message that is no subscription
  have h_owed : ∀ u, owedAfter (Dispatch.owed s.server.log) round.message u =
      stillOwed (Dispatch.owed s.server.log u) round.message.req := by
    intro u
    unfold owedAfter
    cases h_m : round.message.req with
    | subscribeSensorList =>
      rw [h_m] at h_req
      cases h_req
    | _ => rfl
  refine ⟨s', h_ok, h_delivers, h_exact, fun u => ?_, fun u => (h_good u).1, fun u v h_ne => ?_, ?_⟩
  · rw [h_log, owed_snoc, h_owed]
    exact (h_good u).2.2.symm
  · rw [(h_good u).2.1, (h_good v).2.1]
    exact h.apart u v h_ne
  · rw [h_delivers.finished]
    exact h.finished

/-- What a worker on a path knows. -/
theorem underway (h : FleetInv T tids s) (h_t : s.workers t = .driving path pathDist departed w) :
    Underway T (tids t) t s.server.log path pathDist departed w := by
  have h_good := h.good t
  rw [h_t] at h_good
  exact h_good

/-- The dispatch server takes a subscription. -/
theorem admitted (h : FleetInv T tids s) (h_t : s.workers t = .driving path pathDist departed w)
    (h_stage : w.stage = .ready) {sensors : List Sensor}
    (h_map : sensors.map numOf = w.subscription) (h_nodup : sensors.Nodup)
    (h_len : sensors.length ≤ maxSubscribedSensors) :
    Admitted s.server ⟨tids t, .subscribeSensorList sensors t⟩ := by
  have h_under := h.underway h_t
  have h_not : w.stage ≠ .over := by rw [h_stage]; decide
  -- the worker is owed nothing, and the sensors are nobody else's
  have h_none : Dispatch.owed s.server.log t = none := by
    rw [h.owed, h_t]
    exact WorkerState.owes_eq_none (by rw [h_stage]; decide)
  refine ⟨h_len, h_nodup, h_none, fun i h_i u sub h_sub h_mem => ?_⟩
  by_cases h_u : u = t
  · subst h_u
    cases h_none.symm.trans h_sub
  · rw [h.owed] at h_sub
    apply h.apart u t h_u ((h.good u).ahead_of_owes h_sub h_mem)
    rw [h_t, WorkerState.ahead_driving h_not]
    apply (subscription_sublist h_under.on h_not).1.subset
    rw [← h_map]
    exact List.mem_map_of_mem h_i

/-- **A subscription** is taken. The sensors are those that come next on the path, which nobody else
has ahead, so the server admits them; from then on the worker waits for them, and the server owes it
an answer. No other worker hears of it. -/
theorem subscribe (h : FleetInv T tids s) (h_labelled : Labelled T)
    (h_t : s.workers t = .driving path pathDist departed w) (h_stage : w.stage = .ready) :
    ∃ sensors s', s.subscribe tids t path pathDist departed w = .ok s' ∧
      (s.setWorker t (.driving path pathDist departed { w with stage := .waiting })).Delivers s'
        ⟨tids t, .subscribeSensorList sensors t⟩ ∧ FleetInv T tids s' := by
  have h_under := h.underway h_t
  have h_not : w.stage ≠ .over := by rw [h_stage]; decide
  obtain ⟨sensors, h_sensors, h_map, h_nodup, h_len⟩ :=
    exists_subscription h_labelled h_under.suited h_under.on h_not
  -- the worker behind its call: it waits, and is owed an answer
  obtain ⟨w₁, h_w₁⟩ : ∃ w₁ : Tour, w₁ = { w with stage := .waiting } := ⟨_, rfl⟩
  have h_stage₁ : w₁.stage = .waiting := by rw [h_w₁]
  have h_sensors₁ : w₁.subscription.mapM sensorOf = some sensors := by
    rw [h_w₁]
    exact h_sensors
  have h_owes₁ : (WorkerState.driving path pathDist departed w₁).owes (tids t) =
      some ⟨tids t, sensors⟩ :=
    WorkerState.owes_eq_some h_stage₁ h_sensors₁
  obtain ⟨s₁, h_s₁⟩ : ∃ s₁, s₁ = s.setWorker t (.driving path pathDist departed w₁) := ⟨_, rfl⟩
  have h_server : s₁.server = s.server := by rw [h_s₁]; rfl
  -- the dispatch server takes the message, since it is admitted
  obtain ⟨s', h_ok, h_exact, h_delivers⟩ :=
    @exists_deliver tids s₁ ⟨tids t, .subscribeSensorList sensors t⟩
    (h_server ▸ h.exact) (h_server ▸ h.client)
      (h_server ▸ h.admitted h_t h_stage h_map h_nodup h_len)
  obtain ⟨round, h_log, h_message⟩ := h_delivers.log
  rw [h_server] at h_log
  -- the message changes no worker
  have h_self : s'.workers t = .driving path pathDist departed w₁ := by
    rw [h_delivers.workers, h_s₁]
    exact Function.update_self _ _ _
  have h_other : ∀ u, u ≠ t → s'.workers u = s.workers u := by
    intro u h_u
    rw [h_delivers.workers, h_s₁]
    exact Function.update_of_ne h_u _ _
  -- what is owed grows by the subscription of `t`
  have h_owed : ∀ u, Dispatch.owed s'.server.log u =
      Function.update (Dispatch.owed s.server.log) t (some ⟨tids t, sensors⟩) u := by
    intro u
    rw [h_log, owed_snoc, h_message]
    rfl
  -- nobody is farther or less far on its tour than before
  have h_ahead : ∀ u, (s'.workers u).ahead T = (s.workers u).ahead T := by
    intro u
    by_cases h_u : u = t
    · subst h_u
      rw [h_self, h_t, WorkerState.ahead_driving h_not,
        WorkerState.ahead_driving (by rw [h_stage₁]; decide), h_w₁]
    · rw [h_other u h_u]
  -- for each train but `t` all is as it was, with one round more behind it
  refine ⟨sensors, s', ?_, ?_, h_exact, fun u => ?_, fun u => ?_, fun u v h_ne => ?_, ?_⟩
  · rw [Fleet.subscribe, h_sensors]
    dsimp only
    rw [← h_w₁, ← h_s₁]
    exact h_ok
  · rw [← h_w₁, ← h_s₁]
    exact h_delivers
  · rw [h_owed]
    by_cases h_u : u = t
    · subst h_u
      rw [Function.update_self, h_self, h_owes₁]
    · rw [Function.update_of_ne h_u, h_other u h_u, h.owed]
  · rw [h_log]
    by_cases h_u : u = t
    · subst h_u
      rw [h_self]
      refine ⟨h_under.suited, ?_, by rw [h_w₁]; exact h_under.train, ?_, ?_, fun sub h_sub => ?_⟩
      · rw [h_w₁]
        exact h_under.on.restage h_not (by decide) _ _
      · exact h_under.past.trans (List.length_append ▸ Nat.le_add_right _ _)
      · rw [List.drop_append_of_le_length h_under.past, h_w₁]
        exact (h_under.timed.mono fun _ _ _ h_answered => h_answered.snoc round).waiting
      · cases h_owes₁.symm.trans h_sub
        rw [List.drop_append_of_le_length h_under.past, waits_snoc]
        exact .inl h_message
    · rw [h_other u h_u]
      have h_good := ((h.good u).after round).1
      rw [h_message] at h_good
      exact h_good
  · rw [h_ahead, h_ahead]
    exact h.apart u v h_ne
  · rw [h_delivers.finished, h_s₁]
    exact h.finished

/-- **Departure.** The worker was waiting for work, so that nothing is owed to it, and the sensors
of the new path are ahead of nobody else. The arrays are filled without a fault, since the path is
suited (`Tour.exists_depart`). -/
theorem depart (h : FleetInv T tids s) (h_labelled : Labelled T) {record : TrainRecord}
    (h_t : s.workers t = .calling record) (h_suited : Suited T path pathDist)
    (h_free : ∀ u, u ≠ t → ((s.workers u).ahead T).Disjoint (sensorNums T path))
    (t₁ t₂ start : Int32) : ∃ w, Tour.depart T record t path pathDist t₁ t₂ start = .ok w ∧
      FleetInv T tids (s.setWorker t (.driving path pathDist s.server.log.length w)) := by
  obtain ⟨w, h_ok, h_on, h_stage, h_i, h_train⟩ :=
    Tour.exists_depart h_labelled.wellFormed h_labelled.switches h_suited record t t₁ t₂ start
  have h_owes : (WorkerState.driving path pathDist s.server.log.length w).owes (tids t) = none := by
    apply WorkerState.owes_eq_none
    rcases h_stage with h_stage | ⟨h_stage, -⟩ <;> rw [h_stage] <;> decide
  refine ⟨w, h_ok,
    h.setWorker ?_ ⟨h_suited, h_on, h_train, le_rfl, ?_, fun sub h_sub => ?_⟩ fun u h_u => ?_⟩
  · rw [h_owes, h_t]
    rfl
  · -- no sensor has been passed, and none has been heard of
    refine ⟨fun k h_k => ?_, fun _ h_heard => ?_, fun _ h_heard => ?_, fun h_short h_over => ?_⟩
    · rw [h_i] at h_k
      exact absurd h_k (Nat.not_lt_zero k)
    · rcases h_stage with h_stage | ⟨h_stage, -⟩ <;> cases h_stage.symm.trans h_heard
    · rcases h_stage with h_stage | ⟨h_stage, -⟩ <;> cases h_stage.symm.trans h_heard
    · rcases h_stage with h_stage | ⟨-, h_course⟩
      · cases h_stage.symm.trans h_over
      · exact absurd h_short h_course
  · cases h_owes.symm.trans h_sub
  · by_cases h_over : w.stage = .over
    · rw [WorkerState.ahead_over h_over]
      exact List.disjoint_nil_right _
    · rw [WorkerState.ahead_driving h_over, h_i]
      exact h_free u h_u

/-- **The worker goes on** after an answer. The sensors ahead of it can only become fewer, so they
stay apart from those of the others (`h_set`). The cases are the courses of the plan: what the
answer is used for differs between them, and so does what is kept of it. -/
theorem proceed (h : FleetInv T tids s) (h_t : s.workers t = .driving path pathDist departed w)
    (h_stage : w.stage = .heard) (now : Int32) : ∃ w', w.proceed now = .ok w' ∧
      FleetInv T tids (s.setWorker t (.driving path pathDist departed w')) := by
  have h_under := h.underway h_t
  have h_not : w.stage ≠ .over := by rw [h_stage]; decide
  have h_owes : (s.workers t).owes (tids t) = none := by
    rw [h_t]
    exact WorkerState.owes_eq_none (by rw [h_stage]; decide)
  have h_ahead : (s.workers t).ahead T = (sensorNums T path).drop w.i := by
    rw [h_t]
    exact WorkerState.ahead_driving h_not
  -- it waits for nothing, and nothing has come ahead of it
  have h_set : ∀ w', w'.stage ≠ .waiting → w'.OnPath T path pathDist → w'.train = w.train →
      w'.Timed (Answered (tids t) t (s.server.log.drop departed)) (sensorNums T path) pathDist →
      (w'.stage ≠ .over → w.i ≤ w'.i) →
        FleetInv T tids (s.setWorker t (.driving path pathDist departed w')) := by
    intro w' h_stage' h_on h_train h_timed h_i
    have h_owes' : (WorkerState.driving path pathDist departed w').owes (tids t) = none :=
      WorkerState.owes_eq_none h_stage'
    refine h.setWorker (h_owes'.trans h_owes.symm)
      ⟨h_under.suited, h_on, h_train.trans h_under.train, h_under.past, h_timed,
      fun sub h_sub => ?_⟩ fun u h_u => ?_
    · cases h_owes'.symm.trans h_sub
    · by_cases h_over : w'.stage = .over
      · rw [WorkerState.ahead_over h_over]
        exact List.disjoint_nil_right _
      · rw [WorkerState.ahead_driving h_over]
        refine List.disjoint_of_subset_right ?_ (h.apart u t h_u)
        rw [h_ahead]
        exact (List.drop_sublist_drop_left _ (h_i h_over)).subset
  unfold Tour.proceed
  cases h_course : w.course with
  | short =>
    refine ⟨w.rebuild, rfl, h_set _ ?_ (h_under.on.rebuild h_course) rfl ?_ fun _ => le_rfl⟩
    · exact (by decide : Stage.over ≠ .waiting)
    · exact h_under.timed.rebuild h_under.on h_course h_stage
  | blind =>
    -- such a worker hears of no sensor
    exact absurd (h_under.on.of_blind h_course).2.1 h_not
  | marked =>
    obtain ⟨w', h_ok, h_on, h_passes⟩ :=
      h_under.on.exists_pass h_under.suited.length h_course h_stage now
    refine ⟨w', h_ok, h_set w' ?_ h_on h_passes.same.1 ?_ fun _ => ?_⟩
    · rcases h_passes.stage with ⟨h_stage', -⟩ | h_stage' | ⟨h_stage', -⟩ <;> rw
        [h_stage'] <;> decide
    · exact h_under.timed.pass h_under.on h_under.suited.once h_course h_stage h_passes
    · rw [h_passes.i]
      exact Nat.le_succ _

end FleetInv

/-- A tour that has been stopped is what it should be. The fields are read off what held on the way:
the commands from `Told`, the times from `Timed`, and the place of the marker from where the loop
ended. -/
theorem Underway.complete (h : Underway T (tids t) t log path pathDist departed w)
    (h_stage : w.stage = .over) (h_completes : w.Completes T path w') :
    Complete T tids ⟨path, pathDist, log.drop departed, w'⟩ := by
  obtain ⟨h_train, h_time, h_i, h_course, h_start, h_marker, h_offset⟩ := h_completes.same
  have h_train' : w'.train = t := h_train.trans h.train
  refine ⟨h_completes.switches, ?_, ?_, fun h_marked => ?_, fun h_blind => ?_, fun h_short => ?_⟩
  · change w'.commands.filterMap speedOf =
      [(w'.startTime.toInt, 7), ((w'.markerTime + w'.record.stopOffset).toInt, 0)]
    rw [h_start, h_marker, h_offset]
    exact h_completes.speeds
  · change ∃ before after r, w'.commands = before ++
      TrainRequest.speed w'.train 7 w'.startTime.toInt :: after ∧ _
    rw [h_start, h_train]
    exact h_completes.margin
  · -- the marker is the last of the sensors that have been waited for
    have h_marked : w.course = .marked := h_course.symm.trans h_marked
    obtain ⟨h_nonneg, h_last, h_time'⟩ := h.on.of_passed h_marked h_stage
    obtain ⟨marker, h_eq⟩ := Int.eq_ofNat_of_zero_le h_nonneg
    rw [h_eq] at h_last h_time'
    have h_lt := h.on.lined.marker
    rw [h_eq, h.on.lined.len] at h_lt
    obtain ⟨first, time, h_at, h_marker_time⟩ := h.timed.passed marker (by omega)
    have h_plan := h.on.plan (by rw [h_marked]; decide)
    refine ⟨marker, by exact_mod_cast h_lt, ?_, first, time, ?_, ?_⟩
    · change Planned T w'.train path pathDist marker w'.record.stopOffset
      rw [h_train, h_offset, ← h_eq]
      exact h_plan
    · change Tour.AnsweredAt (Answered (tids w'.train) w'.train _) _ _ _ _
      rw [h_train']
      exact h_at
    · change w'.markerTime = _
      rw [h_marker, h_time']
      exact h_marker_time
  · -- without a marker the time counts from the start
    have h_blind : w.course = .blind := h_course.symm.trans h_blind
    obtain ⟨h_none, -, h_from_start⟩ := h.on.of_blind h_blind
    have h_plan := h.on.plan (by rw [h_blind]; decide)
    rw [h_none] at h_plan
    refine ⟨?_, ?_⟩
    · change Planned T w'.train path pathDist (-1) w'.record.stopOffset
      rw [h_train, h_offset]
      exact h_plan
    · change w'.markerTime = w'.startTime
      rw [h_marker, h_start]
      exact h_from_start
  · -- on a short path the offset was worked out anew from the first answer
    have h_short : w.course = .short := h_course.symm.trans h_short
    obtain ⟨first, time, h_answered, h_rebuilt⟩ := h.timed.rebuilt h_short h_stage
    refine ⟨?_, first, time, ?_, ?_⟩
    · change w'.markerTime = w'.startTime
      rw [h_marker, h_start]
      exact (h.on.of_short h_short).2.2 h_stage
    · change Answered (tids w'.train) w'.train _ _ _ _
      rw [h_train']
      exact h_answered
    · change w'.record.stopOffset = Tour.rebuiltOffset w'.train pathDist w'.startTime time
      rw [h_offset, h_train, h_start]
      exact h_rebuilt

/-- **The stop.** The tour goes on the list of those that are over, with the rounds since it began,
and it is complete; the worker asks for new work with the record as it is then. -/
theorem FleetInv.halt (h : FleetInv T tids s)
    (h_t : s.workers t = .driving path pathDist departed w) (h_stage : w.stage = .over)
    (clock : ℕ → Int32) : ∃ w', w.halt ((List.range path.length).map clock) = .ok w' ∧
      FleetInv T tids { s.setWorker t (.calling w'.record) with
        finished := s.finished ++ [⟨path, pathDist, s.server.log.drop departed, w'⟩] } := by
  have h_under := h.underway h_t
  obtain ⟨w', h_ok, h_completes⟩ := @Tour.OnPath.exists_halt T path pathDist w h_under.on
    ((List.range path.length).map clock) (by rw [List.length_map, List.length_range])
  -- a worker whose tour is over waits for nothing
  have h_owes : (s.workers t).owes (tids t) = none := by
    rw [h_t]
    exact WorkerState.owes_eq_none (by rw [h_stage]; decide)
  have h_set :=
    h.setWorker (x := .calling w'.record) h_owes.symm trivial fun u _ => List.disjoint_nil_right _
  refine ⟨w', h_ok, h_set.exact, h_set.owed, h_set.good, h_set.apart, fun j h_j => ?_⟩
  -- the tour that has just ended is complete, the others were before
  rcases List.mem_append.mp h_j with h_j | h_j
  · exact h.finished j h_j
  · obtain rfl := List.mem_singleton.mp h_j
    exact h_under.complete h_stage h_completes

/-! ### Runs -/

theorem FleetInv.start (T : Track) (tids : TrainNum ↪ ℕ) (record : TrainNum → TrainRecord) :
    FleetInv T tids (.start record) where
  exact := .start
  owed _ := rfl
  good _ := trivial
  apart _ _ _ := List.disjoint_nil_left _
  finished _ h := absurd h List.not_mem_nil

/-- **One step**: what is allowed does not fail, and the invariant is kept. There is a case for each
label, and a lemma for each case; the assertion on `path_dist` is met here, since the path is
suited. -/
theorem FleetInv.next (h : FleetInv T tids s) (h_labelled : Labelled T) {l : FleetLabel}
    (h_ok : Allowed T tids s l) {r : Except FleetFault Fleet} (h_next : s.next T tids l = some r) :
    ∃ s', r = .ok s' ∧ FleetInv T tids s' := by
  cases l with
  | depart t path pathDist t₁ t₂ start =>
    obtain ⟨h_suited, h_free⟩ := h_ok
    obtain ⟨record, h_t, rfl⟩ := next_depart h_next
    -- the assertion on `path_dist`
    have h_pos : 0 < pathDist := Int32.lt_iff_toInt_lt.mpr h_suited.dist.1
    obtain ⟨w, h_depart, h_inv⟩ := h.depart h_labelled h_t h_suited h_free t₁ t₂ start
    rw [if_pos h_pos, h_depart]
    exact ⟨_, rfl, h_inv⟩
  | subscribe t =>
    obtain ⟨path, pathDist, departed, w, h_t, h_stage, rfl⟩ := next_subscribe h_next
    obtain ⟨-, s', h_subscribe, -, h_inv⟩ := h.subscribe h_labelled h_t h_stage
    exact ⟨s', h_subscribe, h_inv⟩
  | proceed t now =>
    obtain ⟨path, pathDist, departed, w, h_t, h_stage, rfl⟩ := next_proceed h_next
    obtain ⟨w', h_proceed, h_inv⟩ := h.proceed h_t h_stage now
    rw [h_proceed]
    exact ⟨_, rfl, h_inv⟩
  | halt t clock =>
    obtain ⟨path, pathDist, departed, w, h_t, h_stage, rfl⟩ := next_halt h_next
    obtain ⟨w', h_halt, h_inv⟩ := h.halt h_t h_stage clock
    rw [h_halt]
    exact ⟨_, rfl, h_inv⟩
  | other m =>
    obtain ⟨s', h_deliver, -, h_inv⟩ := h.other h_ok
    exact ⟨s', (Option.some.inj h_next).symm.trans h_deliver, h_inv⟩

theorem fleetInv_of_reaches {record : TrainNum → TrainRecord} {ls : List FleetLabel}
    (h_labelled : Labelled T) (h : (fleetSystem T tids record).Reaches (Allowed T tids) ls s) :
    FleetInv T tids s := by
  apply h.invariant
  · intro s h_init
    rw [h_init]
    exact .start T tids record
  · intro s l s' h_inv h_ok h_step
    obtain ⟨s'', h_eq, h_inv'⟩ := h_inv.next h_labelled h_ok h_step
    rw [Except.ok.inj h_eq]
    exact h_inv'

/-- What a worker waits for: the sensors that come next. -/
theorem Underway.owes_of_waiting (h : Underway T tid t log path pathDist departed w)
    (h_labelled : Labelled T) (h_stage : w.stage = .waiting) : ∃ sensors, sensors ≠ [] ∧
      sensors.map numOf = Tour.awaited w.course (sensorNums T path) w.i ∧
      (WorkerState.driving path pathDist departed w).owes tid = some ⟨tid, sensors⟩ := by
  have h_not : w.stage ≠ .over := by rw [h_stage]; decide
  obtain ⟨sensors, h_sensors, h_map, -⟩ := exists_subscription h_labelled h.suited h.on h_not
  refine ⟨sensors, ?_, h_map.trans (h.on.subscription_eq h_not).1,
    WorkerState.owes_eq_some h_stage h_sensors⟩
  -- a subscription has at least one sensor
  rintro rfl
  have h_none : w.subscription = [] := h_map.symm
  unfold Tour.subscription at h_none
  cases h_course : w.course <;> simp only [h_course] at h_none <;> cases h_none

/-- A worker that waits is owed an answer. -/
theorem FleetInv.waiting (h : FleetInv T tids s) (h_labelled : Labelled T)
    (h_t : s.workers t = .driving path pathDist departed w) (h_stage : w.stage = .waiting) :
    ∃ sensors, sensors ≠ [] ∧
      sensors.map numOf = Tour.awaited w.course (sensorNums T path) w.i ∧
      Waits s.server.log t ⟨tids t, sensors⟩ := by
  obtain ⟨sensors, h_ne, h_map, h_owes⟩ := (h.underway h_t).owes_of_waiting h_labelled h_stage
  refine ⟨sensors, h_ne, h_map, (h.exact.waits _ _).mp ?_⟩
  rw [h.owed, h_t]
  exact h_owes

/-- **Tours among tours.** In a run in which paths are given as they may be, every tour that has
come to its end is complete, a worker that waits is owed an answer, and nothing fails.

A run has the workers of all trains and the dispatch server, which answers each of them when one of
its sensors is triggered. `Allowed` is what is asked of those who give out paths and send updates: a
path can be driven and is short enough (`Suited`), and none of its sensors is still ahead on the
path of another train. -/
theorem tours_of_reaches {record : TrainNum → TrainRecord} {ls : List FleetLabel}
    (h_labelled : Labelled T) (h : (fleetSystem T tids record).Reaches (Allowed T tids) ls s) :
    (∀ j ∈ s.finished, Complete T tids j) ∧
      (∀ t path pathDist departed w, s.workers t = .driving path pathDist departed w →
        w.stage = .waiting →
        ∃ sensors, sensors ≠ [] ∧ sensors.map numOf =
          Tour.awaited w.course (sensorNums T path) w.i ∧
          Waits s.server.log t ⟨tids t, sensors⟩) ∧
      ∀ l, Allowed T tids s l → ∀ r, s.next T tids l = some r → ∃ s', r = .ok s' := by
  -- `FleetInv` is the invariant of all workers and of the dispatch server together
  have h_inv := fleetInv_of_reaches h_labelled h
  refine ⟨h_inv.finished, fun t path pathDist departed w h_t h_stage =>
    h_inv.waiting h_labelled h_t h_stage,
    fun l h_ok r h_next => ?_⟩
  obtain ⟨s', h_eq, -⟩ := h_inv.next h_labelled h_ok h_next
  exact ⟨s', h_eq⟩

/-! ### On a board -/

theorem labelled_of_configured {B : Board} {marks : List (NodeNum × Fin 2)}
    (h : B.Configured marks T) (h_switches : Numbered (B.track.markSwitchesBroken marks))
    (h_sensors : ∀ n, ((B.track.markSwitchesBroken marks).node n).type = .sensor →
      0 ≤ ((B.track.markSwitchesBroken marks).node n).num ∧
        ((B.track.markSwitchesBroken marks).node n).num.toNat < numSensors) : Labelled T where
  wellFormed := (Nav.mirrored_of_configured h).wellFormed
  switches := by
    intro n
    rw [h.node_eq]
    exact h_switches n
  sensors := by
    intro n
    rw [h.node_eq]
    exact h_sensors n

theorem labelled_b : Labelled trackB :=
  labelled_of_configured configured_b (by decide +kernel) (by decide +kernel)

/-- Task ids for the workers. -/
def workerTids : TrainNum ↪ ℕ where
  toFun t := t.val + 40
  inj' _ _ h := Fin.ext (Nat.add_right_cancel h)

def fleetNext (T : Track) (tids : TrainNum ↪ ℕ) (s : Fleet) (l : FleetLabel) : Option Fleet :=
  (s.next T tids l).bind Except.toOption

theorem fleetNext_step {record : TrainNum → TrainRecord} (s : Fleet) (l : FleetLabel) (s' : Fleet)
    (h : fleetNext T tids s l = some s') : (fleetSystem T tids record).step s l s' := by
  obtain ⟨r, h_r, h⟩ := Option.bind_eq_some_iff.mp h
  cases r with
  | error fault => cases h
  | ok s'' =>
    cases h
    exact h_r

/-- An update that triggers the sensor `i` only. -/
def trigger (i time : ℕ) : DispatchMessage :=
  ⟨7, .sensorUpdate (fun k => if k.val = i / 8 then 0x80 >>> UInt8.ofNat (i % 8) else 0) time⟩

/-- On track `b`, two trains are on their way, and one of them gets to D7 although C13 fails. -/
theorem tours_of_reaches_board : ∃ ls s,
    (fleetSystem trackB workerTids fun _ => blankRecord).Reaches (Allowed trackB workerTids) ls s ∧
      s.finished.length = 1 ∧
      (∀ j ∈ s.finished, Complete trackB workerTids j) ∧
      (∀ t path pathDist departed w, s.workers t = .driving path pathDist departed w →
        w.stage = .waiting →
        ∃ sensors, sensors ≠ [] ∧ sensors.map numOf =
          Tour.awaited w.course (sensorNums trackB path) w.i ∧
          Waits s.server.log t ⟨workerTids t, sensors⟩) ∧
      ∀ l, Allowed trackB workerTids s l → ∀ r, s.next trackB workerTids l = some r →
      ∃ s', r = .ok s' := by
  obtain ⟨s, h_reach, h_one⟩ := System.exists_reaches_of_play
    (@fleetNext_step trackB workerTids fun _ => blankRecord) (Allowed trackB workerTids)
      (fun s => s.finished.length = 1)
    [.depart 0 [44, 70, 54, 97] 1465 0 0 10, .depart 1 [0, 103, 101] 469 0 0 10, .subscribe 0,
      .other (trigger 70 500), .subscribe 1, .proceed 0 600, .proceed 0 601, .subscribe 0,
      .other (trigger 54 650), .proceed 0 700, .halt 0 fun _ => 800] rfl (by decide +kernel)
  exact ⟨_, s, h_reach, h_one, tours_of_reaches labelled_b h_reach⟩

end Drive
end PollingExpress
