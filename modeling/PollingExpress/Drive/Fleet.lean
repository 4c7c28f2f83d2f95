import PollingExpress.Dispatch.Answers
import PollingExpress.Drive.Tours

/-!
# The workers and the dispatch server

The straightpath workers together with the dispatch server. A worker is given a path, departs, and
subscribes to the sensors that come next; it hears of them when an update triggers one. Updates come
as they like, and so do the messages of the printers and of the attribution courier. Between its
messages a worker goes on at any time.

A worker may be given a path whose sensors no other worker has ahead of it (`Allowed`); this is what
reservations are for. Then no assertion fails, neither of a worker nor of the dispatch server, and
each tour ends as it should: see `tours_of_reaches`.

What a worker is told comes out of the history of the dispatch server: a tour keeps the rounds since
its departure, and `Answered` says which of its subscriptions has been answered in them, and when.
-/

namespace PollingExpress
namespace Drive

open Nav (TrainNum numSensors maxNumTrains)
open Dispatch
open Train (TrainRequest switchOf)

/-! ### The model -/

inductive WorkerState
  /-- It asks for work; the record is that of the last path. -/
  | calling (record : TrainRecord)
  /-- It has been on the path since there were so many rounds. -/
  | driving (path : List NodeNum) (pathDist : Int32) (departed : ℕ) (tour : Tour)

/-- A tour that has come to its end, with the rounds since its departure. -/
structure Journey where
  path : List NodeNum
  pathDist : Int32
  rounds : List Round
  tour : Tour

structure Fleet where
  server : DispatchServer
  workers : TrainNum → WorkerState
  finished : List Journey

/-- What happens next: something that one of the workers does, or a message of another task to the
dispatch server, a report of the sensors among them. -/
inductive FleetLabel
  /-- The worker is given a path; the clock says `t₁` and `t₂` for the first switches, and `start`
  for the start. -/
  | depart (train : TrainNum) (path : List NodeNum) (pathDist t₁ t₂ start : Int32)
  | subscribe (train : TrainNum)
  /-- The worker goes on after an answer. -/
  | proceed (train : TrainNum) (now : Int32)
  | halt (train : TrainNum) (clock : ℕ → Int32)
  /-- A message of another task. -/
  | other (m : DispatchMessage)

inductive FleetFault
  /-- "Negative Distance". -/
  | negativeDistance
  | worker (fault : Fault)
  | dispatch (fault : Dispatch.Fault)
  /-- A subscription to what is no sensor. -/
  | noSensor
  deriving DecidableEq

/-- The sensor with this number. -/
def sensorOf (num : Int) : Option Sensor :=
  if h : 0 ≤ num ∧ num.toNat < numSensors then some ⟨num.toNat, h.2⟩ else none

/-- The worker gets an answer. -/
def WorkerState.hear : WorkerState → DispatchResponse → WorkerState
  | .driving path pathDist departed w, .subscribeSensorList triggered _ time =>
    .driving path pathDist departed (w.hear triggered time)
  | x, _ => x

/-- The answers to a task. -/
def heardIn (tid : ℕ) (replies : List (ℕ × DispatchResponse)) : List DispatchResponse :=
  replies.filterMap fun p => if p.1 = tid then some p.2 else none

namespace Fleet

def start (record : TrainNum → TrainRecord) : Fleet where
  server := .start
  workers t := .calling (record t)
  finished := []

def setWorker (s : Fleet) (t : TrainNum) (x : WorkerState) : Fleet :=
  { s with workers := Function.update s.workers t x }

/-- The dispatch server handles a message, and the workers get their answers. -/
def deliver (tids : TrainNum ↪ ℕ) (s : Fleet) (m : DispatchMessage) : Except FleetFault Fleet := do
  let server ← (s.server.dispatchserver m).mapError .dispatch
  let replies := (server.log.getLast?.map Round.replies).getD []
  .ok { s with
    server
    workers := fun t => (heardIn (tids t) replies).foldl WorkerState.hear (s.workers t) }

/-- `Send` of a subscription. -/
def subscribe (tids : TrainNum ↪ ℕ) (s : Fleet) (t : TrainNum) (path : List NodeNum)
    (pathDist : Int32) (departed : ℕ) (w : Tour) : Except FleetFault Fleet :=
  match w.subscription.mapM sensorOf with
  | none => .error .noSensor
  | some sensors =>
    (s.setWorker t (.driving path pathDist departed { w with stage := .waiting })).deliver tids
      ⟨tids t, .subscribeSensorList sensors t⟩

/-- What comes of a label, if it is what the task does next. -/
def next (T : Track) (tids : TrainNum ↪ ℕ) (s : Fleet) : FleetLabel →
      Option (Except FleetFault Fleet)
  | .depart t path pathDist t₁ t₂ start =>
    match s.workers t with
    | .calling record =>
      some (if 0 < pathDist then do
          let w ← (Tour.depart T record t path pathDist t₁ t₂ start).mapError .worker
          .ok (s.setWorker t (.driving path pathDist s.server.log.length w))
        else .error .negativeDistance)
    | _ => none
  | .subscribe t =>
    match s.workers t with
    | .driving path pathDist departed w =>
      if w.stage = .ready then some (s.subscribe tids t path pathDist departed w) else none
    | _ => none
  | .proceed t now =>
    match s.workers t with
    | .driving path pathDist departed w =>
      if w.stage = .heard then
        some (do
          let w ← (w.proceed now).mapError .worker
          .ok (s.setWorker t (.driving path pathDist departed w)))
      else none
    | _ => none
  | .halt t clock =>
    match s.workers t with
    | .driving path pathDist departed w =>
      if w.stage = .over then
        some (do
          let w ← (w.halt ((List.range path.length).map clock)).mapError .worker
          let journey : Journey := ⟨path, pathDist, s.server.log.drop departed, w⟩
          .ok { s.setWorker t (.calling w.record) with finished := s.finished ++ [journey] })
      else none
    | _ => none
  | .other m => some (s.deliver tids m)

end Fleet

/-- The sensors that the worker may still wait for. -/
def WorkerState.ahead (T : Track) : WorkerState → List Int
  | .driving path _ _ w => if w.stage = .over then [] else (sensorNums T path).drop w.i
  | .calling _ => []

/-- The requests of the sensor courier, the printers and the attribution courier. -/
def fromOthers : DispatchRequest → Bool
  | .subscribeSensorList .. | .straightpathworkerInit .. => false
  | _ => true

/-- A path is given to a worker for which it is suited, if no other worker has its sensors ahead;
the other tasks do not act as workers.

The reservations of the navigation server are to see to this. Here it is a condition on the step,
which looks at the sensors that the other workers may still subscribe to. -/
def Allowed (T : Track) (tids : TrainNum ↪ ℕ) (s : Fleet) : FleetLabel → Prop
  | .depart t path pathDist _ _ _ => Suited T path pathDist ∧
      ∀ u, u ≠ t → ((s.workers u).ahead T).Disjoint (sensorNums T path)
  | .other m => (∀ t, m.client ≠ tids t) ∧ fromOthers m.req = true
  | _ => True

instance (T : Track) (n m : NodeNum) : Decidable (T.Unbroken n m) :=
  decidable_of_iff (∃ e ∈ (T.raw n).trackEdges, e.dest = some m ∧ e.dist < Search.inf)
    ⟨fun ⟨e, h_e, h_dest, h_lt⟩ => ⟨e.dist, e, h_e, h_dest, rfl, h_lt⟩,
      fun ⟨_, e, h_e, h_dest, h_dist, h_lt⟩ => ⟨e, h_e, h_dest, h_dist ▸ h_lt⟩⟩

instance (T : Track) (path : List NodeNum) (pathDist : Int32) :
    Decidable (Suited T path pathDist) :=
  decidable_of_iff (path.IsChain T.Unbroken ∧ path.length ≤ trackMax ∧
    T.getPathDist path * 1000 < 2 ^ 31 ∧
      (1 ≤ pathDist.toInt ∧ pathDist.toInt ≤ (2 ^ 31 - 1) / 1000) ∧ (sensorNums T path).Nodup)
    ⟨fun ⟨h_drivable, h_length, h_short, h_dist, h_once⟩ =>
      ⟨h_drivable, h_length, h_short, h_dist, h_once⟩,
      fun h => ⟨h.drivable, h.length, h.short, h.dist, h.once⟩⟩

instance (T : Track) (tids : TrainNum ↪ ℕ) (s : Fleet) : ∀ l, Decidable (Allowed T tids s l)
  | .depart t path pathDist _ _ _ => inferInstanceAs (Decidable (Suited T path pathDist ∧
      ∀ u, u ≠ t → ∀ num ∈ (s.workers u).ahead T, num ∉ sensorNums T path))
  | .other m => inferInstanceAs (Decidable ((∀ t, m.client ≠ tids t) ∧ fromOthers m.req = true))
  | .subscribe _ | .proceed .. | .halt .. => .isTrue trivial

/-- The workers, with the dispatch server: the worker of train `t` is the task `tids t`, and begins
with the record `record t`.

A step that is not what the task does next is not taken (`none`), and a fault has no state after it,
so that it is seen in `Fleet.next` alone. -/
def fleetSystem (T : Track) (tids : TrainNum ↪ ℕ) (record : TrainNum → TrainRecord) :
    System Fleet FleetLabel where
  init s := s = .start record
  step s l s' := s.next T tids l = some (.ok s')

section
variable {T : Track} {tids : TrainNum ↪ ℕ} {s : Fleet} {t : TrainNum} {r : Except FleetFault Fleet}

theorem next_depart {path : List NodeNum} {pathDist t₁ t₂ start : Int32}
    (h : s.next T tids (.depart t path pathDist t₁ t₂ start) = some r) :
    ∃ record, s.workers t = .calling record ∧
      r = if 0 < pathDist then do
          let w ← (Tour.depart T record t path pathDist t₁ t₂ start).mapError .worker
          .ok (s.setWorker t (.driving path pathDist s.server.log.length w))
        else .error .negativeDistance := by
  cases h_t : s.workers t with
  | calling record =>
    simp only [Fleet.next, h_t, Option.some.injEq] at h
    exact ⟨record, rfl, h.symm⟩
  | driving path' pathDist' departed w => simp only [Fleet.next, h_t, reduceCtorEq] at h

theorem next_subscribe (h : s.next T tids (.subscribe t) = some r) : ∃ path pathDist departed w,
    s.workers t = .driving path pathDist departed w ∧ w.stage = .ready ∧
      r = s.subscribe tids t path pathDist departed w := by
  cases h_t : s.workers t with
  | calling record => simp only [Fleet.next, h_t, reduceCtorEq] at h
  | driving path pathDist departed w =>
    simp only [Fleet.next, h_t, Option.ite_none_right_eq_some, Option.some.injEq] at h
    exact ⟨path, pathDist, departed, w, rfl, h.1, h.2.symm⟩

theorem next_proceed {now : Int32} (h : s.next T tids (.proceed t now) = some r) :
    ∃ path pathDist departed w,
    s.workers t = .driving path pathDist departed w ∧ w.stage = .heard ∧ r = (do
      let w ← (w.proceed now).mapError .worker
      .ok (s.setWorker t (.driving path pathDist departed w))) := by
  cases h_t : s.workers t with
  | calling record => simp only [Fleet.next, h_t, reduceCtorEq] at h
  | driving path pathDist departed w =>
    simp only [Fleet.next, h_t, Option.ite_none_right_eq_some, Option.some.injEq] at h
    exact ⟨path, pathDist, departed, w, rfl, h.1, h.2.symm⟩

theorem next_halt {clock : ℕ → Int32} (h : s.next T tids (.halt t clock) = some r) :
    ∃ path pathDist departed w,
    s.workers t = .driving path pathDist departed w ∧ w.stage = .over ∧ r = (do
      let w ← (w.halt ((List.range path.length).map clock)).mapError .worker
      .ok { s.setWorker t (.calling w.record) with
        finished := s.finished ++ [⟨path, pathDist, s.server.log.drop departed, w⟩] }) := by
  cases h_t : s.workers t with
  | calling record => simp only [Fleet.next, h_t, reduceCtorEq] at h
  | driving path pathDist departed w =>
    simp only [Fleet.next, h_t, Option.ite_none_right_eq_some, Option.some.injEq] at h
    exact ⟨path, pathDist, departed, w, rfl, h.1, h.2.symm⟩

end

/-! ### What the workers are told -/

/-- What a worker has subscribed to. -/
def WorkerState.owes (tid : ℕ) : WorkerState → Option Subscription
  | .driving _ _ _ w =>
    if w.stage = .waiting then (w.subscription.mapM sensorOf).map fun sensors =>
      ⟨tid, sensors⟩ else none
  | .calling _ => none

/-- The worker after a message, if it is owed an answer to `o`. -/
def WorkerState.after (x : WorkerState) (o : Option Subscription) : DispatchRequest → WorkerState
  | .sensorUpdate readings time =>
    match o.bind (answer readings time) with
    | some (_, res) => x.hear res
    | none => x
  | _ => x

section
variable {tids : TrainNum ↪ ℕ} {s : Fleet} {m : DispatchMessage}
  {o : TrainNum → Option Subscription} {t : TrainNum}

/-- Workers listen to answers only: the other responses that go to the task of a worker, if there
are any, leave its tour as it is. -/
theorem foldl_hear_filter (tid : ℕ) (replies : List (ℕ × DispatchResponse)) (x : WorkerState) :
    (heardIn tid (replies.filter isAnswer)).foldl WorkerState.hear x =
      (heardIn tid replies).foldl WorkerState.hear x := by
  induction replies generalizing x with
  | nil => rfl
  | cons p replies ih =>
    obtain ⟨client, res⟩ := p
    have h_cons : ∀ l, heardIn tid ((client, res) :: l) =
        (if client = tid then [res] else []) ++ heardIn tid l := by
      intro l
      unfold heardIn
      rw [List.filterMap_cons]
      by_cases h_tid : client = tid
      · simp only [if_pos h_tid]
        rfl
      · simp only [if_neg h_tid]
        rfl
    rw [h_cons, List.foldl_append, ← ih]
    by_cases h_answer : isAnswer (client, res) = true
    · rw [List.filter_cons_of_pos h_answer, h_cons, List.foldl_append]
    · rw [List.filter_cons_of_neg h_answer]
      -- the response is for somebody else, or for nobody who drives
      have h_same : x.hear res = x := by
        cases x with
        | calling record => rfl
        | driving path pathDist departed w =>
          cases res with
          | subscribeSensorList triggered len time => exact absurd rfl h_answer
          | good | subscribeSensorPrint | attributionCourier | subscriptionPrint => rfl
      split
      · rw [List.foldl_cons, h_same]
        rfl
      · rfl

/-- Where only one train has an entry. -/
theorem filterMap_finRange_single {α : Type} {f : TrainNum → Option α} (t : TrainNum)
    (h : ∀ u, u ≠ t → f u = none) :
    (List.finRange maxNumTrains).filterMap f = (f t).toList := by
  have h_list : ∀ l : List TrainNum, l.Nodup →
      l.filterMap f = if t ∈ l then (f t).toList else [] := by
    intro l h_nodup
    induction l with
    | nil => rfl
    | cons u l ih =>
      obtain ⟨h_u, h_l⟩ := List.nodup_cons.mp h_nodup
      rw [List.filterMap_cons]
      -- the train comes up once in a list without repetition
      by_cases h_eq : u = t
      · subst h_eq
        rw [ih h_l, if_neg h_u, if_pos List.mem_cons_self]
        cases f u <;> rfl
      · rw [h u h_eq, ih h_l]
        simp [Ne.symm h_eq]
  rw [h_list _ (List.nodup_finRange _), if_pos (List.mem_finRange t)]

/-- The answers to the worker of `t` are what the server owes to `t`, since no two workers have the
same task; it hears one answer, or none. -/
theorem heardIn_answers (h_client : ∀ t, ∀ sub ∈ o t, sub.client = tids t) (x : WorkerState) :
    (heardIn (tids t) (answers o m)).foldl WorkerState.hear x = x.after (o t) m.req := by
  obtain ⟨client, req⟩ := m
  cases req with
  | sensorUpdate readings time =>
    -- no two workers have the same task id, so only what is owed to `t` is an answer to its worker
    have h_single := @filterMap_finRange_single DispatchResponse
      (fun u => ((o u).bind (answer readings time)).bind
        fun p => if p.1 = tids t then some p.2 else none) t
      (fun u h_u => by
        cases h_o : o u with
        | none => rfl
        | some sub =>
          rw [Option.bind_some, answer]
          split
          · rfl
          · rw [Option.bind_some, h_client u sub h_o]
            exact if_neg fun h_eq => h_u (tids.injective h_eq))
    change (((List.finRange maxNumTrains).filterMap
      fun t => (o t).bind (answer readings time)).filterMap _).foldl _ x = _
    rw [List.filterMap_filterMap, h_single]
    change _ = match (o t).bind (answer readings time) with
      | some (_, res) => x.hear res
      | none => x
    cases h_answer : (o t).bind (answer readings time) with
    | none => rfl
    | some p =>
      obtain ⟨sub, h_o, h_sub⟩ := Option.bind_eq_some_iff.mp h_answer
      have h_tid : p.1 = tids t := by
        unfold answer at h_sub
        split at h_sub
        · cases h_sub
        · cases h_sub
          exact h_client t sub h_o
      rw [Option.bind_some, if_pos h_tid]
      rfl
  -- only an update of the sensors is answered to a worker
  | subscribeSensorList | attributionPrint | subscriptionPrint | attributionCourier
  | straightpathworkerInit => rfl

/-- One round of the dispatch server. -/
theorem exists_round {server : DispatchServer} (h : Dispatch.Exact server)
    (h_ok : Admitted server m) :
    ∃ server' round, server.dispatchserver m = .ok server' ∧ Dispatch.Exact server' ∧
      server'.log = server.log ++ [round] ∧
      round.message = m ∧ round.replies.filter isAnswer = answers (owed server.log) m := by
  obtain ⟨server', h_eq, h_exact, -⟩ := h.round h_ok
  obtain ⟨s₁, h_handle, h_s₁⟩ := h.keeps.handle h.fresh h_ok
  have h_log := h_s₁.flush.log
  obtain ⟨s₁', h_handle', h_rest⟩ := of_bind_ok h_eq
  obtain rfl := Except.ok.inj (h_handle.symm.trans h_handle')
  obtain rfl := Except.ok.inj h_rest
  -- a round is logged when all is flushed, and `h_exact` says of every round what its answers are
  refine ⟨_, ⟨m, s₁.flush.replies, s₁.flush.pool⟩, h_eq, h_exact, congrArg (· ++ _) h_log, rfl, ?_⟩
  have h_rounds : AtEach RoundExact (s₁.flush.log ++ [⟨m, s₁.flush.replies, s₁.flush.pool⟩]) :=
    h_exact.rounds
  rw [h_log, atEach_snoc] at h_rounds
  exact h_rounds.2.answers

/-- What a message to the dispatch server changes: each worker hears what the server answers to it,
one round is added to the log, and no tour ends. -/
structure Fleet.Delivers (s s' : Fleet) (m : DispatchMessage) : Prop where
  workers : ∀ t, s'.workers t = (s.workers t).after (owed s.server.log t) m.req
  log : ∃ round, s'.server.log = s.server.log ++ [round] ∧ round.message = m
  finished : s'.finished = s.finished

/-- **A message** to the dispatch server, and what the workers hear of it. The server goes through
and stays exact; its answers are those it owes, each to the client that subscribed, so a worker
hears only what is meant for it. -/
theorem exists_deliver (h : Dispatch.Exact s.server)
    (h_client : ∀ t, ∀ sub ∈ owed s.server.log t, sub.client = tids t)
    (h_ok : Admitted s.server m) : ∃ s', s.deliver tids m = .ok s' ∧ Dispatch.Exact s'.server ∧
      s.Delivers s' m := by
  obtain ⟨server, round, h_eq, h_exact, h_log, h_message, h_answers⟩ := exists_round h h_ok
  refine ⟨⟨server, fun t => (s.workers t).after (owed s.server.log t) m.req, s.finished⟩,
    ?_, h_exact,
    fun _ => rfl, ⟨round, h_log, h_message⟩, rfl⟩
  rw [Fleet.deliver, h_eq]
  change Except.ok _ = Except.ok _
  congr 2
  funext t
  rw [h_log, List.getLast?_append]
  change (heardIn (tids t) round.replies).foldl WorkerState.hear (s.workers t) = _
  rw [← foldl_hear_filter, h_answers, heardIn_answers h_client]

end

end Drive
end PollingExpress
