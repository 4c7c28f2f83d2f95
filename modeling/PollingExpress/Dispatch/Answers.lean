import Mathlib.Data.List.FinRange
import Mathlib.Data.List.Perm.Subperm
import PollingExpress.Dispatch.Server
import PollingExpress.Framework.Fallible
import PollingExpress.Framework.History

/-!
# What a subscription is answered with

A train is owed an answer from the message that subscribes until the first update that
triggers one of the sensors: this is `owed`, which looks at the messages only, and `Waits` says
the same of the history as a whole. `Keeps` says that the server's tables agree with it, and one
round keeps this (`Exact.round`): an update answers those that are owed and triggered, and nobody
else is answered.

`exact_dispatch` is about every run in which a train does not subscribe while it is owed an
answer, and not to what others wait for. Then no assertion fails, and in every round the
answers and the pool are those that the earlier messages call for.
-/

namespace PollingExpress
namespace Dispatch

open Nav (TrainNum maxNumTrains numSensors)

/-- What a worker waits for. -/
structure Subscription where
  client : ℕ
  sensors : List Sensor
  deriving DecidableEq

/-- The sensors of a subscription that are triggered, in increasing order. -/
def hits (readings : Fin 10 → UInt8) (sub : Subscription) : List Sensor :=
  (List.finRange numSensors).filter fun i => i ∈ sub.sensors ∧ triggered readings i

/-- Whom the server owes an answer after a message. -/
def owedAfter (o : TrainNum → Option Subscription) (m : DispatchMessage) : TrainNum →
      Option Subscription :=
  match m.req with
  | .subscribeSensorList sensors train => Function.update o train (some ⟨m.client, sensors⟩)
  | .sensorUpdate readings _ => fun t => (o t).filter fun sub => hits readings sub = []
  | _ => o

/-- Whom the server owes an answer, and for what. -/
def owed (log : List Round) : TrainNum → Option Subscription :=
  log.foldl (fun o round => owedAfter o round.message) fun _ => none

@[simp] theorem owed_snoc (log : List Round) (round : Round) :
    owed (log ++ [round]) = owedAfter (owed log) round.message := List.foldl_append

/-- The answer to a subscription, if the update triggers it. -/
def answer (readings : Fin 10 → UInt8) (time : ℕ) (sub : Subscription) :
    Option (ℕ × DispatchResponse) :=
  if hits readings sub = [] then none
  else some (sub.client, .subscribeSensorList (hits readings sub) (hits readings sub).length time)

/-- The answers that a message calls for. -/
def answers (o : TrainNum → Option Subscription) (m : DispatchMessage) :
    List (ℕ × DispatchResponse) :=
  match m.req with
  | .sensorUpdate readings time =>
    (List.finRange maxNumTrains).filterMap fun t => (o t).bind (answer readings time)
  | _ => []

def isAnswer : ℕ × DispatchResponse → Bool
  | (_, .subscribeSensorList ..) => true
  | _ => false

/-- A pool says of each sensor whom it is attributed to. -/
structure Attributed (o : TrainNum → Option Subscription) (readings : Fin 10 → UInt8)
    (pool : Pool) :
    Prop where
  silent : ∀ i, triggered readings i = false → pool i = notTriggered
  subscribed : ∀ i t, triggered readings i = true → ∀ sub ∈ o t, i ∈ sub.sensors → pool i = t.val
  nobody : ∀ i, triggered readings i = true → (∀ t, ∀ sub ∈ o t, i ∉ sub.sensors) →
    pool i = unattributed

/-- The messages of workers that subscribe again only when they have been answered, and to
sensors that nobody else waits for. No task sends `DISPATCHSERVER_STRAIGHTPATHWORKER_INIT`. -/
def Admitted (s : DispatchServer) (m : DispatchMessage) : Prop :=
  match m.req with
  | .subscribeSensorList sensors train =>
    sensors.length ≤ maxSubscribedSensors ∧ sensors.Nodup ∧ owed s.log train = none ∧
      ∀ i ∈ sensors, ∀ t, ∀ sub ∈ owed s.log t, i ∉ sub.sensors
  | .straightpathworkerInit _ => False
  | _ => True

instance (s : DispatchServer) (m : DispatchMessage) : Decidable (Admitted s m) := by
  unfold Admitted
  split <;> infer_instance

namespace DispatchServer

/-- The tables say whom the server owes an answer. `straightpathworkers` says which task to answer
for a train, and the sensors of a train that waits for nothing are nobody's; a worker may stay in
its table after it has been answered. -/
structure Keeps (s : DispatchServer) (o : TrainNum → Option Subscription) : Prop where
  workers : ∀ t, ∀ sub ∈ o t, s.straightpathworkers t = some sub.client
  subscribers : ∀ i t, s.subscribers i = some t ↔ ∃ sub ∈ o t, i ∈ sub.sensors
  short : ∀ t, ∀ sub ∈ o t, sub.sensors.length ≤ maxSubscribedSensors

variable {s s' : DispatchServer} {o : TrainNum → Option Subscription} {readings : Fin 10 → UInt8}
  {client time : ℕ} {train : TrainNum}

/-! ### The loop over the sensors -/

/-- The sensors of a train that are triggered, by the server's table. -/
def trainHits (subscribers : Sensor → Option TrainNum) (readings : Fin 10 → UInt8) (t : TrainNum)
    (l : List Sensor) : List Sensor :=
  l.filter fun i => subscribers i = some t ∧ triggered readings i

/-- What the loop has made of the sensors `done`. The hits of each train stand in its buffer in the
order of the sensors, as many as fit, which are all (`Keeps.short`); the trains with a hit are
marked; and the pool says of each sensor whom it belongs to. -/
structure Attributes (subscribers : Sensor → Option TrainNum) (readings : Fin 10 → UInt8)
    (done : List Sensor) (a : Attribution) : Prop where
  valid : ∀ t, (a.sensorAttribution t).Valid ∧
    (a.sensorAttribution t).capacity = maxSubscribedSensors
  hits : ∀ t, (a.sensorAttribution t).cbToArray = trainHits subscribers readings t done
  triggering : ∀ t, a.triggeringTrains t = true ↔ trainHits subscribers readings t done ≠ []
  pool : ∀ i ∈ done, a.sensorPool i =
    if triggered readings i then (subscribers i).elim unattributed fun t => t.val else notTriggered

variable {subscribers : Sensor → Option TrainNum} {a : Attribution} {done rest : List Sensor}

theorem Attributes.start (readings : Fin 10 → UInt8) :
    Attributes subscribers readings [] .start where
  valid := fun _ => ⟨CircularBuffer.valid_cbInit _ (by decide), rfl⟩
  hits := fun _ => rfl
  triggering := fun _ => by simp [Attribution.start, trainHits]
  pool := fun _ h => absurd h List.not_mem_nil

theorem trainHits_append (t : TrainNum) (l l' : List Sensor) :
    trainHits subscribers readings t (l ++ l') =
    trainHits subscribers readings t l ++ trainHits subscribers readings t l' :=
  List.filter_append ..

theorem trainHits_of_hit {i : Sensor} {t : TrainNum} (h_sub : subscribers i = some t)
    (h_trig : triggered readings i = true) : trainHits subscribers readings t [i] = [i] :=
  List.filter_eq_self.mpr fun j h_j => by
    obtain rfl := List.mem_singleton.mp h_j
    exact decide_eq_true ⟨h_sub, h_trig⟩

theorem trainHits_of_miss {i : Sensor} {t : TrainNum}
    (h : ¬(subscribers i = some t ∧ triggered readings i = true)) :
    trainHits subscribers readings t [i] = [] :=
  List.filter_eq_nil_iff.mpr fun j h_j => by
    obtain rfl := List.mem_singleton.mp h_j
    exact fun h_true => h (of_decide_eq_true h_true)

/-- A sensor that is nobody's hit. -/
theorem Attributes.miss (h : Attributes subscribers readings done a) {i : Sensor}
    (h_miss : ∀ t, ¬(subscribers i = some t ∧ triggered readings i = true)) :
    Attributes subscribers readings (done ++ [i]) { a with
      sensorPool := Function.update a.sensorPool i
        (if triggered readings i then unattributed else notTriggered) } where
  valid := h.valid
  hits t := by rw [trainHits_append, trainHits_of_miss (h_miss t), List.append_nil, h.hits]
  triggering t := by rw [trainHits_append, trainHits_of_miss (h_miss t), List.append_nil,
    h.triggering]
  pool j h_j := by
    dsimp only
    by_cases h_eq : j = i
    · subst h_eq
      -- what is noted for a sensor with a subscriber that has not triggered is not a train
      rw [Function.update_self]
      cases h_sub : subscribers j with
      | none => rfl
      | some t =>
        have h_not : ¬triggered readings j = true := fun h_trig => h_miss t ⟨h_sub, h_trig⟩
        rw [if_neg h_not, if_neg h_not]
    · rw [Function.update_of_ne h_eq]
      exact h.pool j
        ((List.mem_append.mp h_j).resolve_right fun h_i => h_eq (List.mem_singleton.mp h_i))

/-- A sensor that is the hit of a train. It goes into the buffer of that train, which has room for
it, and the buffers of the other trains are not touched. -/
theorem Attributes.hit (h : Attributes subscribers readings done a) {i : Sensor} {t : TrainNum}
    (h_sub : subscribers i = some t) (h_trig : triggered readings i = true)
    (h_room : (trainHits subscribers readings t done).length < maxSubscribedSensors) :
    ∃ cb, (a.sensorAttribution t).cbPushBack i false = some cb ∧
      Attributes subscribers readings (done ++ [i]) {
        sensorAttribution := Function.update a.sensorAttribution t cb
        sensorPool := Function.update a.sensorPool i t.val
        triggeringTrains := Function.update a.triggeringTrains t true } := by
  obtain ⟨h_valid, h_capacity⟩ := h.valid t
  have h_count : (a.sensorAttribution t).count < (a.sensorAttribution t).capacity := by
    rw [← CircularBuffer.length_cbToArray, h.hits, h_capacity]
    exact h_room
  -- there is room for the sensor, since a train subscribes to so few
  obtain ⟨cb, h_push, h_valid', h_capacity', h_array⟩ :=
    CircularBuffer.cbPushBack_spec h_valid h_count i false
  -- the sensor is no hit of another train
  have h_other : ∀ u, u ≠ t → trainHits subscribers readings u [i] = [] := fun u h_u =>
    trainHits_of_miss fun h_hit => h_u (Option.some.inj (h_hit.1.symm.trans h_sub))
  refine ⟨cb, h_push, ⟨fun u => ?_, fun u => ?_, fun u => ?_, fun j h_j => ?_⟩⟩ <;> dsimp only
  · by_cases h_u : u = t
    · subst h_u
      rw [Function.update_self]
      exact ⟨h_valid', h_capacity'.trans h_capacity⟩
    · rw [Function.update_of_ne h_u]
      exact h.valid u
  · rw [trainHits_append]
    by_cases h_u : u = t
    · subst h_u
      rw [Function.update_self, h_array, h.hits, trainHits_of_hit h_sub h_trig]
    · rw [Function.update_of_ne h_u, h.hits, h_other u h_u, List.append_nil]
  · rw [trainHits_append]
    by_cases h_u : u = t
    · subst h_u
      rw [Function.update_self, trainHits_of_hit h_sub h_trig]
      simp
    · rw [Function.update_of_ne h_u, h.triggering, h_other u h_u, List.append_nil]
  · by_cases h_eq : j = i
    · subst h_eq
      rw [Function.update_self, if_pos h_trig, h_sub]
      rfl
    · rw [Function.update_of_ne h_eq]
      exact h.pool j
        ((List.mem_append.mp h_j).resolve_right fun h_i => h_eq (List.mem_singleton.mp h_i))

/-- No buffer gets full. The induction is on the sensors that are left: each is one that is not
triggered, or is for nobody, or a hit of the train that has subscribed to it. -/
theorem attributeSensors_spec (h : Attributes subscribers readings done a)
    (h_short : ∀ t, (trainHits subscribers readings t (done ++ rest)).length ≤
      maxSubscribedSensors) :
    ∃ a', attributeSensors subscribers readings a rest = .ok a' ∧
      Attributes subscribers readings (done ++ rest) a' := by
  induction rest generalizing done a with
  | nil => exact ⟨a, rfl, by rwa [List.append_nil]⟩
  | cons i rest ih =>
    rw [List.append_cons] at h_short ⊢
    unfold attributeSensors
    split
    · next h_trig =>
      cases h_sub : subscribers i with
      | none =>
        -- the sensor is for nobody: it goes into the pool only
        have h_miss := h.miss (i := i) fun t h_hit => absurd (h_sub.symm.trans h_hit.1) (by simp)
        rw [if_pos h_trig] at h_miss
        exact ih h_miss h_short
      | some t =>
        -- the buffer of `t` has room, since all its hits together fit
        have h_room : (trainHits subscribers readings t done).length < maxSubscribedSensors := by
          have h_le := h_short t
          rw [trainHits_append, trainHits_append, trainHits_of_hit h_sub h_trig, List.length_append,
            List.length_append] at h_le
          exact Nat.lt_of_lt_of_le (Nat.lt_succ_self _) (Nat.le_trans (Nat.le_add_right _ _) h_le)
        obtain ⟨cb, h_push, h_hit⟩ := h.hit h_sub h_trig h_room
        dsimp only
        rw [h_push]
        exact ih h_hit h_short
    · next h_not =>
      have h_miss := h.miss (i := i) fun t h_hit => h_not h_hit.2
      rw [if_neg h_not] at h_miss
      exact ih h_miss h_short

/-! ### The loop over the trains -/

/-- What the loop that answers the trains changes: the replies are added, and the sensors of the
trains that have been answered are given up. `kept` are the trains that still wait. -/
structure Answered (s s' : DispatchServer) (replies : List (ℕ × DispatchResponse))
    (kept : TrainNum → Prop) : Prop where
  workers : s'.straightpathworkers = s.straightpathworkers
  buffer : s'.attributionCourierBuffer = s.attributionCourierBuffer
  log : s'.log = s.log
  replies : s'.replies = s.replies ++ replies
  subscribers : ∀ i t, s'.subscribers i = some t ↔ s.subscribers i = some t ∧ kept t

theorem unsubscribe_subscribers {s : DispatchServer} {t u : TrainNum} {i : Sensor} :
    (s.unsubscribe t).subscribers i = some u ↔ s.subscribers i = some u ∧ u ≠ t := by
  unfold unsubscribe
  dsimp only
  -- the sensor is one of the train's, and has no subscriber then, or it is left alone
  split
  · next h_eq =>
    rw [h_eq]
    simp only [reduceCtorEq, Option.some.injEq, false_iff, not_and, not_not]
    exact fun h => h.symm
  · next h_ne =>
    constructor
    · intro h
      refine ⟨h, ?_⟩
      rintro rfl
      exact h_ne h
    · exact And.left

/-- The answers are those that are owed, and the trains that are answered are unsubscribed. The
induction is on the trains that are left; what the answer to one of them changes is its own
entries. -/
theorem answerTrains_spec (time : ℕ) {all : List Sensor} (h : Attributes subscribers readings all a)
    (h_owed : ∀ t, ∀ sub ∈ o t, trainHits subscribers readings t all = hits readings sub)
    (h_none : ∀ t, o t = none → trainHits subscribers readings t all = [])
    (h_workers : ∀ t, ∀ sub ∈ o t, s.straightpathworkers t = some sub.client) (l : List TrainNum) :
    ∃ s', answerTrains a time s l = .ok s' ∧
      s.Answered s' (l.filterMap fun t => (o t).bind (answer readings time))
        fun t => t ∈ l → trainHits subscribers readings t all = [] := by
  induction l generalizing s with
  | nil => exact ⟨s, rfl, rfl, rfl, rfl, (List.append_nil _).symm, by simp⟩
  | cons t l ih =>
    unfold answerTrains
    dsimp only
    have h_count : (a.sensorAttribution t).count =
        (trainHits subscribers readings t all).length := by
      rw [← CircularBuffer.length_cbToArray, h.hits]
    by_cases h_trig : trainHits subscribers readings t all = []
    · -- no hits: nothing is answered for `t`, and its entry stays
      have h_quiet : (o t).bind (answer readings time) = none := by
        cases h_t : o t with
        | none => rfl
        | some sub => exact if_pos ((h_owed t sub h_t).symm.trans h_trig)
      have h_false : ¬a.triggeringTrains t = true := fun h_true => (h.triggering t).mp h_true h_trig
      rw [if_neg h_false, if_pos (by rw [h_count, h_trig]; rfl), List.filterMap_cons, h_quiet]
      obtain ⟨s', h_ok, h_s'⟩ := ih h_workers
      refine ⟨s', h_ok, h_s'.workers, h_s'.buffer, h_s'.log, h_s'.replies, fun i u => ?_⟩
      rw [h_s'.subscribers i u]
      refine and_congr_right fun _ =>
        ⟨fun h_l h_u => ?_, fun h_l h_u => h_l (List.mem_cons_of_mem _ h_u)⟩
      rcases List.mem_cons.mp h_u with rfl | h_u
      · exact h_trig
      · exact h_l h_u
    · -- hits: `t` is answered, and its subscription ends
      obtain ⟨sub, h_t⟩ : ∃ sub, o t = some sub := by
        cases h_t : o t with
        | none => exact absurd (h_none t h_t) h_trig
        | some sub => exact ⟨sub, rfl⟩
      have h_hits := h_owed t sub h_t
      have h_answer : (o t).bind (answer readings time) = some (sub.client,
          .subscribeSensorList (hits readings sub) (hits readings sub).length time) := by
        rw [h_t]
        exact if_neg (h_hits ▸ h_trig)
      have h_worker : (s.unsubscribe t).straightpathworkers t = some sub.client :=
        h_workers t sub h_t
      rw [if_pos ((h.triggering t).mpr h_trig), if_neg (by rw [h_count]; simpa using h_trig),
        h_worker, List.filterMap_cons, h_answer]
      dsimp only
      rw [h.hits, h_count, h_hits]
      -- the rest of the trains, with `t` answered
      obtain ⟨s', h_ok, h_s'⟩ := ih (s := (s.unsubscribe t).reply sub.client
        (.subscribeSensorList (hits readings sub) (hits readings sub).length time)) h_workers
      refine ⟨s', h_ok, h_s'.workers, h_s'.buffer, h_s'.log, ?_, fun i u => ?_⟩
      · rw [h_s'.replies]
        exact List.append_assoc ..
      · rw [h_s'.subscribers i u]
        change (s.unsubscribe t).subscribers i = some u ∧ _ ↔ _
        rw [unsubscribe_subscribers, and_assoc]
        refine and_congr_right fun _ => ⟨fun ⟨h_ne, h_l⟩ h_u => ?_, fun h_l => ⟨?_, fun h_u => ?_⟩⟩
        · exact h_l ((List.mem_cons.mp h_u).resolve_left h_ne)
        · rintro rfl
          exact h_trig (h_l List.mem_cons_self)
        · exact h_l (List.mem_cons_of_mem _ h_u)

/-! ### One round -/

/-- Where the pool in an answer comes from. -/
def PoolFrom (buffered pool : Option Pool) : ℕ × DispatchResponse → Prop
  | (_, .subscribeSensorPrint p _) => pool = some p
  | (_, .attributionCourier p) => buffered = some p ∨ pool = some p
  | _ => True

/-- What a message does, to a server that owes the answers `o`. Its replies are the answers that the
message calls for, and beside these the pools for the printer and the courier, which are the newest
one or, for the courier, the one in the buffer. -/
structure Handles (s : DispatchServer) (o : TrainNum → Option Subscription) (m : DispatchMessage)
    (s' : DispatchServer) : Prop where
  keeps : s'.Keeps (owedAfter o m)
  answers : s'.replies.filter isAnswer = answers o m
  pool : ∀ readings time, m.req = .sensorUpdate readings time →
    ∃ pool, s'.pool = some pool ∧ Attributed o readings pool
  buffer : ∀ pool, s'.attributionCourierBuffer = some pool →
    s.attributionCourierBuffer = some pool ∨ s'.pool = some pool
  replies : ∀ r ∈ s'.replies, PoolFrom s.attributionCourierBuffer s'.pool r
  log : s'.log = s.log

/-- With the tables as they should be, a train's hits are those of what it waits for. -/
theorem Keeps.trainHits (h : s.Keeps o) {t : TrainNum} {sub : Subscription} (h_sub : sub ∈ o t)
    (readings : Fin 10 → UInt8) :
    trainHits s.subscribers readings t (List.finRange numSensors) = hits readings sub := by
  refine List.filter_congr fun i _ => ?_
  have h_iff : s.subscribers i = some t ↔ i ∈ sub.sensors := by
    rw [h.subscribers]
    constructor
    · rintro ⟨sub', h_sub', h_i⟩
      rwa [Option.some.inj (h_sub.symm.trans h_sub')]
    · exact fun h_i => ⟨sub, h_sub, h_i⟩
  exact decide_eq_decide.mpr (and_congr_left fun _ => h_iff)

theorem Keeps.trainHits_none (h : s.Keeps o) {t : TrainNum} (h_t : o t = none)
    (readings : Fin 10 → UInt8) (l : List Sensor) :
    DispatchServer.trainHits s.subscribers readings t l = [] := by
  refine List.filter_eq_nil_iff.mpr fun i _ h_hit => ?_
  obtain ⟨sub, h_sub, -⟩ := (h.subscribers i t).mp (of_decide_eq_true h_hit).1
  exact absurd (h_t.symm.trans h_sub) (by simp)

theorem length_hits_le (readings : Fin 10 → UInt8) (sub : Subscription) :
    (hits readings sub).length ≤ sub.sensors.length := by
  refine (List.subperm_of_subset ((List.nodup_finRange _).filter _) fun i h_i => ?_).length_le
  exact (of_decide_eq_true (List.mem_filter.mp h_i).2).1

/-- The loop over the sensors of a subscription: none of them is taken, so it goes through, and each
of them is the train's. -/
theorem subscribe_spec (train : TrainNum) {sensors : List Sensor}
    (h_free : ∀ i ∈ sensors, subscribers i = none) (h_nodup : sensors.Nodup) :
    ∃ subscribers', subscribe subscribers train sensors = .ok subscribers' ∧
      ∀ i, subscribers' i = if i ∈ sensors then some train else subscribers i := by
  induction sensors generalizing subscribers with
  | nil => exact ⟨subscribers, rfl, by simp⟩
  | cons i rest ih =>
    obtain ⟨h_i, h_rest⟩ := List.nodup_cons.mp h_nodup
    -- the sensors of the list are different, so those that remain are still free
    obtain ⟨subscribers', h_ok, h_eq⟩ := @ih (Function.update subscribers i (some train))
      (fun j h_j => by
        have h_ne : j ≠ i := fun h_eq => h_i (h_eq ▸ h_j)
        rw [Function.update_of_ne h_ne]
        exact h_free j (List.mem_cons_of_mem _ h_j)) h_rest
    refine ⟨subscribers', ?_, fun j => ?_⟩
    · unfold subscribe
      rwa [if_pos (h_free i List.mem_cons_self)]
    · rw [h_eq j]
      by_cases h_j : j = i
      · subst h_j
        rw [if_neg h_i, if_pos List.mem_cons_self, Function.update_self]
      · rw [Function.update_of_ne h_j]
        simp only [List.mem_cons, h_j, false_or]

/-- A subscription. The train waited for nothing and its sensors are free, so that the tables say
afterwards that it waits for these; nobody is answered. -/
theorem Keeps.subscribeSensorList (h : s.Keeps o) (h_replies : s.replies = [])
    {sensors : List Sensor} (h_len : sensors.length ≤ maxSubscribedSensors)
    (h_nodup : sensors.Nodup) (h_train : o train = none)
    (h_free : ∀ i ∈ sensors, ∀ t, ∀ sub ∈ o t, i ∉ sub.sensors) :
    ∃ s', s.subscribeSensorList client sensors train = .ok s' ∧
      s.Handles o ⟨client, .subscribeSensorList sensors train⟩ s' := by
  -- a sensor that is taken belongs to a train that waits, which `h_free` excludes
  have h_none : ∀ i ∈ sensors, s.subscribers i = none := by
    intro i h_i
    by_contra h_some
    obtain ⟨t, h_t⟩ := Option.ne_none_iff_exists'.mp h_some
    obtain ⟨sub, h_sub, h_mem⟩ := (h.subscribers i t).mp h_t
    exact h_free i h_i t sub h_sub h_mem
  obtain ⟨subscribers', h_ok, h_eq⟩ := subscribe_spec train h_none h_nodup
  refine ⟨_, by unfold DispatchServer.subscribeSensorList; rw [if_pos h_len, bind_of_ok h_ok], ?_⟩
  have h_owed : ∀ t, owedAfter o ⟨client, .subscribeSensorList sensors train⟩ t =
      if t = train then some ⟨client, sensors⟩ else o t :=
        fun t => Function.update_apply o train _ t
  constructor
  · -- the worker that waits is the new one for `train` and an old one for any other
    constructor
    · intro t sub h_sub
      rw [h_owed] at h_sub
      dsimp only
      split at h_sub
      · next h_t =>
        obtain rfl := Option.some.inj h_sub
        rw [h_t, Function.update_self]
      · next h_t =>
        rw [Function.update_of_ne h_t]
        exact h.workers t sub h_sub
    · -- a sensor belongs to `train` if and only if it is one of the new list
      intro i t
      dsimp only
      rw [h_owed, h_eq i]
      by_cases h_t : t = train
      · subst h_t
        rw [if_pos rfl]
        constructor
        · intro h_i
          refine ⟨_, rfl, ?_⟩
          by_contra h_not
          rw [if_neg h_not, h.subscribers] at h_i
          obtain ⟨sub, h_sub, -⟩ := h_i
          exact absurd (h_train.symm.trans h_sub) (by simp)
        · rintro ⟨sub, ⟨⟩, h_i⟩
          exact if_pos h_i
      · rw [if_neg h_t, ← h.subscribers]
        split
        · next h_i =>
          rw [h_none i h_i]
          simp [Ne.symm h_t]
        · rfl
    · intro t sub h_sub
      rw [h_owed] at h_sub
      split at h_sub
      · obtain rfl := Option.some.inj h_sub
        exact h_len
      · exact h.short t sub h_sub
  · exact congrArg (List.filter isAnswer) h_replies
  · rintro readings time ⟨⟩
  · exact fun pool h_pool => .inl h_pool
  · rw [h_replies]
    exact fun r h_r => absurd h_r List.not_mem_nil
  · rfl

/-- What passing a pool on changes: the printer and the courier hear of it, if they wait, and for a
courier that does not wait it is kept in the buffer, if that is free. The subscriptions are not
touched. -/
structure Informed (s s' : DispatchServer) (pool : Pool) : Prop where
  workers : s'.straightpathworkers = s.straightpathworkers
  subscribers : s'.subscribers = s.subscribers
  log : s'.log = s.log
  buffer : ∀ p, s'.attributionCourierBuffer = some p →
    s.attributionCourierBuffer = some p ∨ p = pool
  replies : ∃ l, s'.replies = s.replies ++ l ∧ ∀ r ∈ l, isAnswer r = false ∧
    ∀ buffered, PoolFrom buffered (some pool) r

theorem informPrinter_spec (s : DispatchServer) (pool : Pool) (time : ℕ) :
    s.Informed (s.informPrinter pool time) pool := by
  unfold informPrinter
  split
  · next client _ =>
    refine ⟨rfl, rfl, rfl, fun p h_p => .inl h_p,
      [(client, .subscribeSensorPrint pool time)], rfl, ?_⟩
    exact List.forall_mem_singleton.mpr ⟨rfl, fun _ => rfl⟩
  · exact ⟨rfl, rfl, rfl, fun p h_p => .inl h_p, [], (List.append_nil _).symm, by simp⟩

theorem informCourier_spec (s : DispatchServer) (pool : Pool) :
    s.Informed (s.informCourier pool) pool := by
  unfold informCourier
  split
  · exact ⟨rfl, rfl, rfl, fun p h_p => .inl h_p, [], (List.append_nil _).symm, by simp⟩
  · next client _ _ =>
    refine ⟨rfl, rfl, rfl, fun p h_p => .inl h_p, [(client, .attributionCourier pool)], rfl, ?_⟩
    exact List.forall_mem_singleton.mpr ⟨rfl, fun _ => .inr rfl⟩
  · exact ⟨rfl, rfl, rfl, fun p h_p => .inr (Option.some.inj h_p).symm, [],
      (List.append_nil _).symm, by simp⟩

theorem Informed.trans {s'' : DispatchServer} {pool : Pool} (h : s.Informed s' pool)
    (h' : s'.Informed s'' pool) : s.Informed s'' pool where
  workers := h'.workers.trans h.workers
  subscribers := h'.subscribers.trans h.subscribers
  log := h'.log.trans h.log
  buffer p h_p := (h'.buffer p h_p).elim (h.buffer p) .inr
  replies := by
    obtain ⟨l, h_l, h_all⟩ := h.replies
    obtain ⟨l', h_l', h_all'⟩ := h'.replies
    refine ⟨l ++ l', by rw [h_l', h_l, List.append_assoc], fun r h_r => ?_⟩
    exact (List.mem_append.mp h_r).elim (h_all r) (h_all' r)

/-- The pool that the loop over the sensors makes. -/
theorem Keeps.attributed (h : s.Keeps o) {pool : Pool} (h_pool : ∀ i, pool i =
    if triggered readings i then (s.subscribers i).elim unattributed fun t =>
      t.val else notTriggered) :
    Attributed o readings pool where
  silent i h_i := by
    rw [h_pool, h_i]
    rfl
  subscribed i t h_i sub h_sub h_mem := by
    rw [h_pool, if_pos h_i, (h.subscribers i t).mpr ⟨sub, h_sub, h_mem⟩]
    rfl
  nobody i h_i h_none := by
    -- a sensor with no subscription is nobody's in the table
    have h_free : s.subscribers i = none := by
      by_contra h_some
      obtain ⟨t, h_t⟩ := Option.ne_none_iff_exists'.mp h_some
      obtain ⟨sub, h_sub, h_mem⟩ := (h.subscribers i t).mp h_t
      exact h_none t sub h_sub h_mem
    rw [h_pool, if_pos h_i, h_free]
    rfl

theorem answers_filter (o : TrainNum → Option Subscription) (readings : Fin 10 → UInt8) (time : ℕ)
    (l : List TrainNum) : (l.filterMap fun t => (o t).bind (answer readings time)).filter isAnswer =
      l.filterMap fun t => (o t).bind (answer readings time) := by
  refine List.filter_eq_self.mpr fun r h_r => ?_
  obtain ⟨t, -, h_t⟩ := List.mem_filterMap.mp h_r
  obtain ⟨sub, -, h_sub⟩ := Option.bind_eq_some_iff.mp h_t
  unfold answer at h_sub
  split at h_sub
  · cases h_sub
  · obtain rfl := Option.some.inj h_sub
    rfl

/-- The tables are as they should be again where the trains with a hit have been unsubscribed: a
train waits on if and only if none of its sensors was hit. -/
theorem Keeps.quiet (h : s.Keeps o) (h_workers : s'.straightpathworkers = s.straightpathworkers)
    (h_subs : ∀ i t, s'.subscribers i = some t ↔ s.subscribers i = some t ∧
      DispatchServer.trainHits s.subscribers readings t (List.finRange numSensors) = []) :
    s'.Keeps fun t => (o t).filter fun sub => hits readings sub = [] := by
  constructor
  · intro t sub h_sub
    rw [h_workers]
    exact h.workers t sub (Option.mem_filter_iff.mp h_sub).1
  · -- the train has hits exactly if one of the sensors of its subscription has triggered
    intro i t
    rw [h_subs i t, h.subscribers i t]
    constructor
    · rintro ⟨⟨sub, h_sub, h_i⟩, h_quiet⟩
      rw [h.trainHits h_sub] at h_quiet
      exact ⟨sub, Option.mem_filter_iff.mpr ⟨h_sub, decide_eq_true h_quiet⟩, h_i⟩
    · rintro ⟨sub, h_sub, h_i⟩
      obtain ⟨h_sub, h_quiet⟩ := Option.mem_filter_iff.mp h_sub
      refine ⟨⟨sub, h_sub, h_i⟩, ?_⟩
      rw [h.trainHits h_sub]
      exact of_decide_eq_true h_quiet
  · intro t sub h_sub
    exact h.short t sub (Option.mem_filter_iff.mp h_sub).1

/-- An update of the sensors, in the order of the source: the sensors are attributed, the trains
with hits are answered, and the pool goes to the printer and to the courier, who have no part in the
tables. -/
theorem Keeps.sensorUpdate (h : s.Keeps o) (h_replies : s.replies = []) :
    ∃ s', s.sensorUpdate client readings time = .ok s' ∧
      s.Handles o ⟨client, .sensorUpdate readings time⟩ s' := by
  have h_start : (s.reply client .good).Keeps o := ⟨h.workers, h.subscribers, h.short⟩
  have h_short : ∀ t, (DispatchServer.trainHits s.subscribers readings t
      ([] ++ List.finRange numSensors)).length ≤ maxSubscribedSensors := by
    intro t
    rw [List.nil_append]
    cases h_t : o t with
    | none =>
      rw [h.trainHits_none h_t]
      exact Nat.zero_le _
    | some sub =>
      rw [h.trainHits h_t]
      exact (length_hits_le readings sub).trans (h.short t sub h_t)
  -- `attribute_sensors`, then the trains, then the printer and the courier
  obtain ⟨a, h_attribute, h_a⟩ := attributeSensors_spec (Attributes.start readings) h_short
  rw [List.nil_append] at h_a
  obtain ⟨s₁, h_answer, h_s₁⟩ := answerTrains_spec time h_a
    (fun t sub h_sub => h.trainHits h_sub readings) (fun t h_t => h.trainHits_none h_t readings _)
    h_start.workers (List.finRange maxNumTrains)
  -- the printer and the courier get the pool and touch no subscription
  have h_informed :=
    (s₁.informPrinter_spec a.sensorPool time).trans (informCourier_spec _ a.sensorPool)
  refine ⟨_, (bind_of_ok h_attribute).trans (bind_of_ok h_answer), ?_⟩
  generalize (s₁.informPrinter a.sensorPool time).informCourier a.sensorPool = s₂ at h_informed ⊢
  obtain ⟨l, h_l, h_passed⟩ := h_informed.replies
  have h_all : s₂.replies = (client, .good) ::
      ((List.finRange maxNumTrains).filterMap fun t => (o t).bind (answer readings time)) ++ l := by
    rw [h_l, h_s₁.replies]
    change s.replies ++ _ ++ _ ++ _ = _
    rw [h_replies]
    rfl
  have h_workers : s₂.straightpathworkers = s.straightpathworkers :=
    h_informed.workers.trans h_s₁.workers
  constructor
  · refine h.quiet h_workers fun i t => ?_
    rw [h_informed.subscribers, h_s₁.subscribers i t]
    exact and_congr_right fun _ => forall_prop_of_true (List.mem_finRange t)
  · -- what the round answers is, filtered, one reply for each train with a hit
    change s₂.replies.filter isAnswer = _
    rw [h_all, List.cons_append, List.filter_cons_of_neg (by simp [isAnswer]), List.filter_append,
      answers_filter]
    rw [List.filter_eq_nil_iff.mpr fun r h_r => by simp [(h_passed r h_r).1], List.append_nil]
    rfl
  · rintro readings' time' ⟨⟩
    exact ⟨a.sensorPool, rfl, h.attributed fun i => h_a.pool i (List.mem_finRange i)⟩
  · -- the pool in the buffer is an old one or the one of this update
    intro pool h_pool
    rcases h_informed.buffer pool h_pool with h_old | rfl
    · rw [h_s₁.buffer] at h_old
      exact .inl h_old
    · exact .inr rfl
  · intro r h_r
    change r ∈ s₂.replies at h_r
    rw [h_all] at h_r
    rcases List.mem_append.mp h_r with h_r | h_r
    · rcases List.mem_cons.mp h_r with rfl | h_r
      · trivial
      · rw [← answers_filter] at h_r
        obtain ⟨c, res⟩ := r
        have h_answer := (List.mem_filter.mp h_r).2
        cases res with
        | subscribeSensorList => trivial
        | good | subscribeSensorPrint | attributionCourier | subscriptionPrint => cases h_answer
    · exact (h_passed r h_r).2 _
  · exact h_informed.log.trans h_s₁.log

/-- A message that does not change the tables: that of the printer or of the courier, who are
answered out of the buffer, or wait. -/
theorem Keeps.handles_of_eq (h : s.Keeps o) {req : DispatchRequest}
    (h_req : owedAfter o ⟨client, req⟩ = o)
    (h_update : ∀ readings time, req ≠ .sensorUpdate readings time) {s' : DispatchServer}
    (h_workers : s'.straightpathworkers = s.straightpathworkers)
    (h_subs : s'.subscribers = s.subscribers) (h_log : s'.log = s.log)
    (h_buffer : ∀ pool, s'.attributionCourierBuffer = some pool →
      s.attributionCourierBuffer = some pool)
    (h_replies : ∀ r ∈ s'.replies, isAnswer r = false ∧
      PoolFrom s.attributionCourierBuffer s'.pool r) :
    s.Handles o ⟨client, req⟩ s' where
  keeps := by
    rw [h_req]
    exact ⟨h_workers ▸ h.workers, h_subs ▸ h.subscribers, h.short⟩
  answers := by
    -- only an update of the sensors answers anybody who waits
    have h_none : Dispatch.answers o ⟨client, req⟩ = [] := by
      cases req with
      | sensorUpdate readings time => exact absurd rfl (h_update readings time)
      | _ => rfl
    rw [h_none, List.filter_eq_nil_iff]
    exact fun r h_r => by simp [(h_replies r h_r).1]
  pool readings time h_eq := absurd h_eq (h_update readings time)
  buffer pool h_pool := .inl (h_buffer pool h_pool)
  replies r h_r := (h_replies r h_r).2
  log := h_log

/-- The requests, one by one. Only a subscription and an update of the sensors change whom the
server owes an answer. -/
theorem Keeps.handle (h : s.Keeps (owed s.log)) (h_replies : s.replies = []) {m : DispatchMessage}
    (h_ok : Admitted s m) : ∃ s', s.handle m.client m.req = .ok s' ∧
      s.Handles (owed s.log) m s' := by
  obtain ⟨client, req⟩ := m
  have h_silent : ∀ r ∈ s.replies, isAnswer r = false ∧
      PoolFrom s.attributionCourierBuffer s.pool r := by
    rw [h_replies]
    exact fun r h_r => absurd h_r List.not_mem_nil
  cases req with
  | subscribeSensorList sensors train =>
    obtain ⟨h_len, h_nodup, h_train, h_free⟩ := h_ok
    exact h.subscribeSensorList h_replies h_len h_nodup h_train h_free
  | attributionPrint =>
    exact ⟨_, rfl, h.handles_of_eq rfl (by simp) rfl rfl rfl (fun _ h_pool => h_pool) h_silent⟩
  | subscriptionPrint =>
    exact ⟨_, rfl, h.handles_of_eq rfl (by simp) rfl rfl rfl (fun _ h_pool => h_pool) h_silent⟩
  | attributionCourier =>
    refine ⟨_, rfl, ?_⟩
    unfold courier
    split
    · next pool h_buffer =>
      refine h.handles_of_eq rfl (by simp) rfl rfl rfl (fun _ h_pool => nomatch h_pool) ?_
      change ∀ r ∈ s.replies ++ [(client, .attributionCourier pool)], _
      -- what the courier gets was in the buffer, and it is taken out
      rw [h_replies]
      exact List.forall_mem_singleton.mpr ⟨rfl, .inl h_buffer⟩
    · exact h.handles_of_eq rfl (by simp) rfl rfl rfl (fun _ h_pool => h_pool) h_silent
  | straightpathworkerInit train => exact h_ok.elim
  | sensorUpdate readings time => exact h.sensorUpdate h_replies

/-- The subscription printer gets no answer of another kind. -/
theorem Handles.flush {m : DispatchMessage} (h : s.Handles o m s') : s.Handles o m s'.flush := by
  -- the printer is answered if it waits and the table has changed, and else nothing is sent
  unfold DispatchServer.flush
  split
  · next client _ =>
    split
    · refine ⟨⟨h.keeps.workers, h.keeps.subscribers, h.keeps.short⟩, ?_, h.pool,
        h.buffer, ?_, h.log⟩
      · change (s'.replies ++ [_]).filter isAnswer = _
        rw [List.filter_append, h.answers]
        exact List.append_nil _
      · intro r h_r
        rcases List.mem_append.mp h_r with h_r | h_r
        · exact h.replies r h_r
        · obtain rfl := List.mem_singleton.mp h_r
          trivial
    · exact h
  · exact h

end DispatchServer

/-! ### Runs -/

variable {ms : List DispatchMessage} {s s' : DispatchServer} {past : List Round}

/-- The train has subscribed, and no update since has triggered any of the sensors. -/
def Waits (past : List Round) (t : TrainNum) (sub : Subscription) : Prop :=
  ∃ l₁ round l₂, past = l₁ ++ round :: l₂ ∧
    round.message = ⟨sub.client, .subscribeSensorList sub.sensors t⟩ ∧
    ∀ round' ∈ l₂, ∀ readings time, round'.message.req = .sensorUpdate readings time →
      hits readings sub = []

/-- One more round: the train has subscribed in it, or it waited before and the round has not
triggered any of its sensors. -/
theorem waits_snoc {round : Round} {t : TrainNum} {sub : Subscription} :
    Waits (past ++ [round]) t sub ↔
    round.message = ⟨sub.client, .subscribeSensorList sub.sensors t⟩ ∨ Waits past t sub ∧
      ∀ readings time, round.message.req = .sensorUpdate readings time →
      hits readings sub = [] := by
  constructor
  · rintro ⟨l₁, round', l₂, h_eq, h_sub, h_quiet⟩
    -- either the last message subscribed, or the waiting began before it
    rcases List.eq_nil_or_concat l₂ with rfl | ⟨l₂, last, rfl⟩
    · -- the last message is the one that subscribes
      obtain ⟨-, h_last⟩ := List.append_inj' h_eq rfl
      obtain rfl := List.singleton_inj.mp h_last
      exact .inl h_sub
    · rw [List.concat_eq_append, ← List.cons_append, ← List.append_assoc] at h_eq
      obtain ⟨h_past, h_last⟩ := List.append_inj' h_eq rfl
      obtain rfl := List.singleton_inj.mp h_last
      rw [List.concat_eq_append] at h_quiet
      refine .inr ⟨⟨l₁, round', l₂, h_past, h_sub, fun r h_r => ?_⟩, ?_⟩
      · exact h_quiet r (List.mem_append_left _ h_r)
      · exact h_quiet round (List.mem_append_right _ (List.mem_singleton_self _))
  · rintro (h_sub | ⟨⟨l₁, round', l₂, rfl, h_sub, h_quiet⟩, h_last⟩)
    · exact ⟨past, round, [], rfl, h_sub, fun r h_r => absurd h_r List.not_mem_nil⟩
    · refine ⟨l₁, round', l₂ ++ [round], by simp, h_sub, fun r h_r => ?_⟩
      rcases List.mem_append.mp h_r with h_r | h_r
      · exact h_quiet r h_r
      · obtain rfl := List.mem_singleton.mp h_r
        exact h_last

/-- What a round is to be, after the rounds before it. A train is owed an answer just if it has
subscribed and no update has triggered any of its sensors since; the answers of the round are those
that its message calls for; and each pool that is passed on was made in this round, or, for the
courier, in this one or an earlier one. -/
structure RoundExact (past : List Round) (round : Round) : Prop where
  waits : ∀ t sub, sub ∈ owed past t ↔ Waits past t sub
  answers : round.replies.filter isAnswer = answers (owed past) round.message
  pool : ∀ readings time, round.message.req = .sensorUpdate readings time →
    ∃ pool, round.pool = some pool ∧ Attributed (owed past) readings pool
  printed : ∀ client pool time, (client, .subscribeSensorPrint pool time) ∈ round.replies →
    round.pool = some pool
  couriered : ∀ client pool, (client, .attributionCourier pool) ∈ round.replies →
    ∃ round' ∈ past ++ [round], round'.pool = some pool

/-- What holds between two messages: the tables are right, no reply is on its way, and every round
up to now was exact. A pool in the courier's buffer was made in one of the rounds, which is what is
needed when it is handed out later. -/
structure Exact (s : DispatchServer) : Prop where
  keeps : s.Keeps (owed s.log)
  waits : ∀ t sub, sub ∈ owed s.log t ↔ Waits s.log t sub
  fresh : s.replies = []
  buffer : ∀ pool, s.attributionCourierBuffer = some pool → ∃ round ∈ s.log, round.pool = some pool
  rounds : AtEach RoundExact s.log

theorem Exact.start : Exact .start where
  keeps :=
    ⟨fun _ _ h => (nomatch h), fun _ _ => ⟨fun h => (nomatch h), fun ⟨_, h, _⟩ => (nomatch h)⟩,
    fun _ _ h => (nomatch h)⟩
  waits := fun _ _ =>
    ⟨fun h => (nomatch h), fun ⟨_, _, _, h, _⟩ => absurd h (by simp [DispatchServer.start])⟩
  fresh := rfl
  buffer := fun _ h => nomatch h
  rounds := atEach_nil

/-- A train that subscribes waits, and one that an update triggers does not. So what the tables say
is what the log says, without a look at the rounds before. -/
theorem Exact.waits_after (h : Exact s) (round : Round) (h_ok : Admitted s round.message)
    (t : TrainNum) (sub : Subscription) : sub ∈ owedAfter (owed s.log) round.message t ↔
      Waits (s.log ++ [round]) t sub := by
  rw [waits_snoc, ← h.waits]
  obtain ⟨⟨client, req⟩, replies, pool⟩ := round
  obtain ⟨c, sensors⟩ := sub
  cases req with
  | subscribeSensorList sensors' train =>
    -- the train was not waiting for anything else
    have h_free : owed s.log train = none := h_ok.2.2.1
    unfold owedAfter
    dsimp only
    rw [Function.update_apply]
    split
    · next h_t =>
      subst h_t
      rw [h_free]
      simp
    · next h_t => simp [Ne.symm h_t]
  | sensorUpdate readings time =>
    simp only [owedAfter, Option.mem_filter_iff, decide_eq_true_eq, DispatchMessage.mk.injEq,
      reduceCtorEq, and_false, false_or]
    refine and_congr_right fun _ => ⟨?_, fun h_quiet => h_quiet readings time rfl⟩
    rintro h_quiet _ _ ⟨⟩
    exact h_quiet
  | straightpathworkerInit train => exact h_ok.elim
  | attributionPrint | subscriptionPrint | attributionCourier => simp [owedAfter]

/-- One round: the message is handled, the printer and the courier are passed what there is, and the
round goes into the log. It is exact by what was shown of the branch (`Handles`). -/
theorem Exact.round (h : Exact s) {m : DispatchMessage} (h_ok : Admitted s m) :
    ∃ s', s.dispatchserver m = .ok s' ∧ Exact s' ∧
      s'.log.map Round.message = s.log.map Round.message ++ [m] := by
  -- `handle` first, then `flush`, then the round is logged
  obtain ⟨s₁, h_handle, h_s₁⟩ := h.keeps.handle h.fresh h_ok
  refine ⟨_, bind_of_ok h_handle, ?_⟩
  have h_s₂ := h_s₁.flush
  generalize s₁.flush = s₂ at h_s₂
  have h_log : (s₂.log ++ [⟨m, s₂.replies, s₂.pool⟩] : List Round) =
      s.log ++ [⟨m, s₂.replies, s₂.pool⟩] := by rw [h_s₂.log]
  constructor
  · constructor
    · dsimp only
      rw [h_log, owed_snoc]
      exact ⟨h_s₂.keeps.workers, h_s₂.keeps.subscribers, h_s₂.keeps.short⟩
    · dsimp only
      rw [h_log, owed_snoc]
      exact h.waits_after ⟨m, s₂.replies, s₂.pool⟩ h_ok
    · rfl
    · -- a pool in the buffer was there already, or is the one of this round
      intro pool h_pool
      dsimp only
      rw [h_log]
      rcases h_s₂.buffer pool h_pool with h_old | h_new
      · obtain ⟨round, h_round, h_eq⟩ := h.buffer pool h_old
        exact ⟨round, List.mem_append_left _ h_round, h_eq⟩
      · exact ⟨_, List.mem_append_right _ (List.mem_singleton_self _), h_new⟩
    · dsimp only
      rw [h_log, atEach_snoc]
      refine ⟨h.rounds, h.waits, h_s₂.answers, h_s₂.pool, fun c pool time h_r => h_s₂.replies _ h_r,
        fun c pool h_r => ?_⟩
      rcases h_s₂.replies _ h_r with h_old | h_new
      · obtain ⟨round, h_round, h_eq⟩ := h.buffer pool h_old
        exact ⟨round, List.mem_append_left _ h_round, h_eq⟩
      · exact ⟨_, List.mem_append_right _ (List.mem_singleton_self _), h_new⟩
  · dsimp only
    rw [h_log, List.map_append]
    rfl

/-- The invariant holds along a run: by induction on it, `Exact.round` is the step. -/
theorem exact_of_reaches (h : dispatchSystem.Reaches Admitted ms s) :
    Exact s ∧ s.log.map Round.message = ms := by
  induction h with
  | start h_init =>
    obtain rfl := h_init
    exact ⟨Exact.start, rfl⟩
  | next _ h_ok h_step ih =>
    obtain ⟨s', h_eq, h_exact, h_messages⟩ := ih.1.round h_ok
    obtain rfl := Except.ok.inj (h_eq.symm.trans h_step)
    exact ⟨h_exact, h_messages.trans (congrArg (· ++ [_]) ih.2)⟩

/-- Sensor dispatch is exact.

The log has the messages of the run, and each round is exact (`RoundExact`): who waits and is hit is
answered, with the sensors that were hit, and nobody else is. What a train is owed is what it has
subscribed to since it was answered last, and the table `subscribers` says the same. -/
structure ExactDispatch (ms : List DispatchMessage) (s : DispatchServer) : Prop where
  messages : s.log.map Round.message = ms
  rounds : AtEach RoundExact s.log
  waits : ∀ t sub, sub ∈ owed s.log t ↔ Waits s.log t sub
  subscribers : ∀ i t, s.subscribers i = some t ↔ ∃ sub, Waits s.log t sub ∧ i ∈ sub.sensors
  accepted : ∀ m, Admitted s m → ∃ s', dispatchSystem.step s m s'

/-- **Dispatch is exact**, in every run in which nobody subscribes while waiting, or to what others
wait for: every round answers those that wait and that the update triggers, with what it triggers,
and nobody else, and no assertion fails.

`Admitted` is about the message and the state before it. The invariant `Exact` ties the tables of
the server to what the log says is owed: a train waits if and only if it has subscribed and no
update since has hit one of its sensors. -/
theorem exact_dispatch (h : dispatchSystem.Reaches Admitted ms s) : ExactDispatch ms s := by
  obtain ⟨h_exact, h_messages⟩ := exact_of_reaches h
  refine ⟨h_messages, h_exact.rounds, h_exact.waits, fun i t => ?_, fun m h_ok => ?_⟩
  · -- the table of subscribers and the waiting workers are what `Exact` says that they are
    rw [h_exact.keeps.subscribers i t]
    exact exists_congr fun sub => and_congr_left fun _ => h_exact.waits t sub
  · obtain ⟨s', h_step, -⟩ := h_exact.round h_ok
    exact ⟨s', h_step⟩

def dispatchNext (s : DispatchServer) (m : DispatchMessage) : Option DispatchServer :=
  (s.dispatchserver m).toOption

theorem dispatchNext_step (s : DispatchServer) (m : DispatchMessage) (s' : DispatchServer)
    (h : dispatchNext s m = some s') : dispatchSystem.step s m s' := of_toOption h

/-- The sensors 0, 2 and 9. -/
def threeReadings : Fin 10 → UInt8
  | 0 => 0xA0
  | 1 => 0x40
  | _ => 0

/-- Two trains wait, and one update triggers two sensors of the first and one of the second. -/
theorem exact_dispatch_two_trains : ∃ s, s.log.map (·.replies.filter isAnswer) =
    [[], [], [], [(7, .subscribeSensorList [0, 2] 2 45), (8, .subscribeSensorList [9] 1 45)], []] ∧
    ExactDispatch [⟨7, .subscribeSensorList [2, 1, 0] 3⟩, ⟨8, .subscribeSensorList [9] 4⟩,
      ⟨5, .attributionPrint⟩,
      ⟨6, .sensorUpdate threeReadings 45⟩, ⟨6, .sensorUpdate threeReadings 50⟩] s := by
  obtain ⟨s, h_reaches, h_replies⟩ := System.exists_reaches_of_play dispatchNext_step Admitted
    (fun s => s.log.map (·.replies.filter isAnswer) =
      [[], [], [], [(7, .subscribeSensorList [0, 2] 2 45), (8, .subscribeSensorList [9] 1 45)], []])
    [⟨7, .subscribeSensorList [2, 1, 0] 3⟩, ⟨8, .subscribeSensorList [9] 4⟩, ⟨5, .attributionPrint⟩,
      ⟨6, .sensorUpdate threeReadings 45⟩, ⟨6, .sensorUpdate threeReadings 50⟩] rfl
        (by decide +kernel)
  exact ⟨s, h_replies, exact_dispatch h_reaches⟩

end Dispatch
end PollingExpress
