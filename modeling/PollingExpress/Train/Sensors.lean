import PollingExpress.Framework.Fallible
import PollingExpress.Framework.History
import PollingExpress.Train.Server

/-!
# Sensor edges

What the train server tells of the sensors. The worker reports the readings of all sensors, again
and again; a sensor that goes from off to on between two reports is an edge, and a task that asks
for a sensor event is told the edges since the last time that such a task was answered.

The reports that count are kept beside the server (`watchSystem`), from the last one before an
answer on. `Watched` relates them to what the server keeps: the last readings, the edges that nobody
has been told, and whether there are any. `sensor_edges` is about every run, with whatever else is
asked of the server in between.
-/

namespace PollingExpress
namespace Train

/-- The readings of all sensors. -/
abbrev Readings := Fin 10 → UInt8

/-- A sensor is on, the `b`th of its byte. -/
def On (readings : Readings) (i : Fin 10) (b : Fin 8) : Prop :=
  (readings i).toBitVec.getLsbD b = true

instance (readings : Readings) (i : Fin 10) (b : Fin 8) : Decidable (On readings i b) :=
  inferInstanceAs (Decidable (_ = true))

/-- The answer is an event. -/
def TrainLog.IsEvent : TrainLog → Prop
  | .reply _ (.event _) => True
  | _ => False

/-- Who waits for a sensor event when message `m` has come. -/
def waitsFor (s : TrainServer) (m : TrainMessage) : Option ℕ :=
  match m.req with
  | .sensorEvent => some m.client
  | _ => s.sensorWaiting

/-- The server answers `c`, who waits for a sensor event, with `e`. -/
def Delivers (s : TrainServer) (m : TrainMessage) (s' : TrainServer) (c : ℕ) (e : TrainEvent) :
    Prop :=
  waitsFor s m = some c ∧ s'.sensorWaiting = none ∧
    ∃ l l', s'.log = s.log ++ l ++ .reply c (.event e) :: l' ∧ ∀ x ∈ l, ¬x.IsEvent

/-- The reports, with the one that `req` is. -/
def heard (polls : List Readings) : TrainRequest → List Readings
  | .workerSensor readings _ => polls ++ [readings]
  | _ => polls

/-- The server, and the reports from the last one before the last answer on; at first, nothing is
on. -/
structure Watch where
  server : TrainServer
  polls : List Readings

def watchSystem : System Watch TrainMessage where
  init w := w.server = .start ∧ w.polls = [fun _ => 0]
  step w m w' := w.server.taskTrainserver m.client m.req = .ok w'.server ∧
    ((∃ c e, Delivers w.server m w'.server c e) ∧ w'.polls = (heard w.polls m.req).getLast?.toList ∨
      (¬∃ c e, Delivers w.server m w'.server c e) ∧ w'.polls = heard w.polls m.req)

/-! ### Bits -/

theorem ne_zero_iff (x : UInt8) : x ≠ 0 ↔ ∃ b : Fin 8, x.toBitVec.getLsbD b = true := by
  constructor
  · intro h
    by_contra h_none
    push Not at h_none
    refine h (UInt8.eq_of_toBitVec_eq (BitVec.eq_of_getLsbD_eq fun b h_b => ?_))
    simpa using h_none ⟨b, h_b⟩
  · rintro ⟨b, h_b⟩ rfl
    simp at h_b

/-- What is on now and was not before is an edge, beside those that there were. -/
theorem on_triggered (edges before now : Readings) (i : Fin 10) (b : Fin 8) :
    On (fun i => edges i ||| now i &&& ~~~before i) i b ↔
      On edges i b ∨ ¬On before i b ∧ On now i b := by
  simp only [On, UInt8.toBitVec_or, UInt8.toBitVec_and, UInt8.toBitVec_not, BitVec.getLsbD_or,
    BitVec.getLsbD_and, BitVec.getLsbD_not, Bool.or_eq_true, Bool.and_eq_true, Bool.not_eq_true',
    b.isLt, decide_true, Bool.true_and, Bool.not_eq_true]
  rw [and_comm (a := _ = true)]

namespace TrainServer

/-! ### What the other messages leave alone -/

/-- The sensors are left alone, and nobody is told an event: neither the last readings nor what has
been kept for the next event change. -/
structure Unsensed (s s' : TrainServer) : Prop where
  sensors : s'.sensors = s.sensors
  triggered : s'.event.sensors = s.event.sensors
  dirty : s'.sensorDirty = s.sensorDirty
  waiting : s'.sensorWaiting = s.sensorWaiting
  log : ∃ l, s'.log = s.log ++ l ∧ ∀ x ∈ l, ¬x.IsEvent

variable {s s' s'' : TrainServer} {client : ℕ} {time : Int}

theorem Unsensed.trans (h : Unsensed s s') (h' : Unsensed s' s'') : Unsensed s s'' := by
  obtain ⟨l, h_log, h_l⟩ := h.log
  obtain ⟨l', h_log', h_l'⟩ := h'.log
  refine ⟨h'.sensors.trans h.sensors, h'.triggered.trans h.triggered, h'.dirty.trans h.dirty,
    h'.waiting.trans h.waiting, l ++ l', ?_, fun x h_x => ?_⟩
  · rw [h_log', h_log, List.append_assoc]
  · rcases List.mem_append.mp h_x with h_x | h_x
    · exact h_l x h_x
    · exact h_l' x h_x

/-- Something else than an event goes into the log, at most. -/
theorem Unsensed.emit (h : Unsensed s s') {e : TrainLog} (h_e : ¬e.IsEvent) :
    Unsensed s (s'.emit e) := by
  refine h.trans ⟨rfl, rfl, rfl, rfl, [e], rfl, fun x h_x => ?_⟩
  obtain rfl := List.mem_singleton.mp h_x
  exact h_e

theorem unsensed_of_eq (h_sensors : s'.sensors = s.sensors)
    (h_triggered : s'.event.sensors = s.event.sensors) (h_dirty : s'.sensorDirty = s.sensorDirty)
    (h_waiting : s'.sensorWaiting = s.sensorWaiting) (h_log : s'.log = s.log) : Unsensed s s' :=
  ⟨h_sensors, h_triggered, h_dirty, h_waiting, [], by rw [h_log, List.append_nil],
    fun x h_x => by cases h_x⟩

theorem buildTask_unsensed {a b : UInt8} {len : ℕ} {task : Slot}
    (h : s.buildTask time a b len = .ok (task, s')) :
    Unsensed s s' := by
  unfold buildTask at h
  split at h
  · cases h
  · obtain ⟨-, rfl⟩ := Prod.mk.inj (Except.ok.inj h)
    exact unsensed_of_eq rfl rfl rfl rfl rfl

theorem heapAdd_unsensed (s : TrainServer) (task : Slot) : Unsensed s (s.heapAdd task) := by
  have h_heap : Unsensed s { s with heap := s.heap.heapAdd s.timeOf task } :=
    unsensed_of_eq rfl rfl rfl rfl rfl
  exact h_heap.emit id

theorem schedule_unsensed {a b : UInt8} {len : ℕ} (h : s.schedule time a b len = .ok s') :
    Unsensed s s' := by
  obtain ⟨⟨task, s₁⟩, h_build, h⟩ := of_bind_ok h
  obtain rfl := Except.ok.inj h
  exact (buildTask_unsensed h_build).trans (heapAdd_unsensed s₁ task)

theorem scheduleSwitch_unsensed {sw data : Int} (h : s.scheduleSwitch time sw data = .ok s') :
    Unsensed s s' := by
  obtain ⟨⟨task, s₁⟩, h_build, h⟩ := of_bind_ok h
  obtain rfl := Except.ok.inj h
  refine Unsensed.trans ?_ (heapAdd_unsensed _ task)
  exact (buildTask_unsensed h_build).trans (unsensed_of_eq rfl rfl rfl rfl rfl)

theorem switchPartner_unsensed {sw data : Int} {r : Int}
    (h : s.switchPartner sw data time = .ok (s', r)) :
    Unsensed s s' := by
  unfold switchPartner at h
  split at h
  · obtain ⟨s₁, h_schedule, h⟩ := of_bind_ok h
    obtain ⟨rfl, -⟩ := Prod.mk.inj (Except.ok.inj h)
    exact scheduleSwitch_unsensed h_schedule
  · obtain ⟨rfl, -⟩ := Prod.mk.inj (Except.ok.inj h)
    exact unsensed_of_eq rfl rfl rfl rfl rfl

theorem recordBranch_unsensed {top : TrainTask} (h : s.recordBranch top = .ok s') :
    Unsensed s s' := by
  unfold recordBranch at h
  split at h
  · obtain rfl := Except.ok.inj h
    exact unsensed_of_eq rfl rfl rfl rfl rfl
  · split at h
    · split at h
      · obtain rfl := Except.ok.inj h
        exact unsensed_of_eq rfl rfl rfl rfl rfl
      · cases h
    · split at h
      · obtain rfl := Except.ok.inj h
        exact unsensed_of_eq rfl rfl rfl rfl rfl
      · cases h

/-- A poll of the command worker has no part in the readings, nor in who waits for them. -/
theorem worker_unsensed {trackKnown : Bool} (h : s.worker client time trackKnown = .ok s') :
    Unsensed s s' := by
  have h_reply : ∀ res : TrainReply, (∀ e, res ≠ .event e) → Unsensed s (s.reply client res) := by
    intro res h_res
    refine (unsensed_of_eq rfl rfl rfl rfl rfl).emit fun h_event => ?_
    cases res with
    | event e => exact h_res e rfl
    | done | workerSensor | worker => exact h_event
  unfold worker at h
  -- the first task is due, or it is not, or there is none
  split at h
  · split at h
    · obtain ⟨s₁, h_record, h⟩ := of_bind_ok h
      obtain rfl := Except.ok.inj h
      refine Unsensed.emit ?_ id
      exact (recordBranch_unsensed h_record).trans (unsensed_of_eq rfl rfl rfl rfl rfl)
    · split at h
      · obtain rfl := Except.ok.inj h
        exact h_reply _ nofun
      · obtain rfl := Except.ok.inj h
        exact h_reply _ nofun
  · split at h
    · obtain rfl := Except.ok.inj h
      exact h_reply _ nofun
    · obtain rfl := Except.ok.inj h
      exact h_reply _ nofun

/-- A message that is neither a report nor a request for a sensor event leaves the readings, the
event and the waiting task alone. -/
theorem handle_unsensed {req : TrainRequest} (h : s.handle client req = .ok s')
    (h_poll : ∀ readings time, req ≠ .workerSensor readings time) (h_ask : req ≠ .sensorEvent) :
    Unsensed s s' := by
  cases req with
  | worker time trackKnown => exact worker_unsensed h
  | workerSensor readings time => exact absurd rfl (h_poll readings time)
  | sensorEvent => exact absurd rfl h_ask
  | branchEvent =>
    obtain rfl := Except.ok.inj h
    exact unsensed_of_eq rfl rfl rfl rfl rfl
  | speed target data time =>
    obtain ⟨s₁, h_schedule, h⟩ := of_bind_ok h
    obtain rfl := Except.ok.inj h
    exact (schedule_unsensed h_schedule).emit id
  | reverse target data time =>
    -- the train stops, turns and starts again
    obtain ⟨s₁, h_first, h⟩ := of_bind_ok h
    obtain ⟨s₂, h_second, h⟩ := of_bind_ok h
    obtain ⟨s₃, h_third, h⟩ := of_bind_ok h
    obtain rfl := Except.ok.inj h
    exact ((schedule_unsensed h_first).trans
      ((schedule_unsensed h_second).trans (schedule_unsensed h_third))).emit id
  | switch target data time =>
    -- the switch, its other half, and the command that ends both
    obtain ⟨s₁, h_first, h⟩ := of_bind_ok h
    obtain ⟨⟨s₂, t⟩, h_second, h⟩ := of_bind_ok h
    obtain ⟨s₃, h_third, h⟩ := of_bind_ok h
    obtain rfl := Except.ok.inj h
    exact ((scheduleSwitch_unsensed h_first).trans
      ((switchPartner_unsensed h_second).trans (schedule_unsensed h_third))).emit id

/-! ### What the end of the loop body does -/

/-- The end of the loop body: whoever waits for a sensor event is told the edges, if there are
any. -/
inductive Flushed (s s' : TrainServer) : Prop
  | told {c : ℕ} {l : List TrainLog} (h_waiting : s.sensorWaiting = some c)
      (h_dirty : s.sensorDirty = true) (h_log : s'.log = s.log ++ .reply c (.event s.event) :: l)
    (h_sensors : s'.sensors = s.sensors)
      (h_none : s'.sensorWaiting = none) (h_clean : s'.sensorDirty = false)
      (h_triggered : s'.event.sensors = fun _ => 0)
  | quiet (h_idle : s.sensorWaiting = none ∨ s.sensorDirty = false)
      (h_sensors : s'.sensors = s.sensors) (h_waiting : s'.sensorWaiting = s.sensorWaiting)
      (h_dirty : s'.sensorDirty = s.sensorDirty)
      (h_triggered : s'.event.sensors = s.event.sensors)

/-- The first half of `flush`. -/
def flushSensors (s : TrainServer) : TrainServer :=
  match s.sensorWaiting with
  | some client =>
    if s.sensorDirty then
      { s.reply client (.event s.event) with
        sensorWaiting := none
        sensorDirty := false
        event := { s.event with sensors := fun _ => 0 } }
    else s
  | none => s

/-- The second half of `flush`. -/
def flushBranches (s : TrainServer) : TrainServer :=
  match s.branchWaiting with
  | some client =>
    if s.branchDirty then
      { s.reply client (.event s.event) with branchWaiting := none, branchDirty := false }
    else s
  | none => s

theorem flush_eq (s : TrainServer) : s.flush = s.flushSensors.flushBranches := rfl

/-- The answer to a task that waits for a switch leaves the sensors alone. -/
theorem flushBranches_eq (s : TrainServer) : ∃ l waiting dirty,
    s.flushBranches =
      { s with branchWaiting := waiting, branchDirty := dirty, log := s.log ++ l } := by
  have h_self : ∃ l waiting dirty,
      s = { s with branchWaiting := waiting, branchDirty := dirty, log := s.log ++ l } :=
    ⟨[], s.branchWaiting, s.branchDirty, by rw [List.append_nil]⟩
  unfold flushBranches
  split
  · split
    · exact ⟨_, _, _, rfl⟩
    · exact h_self
  · exact h_self

theorem flush_flushed (s : TrainServer) : Flushed s s.flush := by
  obtain ⟨l, waiting, dirty, h_eq⟩ := flushBranches_eq s.flushSensors
  -- the second half is out of the way
  rw [flush_eq, h_eq]
  unfold flushSensors
  cases h_waiting : s.sensorWaiting with
  | none => exact .quiet (.inl h_waiting) rfl rfl rfl rfl
  | some c =>
    dsimp only
    cases h_dirty : s.sensorDirty with
    | false =>
      rw [if_neg Bool.false_ne_true]
      exact .quiet (.inr h_dirty) rfl rfl rfl rfl
    | true =>
      rw [if_pos rfl]
      exact .told (l := l) h_waiting h_dirty (List.append_assoc _ _ _) rfl rfl rfl rfl

end TrainServer

/-! ### Runs -/

/-- What the server keeps are the last readings, the edges that nobody has been told, and whether
there are any. The edges are those of all the polls since the last event; a sensor that goes off and
on again is one of them once. -/
structure Heard (s : TrainServer) (polls : List Readings) : Prop where
  last : polls.getLast? = some s.sensors
  edges : ∀ i b, On s.event.sensors i b ↔ Rises (On · i b) polls
  dirty : s.sensorDirty = true ↔ ∃ i, s.event.sensors i ≠ 0

/-- Between two messages, whoever waits has been told everything: the end of the loop body answers
the task that waits as soon as there is an edge. -/
structure Watched (w : Watch) : Prop where
  heard : Heard w.server w.polls
  waiting : w.server.sensorWaiting ≠ none → w.server.sensorDirty = false

section
variable {s s' s₁ : TrainServer} {polls : List Readings} {m : TrainMessage} {w w' : Watch}

theorem Heard.congr (h : Heard s polls) (h_sensors : s'.sensors = s.sensors)
    (h_triggered : s'.event.sensors = s.event.sensors) (h_dirty : s'.sensorDirty = s.sensorDirty) :
    Heard s' polls := by
  obtain ⟨h_last, h_edges, h_iff⟩ := h
  refine ⟨?_, fun i b => ?_, ?_⟩
  · rw [h_sensors, h_last]
  · rw [h_triggered, h_edges]
  · rw [h_dirty, h_triggered, h_iff]

/-- A report adds its edges. -/
theorem Heard.workerSensor (h : Heard s polls) (client : ℕ) (readings : Readings) (time : Int) :
    Heard (s.workerSensor client readings time) (polls ++ [readings]) where
  last := List.getLast?_concat
  edges i b := by
    rw [rises_snoc h.last, ← h.edges]
    exact on_triggered _ _ _ i b
  dirty := by
    change
      (s.sensorDirty || decide (∃ i, s.event.sensors i ||| readings i &&& ~~~s.sensors i ≠ 0)) =
        true ↔
      ∃ i, s.event.sensors i ||| readings i &&& ~~~s.sensors i ≠ 0
    rw [Bool.or_eq_true, decide_eq_true_iff, h.dirty, or_iff_right_iff_imp]
    -- a bit that is set stays set
    rintro ⟨i, h_i⟩
    obtain ⟨b, h_b⟩ := (ne_zero_iff _).mp h_i
    exact ⟨i, (ne_zero_iff _).mpr ⟨b, (on_triggered _ _ _ i b).mpr (.inl h_b)⟩⟩

/-- What a message does before the end of the loop body: the readings of a report are joined to the
event, a request for an event waits, and nobody is told of an event yet. -/
theorem Heard.handle (h : Heard s polls) (h_handle : s.handle m.client m.req = .ok s₁) :
    Heard s₁ (Train.heard polls m.req) ∧ s₁.sensorWaiting = waitsFor s m ∧
      ∃ l, s₁.log = s.log ++ l ∧ ∀ x ∈ l, ¬x.IsEvent := by
  obtain ⟨client, req⟩ := m
  -- what is neither a report nor a request for a sensor event
  have h_other : (∀ readings time, req ≠ .workerSensor readings time) → req ≠ .sensorEvent →
      Heard s₁ polls ∧ s₁.sensorWaiting = s.sensorWaiting ∧ ∃ l, s₁.log = s.log ++ l ∧ ∀ x ∈ l,
        ¬x.IsEvent := by
    intro h_poll h_ask
    have h_same := TrainServer.handle_unsensed h_handle h_poll h_ask
    exact ⟨h.congr h_same.sensors h_same.triggered h_same.dirty, h_same.waiting, h_same.log⟩
  cases req with
  | workerSensor readings time =>
    obtain rfl := Except.ok.inj h_handle
    refine ⟨h.workerSensor client readings time, rfl, [.reply client .done], rfl, fun x h_x => ?_⟩
    obtain rfl := List.mem_singleton.mp h_x
    exact id
  | sensorEvent =>
    obtain rfl := Except.ok.inj h_handle
    exact ⟨h.congr rfl rfl rfl, rfl, [], (List.append_nil _).symm, fun x h_x => by cases h_x⟩
  | worker _ _ => exact h_other nofun nofun
  | branchEvent => exact h_other nofun nofun
  | speed _ _ _ => exact h_other nofun nofun
  | reverse _ _ _ => exact h_other nofun nofun
  | switch _ _ _ => exact h_other nofun nofun

/-- The first event of a log is told by where it is. -/
theorem first_event {l₁ l₂ t₁ t₂ : List TrainLog} {x₁ x₂ : TrainLog}
    (h_eq : l₁ ++ x₁ :: t₁ = l₂ ++ x₂ :: t₂) (h₁ : x₁.IsEvent) (h₂ : x₂.IsEvent)
    (h_l₁ : ∀ x ∈ l₁, ¬x.IsEvent) (h_l₂ : ∀ x ∈ l₂, ¬x.IsEvent) : x₁ = x₂ := by
  -- by induction on both fronts; if one ends before the other, an event is in the other
  induction l₁ generalizing l₂ with
  | nil =>
    cases l₂ with
    | nil => exact (List.cons.inj h_eq).1
    | cons y l₂ =>
      obtain ⟨rfl, -⟩ := List.cons.inj h_eq
      exact absurd h₁ (h_l₂ _ List.mem_cons_self)
  | cons y l₁ ih =>
    cases l₂ with
    | nil =>
      obtain ⟨rfl, -⟩ := List.cons.inj h_eq
      exact absurd h₂ (h_l₁ _ List.mem_cons_self)
    | cons z l₂ =>
      exact ih (List.cons.inj h_eq).2 (fun x h_x => h_l₁ x (List.mem_cons_of_mem _ h_x))
        fun x h_x => h_l₂ x (List.mem_cons_of_mem _ h_x)

/-- **One message**: who is told an event is told the edges, and nobody who waits is not told. The
branch of the message comes first, and then the end of the loop body, which either tells the event
and forgets the edges or leaves everything as it is. -/
theorem Watched.step (h : Watched w) (h_step : watchSystem.step w m w') : Watched w' ∧
    ∀ c e, Delivers w.server m w'.server c e →
      (∀ i b, On e.sensors i b ↔ Rises (On · i b) (Train.heard w.polls m.req)) ∧ ∃ i b,
        On e.sensors i b := by
  obtain ⟨h_ok, h_polls⟩ := h_step
  obtain ⟨s₁, h_handle, h_flush⟩ := of_bind_ok h_ok
  have h_flush : s₁.flush = w'.server := Except.ok.inj h_flush
  obtain ⟨h_heard, h_waits, l, h_log, h_l⟩ := h.heard.handle h_handle
  have h_flushed := TrainServer.flush_flushed s₁
  rw [h_flush] at h_flushed
  cases h_flushed with
  | @told c l' h_waiting h_dirty h_log' h_sensors h_none h_clean h_triggered =>
    have h_delivers : Delivers w.server m w'.server c s₁.event :=
      ⟨h_waits.symm.trans h_waiting, h_none, l, l', by rw [h_log', h_log], h_l⟩
    refine ⟨⟨⟨?_, fun i b => ?_, ?_⟩, fun _ => h_clean⟩, ?_⟩
    · obtain ⟨-, h_polls⟩ | ⟨h_not, -⟩ := h_polls
      · rw [h_polls, h_heard.last, h_sensors]
        rfl
      · exact absurd ⟨c, _, h_delivers⟩ h_not
    · -- nothing is left to be told
      obtain ⟨-, h_polls⟩ | ⟨h_not, -⟩ := h_polls
      · rw [h_polls, h_heard.last, h_triggered]
        refine iff_of_false (fun h_on => ?_) (not_rises_singleton _ _)
        exact (ne_zero_iff 0).mpr ⟨b, h_on⟩ rfl
      · exact absurd ⟨c, _, h_delivers⟩ h_not
    · rw [h_clean, h_triggered]
      exact iff_of_false Bool.false_ne_true fun ⟨_, h_i⟩ => h_i rfl
    · -- there is one event in what has been added to the log
      rintro c' e ⟨-, -, l₁, l₁', h_log₁, h_l₁⟩
      have h_first : TrainLog.reply c (.event s₁.event) = TrainLog.reply c' (.event e) := by
        rw [h_log', h_log, List.append_assoc, List.append_assoc] at h_log₁
        exact first_event (List.append_cancel_left h_log₁) trivial trivial h_l h_l₁
      obtain ⟨-, h_e⟩ := TrainLog.reply.inj h_first
      obtain rfl := TrainReply.event.inj h_e
      refine ⟨h_heard.edges, ?_⟩
      -- the server is dirty, so some bit is set
      obtain ⟨i, h_i⟩ := h_heard.dirty.mp h_dirty
      obtain ⟨b, h_b⟩ := (ne_zero_iff _).mp h_i
      exact ⟨i, b, h_b⟩
  | quiet h_idle h_sensors h_waiting h_dirty h_triggered =>
    -- whoever waits goes on waiting, so nobody has been told
    have h_not : ¬∃ c e, Delivers w.server m w'.server c e := by
      rintro ⟨c, e, h_c, h_none, -⟩
      rw [h_waiting, h_waits, h_c] at h_none
      cases h_none
    obtain ⟨h_some, -⟩ | ⟨-, h_polls⟩ := h_polls
    · exact absurd h_some h_not
    · refine ⟨⟨?_, fun h_some => ?_⟩, fun c e h_delivers => absurd ⟨c, e, h_delivers⟩ h_not⟩
      · rw [h_polls]
        exact h_heard.congr h_sensors h_triggered h_dirty
      · rw [h_waiting] at h_some
        rw [h_dirty]
        exact h_idle.resolve_left h_some

theorem watched_start : Watched ⟨.start, [fun _ => 0]⟩ where
  heard := by
    refine ⟨rfl, fun i b => ?_, ?_⟩
    · exact iff_of_false (fun h_on => (ne_zero_iff 0).mpr ⟨b, h_on⟩ rfl) (not_rises_singleton _ _)
    · exact iff_of_false Bool.false_ne_true fun ⟨_, h_i⟩ => h_i rfl
  waiting _ := rfl

theorem watched_of_reachable (h : watchSystem.Reachable w) : Watched w := by
  refine h.invariant ?_ fun _ _ _ h h_step => (h.step h_step).1
  rintro ⟨server, polls⟩ ⟨rfl, rfl⟩
  exact watched_start

end

/-- **No edge is lost, and none is made up**: in every run, an event that is told has just the
sensors that went on between two reports since the last one was told, one at least; and while
somebody waits, there is no edge that has not been told.

`Watch` keeps the reports since the last answer beside the server. `Watched` is the invariant: the
event holds the edges of these reports, and is dirty just if there is one; `flush` tells it as soon
as somebody waits. -/
theorem sensor_edges {w w' : Watch} {m : TrainMessage} (h : watchSystem.Reachable w)
    (h_step : watchSystem.step w m w') :
    (∀ c e, Delivers w.server m w'.server c e →
      (∀ i b, On e.sensors i b ↔ Rises (On · i b) (heard w.polls m.req)) ∧ ∃ i b,
        On e.sensors i b) ∧
    (w'.server.sensorWaiting ≠ none → ∀ i b, ¬Rises (On · i b) w'.polls) := by
  obtain ⟨h_watched, h_told⟩ := (watched_of_reachable h).step h_step
  refine ⟨h_told, fun h_waits i b h_rises => ?_⟩
  -- an edge makes the server dirty, and then nobody waits any more
  have h_on := (h_watched.heard.edges i b).mpr h_rises
  have h_dirty := h_watched.heard.dirty.mpr ⟨i, (ne_zero_iff _).mpr ⟨b, h_on⟩⟩
  rw [h_watched.waiting h_waits] at h_dirty
  cases h_dirty

/-- A task asks, and is told of a sensor that goes on. -/
theorem sensor_edges_told : ∃ w w' : Watch, watchSystem.Reachable w ∧ ∃ e,
    Delivers w.server ⟨0, .workerSensor (fun _ => 8) 0⟩ w'.server 5 e ∧ On e.sensors 9 3 ∧
      Rises (On · 9 3)
      (heard w.polls (.workerSensor (fun _ => 8) 0)) := by
  let asked : Watch := ⟨{ TrainServer.start with sensorWaiting := some 5 }, [fun _ => 0]⟩
  let told : TrainServer := (asked.server.workerSensor 0 (fun _ => 8) 0).flush
  have h_asked : watchSystem.step ⟨.start, [fun _ => 0]⟩ ⟨5, .sensorEvent⟩ asked := by
    refine ⟨rfl, .inr ⟨?_, rfl⟩⟩
    rintro ⟨c, e, -, h_none, -⟩
    cases h_none
  have h_reach : watchSystem.Reachable asked := ⟨_, .next (.start ⟨rfl, rfl⟩) trivial h_asked⟩
  have h_told : Delivers asked.server ⟨0, .workerSensor (fun _ => 8) 0⟩ told 5
      (asked.server.workerSensor 0 (fun _ => 8) 0).event := by
    have h_dirty : (asked.server.workerSensor 0 (fun _ => 8) 0).sensorDirty = true := by decide
    cases TrainServer.flush_flushed (asked.server.workerSensor 0 (fun _ => 8) 0) with
    | @told c l h_waiting _ h_log _ h_none _ _ =>
      obtain rfl : 5 = c := Option.some.inj h_waiting
      exact ⟨rfl, h_none, [.reply 0 .done], l, h_log, by simp [TrainLog.IsEvent]⟩
    | quiet h_idle =>
      rcases h_idle with h_none | h_clean
      · cases h_none
      · rw [h_dirty] at h_clean
        cases h_clean
  have h_step : watchSystem.step asked ⟨0, .workerSensor (fun _ => 8) 0⟩ ⟨told, [fun _ => 8]⟩ :=
    ⟨rfl, .inl ⟨⟨_, _, h_told⟩, rfl⟩⟩
  have h_on : On (asked.server.workerSensor 0 (fun _ => 8) 0).event.sensors 9 3 := by decide
  exact ⟨asked, ⟨told, [fun _ => 8]⟩, h_reach, _, h_told, h_on,
    (((sensor_edges h_reach h_step).1 _ _ h_told).1 9 3).mp h_on⟩

end Train
end PollingExpress
