import PollingExpress.Nav.Cut
import PollingExpress.Nav.World

/-!
# The workers and the server agree

For each train (`Cell`): a worker is parked exactly if it waits for the answer to its
call for work; while the pathfind worker searches the train is PATHFINDING, and while
the straightpath worker drives it is STRAIGHTPATHING, on the path the server thinks it
is on; there are tasks in the queue only while the train is STRAIGHTPATHING, and then
the straightpath worker is not parked.

`Cell.step` is the step lemma, one case for each thing a message of the train can do; a
message does nothing to the cells of the other trains.
-/

namespace PollingExpress

open Ownership

namespace Nav

/-! ### Who hears what -/

@[simp] theorem heardBy_nil (c : NavTask) : heardBy c [] = [] := rfl

@[simp] theorem heardBy_append (c : NavTask) (es es' : List NavEvent) :
    heardBy c (es ++ es') = heardBy c es ++ heardBy c es' := List.filterMap_append

theorem heardBy_reply (c : NavTask) (client : Option NavTask) (res : NavResponse)
    (es : List NavEvent) : heardBy c (.reply client res :: es) =
      if client = some c then res :: heardBy c es else heardBy c es := by
  by_cases h : client = some c <;> simp [heardBy, h]

@[simp] theorem heardBy_reply_self (c : NavTask) (res : NavResponse) (es : List NavEvent) :
    heardBy c (.reply (some c) res :: es) = res :: heardBy c es := by
  rw [heardBy_reply, if_pos rfl]

theorem heardBy_reply_ne {c : NavTask} {client : Option NavTask} (h : client ≠ some c)
    (res : NavResponse) (es : List NavEvent) :
    heardBy c (.reply client res :: es) = heardBy c es := by
  rw [heardBy_reply, if_neg h]

@[simp] theorem heardBy_hardReverse (c : NavTask) (t : TrainNum) (es : List NavEvent) :
    heardBy c (.hardReverse t :: es) = heardBy c es := rfl

@[simp] theorem heardBy_nextTask (c : NavTask) (t : TrainNum) (tasks : List NavigationTask)
    (worker : Option NavTask) (es : List NavEvent) :
    heardBy c (.nextTask t tasks worker :: es) = heardBy c es := rfl

/-- One of the tasks that are not workers. -/
def NavTask.IsOther (c : NavTask) : Prop := ∃ n, c = .other n

/-! ### The printers -/

/-- `fl` are the answers to the printers; `a` and `b` say which of them are answered. Who has been
answered is no longer recorded. -/
structure Printed (s s' : NavServer) (a b : Bool) (fl : List NavEvent) : Prop where
  reservationClient : s'.reservationClient = if a then none else s.reservationClient
  trainstatePrintClient : s'.trainstatePrintClient = if b then none else s.trainstatePrintClient
  answers : ∃ res res', fl = (if a then [.reply s.reservationClient res] else []) ++
    if b then [.reply s.trainstatePrintClient res'] else []

/-- What the end of the loop body does: it answers the printers, and the trains, the table of
reservations and what has been noted so far stay as they are. -/
structure Flushed (s s' : NavServer) (a b : Bool) (fl : List NavEvent) : Prop
    extends Printed s s' a b fl where
  desk : s'.desk = s.desk
  table : s'.reservedNodes = s.reservedNodes
  log : s'.log = s.log ++ fl

theorem Flushed.refl (s : NavServer) : Flushed s s false false [] where
  desk := rfl
  table := rfl
  log := (List.append_nil _).symm
  reservationClient := rfl
  trainstatePrintClient := rfl
  answers := ⟨.good, .good, rfl⟩

theorem flush_flushed (s : NavServer) : ∃ a b fl, Flushed s s.flush a b fl := by
  unfold NavServer.flush
  dsimp only
  by_cases h_a : s.reservationClient ≠ none ∧ s.reservationDirty = true
  · rw [if_pos h_a]
    split
    · exact ⟨true, true, _, ⟨rfl, rfl, _, _, rfl⟩, rfl, rfl, List.append_assoc _ _ _⟩
    · exact ⟨true, false, _, ⟨rfl, rfl, _, .good, rfl⟩, rfl, rfl, rfl⟩
  · rw [if_neg h_a]
    split
    · exact ⟨false, true, _, ⟨rfl, rfl, .good, _, rfl⟩, rfl, rfl, rfl⟩
    · exact ⟨false, false, _, .refl s⟩

theorem Handled.flushed {s s' : NavServer} {t : TrainNum} {d : Desk} {f : Table}
    {es : List NavEvent} (h : Handled s s' t d f es) :
    ∃ s₁ a b fl, Acts s s₁ t d f es ∧ Flushed s₁ s' a b fl := by
  obtain ⟨s₁, h_acts, rfl | rfl⟩ := h
  · exact ⟨s', false, false, [], h_acts, .refl s'⟩
  · obtain ⟨a, b, fl, h_fl⟩ := flush_flushed s₁
    exact ⟨s₁, a, b, fl, h_acts, h_fl⟩

/-- Only the printers are answered. -/
theorem Printed.heardBy {s s' : NavServer} {a b : Bool} {fl : List NavEvent}
    (h : Printed s s' a b fl) {c : NavTask} (h_a : s.reservationClient ≠ some c)
    (h_b : s.trainstatePrintClient ≠ some c) : heardBy c fl = [] := by
  obtain ⟨res, res', rfl⟩ := h.answers
  cases a <;> cases b <;> simp [heardBy_reply, h_a, h_b]

/-! ### The invariant -/

/-- The workers of `t`, and what the server knows of the train. A worker that is parked is recorded,
and only then; one that searches or drives does so for the train as the server has it; and there is
something in the queue only while the train is on its way, and then its worker is not parked. -/
structure Cell (t : TrainNum) (d : Desk) (p q : NavTaskState) : Prop where
  pathfinder : d.pathfinder = none ∧ p.waiting = none ∨ d.pathfinder = some (.pathfindWorker t) ∧
    p.waiting = some (.pathfindWorker t) ∧ p.phase = .calling
  driver : d.driver = none ∧ q.waiting = none ∨ d.driver = some (.straightpathWorker t) ∧
    q.waiting = some (.straightpathWorker t) ∧ q.phase = .calling
  searching : ∀ source destination, p.phase = .searching source destination →
    d.state = .pathfinding ∧ d.search.isValid = false
  driving : ∀ path ahead, q.phase = .driving path ahead →
    d.state = .straightpathing ∧ d.curTask.path = path
  valid : d.search.isValid = true → d.state = .pathfinding
  queue_empty : d.state ≠ .straightpathing → d.tasks.items = []
  handed : d.state = .straightpathing → d.tasks.items ≠ [] → d.driver = none
  capacity : d.tasks.capacity = some maxNavigationTasks
  client_other : ∀ c, d.client = some c → c.IsOther

/-- What holds in every reachable world. A node and its reverse are reserved for the same train; the
printers are tasks that are no workers; and every train is in its cell. -/
structure Coupled (T : Track) (w : NavWorld) : Prop where
  symmetric : Symmetric T.reverse w.server.reservedNodes
  reservation_other : ∀ c, w.server.reservationClient = some c → c.IsOther
  trainstate_other : ∀ c, w.server.trainstatePrintClient = some c → c.IsOther
  cells :
    ∀ t, Cell t (w.server.desk t) (w.tasks (.pathfindWorker t)) (w.tasks (.straightpathWorker t))

/-! ### The sender -/

section Sender

variable {T : Track} {c : NavTask} {phase : NavPhase}

theorem Calls.pathfindWorker {t : TrainNum} (h : Calls T c phase (.pathfindWorker t)) :
    c = .pathfindWorker t ∧ phase = .calling := by
  unfold Calls at h
  split at h <;> simp_all

theorem Calls.pathfindWorkerDone {t : TrainNum} {result : PathfindResult} {path : RoutePath}
    (h : Calls T c phase (.pathfindWorkerDone t result path)) : c = .pathfindWorker t ∧
      ∃ source destination, phase = .searching source destination ∧
        Reported T source destination result path := by
  unfold Calls at h
  split at h <;> simp_all

theorem Calls.straightpathWorker {t : TrainNum} (h : Calls T c phase (.straightpathWorker t)) :
    c = .straightpathWorker t ∧ phase = .calling := by
  unfold Calls at h
  split at h <;> simp_all

theorem Calls.straightpathWorkerDone {t : TrainNum}
    (h : Calls T c phase (.straightpathWorkerDone t)) :
    c = .straightpathWorker t ∧ ∃ path ahead, phase = .driving path ahead := by
  unfold Calls at h
  split at h <;> simp_all

theorem Calls.isOther {req : NavRequest} (h : Calls T c phase req)
    (h_req : match req with
      | .navigationRequest _ _ _ _ | .getReservations | .getTrainState | .registerLocation _ _
      | .attributionCourier _ => True
      | _ => False) : c.IsOther := by
  unfold Calls at h
  split at h <;> first | exact h_req.elim | exact ⟨_, rfl⟩ | exact h.elim

end Sender

/-! ### One step of a train -/

/-- The task after it has sent the message, if it is the sender. -/
def NavTaskState.sends (x : NavTaskState) (b : Prop) [Decidable b] (req : NavRequest) :
    NavTaskState :=
  if b then { x with waiting := some req } else x

/-- An answer without work sends a worker back to its loop. -/
theorem NavTaskState.hear_good (x : NavTaskState) : x.hear .good = ⟨.calling, none⟩ := by
  unfold hear
  congr 1
  split
  · next h => cases h
  · next h => cases h
  · rfl

theorem NavTaskState.hear_whoami (x : NavTaskState) (t : TrainNum) :
    x.hear (.whoami t) = ⟨.calling, none⟩ := by
  unfold hear
  congr 1
  split
  · next h => cases h
  · next h => cases h
  · rfl

theorem NavTaskState.sends_pos {b : Prop} [Decidable b] (h : b) (x : NavTaskState)
    (req : NavRequest) : x.sends b req = { x with waiting := some req } := if_pos h

theorem NavTaskState.sends_neg {b : Prop} [Decidable b] (h : ¬b) (x : NavTaskState)
    (req : NavRequest) : x.sends b req = x := if_neg h

section Step

variable {T : Track} {t : TrainNum} {client : NavTask} {d d' : Desk} {p q : NavTaskState}
  {f f' : Table} {req : NavRequest} {es : List NavEvent}

theorem heardBy_client {c : NavTask} {client : Option NavTask} (h_c : ¬c.IsOther)
    (h : ∀ c, client = some c → c.IsOther) (res : NavResponse) (es : List NavEvent) :
    heardBy c (.reply client res :: es) = heardBy c es :=
  heardBy_reply_ne (fun h_eq => h_c (h c h_eq)) res es

theorem heardBy_answers {c : NavTask} (h_c : ¬c.IsOther) (h : ∀ c, d.client = some c → c.IsOther) :
    heardBy c d.answers = [] := by
  unfold Desk.answers
  split
  · exact heardBy_client h_c h _ _
  · rfl

theorem heardBy_finishAnswers {c : NavTask} (h_c : ¬c.IsOther)
    (h : ∀ c, d.client = some c → c.IsOther) : heardBy c d.finishAnswers = [] := by
  unfold Desk.finishAnswers
  split
  · exact heardBy_client h_c h _ _
  · rfl

theorem not_isOther_pathfindWorker : ¬(NavTask.pathfindWorker t).IsOther := fun ⟨_, h⟩ => by cases h

theorem not_isOther_straightpathWorker : ¬(NavTask.straightpathWorker t).IsOther :=
  fun ⟨_, h⟩ => by cases h

/-- The desk on the way to a straight path. -/
theorem Approach.desk {d₁ : Desk} {task : StraightpathTask} (h : Approach T t d d₁ es task) :
    d₁.pathfinder = d.pathfinder ∧ d₁.driver = d.driver ∧ d₁.search = d.search ∧
      d₁.state = d.state ∧ d₁.client = d.client ∧ d₁.tasks.capacity = d.tasks.capacity ∧
      (∀ c, heardBy c es = []) := by
  cases h with
  | straight h => exact ⟨rfl, rfl, rfl, rfl, rfl, Fifo.capacity_of_pop h, fun _ => rfl⟩
  | turned h _ h' =>
    exact ⟨rfl, rfl, rfl, rfl, rfl, (Fifo.capacity_of_pop h').trans (Fifo.capacity_of_pop h),
      fun _ => rfl⟩

/-- The parked straightpath worker gets a path, or stays parked and the train is no longer
STRAIGHTPATHING. -/
theorem NextTask.cell (h : NextTask T t d f es d' f')
    (h_driver : d.driver = some (.straightpathWorker t))
    (h_q : q.waiting = some (.straightpathWorker t) ∧ q.phase = .calling)
    (h_pathfinder : d.pathfinder = none ∧ p.waiting = none ∨
      d.pathfinder = some (.pathfindWorker t) ∧ p.waiting = some (.pathfindWorker t) ∧
        p.phase = .calling)
    (h_p : ∀ source destination, p.phase ≠ .searching source destination)
    (h_state : d.state = .straightpathing) (h_valid : d.search.isValid = false)
    (h_capacity : d.tasks.capacity = some maxNavigationTasks)
    (h_client : ∀ c, d.client = some c → c.IsOther) :
    heardBy (.pathfindWorker t) es = [] ∧
      Cell t d' p ((heardBy (.straightpathWorker t) es).foldl NavTaskState.hear q) := by
  have h_calling : ∀ path ahead, q.phase ≠ .driving path ahead := by
    intro path ahead h_eq
    rw [h_q.2] at h_eq
    cases h_eq
  cases h with
  -- the path is reserved: the driver is given it and is not parked any more
  | @drive d₁ es task last offset h_app h_can h_last h_offset =>
    obtain ⟨h_pf, h_dr, h_se, h_st, h_cl, h_cap, h_quiet⟩ := h_app.desk
    refine ⟨?_, ?_⟩
    · rw [heardBy_append, h_quiet, h_dr, h_driver]
      simp [heardBy_reply]
    · rw [heardBy_append, h_quiet, h_dr, h_driver, heardBy_reply_self]
      have h_heard : ([] ++ NavResponse.straightpathHeresWork task.path (task.pathDist - offset)
          (if task.isStartupTask then 0 else 30) :: heardBy (.straightpathWorker t) []).foldl
            NavTaskState.hear q = ⟨.driving task.path task.path, none⟩ := by
        simp [NavTaskState.hear, h_q.1]
      rw [h_heard]
      -- of the cell, only the driver's side and the state of the queue have changed
      exact {
        pathfinder := h_pf ▸ h_pathfinder
        driver := .inl ⟨rfl, rfl⟩
        searching := fun source destination h_s => absurd h_s (h_p source destination)
        driving := by
          rintro path ahead h_path
          cases h_path
          exact ⟨h_st.trans h_state, rfl⟩
        valid := fun h_v => by simp [h_se, h_valid] at h_v
        queue_empty := fun h_ne => absurd (h_st.trans h_state) h_ne
        handed := fun _ _ => rfl
        capacity := h_cap.trans h_capacity
        client_other := fun c h_c => h_client c (h_cl.symm.trans h_c) }
  -- the path is not free: the search starts again, with an empty queue
  | @blocked d₁ es task h_app h_not =>
    obtain ⟨h_pf, h_dr, h_se, h_st, h_cl, h_cap, h_quiet⟩ := h_app.desk
    refine ⟨h_quiet _, ?_⟩
    rw [h_quiet]
    exact {
      pathfinder := h_pf ▸ h_pathfinder
      driver := .inr ⟨h_dr.trans h_driver, h_q⟩
      searching := fun source destination h_s => absurd h_s (h_p source destination)
      driving := fun path ahead h_path => absurd h_path (h_calling path ahead)
      valid := fun _ => rfl
      queue_empty := fun _ => rfl
      handed := fun h_eq => by cases h_eq
      capacity := h_cap.trans h_capacity
      client_other := fun c h_c => h_client c (h_cl.symm.trans h_c) }
  -- only a reversal was left: the navigation is over, and nobody is given anything
  | @arrive n tasks h_pop h_n h_next =>
    have h_cap := Fifo.capacity_of_pop h_pop
    rw [heardBy_hardReverse, heardBy_hardReverse,
      heardBy_finishAnswers not_isOther_pathfindWorker h_client,
      heardBy_finishAnswers not_isOther_straightpathWorker h_client]
    refine ⟨rfl, ?_⟩
    exact {
      pathfinder := by rwa [Desk.finished_pathfinder]
      driver := .inr ⟨by rwa [Desk.finished_driver], h_q⟩
      searching := fun source destination h_s => absurd h_s (h_p source destination)
      driving := fun path ahead h_path => absurd h_path (h_calling path ahead)
      valid := fun h_v => by
        rw [Desk.finished_search] at h_v
        exact absurd (h_valid.symm.trans h_v) (by decide)
      queue_empty := fun _ => by
        rw [Desk.finished_tasks]
        exact Fifo.items_of_pop_none h_next
      handed := fun h_eq => by
        rw [Desk.finished_state] at h_eq
        cases h_eq
      capacity := by
        rw [Desk.finished_tasks]
        exact h_cap.trans h_capacity
      client_other := fun c h_c =>
        h_client c (@Desk.client_of_finished { d.turned T n with tasks } c h_c) }

theorem Cell.pathfinder_of_searching (h : Cell t d p q) {source destination : Option NodeNum}
    (h_phase : p.phase = .searching source destination) : d.pathfinder = none := by
  obtain h_none | ⟨-, -, h_calling⟩ := h.pathfinder
  · exact h_none.1
  · rw [h_phase] at h_calling
    cases h_calling

theorem Cell.driver_of_driving (h : Cell t d p q) {path ahead : List NodeNum}
    (h_phase : q.phase = .driving path ahead) : d.driver = none := by
  obtain h_none | ⟨-, -, h_calling⟩ := h.driver
  · exact h_none.1
  · rw [h_phase] at h_calling
    cases h_calling

/-! What the messages do to the cell of the train. -/

section Cells

variable {source destination : Option NodeNum} {path ahead : List NodeNum}

theorem Cell.invalid (h : Cell t d p q) (h_ne : d.state ≠ .pathfinding) :
    d.search.isValid = false := by
  by_contra h_v
  exact h_ne (h.valid (by simpa using h_v))

theorem Cell.not_searching (h : Cell t d p q) (h_ne : d.state ≠ .pathfinding)
    (source destination : Option NodeNum) :
    p.phase ≠ .searching source destination :=
  fun h_s => h_ne (h.searching source destination h_s).1

theorem Cell.not_driving (h : Cell t d p q) (h_ne : d.state ≠ .straightpathing)
    (path ahead : List NodeNum) :
    q.phase ≠ .driving path ahead :=
  fun h_d => h_ne (h.driving path ahead h_d).1

/-- The search is given out at once, so the pathfinder is not parked any more. -/
theorem Cell.search (h : Cell t d p q) (h_idle : d.state = .idle) (h_client : client.IsOther)
    {p' : NavTaskState} (h_p' : p'.waiting = none) (n : NodeNum) (offset : Int32) (hang : Bool) :
    Cell t { d.accepted client n offset hang with pathfinder := none } p' q where
  pathfinder := .inl ⟨rfl, h_p'⟩
  driver := h.driver
  searching _ _ _ := ⟨rfl, h.invalid (by simp [h_idle])⟩
  driving path ahead h_d := absurd h_d (h.not_driving (by simp [h_idle]) path ahead)
  valid _ := rfl
  queue_empty _ := h.queue_empty (by simp [h_idle])
  handed h_eq := by cases h_eq
  capacity := h.capacity
  client_other c h_c := Option.some.inj h_c ▸ h_client

/-- No pathfinder is parked: the search is kept until one asks. -/
theorem Cell.searchLater (h : Cell t d p q) (h_idle : d.state = .idle) (h_client : client.IsOther)
    (search : PathfindTask) (n : NodeNum) (offset : Int32) (hang : Bool) :
    Cell t { d.accepted client n offset hang with search } p q where
  pathfinder := h.pathfinder
  driver := h.driver
  searching source destination h_s :=
    absurd h_s (h.not_searching (by simp [h_idle]) source destination)
  driving path ahead h_d := absurd h_d (h.not_driving (by simp [h_idle]) path ahead)
  valid _ := rfl
  queue_empty _ := h.queue_empty (by simp [h_idle])
  handed h_eq := by cases h_eq
  capacity := h.capacity
  client_other c h_c := Option.some.inj h_c ▸ h_client

theorem Cell.parkPathfinder (h : Cell t d p q) (h_calling : p.phase = .calling) :
    Cell t { d with pathfinder := some (.pathfindWorker t) }
      { p with waiting := some (.pathfindWorker t) } q where
  pathfinder := .inr ⟨rfl, rfl, h_calling⟩
  driver := h.driver
  searching source destination h_s := by cases h_calling.symm.trans h_s
  driving := h.driving
  valid := h.valid
  queue_empty := h.queue_empty
  handed := h.handed
  capacity := h.capacity
  client_other := h.client_other

/-- The pathfinder that asks gets the search that was kept. -/
theorem Cell.giveSearch (h : Cell t d p q) (h_state : d.state = .pathfinding) {p' : NavTaskState}
    (h_p' : p'.waiting = none) :
    Cell t { d with pathfinder := none, search := { d.search with isValid := false } } p' q where
  pathfinder := .inl ⟨rfl, h_p'⟩
  driver := h.driver
  searching _ _ _ := ⟨h_state, rfl⟩
  driving := h.driving
  valid h_v := by cases h_v
  queue_empty := h.queue_empty
  handed := h.handed
  capacity := h.capacity
  client_other := h.client_other

/-- A path has not been found. -/
theorem Cell.noPath (h : Cell t d p q) (h_phase : p.phase = .searching source destination) :
    Cell t { d with state := .idle } ⟨.calling, none⟩ q := by
  obtain ⟨h_state, h_valid⟩ := h.searching _ _ h_phase
  exact {
    pathfinder := .inl ⟨h.pathfinder_of_searching h_phase, rfl⟩
    driver := h.driver
    searching := fun source destination h_s => by cases h_s
    driving := fun path ahead h_d => absurd h_d (h.not_driving (by simp [h_state]) path ahead)
    valid := fun h_v => absurd (h_valid.symm.trans h_v) (by decide)
    queue_empty := fun _ => h.queue_empty (by simp [h_state])
    handed := fun h_eq => by cases h_eq
    capacity := h.capacity
    client_other := h.client_other }

/-- The queue is empty, and a new search is kept. -/
theorem Cell.searchAgain (h : Cell t d p q) (h_phase : p.phase = .searching source destination) :
    Cell t ({ d with state := .straightpathing } : Desk).answered.restarted ⟨.calling, none⟩ q := by
  obtain ⟨h_state, -⟩ := h.searching _ _ h_phase
  exact {
    pathfinder := .inl ⟨by simpa [Desk.restarted] using h.pathfinder_of_searching h_phase, rfl⟩
    driver := by simpa [Desk.restarted] using h.driver
    searching := fun source destination h_s => by cases h_s
    driving := fun path ahead h_d => absurd h_d (h.not_driving (by simp [h_state]) path ahead)
    valid := fun _ => rfl
    queue_empty := fun _ => rfl
    handed := fun h_eq => by cases h_eq
    capacity := by simpa [Desk.restarted] using h.capacity
    client_other := fun c h_c => h.client_other c
      (@Desk.client_of_answered { d with state := .straightpathing } c h_c) }

/-- A path has been found; no driver is parked that could be given it. -/
theorem Cell.follow (h : Cell t d p q) (h_phase : p.phase = .searching source destination)
    (h_driver : d.driver = none) (new : List NavigationTask) :
    Cell t
      { ({ d with state := .straightpathing } : Desk).answered with tasks := d.tasks.pushAll new }
      ⟨.calling, none⟩ q := by
  -- a pathfinder that searches has no other search to do
  obtain ⟨h_state, h_valid⟩ := h.searching _ _ h_phase
  exact {
    pathfinder := .inl ⟨by simpa using h.pathfinder_of_searching h_phase, rfl⟩
    driver := by simpa using h.driver
    searching := fun source destination h_s => by cases h_s
    driving := fun path ahead h_d => absurd h_d (h.not_driving (by simp [h_state]) path ahead)
    valid := fun h_v => by simp [h_valid] at h_v
    queue_empty := fun h_eq => absurd (Desk.answered_state _) h_eq
    handed := fun _ _ => by simpa using h_driver
    capacity := (Fifo.capacity_pushAll _ _).trans h.capacity
    client_other := fun c h_c => h.client_other c
      (@Desk.client_of_answered { d with state := .straightpathing } c h_c) }

theorem Cell.parkDriver (h : Cell t d p q) (h_calling : q.phase = .calling)
    (h_no : ¬(d.state = .straightpathing ∧ d.tasks.items ≠ [])) :
    Cell t { d with driver := some (.straightpathWorker t) } p
      { q with waiting := some (.straightpathWorker t) } where
  pathfinder := h.pathfinder
  driver := .inr ⟨rfl, rfl, h_calling⟩
  searching := h.searching
  driving path ahead h_d := by cases h_calling.symm.trans h_d
  valid := h.valid
  queue_empty := h.queue_empty
  handed h_state h_tasks := absurd ⟨h_state, h_tasks⟩ h_no
  capacity := h.capacity
  client_other := h.client_other

/-- The last path has been driven. -/
theorem Cell.arrived (h : Cell t d p q) (h_phase : q.phase = .driving path ahead)
    (h_empty : d.tasks.items = []) :
    Cell t d.finished p ⟨.calling, none⟩ := by
  obtain ⟨h_state, -⟩ := h.driving _ _ h_phase
  have h_ne : d.state ≠ .pathfinding := by simp [h_state]
  exact {
    pathfinder := by simpa using h.pathfinder
    driver := .inl ⟨by simpa using h.driver_of_driving h_phase, rfl⟩
    searching := fun source destination h_s => absurd h_s (h.not_searching h_ne source destination)
    driving := fun path ahead h_d => by cases h_d
    valid := fun h_v => by simp [h.invalid h_ne] at h_v
    queue_empty := fun _ => by simpa using h_empty
    handed := fun h_eq => by simp at h_eq
    capacity := by simpa using h.capacity
    client_other := fun c h_c => h.client_other c (Desk.client_of_finished h_c) }

/-- A path has been driven, and another one is left. -/
theorem Cell.drove (h : Cell t d p q) (h_phase : q.phase = .driving path ahead) :
    Cell t d p ⟨.calling, none⟩ where
  pathfinder := h.pathfinder
  driver := .inl ⟨h.driver_of_driving h_phase, rfl⟩
  searching := h.searching
  driving path ahead h_d := by cases h_d
  valid := h.valid
  queue_empty := h.queue_empty
  handed := h.handed
  capacity := h.capacity
  client_other := h.client_other

end Cells

/-- **The step of a train.** What a message of the train does keeps its cell. The cases are those of
the inversion; in each of them the two workers hear what the step sends them, and the one that has
sent the message waits. -/
theorem Cell.step {phase : NavPhase} (h : Cell t d p q)
    (h_step : DeskStep T t client d f req es d' f') (h_calls : Calls T client phase req)
    (h_p : client = .pathfindWorker t → p.waiting = none ∧ p.phase = phase)
    (h_q : client = .straightpathWorker t → q.waiting = none ∧ q.phase = phase) :
    Cell t d'
      ((heardBy (.pathfindWorker t) es).foldl NavTaskState.hear
        (p.sends (.pathfindWorker t = client) req))
      ((heardBy (.straightpathWorker t) es).foldl NavTaskState.hear
        (q.sends (.straightpathWorker t = client) req)) := by
  cases h_step with
  | busy | needRegister =>
    obtain ⟨n, rfl⟩ := h_calls.isOther trivial
    simpa [heardBy_reply, NavTaskState.sends] using h
  | @search n _ offset hang _ h_idle h_source h_parked =>
    obtain ⟨k, rfl⟩ := h_calls.isOther trivial
    obtain h_none | ⟨h_pf, h_wait, h_calling⟩ := h.pathfinder
    · exact absurd h_none.1 h_parked
    -- the pathfinder hears of its work, and the driver nothing
    simp only [heardBy_reply, h_pf, NavTaskState.sends, heardBy_nil, if_true, reduceCtorEq,
      if_false, Option.some.injEq, List.foldl_cons, List.foldl_nil]
    exact h.search h_idle ⟨k, rfl⟩ rfl n offset hang
  | @searchLater n _ offset hang h_idle h_source h_parked =>
    obtain ⟨k, rfl⟩ := h_calls.isOther trivial
    simp only [NavTaskState.sends, heardBy_nil, reduceCtorEq, if_false, List.foldl_nil]
    exact h.searchLater h_idle ⟨k, rfl⟩ _ n offset hang
  | parkPathfinder h_no =>
    obtain ⟨rfl, rfl⟩ := h_calls.pathfindWorker
    obtain ⟨h_wait, h_calling⟩ := h_p rfl
    simp only [NavTaskState.sends, heardBy_nil, reduceCtorEq, if_false, if_true, List.foldl_nil]
    exact h.parkPathfinder h_calling
  | giveSearch h_state h_valid =>
    obtain ⟨rfl, rfl⟩ := h_calls.pathfindWorker
    simp only [heardBy_reply, NavTaskState.sends, heardBy_nil, if_true, reduceCtorEq, if_false,
      Option.some.injEq, List.foldl_cons, List.foldl_nil]
    exact h.giveSearch h_state rfl
  -- the pathfinder hears `Good` and calls again; the client hears the rest
  | noPath h_client =>
    obtain ⟨rfl, source, destination, rfl, -⟩ := h_calls.pathfindWorkerDone
    rw [heardBy_reply_self, heardBy_client not_isOther_pathfindWorker h.client_other,
      heardBy_reply_ne (by simp), heardBy_client not_isOther_straightpathWorker h.client_other,
      heardBy_nil, heardBy_nil, List.foldl_cons, NavTaskState.hear_good, List.foldl_nil,
      NavTaskState.sends_neg (by simp)]
    exact h.noPath (h_p rfl).2
  | searchAgain =>
    obtain ⟨rfl, source, destination, rfl, -⟩ := h_calls.pathfindWorkerDone
    rw [heardBy_reply_self, heardBy_answers not_isOther_pathfindWorker h.client_other,
      heardBy_reply_ne (by simp), heardBy_answers not_isOther_straightpathWorker h.client_other,
      List.foldl_cons, NavTaskState.hear_good, List.foldl_nil, NavTaskState.sends_neg (by simp)]
    exact h.searchAgain (h_p rfl).2
  | @follow result path tasks h_path h_result h_tasks h_driver =>
    obtain ⟨rfl, source, destination, rfl, -⟩ := h_calls.pathfindWorkerDone
    obtain ⟨new, rfl, -⟩ := segmentsFillNavigationTasks_cut h_tasks
    rw [heardBy_reply_self, heardBy_answers not_isOther_pathfindWorker h.client_other,
      heardBy_reply_ne (by simp), heardBy_answers not_isOther_straightpathWorker h.client_other,
      List.foldl_cons, NavTaskState.hear_good, List.foldl_nil, NavTaskState.sends_neg (by simp)]
    exact h.follow (h_p rfl).2 h_driver new
  -- the driver is parked, so the first task is given out in the same round
  | @followNow result path tasks es d' f' h_path h_result h_tasks h_driver h_next =>
    obtain ⟨rfl, source, destination, rfl, -⟩ := h_calls.pathfindWorkerDone
    obtain ⟨h_wait, h_phase⟩ := h_p rfl
    obtain ⟨h_state, h_valid⟩ := h.searching _ _ h_phase
    obtain ⟨new, rfl, -⟩ := segmentsFillNavigationTasks_cut h_tasks
    obtain h_none | ⟨h_dr, h_q⟩ := h.driver
    · exact absurd h_none.1 h_driver
    have h_next := h_next.cell (p := ⟨.calling, none⟩) (q := q) (by simpa using h_dr) h_q
      (.inl ⟨by simpa using h.pathfinder_of_searching h_phase, rfl⟩) (fun _ _ h_s => by cases h_s)
      (by simp) (by simpa using h_valid) ((Fifo.capacity_pushAll _ _).trans h.capacity)
      fun c h_c => h.client_other c
        (@Desk.client_of_answered { d with state := .straightpathing } c h_c)
    rw [List.cons_append, heardBy_reply_self, heardBy_append,
      heardBy_answers not_isOther_pathfindWorker h.client_other, heardBy_reply_ne (by simp),
      heardBy_append, heardBy_answers not_isOther_straightpathWorker h.client_other,
      heardBy_nextTask, heardBy_nextTask, h_next.1, List.nil_append, List.nil_append,
      List.foldl_cons, NavTaskState.hear_good, NavTaskState.sends_neg (by simp)]
    exact h_next.2
  | parkDriver h_no =>
    obtain ⟨rfl, rfl⟩ := h_calls.straightpathWorker
    obtain ⟨h_wait, h_calling⟩ := h_q rfl
    simp only [NavTaskState.sends, heardBy_nil, reduceCtorEq, if_false, if_true, List.foldl_nil]
    exact h.parkDriver h_calling h_no
  | next h_state h_tasks h_next =>
    obtain ⟨rfl, rfl⟩ := h_calls.straightpathWorker
    obtain ⟨h_wait, h_calling⟩ := h_q rfl
    have h_ne : d.state ≠ .pathfinding := by simp [h_state]
    have h_next := h_next.cell (p := p) (q := { q with waiting := some (.straightpathWorker t) })
      rfl ⟨rfl, h_calling⟩ h.pathfinder (h.not_searching h_ne) h_state (h.invalid h_ne) h.capacity
      h.client_other
    rw [heardBy_nextTask, heardBy_nextTask, h_next.1]
    simpa [NavTaskState.sends] using h_next.2
  -- the driver hears `Good`, and calls again
  | arrived h_empty =>
    obtain ⟨rfl, path, ahead, rfl⟩ := h_calls.straightpathWorkerDone
    rw [heardBy_append, heardBy_finishAnswers not_isOther_pathfindWorker h.client_other,
      heardBy_append, heardBy_finishAnswers not_isOther_straightpathWorker h.client_other,
      List.nil_append, List.nil_append, heardBy_reply_self, heardBy_reply_ne (by simp), heardBy_nil,
      heardBy_nil, List.foldl_cons, NavTaskState.hear_good, List.foldl_nil,
      NavTaskState.sends_neg (by simp)]
    exact h.arrived (h_q rfl).2 h_empty
  | drove h_tasks =>
    obtain ⟨rfl, path, ahead, rfl⟩ := h_calls.straightpathWorkerDone
    rw [heardBy_reply_self, heardBy_reply_ne (by simp), heardBy_nil, heardBy_nil, List.foldl_cons,
      NavTaskState.hear_good, List.foldl_nil, NavTaskState.sends_neg (by simp)]
    exact h.drove (h_q rfl).2
  | register =>
    obtain ⟨n, rfl⟩ := h_calls.isOther trivial
    simp only [heardBy_reply, NavTaskState.sends, reduceCtorEq, if_false, heardBy_nil,
      Option.some.injEq, List.foldl_nil]
    exact { h with }

/-- A message of a train comes from one of its workers, or from a task that is none. -/
theorem DeskStep.sender {phase : NavPhase} (h_step : DeskStep T t client d f req es d' f')
    (h_calls : Calls T client phase req) :
    client.IsOther ∨ client = .pathfindWorker t ∨ client = .straightpathWorker t := by
  cases h_step with
  | busy | needRegister | search | searchLater | register => exact .inl (h_calls.isOther trivial)
  | parkPathfinder | giveSearch => exact .inr (.inl h_calls.pathfindWorker.1)
  | noPath | searchAgain | follow | followNow => exact .inr (.inl h_calls.pathfindWorkerDone.1)
  | parkDriver | next => exact .inr (.inr h_calls.straightpathWorker.1)
  | arrived | drove => exact .inr (.inr h_calls.straightpathWorkerDone.1)

theorem NextTask.heardBy_stranger {c : NavTask} (h : NextTask T t d f es d' f')
    (h_driver : d.driver ≠ some c) (h_client : d.client ≠ some c) : heardBy c es = [] := by
  cases h with
  | drive h_app =>
    obtain ⟨-, h_dr, -, -, -, -, h_quiet⟩ := h_app.desk
    rw [heardBy_append, h_quiet, heardBy_reply_ne (h_dr ▸ h_driver)]
    rfl
  | blocked h_app => exact h_app.desk.2.2.2.2.2.2 c
  | arrive =>
    rw [heardBy_hardReverse]
    unfold Desk.finishAnswers
    split
    · exact heardBy_reply_ne h_client _ _
    · rfl

/-- Nobody is answered but the sender, the parked workers of the train and its client. There is a
case for each thing that a message can do. -/
theorem DeskStep.heardBy_stranger {c : NavTask} (h_step : DeskStep T t client d f req es d' f')
    (h_ne : client ≠ c) (h_pathfinder : d.pathfinder ≠ some c) (h_driver : d.driver ≠ some c)
    (h_client : d.client ≠ some c) : heardBy c es = [] := by
  have h_ne' : some client ≠ some c := fun h_eq => h_ne (Option.some.inj h_eq)
  -- a found path is told to the client, if it does not hang
  have h_answers : heardBy c d.answers = [] := by
    unfold Desk.answers
    split
    · exact heardBy_reply_ne h_client _ _
    · rfl
  have h_answered : ∀ tasks, ({ ({ d with state := .straightpathing } : Desk).answered with
      tasks := tasks } : Desk).client ≠ some c :=
    fun tasks h_c => h_client (@Desk.client_of_answered { d with state := .straightpathing } c h_c)
  -- one case for each thing a message can do: the sender is answered, or nobody, or somebody parked
  cases h_step with
  | busy | needRegister | giveSearch | drove | register => exact heardBy_reply_ne h_ne' _ _
  | search => exact heardBy_reply_ne h_pathfinder _ _
  | searchLater | parkPathfinder | parkDriver => rfl
  | noPath =>
    rw [heardBy_reply_ne h_ne']
    exact heardBy_reply_ne h_client _ _
  | searchAgain | follow =>
    rw [heardBy_reply_ne h_ne']
    exact h_answers
  | followNow h_path h_result h_tasks h_parked h =>
    rw [List.cons_append, heardBy_reply_ne h_ne', heardBy_append, h_answers]
    exact h.heardBy_stranger (by simpa using h_driver) (h_answered _)
  | next h_state h_tasks h =>
    rw [heardBy_nextTask]
    exact h.heardBy_stranger h_ne' h_client
  | arrived =>
    rw [heardBy_append, heardBy_reply_ne h_ne', heardBy_nil, List.append_nil]
    unfold Desk.finishAnswers
    split
    · exact heardBy_reply_ne h_client _ _
    · rfl

end Step

/-! ### One step of the world -/

section World

variable {T : Track} {w w' : NavWorld} {m : NavMessage}

/-- A task that is neither the sender nor on its way stays as it is. -/
theorem NavWorld.sent_eq {c : NavTask} {s' : NavServer} {es : List NavEvent}
    (h_log : s'.log = w.server.log ++ es) : (w.after m s').tasks c =
      (heardBy c es).foldl NavTaskState.hear (w.sent m c) := by
  have h_new : NavWorld.newEvents w.server s' = es := by
    rw [NavWorld.newEvents, h_log, List.drop_left]
  rw [NavWorld.after, h_new]

/-- Only a message of the courier says anything about where a worker is. -/
theorem NavTaskState.pass_eq {req : NavRequest}
    (h : ∀ sensorPool, req ≠ .attributionCourier sensorPool) (x : NavTaskState) (c : NavTask) :
    x.pass c req = x := by
  unfold pass
  split
  · exact absurd rfl (h _)
  · rfl

theorem NavTaskState.pass_pathfindWorker (x : NavTaskState) (t : TrainNum) (req : NavRequest) :
    x.pass (.pathfindWorker t) req = x := rfl

@[simp] theorem NavTaskState.waiting_pass (x : NavTaskState) (c : NavTask) (req : NavRequest) :
    (x.pass c req).waiting = x.waiting := by
  unfold pass
  split <;> rfl

theorem NavTaskState.phase_pass (x : NavTaskState) (c : NavTask) (req : NavRequest) :
    (x.pass c req).phase = x.phase ∨ ∃ path ahead ahead', x.phase = .driving path ahead ∧
      (x.pass c req).phase = .driving path ahead' := by
  unfold pass
  split
  · next h => exact .inr ⟨_, _, _, h, rfl⟩
  · exact .inl rfl

theorem DeskStep.not_courier {t : TrainNum} {client : NavTask} {d d' : Desk} {f f' : Table}
    {req : NavRequest} {es : List NavEvent} (h_step : DeskStep T t client d f req es d' f')
    (sensorPool : Fin numSensors → Option TrainNum) : req ≠ .attributionCourier sensorPool := by
  cases h_step <;> exact fun h => by cases h

/-- A step of the world for a message of train `t`. The desks of the other trains stay as they are,
and every task hears what the message and the printers' answers bring it. -/
structure TrainStep (T : Track) (w w' : NavWorld) (m : NavMessage) (t : TrainNum)
    (es : List NavEvent) (d' : Desk) (f' : Table) : Prop where
  step : DeskStep T t m.client (w.server.desk t) w.server.reservedNodes m.req es d' f'
  desk : w'.server.desk = Function.update w.server.desk t d'
  table : w'.server.reservedNodes = f'
  printed : ∃ a b fl, Printed w.server w'.server a b fl ∧
    w'.server.log = w.server.log ++ (es ++ fl) ∧
    ∀ c, w'.tasks c = (heardBy c (es ++ fl)).foldl NavTaskState.hear
      ((w.tasks c).sends (c = m.client) m.req)

/-- **The inversion, for the world.** A step is one of the message's train, for which `DeskStep`
says what happens, or one that is not about a train. All that is shown of the worlds below goes by
these two cases, and the loop body is not opened again. -/
theorem world_step_cases (h_f : Symmetric T.reverse w.server.reservedNodes)
    (h_step : (worldSystem T).step w m w') : w.MaySend T m ∧
      ((∃ t es d' f', TrainStep T w w' m t es d' f') ∨
        SharedStep T m.client w.server m.req w'.server ∧ w' = w.after m w'.server) := by
  obtain ⟨h_send, s', h_ok, rfl⟩ := h_step
  refine ⟨h_send, ?_⟩
  obtain ⟨t, es, d', f', h_desk, h_handled⟩ | h_shared := navigationServer_deskStep h_f h_ok
  · obtain ⟨s₁, a, b, fl, h_acts, h_flushed⟩ := h_handled.flushed
    -- a message of one train: its desk, the table, and then the printers
    refine .inl ⟨t, es, d', f', h_desk, h_flushed.desk.trans h_acts.desk,
      h_flushed.table.trans h_acts.table, a, b, fl, ⟨?_, ?_, ?_⟩, ?_, fun c => ?_⟩
    · exact h_acts.reservationClient ▸ h_flushed.reservationClient
    · exact h_acts.trainstatePrintClient ▸ h_flushed.trainstatePrintClient
    · exact h_acts.reservationClient ▸ h_acts.trainstatePrintClient ▸ h_flushed.answers
    · exact h_flushed.log.trans (by rw [h_acts.log, List.append_assoc])
    · rw [NavWorld.sent_eq (h_flushed.log.trans (by rw [h_acts.log, List.append_assoc])),
        NavWorld.sent, NavTaskState.pass_eq h_desk.not_courier]
      rfl
  · exact .inr ⟨h_shared, rfl⟩

/-- The cells of the other trains are as they were: a message about a train comes from one of its
own workers or from a client, and no worker of another train is parked with it. -/
theorem TrainStep.other_cells {t : TrainNum} {es : List NavEvent} {d' : Desk} {f' : Table}
    (h : Coupled T w) (h_step : TrainStep T w w' m t es d' f') (h_send : w.MaySend T m)
    {c : NavTask} (h_c : ¬c.IsOther) (h_ne : c ≠ .pathfindWorker t ∧ c ≠ .straightpathWorker t) :
    w'.tasks c = w.tasks c := by
  have h_cell := h.cells t
  -- a message about the train is sent by a client, or by a worker of this train
  have h_sender : m.client ≠ c := by
    rintro rfl
    obtain h_other | h_pf | h_dr := h_step.step.sender h_send.2
    · exact h_c h_other
    · exact h_ne.1 h_pf
    · exact h_ne.2 h_dr
  obtain ⟨a, b, fl, h_printed, -, h_tasks⟩ := h_step.printed
  -- nor is the worker of another train parked here
  have h_quiet : heardBy c es = [] := by
    refine h_step.step.heardBy_stranger h_sender ?_ ?_ fun h_eq => h_c (h_cell.client_other c h_eq)
    · obtain h_none | h_some := h_cell.pathfinder
      · simp [h_none.1]
      · simpa [h_some.1] using h_ne.1.symm
    · obtain h_none | h_some := h_cell.driver
      · simp [h_none.1]
      · simpa [h_some.1] using h_ne.2.symm
  rw [h_tasks, heardBy_append, h_quiet,
    h_printed.heardBy (fun h_eq => h_c (h.reservation_other c h_eq))
      (fun h_eq => h_c (h.trainstate_other c h_eq)),
    NavTaskState.sends_neg (Ne.symm h_sender)]
  rfl

/-- The workers of the train. -/
theorem TrainStep.own_cell {t : TrainNum} {es : List NavEvent} {d' : Desk} {f' : Table}
    (h : Coupled T w) (h_step : TrainStep T w w' m t es d' f') {c : NavTask} (h_c : ¬c.IsOther) :
    w'.tasks c = (heardBy c es).foldl NavTaskState.hear
      ((w.tasks c).sends (c = m.client) m.req) := by
  obtain ⟨a, b, fl, h_printed, -, h_tasks⟩ := h_step.printed
  rw [h_tasks, heardBy_append, h_printed.heardBy (fun h_eq => h_c (h.reservation_other c h_eq))
    (fun h_eq => h_c (h.trainstate_other c h_eq)), List.append_nil]

/-- A step for a train keeps the coupling: its own cell takes the step (`Cell.step`), and the others
are left alone. -/
theorem TrainStep.coupled {t : TrainNum} {es : List NavEvent} {d' : Desk} {f' : Table}
    (h : Coupled T w) (h_step : TrainStep T w w' m t es d' f') (h_send : w.MaySend T m)
    (h_f : Symmetric T.reverse w'.server.reservedNodes) : Coupled T w' := by
  obtain ⟨a, b, fl, h_printed, -, -⟩ := h_step.printed
  refine ⟨h_f, fun c h_c => ?_, fun c h_c => ?_, fun u => ?_⟩
  · rw [h_printed.reservationClient] at h_c
    split at h_c
    · cases h_c
    · exact h.reservation_other c h_c
  · rw [h_printed.trainstatePrintClient] at h_c
    split at h_c
    · cases h_c
    · exact h.trainstate_other c h_c
  · -- the cell of the train takes the step; those of the others are as they were
    by_cases h_u : u = t
    · subst h_u
      rw [h_step.desk, Function.update_self, h_step.own_cell h not_isOther_pathfindWorker,
        h_step.own_cell h not_isOther_straightpathWorker]
      refine (h.cells u).step h_step.step h_send.2 ?_ ?_
      · exact fun h_eq => ⟨h_eq ▸ h_send.1, h_eq ▸ rfl⟩
      · exact fun h_eq => ⟨h_eq ▸ h_send.1, h_eq ▸ rfl⟩
    · rw [h_step.desk, Function.update_of_ne h_u,
        h_step.other_cells h h_send not_isOther_pathfindWorker ⟨by simp [h_u], by simp⟩,
        h_step.other_cells h h_send not_isOther_straightpathWorker ⟨by simp, by simp [h_u]⟩]
      exact h.cells u

/-- The driver learns where it is from the sensors that are attributed to its train. What is ahead
of it becomes less, and the rest of the cell does not depend on it. -/
theorem Cell.pass {t : TrainNum} {d : Desk} {p q : NavTaskState} (h : Cell t d p q) (c : NavTask)
    (req : NavRequest) : Cell t d p (q.pass c req) where
  pathfinder := h.pathfinder
  driver := by
    obtain h_none | ⟨h_dr, h_wait, h_calling⟩ := h.driver
    · exact .inl ⟨h_none.1, by rw [q.waiting_pass, h_none.2]⟩
    · refine .inr ⟨h_dr, by rw [q.waiting_pass, h_wait], ?_⟩
      -- a parked driver does not drive
      obtain h_same | ⟨path, ahead, ahead', h_phase, -⟩ := q.phase_pass c req
      · exact h_same.trans h_calling
      · rw [h_calling] at h_phase
        cases h_phase
  searching := h.searching
  driving := by
    intro path ahead h_d
    obtain h_same | ⟨path', ahead', ahead'', h_phase, h_phase'⟩ := q.phase_pass c req
    · exact h.driving path ahead (h_same.symm.trans h_d)
    · rw [h_phase'] at h_d
      cases h_d
      -- what is ahead gets less, the path stays
      exact h.driving path ahead' h_phase
  valid := h.valid
  queue_empty := h.queue_empty
  handed := h.handed
  capacity := h.capacity
  client_other := h.client_other

/-- A message that is not about one train, as a change of the shared variables. The five messages
have in common that at most the sender is answered, that at most it becomes a printer, and that the
loop body ends as it always does. -/
theorem SharedStep.effect {client : NavTask} {s s' : NavServer} {req : NavRequest}
    (h : SharedStep T client s req s') : ∃ own s₁ a b fl, Flushed s₁ s' a b fl ∧
      s₁.desk = s.desk ∧ s₁.log = s.log ++ own ∧
      (own = [] ∧ (req = .getReservations ∨ req = .getTrainState) ∨
        own = [.reply (some client) .good] ∧ (∃ sensorPool, req = .attributionCourier sensorPool) ∨
        ∃ t workerType, own = [.reply (some client) (.whoami t)] ∧ req = .whoami workerType) ∧
      (s₁.reservationClient = s.reservationClient ∨
        s₁.reservationClient = some client ∧ req = .getReservations) ∧
      (s₁.trainstatePrintClient = s.trainstatePrintClient ∨
        s₁.trainstatePrintClient = some client ∧ req = .getTrainState) := by
  have h_flush : ∀ s₁ : NavServer, ∃ a b fl, Flushed s₁ s₁.flush a b fl := flush_flushed
  -- five messages: two of new workers, two of printers, and the courier's
  cases h with
  | greetDriver =>
    obtain ⟨a, b, fl, h_fl⟩ := h_flush _
    exact ⟨_, _, a, b, fl, h_fl, rfl, rfl, .inr (.inr ⟨_, _, rfl, rfl⟩), .inl rfl, .inl rfl⟩
  | greetPathfinder =>
    obtain ⟨a, b, fl, h_fl⟩ := h_flush _
    exact ⟨_, _, a, b, fl, h_fl, rfl, rfl, .inr (.inr ⟨_, _, rfl, rfl⟩), .inl rfl, .inl rfl⟩
  | getReservations =>
    obtain ⟨a, b, fl, h_fl⟩ := h_flush _
    exact ⟨[], _, a, b, fl, h_fl, rfl, (List.append_nil _).symm,
      .inl ⟨rfl, .inl rfl⟩, .inr ⟨rfl, rfl⟩, .inl rfl⟩
  | getTrainState =>
    obtain ⟨a, b, fl, h_fl⟩ := h_flush _
    exact ⟨[], _, a, b, fl, h_fl, rfl, (List.append_nil _).symm,
      .inl ⟨rfl, .inr rfl⟩, .inl rfl, .inr ⟨rfl, rfl⟩⟩
  | attribution =>
    obtain ⟨a, b, fl, h_fl⟩ := h_flush _
    exact ⟨_, _, a, b, fl, h_fl, rfl, rfl, .inr (.inl ⟨rfl, _, rfl⟩), .inl rfl, .inl rfl⟩

/-- The desk of a train changes only by a message about the train. -/
theorem desk_of_step (h_f : Symmetric T.reverse w.server.reservedNodes)
    (h_step : (worldSystem T).step w m w') (u : TrainNum) :
    w'.server.desk u = w.server.desk u ∨
      ∃ es d' f', TrainStep T w w' m u es d' f' ∧ w'.server.desk u = d' := by
  obtain ⟨-, ⟨t, es, d', f', h_train⟩ | ⟨h_shared, -⟩⟩ := world_step_cases h_f h_step
  · rw [h_train.desk]
    by_cases h_u : u = t
    · subst h_u
      exact .inr ⟨es, d', f', h_train, Function.update_self _ _ _⟩
    · exact .inl (Function.update_of_ne h_u _ _)
  · -- the messages that are about no train leave the desks as they are
    obtain ⟨own, s₁, a, b, fl, h_fl, h_desk, -⟩ := h_shared.effect
    rw [h_fl.desk, h_desk]
    exact .inl rfl

/-- A worker sends such a message only to say who it is. -/
theorem Calls.worker_shared {c : NavTask} {phase : NavPhase} {s s' : NavServer} {req : NavRequest}
    (h : Calls T c phase req) (h_shared : SharedStep T c s req s') :
    c.IsOther ∨ ∃ workerType, req = .whoami workerType ∧ phase = .starting := by
  cases h_shared with
  | getReservations | getTrainState | attribution => exact .inl (h.isOther trivial)
  | greetDriver h_c | greetPathfinder h_c =>
    subst h_c
    refine .inr ⟨_, rfl, ?_⟩
    unfold Calls at h
    split at h <;> simp_all

theorem Cell.greet_pathfinder {t : TrainNum} {d : Desk} {p q : NavTaskState} (h : Cell t d p q)
    (h_wait : p.waiting = none) : Cell t d ⟨.calling, none⟩ q where
  pathfinder := by
    obtain h_none | h_some := h.pathfinder
    · exact .inl ⟨h_none.1, rfl⟩
    · rw [h_wait] at h_some
      cases h_some.2.1
  driver := h.driver
  searching := fun _ _ h_s => by cases h_s
  driving := h.driving
  valid := h.valid
  queue_empty := h.queue_empty
  handed := h.handed
  capacity := h.capacity
  client_other := h.client_other

theorem Cell.greet_driver {t : TrainNum} {d : Desk} {p q : NavTaskState} (h : Cell t d p q)
    (h_wait : q.waiting = none) : Cell t d p ⟨.calling, none⟩ where
  pathfinder := h.pathfinder
  driver := by
    obtain h_none | h_some := h.driver
    · exact .inl ⟨h_none.1, rfl⟩
    · rw [h_wait] at h_some
      cases h_some.2.1
  searching := h.searching
  driving := fun _ _ h_d => by cases h_d
  valid := h.valid
  queue_empty := h.queue_empty
  handed := h.handed
  capacity := h.capacity
  client_other := h.client_other

/-- The printers are not workers, also after a message that makes the sender one: a worker sends no
such message. -/
theorem SharedStep.printers_other (h : Coupled T w) {s₁ : NavServer}
    (h_worker : m.client.IsOther ∨ ∃ workerType, m.req = .whoami workerType ∧
      (w.tasks m.client).phase = .starting)
    (h_res : s₁.reservationClient = w.server.reservationClient ∨
      s₁.reservationClient = some m.client ∧ m.req = .getReservations)
    (h_train : s₁.trainstatePrintClient = w.server.trainstatePrintClient ∨
      s₁.trainstatePrintClient = some m.client ∧ m.req = .getTrainState) :
    (∀ c, s₁.reservationClient = some c → c.IsOther) ∧
      ∀ c, s₁.trainstatePrintClient = some c → c.IsOther := by
  refine ⟨fun c h_c => ?_, fun c h_c => ?_⟩
  · -- a new printer has sent this message, which no worker sends
    obtain h_same | ⟨h_new, h_req⟩ := h_res
    · exact h.reservation_other c (h_same.symm.trans h_c)
    · obtain h_other | ⟨_, h_whoami, -⟩ := h_worker
      · obtain rfl := Option.some.inj (h_new.symm.trans h_c)
        exact h_other
      · rw [h_req] at h_whoami
        cases h_whoami
  · obtain h_same | ⟨h_new, h_req⟩ := h_train
    · exact h.trainstate_other c (h_same.symm.trans h_c)
    · obtain h_other | ⟨_, h_whoami, -⟩ := h_worker
      · obtain rfl := Option.some.inj (h_new.symm.trans h_c)
        exact h_other
      · rw [h_req] at h_whoami
        cases h_whoami

/-- A worker has said who it is, or the message is not from it; then it goes on as it was, but for a
driver, which may have come to another node. -/
theorem SharedStep.worker (h : Coupled T w)
    (h_step : SharedStep T m.client w.server m.req w'.server) (h_after : w' = w.after m w'.server)
    (h_send : w.MaySend T m) {c : NavTask} (h_c : ¬c.IsOther) :
    c ≠ m.client ∧ w'.tasks c = (w.tasks c).pass c m.req ∨
      c = m.client ∧ w'.tasks c = ⟨.calling, none⟩ := by
  obtain ⟨own, s₁, a, b, fl, h_fl, h_desk, h_log, h_own, h_res, h_train⟩ := h_step.effect
  have h_worker := h_send.2.worker_shared h_step
  obtain ⟨h_res_other, h_train_other⟩ := SharedStep.printers_other h h_worker h_res h_train
  have h_task : w'.tasks c = (heardBy c own).foldl NavTaskState.hear (w.sent m c) := by
    rw [h_after, NavWorld.sent_eq (h_fl.log.trans (by rw [h_log, List.append_assoc])),
      heardBy_append, h_fl.heardBy (fun h_eq => h_c (h_res_other c h_eq))
        (fun h_eq => h_c (h_train_other c h_eq)), List.append_nil]
  by_cases h_ne : c = m.client
  · -- a worker sends no such message but `WHOAMI`, to which it gets its answer
    subst h_ne
    refine .inr ⟨rfl, ?_⟩
    obtain h_other | ⟨workerType, h_req, -⟩ := h_worker
    · exact absurd h_other h_c
    · obtain ⟨-, h_get | h_get⟩ | ⟨-, sensorPool, h_pool⟩ | ⟨t, _, rfl, -⟩ := h_own
      · rw [h_req] at h_get
        cases h_get
      · rw [h_req] at h_get
        cases h_get
      · rw [h_req] at h_pool
        cases h_pool
      · rw [h_task, heardBy_reply_self, heardBy_nil, List.foldl_cons, NavTaskState.hear_whoami,
          List.foldl_nil]
  · have h_ne' : some m.client ≠ some c := fun h_eq => h_ne (Option.some.inj h_eq).symm
    have h_nil : heardBy c own = [] := by
      obtain ⟨rfl, -⟩ | ⟨rfl, -⟩ | ⟨t, -, rfl, -⟩ := h_own
      · rfl
      · exact heardBy_reply_ne h_ne' _ _
      · exact heardBy_reply_ne h_ne' _ _
    refine .inl ⟨h_ne, ?_⟩
    rw [h_task, h_nil, NavWorld.sent, if_neg h_ne]
    rfl

/-- A message that is not about one train keeps the coupling. A worker that has said who it is calls
for work from then on, which is where its cell has it. -/
theorem SharedStep.coupled (h : Coupled T w)
    (h_step : SharedStep T m.client w.server m.req w'.server) (h_after : w' = w.after m w'.server)
    (h_send : w.MaySend T m) (h_f : Symmetric T.reverse w'.server.reservedNodes) :
    Coupled T w' := by
  obtain ⟨own, s₁, a, b, fl, h_fl, h_desk, h_log, h_own, h_res, h_train⟩ := h_step.effect
  obtain ⟨h_res_other, h_train_other⟩ :=
    SharedStep.printers_other h (h_send.2.worker_shared h_step) h_res h_train
  refine ⟨h_f, fun c h_c => ?_, fun c h_c => ?_, fun t => ?_⟩
  · rw [h_fl.reservationClient] at h_c
    split at h_c
    · cases h_c
    · exact h_res_other c h_c
  · rw [h_fl.trainstatePrintClient] at h_c
    split at h_c
    · cases h_c
    · exact h_train_other c h_c
  · -- at most one of the two workers is the sender
    have h_cell := h.cells t
    rw [h_fl.desk, h_desk]
    have h_p := h_step.worker h h_after h_send (@not_isOther_pathfindWorker t)
    have h_q := h_step.worker h h_after h_send (@not_isOther_straightpathWorker t)
    obtain ⟨-, h_p⟩ | ⟨h_client, h_p⟩ := h_p
    · rw [h_p, NavTaskState.pass_pathfindWorker]
      obtain ⟨-, h_q⟩ | ⟨h_client, h_q⟩ := h_q
      · rw [h_q]
        exact h_cell.pass _ _
      · rw [h_q]
        exact h_cell.greet_driver (h_client ▸ h_send.1)
    · obtain ⟨-, h_q⟩ | ⟨h_client', -⟩ := h_q
      · rw [h_p, h_q]
        exact (h_cell.greet_pathfinder (h_client ▸ h_send.1)).pass _ _
      · rw [← h_client] at h_client'
        cases h_client'

/-- Only the courier changes the table. -/
theorem SharedStep.table {client : NavTask} {s s' : NavServer} {req : NavRequest}
    (h : SharedStep T client s req s') : s'.reservedNodes = s.reservedNodes ∨
      ∃ sensorPool, req = .attributionCourier sensorPool ∧ s'.reservedNodes =
        NavServer.freeAttributed T s sensorPool (List.finRange numSensors) s.reservedNodes := by
  have h_flush : ∀ s₁ : NavServer, s₁.flush.reservedNodes = s₁.reservedNodes :=
    fun s₁ => congrArg Ownings.table (NavServer.ownings_flush s₁)
  cases h with
  | greetDriver | greetPathfinder | getReservations | getTrainState => exact .inl (h_flush _)
  | attribution => exact .inr ⟨_, rfl, h_flush _⟩

theorem Coupled.step (h : Coupled T w) (h_step : (worldSystem T).step w m w') : Coupled T w' := by
  have h_f : Symmetric T.reverse w'.server.reservedNodes := by
    obtain ⟨-, s', h_ok, rfl⟩ := h_step
    exact symmetric_step h.symmetric h_ok
  obtain ⟨h_send, ⟨t, es, d', f', h_train⟩ | ⟨h_shared, h_after⟩⟩ :=
    world_step_cases h.symmetric h_step
  · exact h_train.coupled h h_send h_f
  · exact h_shared.coupled h h_after h_send h_f

theorem coupled_start : Coupled T .start where
  symmetric _ := rfl
  reservation_other _ h := by cases h
  trainstate_other _ h := by cases h
  cells t := {
    pathfinder := .inl ⟨rfl, rfl⟩
    driver := .inl ⟨rfl, rfl⟩
    searching := fun _ _ h => by cases h
    driving := fun _ _ h => by cases h
    valid := fun h => by cases h
    queue_empty := fun _ => rfl
    handed := fun h => by cases h
    capacity := rfl
    client_other := fun _ h => by cases h }

/-- **Coupling.** In every reachable world, whatever the run is asked for: the server's records and
the workers it has records of go together. -/
theorem coupled_of_reaches {ok : NavWorld → NavMessage → Prop} {ms : List NavMessage}
    (h : (worldSystem T).Reaches ok ms w) : Coupled T w :=
  h.invariant (by rintro w rfl; exact coupled_start) fun _ _ _ h_w _ h_step => h_w.step h_step

end World

end Nav
end PollingExpress
