import PollingExpress.Nav.Handover

/-!
# What a train holds

A train that is IDLE or PATHFINDING has no node but the one it is registered at
(`no_leak`): each way out of STRAIGHTPATHING goes through `clear_reserved_by_train`, and
a search takes nothing.

While a train drives, the nodes of its path behind the last sensor attributed to it stay
reserved for it (`driving_reserved`), unless a message of the courier frees them: a
sensor of the message is looked up on the path the train is on now. If it is not on it,
all of the path becomes free, and if it is, the nodes up to it become free also where
the path comes back to them (`KeepsAhead` says that neither happens).
-/

namespace PollingExpress

open Ownership

namespace Nav

section

variable {T : Track} {t u : TrainNum} {client : NavTask} {d d' : Desk} {p q : NavTaskState}
  {f f' : Table} {req : NavRequest} {es : List NavEvent} {n : NodeNum}

/-- After `clear_reserved_by_train`, a train has nothing but its place. -/
theorem Desk.at_of_cleared (h : d.cleared T t f n = some t) :
    At T.reverse d.trainState.regedAtNum n := by
  by_contra h_at
  have h_f : f n = some t := free_eq_some h
  have h_none : d.cleared T t f n = none := if_pos ⟨.inl (List.mem_finRange n), h_f, h_at⟩
  rw [h] at h_none
  cases h_none

/-- A message of the courier gives no node to a train. -/
theorem freeAttributed_eq_some {s : NavServer} {sensorPool : Fin numSensors → Option TrainNum}
    {l : List (Fin numSensors)} (h : s.freeAttributed T sensorPool l f n = some u) :
    f n = some u := by
  induction l generalizing f with
  | nil => exact h
  | cons i l ih =>
    rw [NavServer.freeAttributed, List.foldl_cons] at h
    cases h_i : sensorPool i with
    | none =>
      rw [h_i] at h
      exact ih h
    | some v =>
      rw [h_i] at h
      exact free_eq_some (ih h)

/-! ### Other trains -/

/-- A step of `t` gives no node to another train. -/
theorem NextTask.shrinks (h : NextTask T t d f es d' f') (h_u : u ≠ t) (h_n : f' n = some u) :
    f n = some u := by
  cases h with
  | drive =>
    unfold take at h_n
    split at h_n
    · exact absurd (Option.some.inj h_n).symm h_u
    · exact free_eq_some h_n
  | blocked => exact free_eq_some h_n
  | arrive => exact free_eq_some h_n

theorem DeskStep.shrinks (h : DeskStep T t client d f req es d' f') (h_u : u ≠ t)
    (h_n : f' n = some u) : f n = some u := by
  cases h with
  | followNow _ _ _ _ h | next _ _ h => exact h.shrinks h_u h_n
  | arrived => exact free_eq_some h_n
  | register =>
    unfold take at h_n
    split at h_n
    · exact absurd (Option.some.inj h_n).symm h_u
    · exact free_eq_some h_n
  | _ => exact h_n

/-- A step of `t` takes no node from another train. -/
theorem NextTask.keeps (h : NextTask T t d f es d' f') (h_f : Symmetric T.reverse f) (h_u : u ≠ t)
    (h_n : f n = some u) : f' n = some u := by
  have h_clear : ∀ d : Desk, d.cleared T t f n = some u := fun _ => free_of_owned h_n h_u
  cases h with
  | @drive d₁ _ _ _ _ _ h_can =>
    exact take_of_owned (symmetric_free T.involutive h_f) h_can (h_clear d₁) h_u
  | blocked => exact h_clear _
  | arrive => exact h_clear _

theorem DeskStep.keeps (h : DeskStep T t client d f req es d' f') (h_f : Symmetric T.reverse f)
    (h_register : ∀ m, req = .registerLocation t m → f m = none ∨ f m = some t) (h_u : u ≠ t)
    (h_n : f n = some u) : f' n = some u := by
  cases h with
  | followNow _ _ _ _ h | next _ _ h => exact h.keeps h_f h_u h_n
  | arrived => exact free_of_owned h_n h_u
  | @register m =>
    refine take_of_owned (symmetric_free T.involutive h_f) ?_ (free_of_owned h_n h_u) h_u
    rintro k h_k
    obtain rfl := List.mem_singleton.mp h_k
    unfold free
    split
    · exact .inl rfl
    · exact h_register k rfl
  | _ => exact h_n

/-! ### Nothing is left behind -/

/-- The train has only the place it is registered at, unless it is on a straight path. -/
def HoldsPlace (T : Track) (t : TrainNum) (d : Desk) (f : Table) : Prop :=
  d.state = .idle ∨ d.state = .pathfinding → ∀ n, f n = some t →
    At T.reverse d.trainState.regedAtNum n

theorem NextTask.holdsPlace (h : NextTask T t d f es d' f') (h_state : d.state = .straightpathing) :
    HoldsPlace T t d' f' := by
  cases h with
  | drive h_app =>
    obtain ⟨-, -, -, h_same, -⟩ := h_app.desk
    rintro (h_s | h_s) <;> exact absurd ((h_same.trans h_state).symm.trans h_s) (by decide)
  | blocked => exact fun _ n h_n => Desk.at_of_cleared h_n
  | arrive =>
    intro _ n h_n
    rw [Desk.finished_trainState]
    exact Desk.at_of_cleared h_n

/-- A message of the train leaves it with a place that it holds. Its state changes only with a
request that is accepted, a report or the end of a route, and its place with a registration or with
a path that it has reserved. -/
theorem DeskStep.holdsPlace {phase : NavPhase} (h : DeskStep T t client d f req es d' f')
    (h_cell : Cell t d p q) (h_calls : Calls T client phase req)
    (h_p : client = .pathfindWorker t → p.waiting = none ∧ p.phase = phase)
    (h_holds : HoldsPlace T t d f) : HoldsPlace T t d' f' := by
  have h_pathfinding : ∀ {result path}, req = .pathfindWorkerDone t result path →
      d.state = .pathfinding := by
    rintro result path rfl
    obtain ⟨rfl, source, destination, rfl, -⟩ := h_calls.pathfindWorkerDone
    exact (h_cell.searching _ _ (h_p rfl).2).1
  cases h with
  -- neither the state of the train nor what it has reserved changes
  | busy | needRegister | parkPathfinder | giveSearch | parkDriver | drove => exact h_holds
  | search h_idle | searchLater h_idle => exact fun _ => h_holds (.inl h_idle)
  | noPath => exact fun _ => h_holds (.inr (h_pathfinding rfl))
  | searchAgain =>
    intro _ n h_n
    have h_at := h_holds (.inr (h_pathfinding rfl)) n h_n
    simpa [Desk.restarted] using h_at
  -- a train that has a route is neither IDLE nor PATHFINDING
  | follow =>
    have h_state : ({ d with state := .straightpathing } : Desk).answered.state =
        .straightpathing :=
      Desk.answered_state _
    rintro (h_s | h_s)
    · exact absurd (h_state.symm.trans h_s) (by decide)
    · exact absurd (h_state.symm.trans h_s) (by decide)
  | followNow _ _ _ _ h => exact h.holdsPlace (Desk.answered_state _)
  | next h_state _ h => exact h.holdsPlace h_state
  | arrived =>
    intro _ n h_n
    rw [Desk.finished_trainState]
    exact Desk.at_of_cleared h_n
  -- the train takes the place it is registered at
  | @register m =>
    intro _ n h_n
    unfold take at h_n
    split at h_n
    · next h_among =>
      obtain rfl | rfl := (among_singleton T.involutive).mp h_among
      · exact .inr (by rw [T.reverse_reverse'])
      · exact .inl rfl
    · exact @Desk.at_of_cleared T t { d with trainState := { d.trainState with
        regedAtNum := some m } } f n h_n

end

/-- **No leak.** In every reachable world, a train that is IDLE or PATHFINDING has no node reserved
but the one it is registered at, in its two directions.

What a train reserves for a straight path it has while it is STRAIGHTPATHING. Before it searches
again, and when its route is done, `clear_reserved_by_train` has freed all but the node it is
registered at. The steps of other trains and of the courier take nodes away from it, and give it
none. -/
theorem no_leak {T : Track} {w : NavWorld} (h : (worldSystem T).Reachable w) (t : TrainNum)
    (h_state : w.server.states t = .idle ∨ w.server.states t = .pathfinding) (n : NodeNum)
    (h_n : w.server.reservedNodes n = some t) :
    w.server.regedAtNum t = some n ∨ w.server.regedAtNum t = some (T.reverse n) := by
  have h_inv : Coupled T w ∧ ∀ t, HoldsPlace T t (w.server.desk t) w.server.reservedNodes := by
    refine @System.Reachable.invariant _ _ _ (fun w => Coupled T w ∧
      ∀ t, HoldsPlace T t (w.server.desk t) w.server.reservedNodes) ?_ ?_ _ h
    · rintro w rfl
      exact ⟨coupled_start, fun t _ n h_n => by cases h_n⟩
    · rintro w m w' ⟨h_w, h_holds⟩ h_step
      refine ⟨h_w.step h_step, fun u => ?_⟩
      obtain ⟨h_send, ⟨t, es, d', f', h_train⟩ | ⟨h_shared, -⟩⟩ :=
        world_step_cases h_w.symmetric h_step
      · -- a message of some train: this one, or another, which takes nothing for this one
        rw [h_train.desk, h_train.table]
        by_cases h_u : u = t
        · subst h_u
          rw [Function.update_self]
          refine h_train.step.holdsPlace (h_w.cells u) h_send.2 ?_ (h_holds u)
          exact fun h_eq => ⟨h_eq ▸ h_send.1, h_eq ▸ rfl⟩
        · rw [Function.update_of_ne h_u]
          exact fun h_s n h_n => h_holds u h_s n (h_train.step.shrinks h_u h_n)
      · -- a message of no train leaves its desk alone, and at most frees nodes
        obtain ⟨own, s₁, a, b, fl, h_fl, h_desk, -⟩ := h_shared.effect
        rw [h_fl.desk, h_desk]
        intro h_s n h_n
        refine h_holds u h_s n ?_
        obtain h_table | ⟨sensorPool, -, h_table⟩ := h_shared.table
        · exact h_table ▸ h_n
        · exact freeAttributed_eq_some (h_table ▸ h_n)
  obtain h_at | h_at := h_inv.2 t h_state n h_n
  · exact .inl h_at.symm
  · exact .inr h_at.symm

theorem no_leak_blocked : ∃ w : NavWorld,
    (w.server.states 0 = .pathfinding ∧ w.server.reservedNodes 8 = some 0) ∧
    (w.server.regedAtNum 0 = some 8 ∨ w.server.regedAtNum 0 = some (ringTrack.reverse 8)) := by
  obtain ⟨w, h_reach, h_w⟩ := System.exists_reaches_of_play (@worldNext_step ringTrack)
    (fun _ _ => True)
    (fun w => w.server.states 0 = .pathfinding ∧ w.server.reservedNodes 8 = some 0)
    (thereAndBack ++ [⟨.other 1, .registerLocation 1 2⟩,
      ⟨.straightpathWorker 0, .straightpathWorkerDone 0⟩,
      ⟨.straightpathWorker 0, .straightpathWorker 0⟩]) rfl (by decide +kernel)
  exact ⟨w, h_w, no_leak h_reach.reachable 0 (.inr h_w.1) 8 h_w.2⟩

/-! ### What lies ahead stays reserved -/

section

variable {T : Track} {t u : TrainNum} {client : NavTask} {d d' : Desk} {p q : NavTaskState}
  {f f' : Table} {req : NavRequest} {es : List NavEvent} {path ahead : List NodeNum}

/-- A train is registered only when it is idle, and at a node that no other train has. -/
def RegistersIdle (w : NavWorld) (m : NavMessage) : Prop :=
  match m.req with
  | .registerLocation t n => w.server.states t = .idle ∧
    (w.server.reservedNodes n = none ∨ w.server.reservedNodes n = some t)
  | _ => True

/-- The paths that have been handed to the straightpath worker of `t`. -/
def handed (es : List NavEvent) (t : TrainNum) : List (List NodeNum) :=
  es.filterMap fun
    | .reply client (.straightpathHeresWork path _ _) =>
      if client = some (.straightpathWorker t) then some path else none
    | _ => none

/-- The courier reports only sensors of paths that have been handed to the train. -/
def ReportsHanded (w : NavWorld) (m : NavMessage) : Prop :=
  match m.req with
  | .attributionCourier sensorPool => ∀ i, ∀ t ∈ sensorPool i,
    ∃ path ∈ handed w.server.log t, NavServer.sensorNode i ∈ path
  | _ => True

/-- The nodes that are left ahead of the train are not freed with those up to sensor `i`:
the sensor is on the path, and the path does not come back, in either direction, to a node
up to it, except at the end. -/
def Passes (T : Track) (reged : Option NodeNum) (path ahead : List NodeNum) (i : Fin numSensors) :
    Prop :=
  ∀ n ∈ ahead, At T.reverse reged n ∨
    NavServer.sensorNode i ∈ path ∧
      ¬Among T.reverse (NavServer.upTo (NavServer.sensorNode i) path) n

/-- A message of the courier frees nothing that is ahead of a train.

The courier brings the sensors that were attributed to trains a while ago. What is ahead is what the
worker has left when the message has been taken into account; each sensor of the message is to be on
the path, with nothing ahead among the nodes up to it. -/
def KeepsAhead (T : Track) (w : NavWorld) (m : NavMessage) : Prop :=
  match m.req with
  | .attributionCourier sensorPool => ∀ t,
    match (w.tasks (.straightpathWorker t)).phase with
    | .driving path ahead => ∀ i, sensorPool i = some t → Passes T (w.server.regedAtNum t) path
      (ahead.rtakeWhile fun n => ¬NavTaskState.Attributed sensorPool t n) i
    | _ => True
  | _ => True

instance (w : NavWorld) (m : NavMessage) : Decidable (RegistersIdle w m) := by
  unfold RegistersIdle
  generalize m.req = req
  rcases req with _ | _ <;> infer_instance

instance (w : NavWorld) (m : NavMessage) : Decidable (ReportsHanded w m) := by
  unfold ReportsHanded
  generalize m.req = req
  rcases req with _ | _ <;> infer_instance

instance (T : Track) (reged : Option NodeNum) (path ahead : List NodeNum) (i : Fin numSensors) :
    Decidable (Passes T reged path ahead i) :=
  inferInstanceAs (Decidable (∀ n ∈ ahead, _))

instance (T : Track) (w : NavWorld) (m : NavMessage) : Decidable (KeepsAhead T w m) := by
  unfold KeepsAhead
  generalize m.req = req
  rcases req with _ | _
  case attributionCourier sensorPool =>
    refine @Nat.decidableForallFin _ _ fun t => ?_
    generalize (w.tasks (.straightpathWorker t)).phase = phase
    rcases phase with _ | _ <;> infer_instance
  all_goals infer_instance

/-- What no attributed sensor frees stays the train's. -/
theorem freeAttributed_of_passes {s : NavServer} {sensorPool : Fin numSensors → Option TrainNum}
    {l : List (Fin numSensors)} {n : NodeNum}
    (h : ∀ i, sensorPool i = some t → At T.reverse (s.regedAtNum t) n ∨
      ¬Among T.reverse (NavServer.upTo (NavServer.sensorNode i) (s.curStraightpathTasks t).path) n)
    (h_n : f n = some t) : s.freeAttributed T sensorPool l f n = some t := by
  induction l generalizing f with
  | nil => exact h_n
  | cons i l ih =>
    rw [NavServer.freeAttributed, List.foldl_cons]
    cases h_i : sensorPool i with
    | none => exact ih h_n
    | some v =>
      refine ih ?_
      -- another train's sensors free nothing of this one
      by_cases h_v : v = t
      · subst h_v
        obtain h_at | h_not := h i h_i
        · exact (free_of_at h_at).trans h_n
        · exact (free_of_not_among h_not).trans h_n
      · exact free_of_owned h_n (Ne.symm h_v)

/-- A straightpath worker that has asked for work drives what it is given. -/
theorem NavTaskState.hear_path (h : q.waiting = some (.straightpathWorker t)) (dist : Int32)
    (delay : Int) :
    q.hear (.straightpathHeresWork path dist delay) = ⟨.driving path path, none⟩ := by
  unfold hear
  rw [h]

/-- A path that is handed out is reserved. -/
theorem NextTask.drives (h : NextTask T t d f es d' f')
    (h_driver : d.driver = some (.straightpathWorker t))
    (h_q : q.waiting = some (.straightpathWorker t) ∧ q.phase = .calling)
    (h_client : ∀ c, d.client = some c → c.IsOther)
    (h_phase : ((heardBy (.straightpathWorker t) es).foldl NavTaskState.hear q).phase =
      .driving path ahead) {n : NodeNum} (h_n : n ∈ ahead) : f' n = some t := by
  cases h with
  | drive h_app =>
    obtain ⟨-, h_dr, -, -, -, -, h_quiet⟩ := h_app.desk
    rw [heardBy_append, h_quiet, h_dr, h_driver, heardBy_reply_self, heardBy_nil, List.nil_append,
      List.foldl_cons, List.foldl_nil, NavTaskState.hear_path h_q.1] at h_phase
    -- what is ahead is the path that has just been taken
    cases h_phase
    exact take_of_among (.inl h_n)
  | blocked h_app =>
    -- nothing is handed out, so the worker goes on calling
    rw [h_app.desk.2.2.2.2.2.2, List.foldl_nil, h_q.2] at h_phase
    cases h_phase
  | arrive =>
    rw [heardBy_hardReverse, heardBy_finishAnswers not_isOther_straightpathWorker h_client,
      List.foldl_nil, h_q.2] at h_phase
    cases h_phase

/-- A message of the train hands it a path that is reserved, or leaves it on the path it is
on, with what is reserved. -/
theorem DeskStep.drives {phase : NavPhase} (h : DeskStep T t client d f req es d' f')
    (h_cell : Cell t d p q) (h_calls : Calls T client phase req)
    (h_q : client = .straightpathWorker t → q.waiting = none ∧ q.phase = phase)
    (h_idle : ∀ n, req = .registerLocation t n → d.state = .idle)
    (h_before : ∀ path ahead, q.phase = .driving path ahead → ∀ n ∈ ahead, f n = some t)
    (h_phase : ((heardBy (.straightpathWorker t) es).foldl NavTaskState.hear
      (q.sends (.straightpathWorker t = client) req)).phase = .driving path ahead)
    {n : NodeNum} (h_n : n ∈ ahead) : f' n = some t := by
  have h_same : ∀ {b : Prop} [Decidable b], (q.sends b req).phase = .driving path ahead →
      q.phase = .driving path ahead := by
    intro b _ h_b
    unfold NavTaskState.sends at h_b
    split at h_b
    · exact h_b
    · exact h_b
  have h_other := @not_isOther_straightpathWorker t
  cases h with
  -- the driver hears nothing of these, and stays on its path
  | busy | needRegister =>
    obtain ⟨k, rfl⟩ := h_calls.isOther trivial
    rw [heardBy_reply_ne (by simp)] at h_phase
    exact h_before _ _ (h_same h_phase) n h_n
  | search _ _ h_parked =>
    obtain h_none | ⟨h_pf, -⟩ := h_cell.pathfinder
    · exact absurd h_none.1 h_parked
    · rw [h_pf, heardBy_reply_ne (by simp)] at h_phase
      exact h_before _ _ (h_same h_phase) n h_n
  | searchLater | parkPathfinder | parkDriver => exact h_before _ _ (h_same h_phase) n h_n
  | giveSearch =>
    obtain ⟨rfl, -⟩ := h_calls.pathfindWorker
    rw [heardBy_reply_ne (by simp)] at h_phase
    exact h_before _ _ (h_same h_phase) n h_n
  | noPath =>
    obtain ⟨rfl, -⟩ := h_calls.pathfindWorkerDone
    rw [heardBy_reply_ne (by simp), heardBy_client h_other h_cell.client_other] at h_phase
    exact h_before _ _ (h_same h_phase) n h_n
  | searchAgain | follow =>
    obtain ⟨rfl, -⟩ := h_calls.pathfindWorkerDone
    rw [heardBy_reply_ne (by simp), heardBy_answers h_other h_cell.client_other] at h_phase
    exact h_before _ _ (h_same h_phase) n h_n
  -- the driver is given the next task, which is reserved
  | followNow _ _ _ h_driver h_next =>
    obtain ⟨rfl, -⟩ := h_calls.pathfindWorkerDone
    obtain h_none | ⟨h_dr, h_q⟩ := h_cell.driver
    · exact absurd h_none.1 h_driver
    · rw [List.cons_append, heardBy_reply_ne (by simp), heardBy_append,
        heardBy_answers h_other h_cell.client_other, List.nil_append, heardBy_nextTask,
        NavTaskState.sends_neg (by simp)] at h_phase
      refine h_next.drives (by simpa using h_dr) h_q (fun c h_c => ?_) h_phase h_n
      exact h_cell.client_other c
        (@Desk.client_of_answered { d with state := .straightpathing } c h_c)
  | next _ _ h_next =>
    obtain ⟨rfl, rfl⟩ := h_calls.straightpathWorker
    rw [heardBy_nextTask, NavTaskState.sends_pos rfl] at h_phase
    exact h_next.drives (q := { q with waiting := some (.straightpathWorker t) }) rfl
      ⟨rfl, (h_q rfl).2⟩ h_cell.client_other h_phase h_n
  -- the driver is told that it has arrived, and drives no path any more
  | arrived =>
    obtain ⟨rfl, -⟩ := h_calls.straightpathWorkerDone
    rw [heardBy_append, heardBy_finishAnswers h_other h_cell.client_other, heardBy_reply_self,
      heardBy_nil, List.nil_append, List.foldl_cons, NavTaskState.hear_good] at h_phase
    cases h_phase
  | drove =>
    obtain ⟨rfl, -⟩ := h_calls.straightpathWorkerDone
    rw [heardBy_reply_self, heardBy_nil, List.foldl_cons, NavTaskState.hear_good] at h_phase
    cases h_phase
  -- a train that drives is not registered
  | register =>
    obtain ⟨k, rfl⟩ := h_calls.isOther trivial
    rw [heardBy_reply_ne (by simp)] at h_phase
    have h_straight := (h_cell.driving _ _ (h_same h_phase)).1
    rw [h_idle _ rfl] at h_straight
    cases h_straight

end

/-- What a message of the courier leaves ahead of the driver was ahead of it. -/
theorem NavTaskState.ahead_of_pass {q : NavTaskState} {t : TrainNum} {req : NavRequest}
    {path ahead : List NodeNum}
    (h : (q.pass (.straightpathWorker t) req).phase = .driving path ahead) :
    ∃ ahead', q.phase = .driving path ahead' ∧ (∀ n ∈ ahead, n ∈ ahead') ∧
      ∀ sensorPool, req = .attributionCourier sensorPool →
        ahead = ahead'.rtakeWhile fun n => ¬Attributed sensorPool t n := by
  cases req with
  | attributionCourier sensorPool =>
    unfold pass at h
    -- a worker that does not drive does not begin to
    cases h_phase : q.phase with
    | driving path' ahead' =>
      simp only [h_phase] at h
      cases h
      refine ⟨ahead', rfl, fun n h_n => (List.rtakeWhile_suffix _ _).subset h_n, ?_⟩
      rintro sensorPool' h_eq
      cases h_eq
      rfl
    | _ =>
      simp only [h_phase] at h
      cases h
  | _ => exact ⟨ahead, h, fun n h_n => h_n, fun _ h_eq => by cases h_eq⟩

/-- **Reservations while driving.** As long as no message of the courier frees what is ahead of a
train, every node of the path that a train drives, behind the last sensor of it that has been
attributed to the train, is reserved for the train.

`ahead` is what the worker has left of its path, and a message of the courier leaves it less. Trains
are registered while IDLE and where no other train has reserved; `KeepsAhead` speaks of the
courier's messages only, and of what the server knows when one comes. -/
theorem driving_reserved {T : Track} {ms : List NavMessage} {w : NavWorld}
    (h : (worldSystem T).Reaches (fun w m => RegistersIdle w m ∧ KeepsAhead T w m) ms w)
    (t : TrainNum) (path ahead : List NodeNum)
    (h_phase : (w.tasks (.straightpathWorker t)).phase = .driving path ahead)
    (n : NodeNum) (h_n : n ∈ ahead) : w.server.reservedNodes n = some t := by
  have h_inv : Coupled T w ∧ ∀ t path ahead,
      (w.tasks (.straightpathWorker t)).phase = .driving path ahead →
        ∀ n ∈ ahead, w.server.reservedNodes n = some t := by
    refine @System.Reaches.invariant _ _ _ _ (fun w => Coupled T w ∧ ∀ t path ahead,
      (w.tasks (.straightpathWorker t)).phase = .driving path ahead →
        ∀ n ∈ ahead, w.server.reservedNodes n = some t) ?_ ?_ _ _ h
    · rintro w rfl
      exact ⟨coupled_start, fun t path ahead h_phase => by cases h_phase⟩
    · rintro w m w' ⟨h_w, h_before⟩ ⟨h_registers, h_keeps⟩ h_step
      refine ⟨h_w.step h_step, fun u path ahead h_phase n h_n => ?_⟩
      obtain ⟨h_send, ⟨t, es, d', f', h_train⟩ | ⟨h_shared, h_after⟩⟩ :=
        world_step_cases h_w.symmetric h_step
      · -- only a message of the train itself changes what it drives
        have h_register : ∀ k, m.req = .registerLocation t k → (w.server.desk t).state = .idle ∧
            (w.server.reservedNodes k = none ∨ w.server.reservedNodes k = some t) := by
          intro k h_req
          rw [RegistersIdle, h_req] at h_registers
          exact h_registers
        rw [h_train.table]
        -- the train of the message, or one whose cell the message leaves alone
        by_cases h_u : u = t
        · subst h_u
          rw [h_train.own_cell h_w not_isOther_straightpathWorker] at h_phase
          refine h_train.step.drives (h_w.cells u) h_send.2 ?_ ?_ (h_before u) h_phase h_n
          · exact fun h_eq => ⟨h_eq ▸ h_send.1, h_eq ▸ rfl⟩
          · exact fun k h_req => (h_register k h_req).1
        · rw [h_train.other_cells h_w h_send not_isOther_straightpathWorker
            ⟨by simp, by simp [h_u]⟩] at h_phase
          exact h_train.step.keeps h_w.symmetric (fun k h_req => (h_register k h_req).2) h_u
            (h_before u path ahead h_phase n h_n)
      · -- a message of no train: a worker that passes a sensor has less ahead of it
        obtain ⟨-, h_task⟩ | ⟨-, h_task⟩ :=
          h_shared.worker h_w h_after h_send (@not_isOther_straightpathWorker u)
        · rw [h_task] at h_phase
          obtain ⟨ahead', h_driving, h_sub, h_ahead⟩ := NavTaskState.ahead_of_pass h_phase
          have h_old := h_before u path ahead' h_driving n (h_sub n h_n)
          obtain h_table | ⟨sensorPool, h_req, h_table⟩ := h_shared.table
          · -- the table changes for the message of the courier only
            rw [h_table]
            exact h_old
          · rw [h_table]
            refine freeAttributed_of_passes (fun i h_i => ?_) h_old
            have h_path : (w.server.curStraightpathTasks u).path = path :=
              ((h_w.cells u).driving _ _ h_driving).2
            have h_passes : Passes T (w.server.regedAtNum u) path ahead i := by
              rw [KeepsAhead, h_req] at h_keeps
              have h_u := h_keeps u
              rw [h_driving] at h_u
              exact h_ahead sensorPool h_req ▸ h_u i h_i
            rw [h_path]
            exact (h_passes n h_n).imp id And.right
        · rw [h_task] at h_phase
          cases h_phase
  exact h_inv.2 t path ahead h_phase n h_n

/-- The courier reports sensor `i` as attributed to train 0. -/
def passed (i : Fin numSensors) : NavMessage :=
  ⟨.other 1, .attributionCourier fun j => if j = i then some 0 else none⟩

theorem driving_reserved_passed : ∃ w : NavWorld,
    ((w.tasks (.straightpathWorker 0)).phase = .driving [4, 6, 8] [8] ∧
      w.server.reservedNodes 6 = none) ∧ w.server.reservedNodes 8 = some 0 := by
  obtain ⟨w, h_reach, h_phase, h_6⟩ := System.exists_reaches_of_play (@worldNext_step ringTrack)
    (fun w m => RegistersIdle w m ∧ KeepsAhead ringTrack w m)
    (fun w => (w.tasks (.straightpathWorker 0)).phase = .driving [4, 6, 8] [8] ∧
      w.server.reservedNodes 6 = none)
    (thereAndBack ++ [passed 6]) rfl (by decide +kernel)
  exact ⟨w, ⟨h_phase, h_6⟩, driving_reserved h_reach 0 [4, 6, 8] [8] h_phase 8 (by decide)⟩

/-- A sensor of the way there is reported on the way back: all of the way back is freed. -/
theorem not_driving_reserved : ¬∀ ms w, (worldSystem ringTrack).Reaches
    (fun w m => RegistersIdle w m ∧ ReportsHanded w m) ms w → ∀ t path ahead,
      (w.tasks (.straightpathWorker t)).phase = .driving path ahead →
        ∀ n ∈ ahead, w.server.reservedNodes n = some t := by
  intro h_all
  obtain ⟨w, h_reach, h_phase, h_7⟩ := System.exists_reaches_of_play (@worldNext_step ringTrack)
    (fun w m => RegistersIdle w m ∧ ReportsHanded w m)
    (fun w => (w.tasks (.straightpathWorker 0)).phase = .driving [9, 7, 5, 3] [9, 7, 5, 3] ∧
      w.server.reservedNodes 7 = none)
    (thereAndBack ++ [⟨.straightpathWorker 0, .straightpathWorkerDone 0⟩,
      ⟨.straightpathWorker 0, .straightpathWorker 0⟩, passed 6]) rfl (by decide +kernel)
  have h_some := h_all _ w h_reach 0 _ _ h_phase 7 (by decide)
  rw [h_7] at h_some
  cases h_some

end Nav
end PollingExpress
