import PollingExpress.Nav.Distance
import PollingExpress.Nav.PathWorker

/-!
# The navigation server goes on

What can stop the server are its routes. A route may come with a straight path that does
not fit into a task, or with a reversal at a node that has no buffer nodes (`FitsTasks`);
or an empty one may come while a worker waits for a task (`NoEmptyRoute`). All the other
places at which `navigation_server` could go wrong it does not come to:

* a train that `process_next_task` turns around has been registered, since a train that is
  not idle has (`Asked`);
* only a worker says who it is, and the server knows the workers.

So in a run whose routes are `Sensible` no message that can be sent stops the server
(`exists_navigationServer`), and what is handed out has a length as `P` says
(`handedWork_of_reaches`).
-/

namespace PollingExpress
namespace Nav

/-- The straight paths of a route that is reported fit into tasks, and its reversals have
buffer nodes. -/
def FitsTasks (T : Track) (m : NavMessage) : Prop :=
  match m.req with
  | .pathfindWorkerDone _ _ path =>
    ∃ ps ∈ straightPaths T path.padding.head? [] [] path.nodes, ∀ p ∈ ps, p.length ≤ maxTaskPath
  | _ => True

/-- The message brings no route that the server, or a worker that it is handed out to, cannot deal
with: a worker that waits is not sent to an empty queue, the straight paths fit into tasks, and
their lengths are as `P` says. -/
structure Sensible (P : Int32 → Prop) (T : Track) (w : NavWorld) (m : NavMessage) : Prop where
  found : NoEmptyRoute w m
  fits : FitsTasks T m
  lengths : LegsMeet P T w m

instance (T : Track) (m : NavMessage) : Decidable (FitsTasks T m) := by
  unfold FitsTasks
  generalize m.req = req
  rcases req with _ | _ <;> infer_instance

instance (P : Int32 → Prop) [DecidablePred P] (T : Track) (w : NavWorld) (m : NavMessage) :
    Decidable (Sensible P T w m) :=
  decidable_of_iff (NoEmptyRoute w m ∧ FitsTasks T m ∧ LegsMeet P T w m)
    ⟨fun h => ⟨h.1, h.2.1, h.2.2⟩, fun h => ⟨h.found, h.fits, h.lengths⟩⟩

section

variable {T : Track} {s : NavServer} {t : TrainNum} {w : NavWorld} {m : NavMessage} {fault : Fault}

theorem processStraightpathTask_fault {task : StraightpathTask}
    (h : s.processStraightpathTask T t task = .error fault) : fault.Uninitialised := by
  unfold NavServer.processStraightpathTask at h
  dsimp only at h
  split at h
  · split at h
    · exact .inr (Except.error.inj h).symm
    · cases h
  · cases h

/-- The next task stops the server where there is none, or where the train is to be turned
around and nobody knows where it is. -/
theorem processNextTask_fault (h : s.processNextTask T t = .error fault) :
    fault.Uninitialised ∨ s.regedAtNum t = none := by
  unfold NavServer.processNextTask at h
  dsimp only at h
  -- no task, a STRAIGHT one, or a reversal and then a STRAIGHT one
  split at h
  · exact .inl (.inl (Except.error.inj h).symm)
  · exact .inl (processStraightpathTask_fault h)
  · obtain h | ⟨s₁, -, h⟩ := of_bind_error h
    · unfold NavServer.hardReverse at h
      dsimp only at h
      split at h
      · next h_none => exact .inr h_none
      · cases h
    · split at h
      · cases h
      · exact .inl (processStraightpathTask_fault h)

theorem processOrRestart_fault (h : s.processOrRestart T t = .error fault) :
    fault.Uninitialised ∨ s.regedAtNum t = none := by
  obtain h | ⟨⟨again, s₁⟩, -, h⟩ := of_bind_error h
  · exact processNextTask_fault h
  · dsimp only at h
    split at h <;> cases h

/-- **The server goes on**, whatever message that can be sent comes, if its route can be dealt with.

The faults that have to do with missing values are excluded already (`navigationServer_defined`).
The others are looked at request by request: a worker says what it is, a train that is turned around
has a place (`h_placed`), and a report brings a route that fits. -/
theorem exists_navigationServer (h : Coupled T w) (h_asked : Asked w)
    (h_queue : ∀ t, QueueOk t (w.server.navigationTasks t).items) (h_send : w.MaySend T m)
    (h_found : NoEmptyRoute w m) (h_fits : FitsTasks T m) :
    ∃ s', w.server.navigationServer T m.client m.req = .ok s' := by
  cases h_run : w.server.navigationServer T m.client m.req with
  | ok s' => exact ⟨s', rfl⟩
  | error fault =>
    exfalso
    have h_defined : ¬fault.Uninitialised := fun h_fault =>
      navigationServer_defined h h_queue h_send h_found h_fault h_run
    -- the places of a train that is not idle are known
    have h_placed : ∀ t, w.server.states t ≠ .idle → w.server.regedAtNum t ≠ none :=
      fun t h_state => ((h_asked.aimed t).placed h_state).1
    obtain ⟨client, req⟩ := m
    cases req with
    | navigationRequest | straightpathWorkerDone | pathfindWorker | attributionCourier
    | getReservations | getTrainState | registerLocation => cases h_run
    | whoami workerType =>
      have h_calls : Calls T client (w.tasks client).phase (.whoami workerType) := h_send.2
      change w.server.whoami client workerType = .error fault at h_run
      unfold NavServer.whoami at h_run
      split at h_run
      · cases h_run
      · cases h_run
      · next h_driver h_pathfinder =>
        -- a worker says what it is
        cases client with
        | pathfindWorker u =>
          cases workerType with
          | pathfind => exact h_pathfinder u rfl rfl
          | straightpath =>
            generalize (w.tasks _).phase = phase at h_calls; cases phase <;> cases h_calls
        | straightpathWorker u =>
          cases workerType with
          | pathfind =>
            generalize (w.tasks _).phase = phase at h_calls; cases phase <;> cases h_calls
          | straightpath => exact h_driver u rfl rfl
        | other k => cases h_calls
    | straightpathWorker t =>
      change w.server.straightpathWorker T client t = .error fault at h_run
      unfold NavServer.straightpathWorker at h_run
      dsimp only at h_run
      split at h_run
      · cases h_run
      · next h_work =>
        have h_state : w.server.states t = .straightpathing := not_not.mp (not_or.mp h_work).1
        obtain h_fault | h_none := processOrRestart_fault h_run
        · exact h_defined h_fault
        · exact h_placed t (by simp [h_state]) h_none
    | pathfindWorkerDone t result path =>
      obtain ⟨-, source, destination, h_phase, -⟩ := h_send.2.pathfindWorkerDone
      obtain ⟨s₁, f, es, h_acts, -, -, h_error | ⟨tasks, -, -, h_error⟩⟩ :=
        pathfindWorkerDone_error h_run
      · obtain ⟨ps, h_ps, h_le⟩ := h_fits
        obtain ⟨new, h_ok, -⟩ := (segmentsFillNavigationTasks_spec path (w.server.desk t).tasks t
          (w.server.desk t).trainState.destOffset h_ps).1 h_le
        cases h_error.symm.trans h_ok
      · obtain h_fault | h_none := processOrRestart_fault h_error
        · exact h_defined h_fault
        · -- the train was searching, so it has a place, and the answers leave it there
          have h_state := ((h.cells t).searching source destination (by
            obtain ⟨rfl, -⟩ := h_send.2.pathfindWorkerDone
            exact h_phase)).1
          have h_place : s₁.regedAtNum t = w.server.regedAtNum t :=
            congrArg TrainState.regedAtNum
              ((congrArg Desk.trainState h_acts.self).trans (Desk.answered_trainState _))
          exact h_placed t (fun h_idle => by cases h_state.symm.trans h_idle)
            (h_place.symm.trans h_none)

end

/-- **No fault**, in every run whose routes can be dealt with. What the server needs of its tables
is what has been shown of every reachable world: the coupling, the shape of the queues and the aim
of the searches. -/
theorem exists_world_step {T : Track} {ok : NavWorld → NavMessage → Prop} {ms : List NavMessage}
    {w : NavWorld} (h : (worldSystem T).Reaches ok ms w) {m : NavMessage} (h_send : w.MaySend T m)
    (h_found : NoEmptyRoute w m) (h_fits : FitsTasks T m) :
    ∃ s', w.server.navigationServer T m.client m.req = .ok s' := by
  obtain ⟨h_w, h_queue⟩ := queues_of_reaches h
  exact exists_navigationServer h_w (asked_of_reaches h).2.2 h_queue h_send h_found h_fits

end Nav
end PollingExpress
