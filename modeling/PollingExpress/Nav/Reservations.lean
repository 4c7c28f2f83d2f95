import Mathlib.Logic.Relation
import PollingExpress.Framework.Fallible
import PollingExpress.Framework.Ownership
import PollingExpress.Nav.Server

/-!
# Reservations

What the messages do to the reservation table and to the places where the trains are
registered (`Ownings`). Apart from `REGISTER_LOCATION` and the attribution courier, a
message is one of a train, and does some of three things for it (`OwnStep`): it gives
back nodes, the train is turned around where it is, or it takes a path that is free
and is registered at its end (`Handled`).

From this come two invariants. Both directions of a node belong to the same train in
every reachable state (`reservation_symmetric`). And a registered train has the node it
is registered at, as long as nobody registers another train there (`standing_of_reaches`):
`REGISTER_LOCATION` takes the node without looking at who has it.
-/

namespace PollingExpress

open Ownership

theorem Track.involutive (T : Track) : Function.Involutive T.reverse := T.reverse_reverse'

namespace Nav

/-- Who has which node, and where the trains are registered. -/
structure Ownings where
  table : NodeNum → Option TrainNum
  reged : TrainNum → Option NodeNum

namespace NavServer

def ownings (s : NavServer) : Ownings := ⟨s.reservedNodes, s.regedAtNum⟩

def withTable (s : NavServer) (table : NodeNum → Option TrainNum) (dirty : Bool) : NavServer :=
  { s with reservedNodes := table, reservationDirty := dirty }

@[simp] theorem ownings_withTable (s : NavServer) (table : NodeNum → Option TrainNum)
    (dirty : Bool) : (s.withTable table dirty).ownings = { s.ownings with table } := rfl

/-! ### The loops over the table -/

section Loops

variable (T : Track) {s : NavServer} (t : TrainNum)

theorem unreserveNode_eq (h : Symmetric T.reverse s.reservedNodes) (n : NodeNum) :
    ∃ dirty, s.unreserveNode T n t =
      s.withTable (free T.reverse (s.regedAtNum t) t [n] s.reservedNodes) dirty := by
  rw [free_singleton T.involutive h]
  unfold unreserveNode
  by_cases h_own : s.reservedNodes n = some t ∧ ¬At T.reverse (s.regedAtNum t) n
  · rw [if_pos h_own, if_pos (by simpa [At] using h_own)]
    exact ⟨true, rfl⟩
  · rw [if_neg h_own, if_neg (by simpa [At] using h_own)]
    exact ⟨s.reservationDirty, rfl⟩

/-- Freeing one node after the other. -/
theorem unreserveNodes_eq (h : Symmetric T.reverse s.reservedNodes) (l : List NodeNum) :
    ∃ dirty, l.foldl (fun s n => s.unreserveNode T n t) s =
      s.withTable (free T.reverse (s.regedAtNum t) t l s.reservedNodes) dirty := by
  induction l generalizing s with
  | nil => exact ⟨s.reservationDirty, by rw [free_nil]; rfl⟩
  | cons n l ih =>
    obtain ⟨dirty, h_node⟩ := unreserveNode_eq T t h n
    rw [List.foldl_cons, h_node, show n :: l = [n] ++ l from rfl, free_append]
    exact @ih (s.withTable _ dirty) (symmetric_free T.involutive h)

theorem clearReservedByTrain_eq (h : Symmetric T.reverse s.reservedNodes) :
    ∃ dirty, s.clearReservedByTrain T t = s.withTable
      (free T.reverse (s.regedAtNum t) t (List.finRange trackMax) s.reservedNodes) dirty :=
  unreserveNodes_eq T t h _

/-- The nodes of a path up to `node`, or all of them if it is not on the path. -/
def upTo (node : NodeNum) : List NodeNum → List NodeNum
  | [] => []
  | n :: rest => if n = node then [n] else n :: upTo node rest

theorem unreservePathSrcUpToNode_eq (h : Symmetric T.reverse s.reservedNodes) (node : NodeNum) :
    ∃ dirty, s.unreservePathSrcUpToNode T node t = s.withTable (free T.reverse (s.regedAtNum t) t
      (upTo node (s.curStraightpathTasks t).path) s.reservedNodes) dirty := by
  have h_loop : ∀ (path : List NodeNum) (s : NavServer), s.unreserveUpTo T node t path =
      (upTo node path).foldl (fun s n => s.unreserveNode T n t) s := by
    intro path
    induction path with
    | nil => exact fun _ => rfl
    | cons n rest ih =>
      intro s
      rw [unreserveUpTo, upTo]
      -- the walk ends at the node, or goes to the end of the path
      split
      · rfl
      · exact ih _
  rw [unreservePathSrcUpToNode, h_loop]
  exact unreserveNodes_eq T t h _

theorem reservePath_eq (path : List NodeNum) : ∃ dirty, s.reservePath T path t =
    s.withTable (take T.reverse t path s.reservedNodes) dirty := by
  unfold reservePath
  induction path generalizing s with
  | nil => exact ⟨s.reservationDirty, by rw [take_nil]; rfl⟩
  | cons n path ih =>
    have h_node :
        s.reserveNode T n t = s.withTable (take T.reverse t [n] s.reservedNodes) true := by
      rw [take_singleton T.involutive]
      rfl
    rw [List.foldl_cons, h_node, show n :: path = [n] ++ path from rfl, take_append]
    exact @ih (s.withTable _ true)

theorem canReserveSegment_iff (path : List NodeNum) : s.canReserveSegment path t = true ↔
    ∀ n ∈ path, s.reservedNodes n = none ∨ s.reservedNodes n = some t := by
  simp [canReserveSegment]

end Loops

end NavServer

/-! ### What a message does -/

/-- What is done for train `t`. -/
inductive OwnStep (T : Track) (t : TrainNum) (o : Ownings) : Ownings → Prop
  | free (l : List NodeNum) :
      OwnStep T t o { o with table := Ownership.free T.reverse (o.reged t) t l o.table }
  /-- The train is turned around. -/
  | turn {n : NodeNum} (h : o.reged t = some n) :
      OwnStep T t o { o with reged := Function.update o.reged t (some (T.reverse n)) }
  /-- The train is given a path. -/
  | drive {path : List NodeNum} {last : NodeNum}
      (h_can : ∀ n ∈ path, o.table n = none ∨ o.table n = some t) (h_last : last ∈ path) :
      OwnStep T t o {
        table := take T.reverse t path o.table
        reged := Function.update o.reged t (some last) }

/-- Train `t` is put at `n`: it gives back what it has, and takes the node from whoever has
it. -/
def Ownings.register (T : Track) (o : Ownings) (t : TrainNum) (n : NodeNum) : Ownings where
  table :=
    take T.reverse t [n] (Ownership.free T.reverse (some n) t (List.finRange trackMax) o.table)
  reged := Function.update o.reged t (some n)

abbrev OwnSteps (T : Track) (t : TrainNum) : Ownings → Ownings → Prop :=
  Relation.ReflTransGen (OwnStep T t)

/-- Steps for any trains. -/
abbrev AnySteps (T : Track) : Ownings → Ownings → Prop :=
  Relation.ReflTransGen fun o o' => ∃ t, OwnStep T t o o'

theorem OwnStep.symmetric {T : Track} {t : TrainNum} {o o' : Ownings} (h : OwnStep T t o o')
    (h_o : Symmetric T.reverse o.table) : Symmetric T.reverse o'.table := by
  cases h with
  | free l => exact symmetric_free T.involutive h_o
  | turn => exact h_o
  | drive => exact symmetric_take T.involutive h_o

theorem OwnSteps.symmetric {T : Track} {t : TrainNum} {o o' : Ownings} (h : OwnSteps T t o o')
    (h_o : Symmetric T.reverse o.table) : Symmetric T.reverse o'.table := by
  induction h with
  | refl => exact h_o
  | tail _ h_step ih => exact h_step.symmetric ih

namespace NavServer

section Messages

variable {T : Track} {s s' : NavServer} {t : TrainNum}

theorem ownings_setTrainState (s : NavServer) (t : TrainNum) (f : TrainState → TrainState) :
    (s.setTrainState t f).ownings = { s.ownings with
      reged := Function.update s.ownings.reged t (f (s.trainStates t)).regedAtNum } := by
  refine congrArg (Ownings.mk s.reservedNodes) ?_
  funext u
  simp only [ownings, regedAtNum, setTrainState, Function.update_apply]
  split <;> rfl

/-- A change to the state of a train that does not move it. -/
theorem ownings_setTrainState_eq (s : NavServer) (t : TrainNum) {f : TrainState → TrainState}
    (h : ∀ st, (f st).regedAtNum = st.regedAtNum) : (s.setTrainState t f).ownings = s.ownings := by
  rw [ownings_setTrainState, h]
  exact congrArg (Ownings.mk s.reservedNodes) (Function.update_eq_self t s.regedAtNum)

@[simp] theorem ownings_flush (s : NavServer) : s.flush.ownings = s.ownings := by
  unfold flush
  dsimp only
  split_ifs <;> rfl

theorem clearReservedByTrain_owns (h : Symmetric T.reverse s.reservedNodes) :
    OwnSteps T t s.ownings (s.clearReservedByTrain T t).ownings := by
  obtain ⟨dirty, h_clear⟩ := clearReservedByTrain_eq T t h
  rw [h_clear]
  exact .single (.free _)

/-- A path that is tried: the train gives back what it has but for its place, takes the path if it
can, and is then registered at the end of it. -/
theorem processStraightpathTask_owns {task : StraightpathTask} {again : Bool}
    (h : Symmetric T.reverse s.reservedNodes)
    (h_ok : s.processStraightpathTask T t task = .ok (again, s')) :
    OwnSteps T t s.ownings s'.ownings := by
  unfold processStraightpathTask at h_ok
  dsimp only at h_ok
  -- the train gives back what it has first, and then takes the path if it can
  have h_clear := @clearReservedByTrain_owns T
    { s with curStraightpathTasks := Function.update s.curStraightpathTasks t task } t h
  generalize ({ s with curStraightpathTasks := Function.update s.curStraightpathTasks t task } :
    NavServer).clearReservedByTrain T t = cleared at h_ok h_clear
  change OwnSteps T t s.ownings cleared.ownings at h_clear
  split at h_ok
  · next h_can =>
    cases h_last : task.path.getLast? with
    | none => simp [h_last] at h_ok
    | some last =>
      simp only [h_last, Except.ok.injEq, Prod.mk.injEq] at h_ok
      obtain ⟨-, rfl⟩ := h_ok
      refine h_clear.tail ?_
      obtain ⟨dirty, h_reserve⟩ := @reservePath_eq T cleared t task.path
      rw [ownings_setTrainState, h_reserve]
      exact .drive ((canReserveSegment_iff t task.path).mp h_can) (List.mem_of_getLast? h_last)
  · obtain ⟨-, rfl⟩ := Prod.mk.inj (Except.ok.inj h_ok)
    exact h_clear

theorem doneNavigation_owns (h : Symmetric T.reverse s.reservedNodes) :
    OwnSteps T t s.ownings (s.doneNavigation T t).ownings := by
  have h_clear : OwnSteps T t s.ownings (s.clearReservedByTrain T t).ownings :=
    clearReservedByTrain_owns h
  unfold doneNavigation
  generalize s.clearReservedByTrain T t = cleared at h_clear
  dsimp only
  split
  · exact h_clear
  · exact h_clear

theorem hardReverse_owns (h_ok : s.hardReverse T t = .ok s') :
    OwnStep T t s.ownings s'.ownings := by
  unfold hardReverse at h_ok
  dsimp only at h_ok
  split at h_ok
  · cases h_ok
  · next n h_n =>
    obtain rfl := Except.ok.inj h_ok
    have h_turn : OwnStep T t s.ownings
        { s.ownings with reged := Function.update s.ownings.reged t (some (T.reverse n)) } :=
      .turn h_n
    rwa [← ownings_setTrainState s t fun st => { st with
      reversed := !st.reversed, regedAtNum := some (T.reverse n), regedAtOffset := -100 }] at h_turn

/-- `process_next_task`: turning around moves a train to the reverse of its node, which it owns as
well, and a straight path is tried as it always is. -/
theorem processNextTask_owns {again : Bool} (h : Symmetric T.reverse s.reservedNodes)
    (h_ok : s.processNextTask T t = .ok (again, s')) : OwnSteps T t s.ownings s'.ownings := by
  unfold processNextTask at h_ok
  dsimp only at h_ok
  generalize h_called : s.emit (.nextTask t (s.navigationTasks t).items
    (s.straightpathWorkersParking t)) = called at h_ok
  -- noting the call changes nothing of what is owned
  have h_own : s.ownings = called.ownings := by rw [← h_called]; rfl
  have h : Symmetric T.reverse called.reservedNodes := by rw [← h_called]; exact h
  rw [h_own]
  split at h_ok
  · cases h_ok
  · next task tasks _ =>
    exact @processStraightpathTask_owns T (called.setNavigationTasks t tasks) s' t task again h h_ok
  · next tasks _ =>
    obtain ⟨s₁, h_reverse, h_ok⟩ := of_bind_ok h_ok
    -- turning the train around moves it to the reverse of its node, which it owns
    have h_turn : OwnSteps T t called.ownings s₁.ownings :=
      .single (@hardReverse_owns T (called.setNavigationTasks t tasks) s₁ t h_reverse)
    have h_sym := h_turn.symmetric h
    split at h_ok
    · obtain ⟨-, rfl⟩ := Prod.mk.inj (Except.ok.inj h_ok)
      exact h_turn.trans (doneNavigation_owns h_sym)
    · next task tasks' _ =>
      exact h_turn.trans (@processStraightpathTask_owns T (s₁.setNavigationTasks t tasks') s' t _
        again h_sym h_ok)

theorem processOrRestart_owns (h : Symmetric T.reverse s.reservedNodes)
    (h_ok : s.processOrRestart T t = .ok s') : OwnSteps T t s.ownings s'.ownings := by
  obtain ⟨⟨again, s₁⟩, h_next, h_ok⟩ := of_bind_ok h_ok
  have h_steps := processNextTask_owns h h_next
  dsimp only at h_ok
  split at h_ok
  · obtain rfl := Except.ok.inj h_ok
    exact h_steps
  · obtain rfl := Except.ok.inj h_ok
    rwa [ownings_flush]

theorem followPath_owns {path : RoutePath} (h : Symmetric T.reverse s.reservedNodes)
    (h_ok : s.followPath T t path = .ok s') : OwnSteps T t s.ownings s'.ownings := by
  obtain ⟨tasks, -, h_ok⟩ := of_bind_ok h_ok
  dsimp only at h_ok
  split at h_ok
  · exact @processOrRestart_owns T (s.setNavigationTasks t tasks) s' t h h_ok
  · obtain rfl := Except.ok.inj h_ok
    rw [ownings_flush]
    exact .refl

@[simp] theorem ownings_answerClient (s : NavServer) (t : TrainNum) :
    (s.answerClient t).ownings = s.ownings := by
  unfold answerClient
  split <;> rfl

/-- A report changes what is owned only through the first task, if it is handed out at once. -/
theorem pathfindWorkerDone_owns {client : NavTask} {result : PathfindResult} {path : RoutePath}
    (h : Symmetric T.reverse s.reservedNodes)
    (h_ok : s.pathfindWorkerDone T client t result path = .ok s') :
    OwnSteps T t s.ownings s'.ownings := by
  unfold pathfindWorkerDone at h_ok
  dsimp only at h_ok
  split at h_ok
  · obtain rfl := Except.ok.inj h_ok
    exact .refl
  · -- the answers change nothing of what is owned
    have h_answer :=
      ownings_answerClient ((s.reply (some client) .good).setState t .straightpathing) t
    generalize ((s.reply (some client) .good).setState t .straightpathing).answerClient t = answered
      at h_ok h_answer
    change answered.ownings = s.ownings at h_answer
    split at h_ok
    · obtain rfl := Except.ok.inj h_ok
      change OwnSteps T t s.ownings answered.ownings
      rw [h_answer]
    · have h_table : answered.reservedNodes = s.reservedNodes := congrArg Ownings.table h_answer
      rw [← h_answer]
      exact followPath_owns (h_table.symm ▸ h) h_ok

theorem straightpathWorker_owns {client : NavTask} (h : Symmetric T.reverse s.reservedNodes)
    (h_ok : s.straightpathWorker T client t = .ok s') : OwnSteps T t s.ownings s'.ownings := by
  unfold straightpathWorker at h_ok
  dsimp only at h_ok
  split at h_ok
  · obtain rfl := Except.ok.inj h_ok
    exact .refl
  · exact @processOrRestart_owns T (s.parkStraightpathWorker t (some client)) s' t h h_ok

theorem straightpathWorkerDone_owns (client : NavTask) (h : Symmetric T.reverse s.reservedNodes) :
    OwnSteps T t s.ownings (s.straightpathWorkerDone T client t).ownings := by
  unfold straightpathWorkerDone
  dsimp only
  rw [ownings_flush]
  split
  · have h_done : OwnSteps T t s.ownings (s.doneNavigation T t).ownings := doneNavigation_owns h
    generalize s.doneNavigation T t = done at h_done
    exact h_done
  · exact .refl

@[simp] theorem ownings_startSearch (s : NavServer) (t : TrainNum) (task : PathfindTask) :
    (s.startSearch t task).ownings = s.ownings := by
  unfold startSearch
  split <;> rfl

theorem ownings_navigationRequest (s : NavServer) (client : NavTask) (t : TrainNum)
    (destinationNum : NodeNum) (offset : Int32) (shouldHang : Bool) :
    (s.navigationRequest client t destinationNum offset shouldHang).ownings = s.ownings := by
  unfold navigationRequest
  dsimp only
  split
  · rfl
  · split
    · rfl
    · rw [ownings_flush, ownings_startSearch]
      exact @ownings_setTrainState_eq
        (((s.setState t .pathfinding).setClient t (some client)).setShouldHang t shouldHang) t
        (fun st => { st with destNum := some destinationNum, destOffset := offset }) fun _ => rfl

theorem ownings_pathfindWorker (s : NavServer) (client : NavTask) (t : TrainNum) :
    (s.pathfindWorker client t).ownings = s.ownings := by
  unfold pathfindWorker
  dsimp only
  split
  · rfl
  · rw [ownings_flush]
    rfl

theorem ownings_registerLocation (client : NavTask) (h : Symmetric T.reverse s.reservedNodes)
    (n : NodeNum) : (s.registerLocation T client t n).ownings = s.ownings.register T t n := by
  unfold registerLocation
  dsimp only
  -- the train is moved first, so what is cleared is all but the new node
  have h_moved := ownings_setTrainState s t fun st => { st with
    regedAtOffset := if (T.node n).type = .enter then 250 else 0, regedAtNum := some n }
  generalize (s.setTrainState t fun st => { st with
    regedAtOffset := if (T.node n).type = .enter then 250 else 0, regedAtNum := some n }) = moved
    at h_moved
  have h_table : moved.reservedNodes = s.reservedNodes := congrArg Ownings.table h_moved
  have h_reged : moved.regedAtNum = Function.update s.regedAtNum t (some n) :=
    congrArg Ownings.reged h_moved
  obtain ⟨dirty, h_clear⟩ := clearReservedByTrain_eq T t (h_table.symm ▸ h)
  rw [ownings_flush, h_clear, h_table, h_reged, Function.update_self, Ownings.register,
    take_singleton T.involutive]
  exact congrArg (Ownings.mk _) h_reged

/-- The table after the sensors in `l` have been looked up in a message of the courier. -/
def freeAttributed (T : Track) (s : NavServer) (sensorPool : Fin numSensors → Option TrainNum)
    (l : List (Fin numSensors)) (f : NodeNum → Option TrainNum) : NodeNum → Option TrainNum :=
  l.foldl (fun f i => match sensorPool i with
    | some t => free T.reverse (s.regedAtNum t) t
        (upTo (sensorNode i) (s.curStraightpathTasks t).path) f
    | none => f) f

/-- `NAVIGATIONSERVER_ATTRIBUTION_COURIER` changes the table, and answers. The loop over the sensors
is one over the table alone; all other variables are those of the start. -/
theorem attributionCourier_eq (client : NavTask) (sensorPool : Fin numSensors → Option TrainNum)
    (h : Symmetric T.reverse s.reservedNodes) : ∃ dirty, s.attributionCourier T client sensorPool =
      ((s.withTable (freeAttributed T s sensorPool (List.finRange numSensors) s.reservedNodes)
        dirty).reply (some client) .good).flush := by
  -- looking up one sensor after the other only changes the table
  have h_fold : ∀ (l : List (Fin numSensors)) (f : NodeNum → Option TrainNum) (dirty : Bool),
      Symmetric T.reverse f → ∃ dirty', l.foldl (fun s i => match sensorPool i with
        | some t => s.unreservePathSrcUpToNode T (sensorNode i) t
        | none =>
          s) (s.withTable f dirty) = s.withTable (freeAttributed T s sensorPool l f) dirty' := by
    intro l
    induction l with
    | nil => exact fun f dirty _ => ⟨dirty, rfl⟩
    | cons i l ih =>
      intro f dirty h_f
      rw [List.foldl_cons, freeAttributed, List.foldl_cons]
      cases h_i : sensorPool i with
      | none => exact ih f dirty h_f
      | some t =>
        obtain ⟨dirty', h_node⟩ := @unreservePathSrcUpToNode_eq T (s.withTable f dirty) t h_f
          (sensorNode i)
        dsimp only
        rw [h_node]
        exact ih _ dirty' (symmetric_free T.involutive h_f)
  obtain ⟨dirty, h_eq⟩ := h_fold (List.finRange numSensors) s.reservedNodes s.reservationDirty h
  exact ⟨dirty, congrArg (fun s => (NavServer.reply s (some client) .good).flush) h_eq⟩

theorem ownings_attributionCourier (client : NavTask)
    (sensorPool : Fin numSensors → Option TrainNum) (h : Symmetric T.reverse s.reservedNodes) :
    (s.attributionCourier T client sensorPool).ownings = { s.ownings with
      table := freeAttributed T s sensorPool (List.finRange numSensors) s.reservedNodes } := by
  obtain ⟨dirty, h_eq⟩ := attributionCourier_eq client sensorPool h
  rw [h_eq, ownings_flush]
  rfl

theorem freeAttributed_steps (sensorPool : Fin numSensors → Option TrainNum)
    (l : List (Fin numSensors)) (f : NodeNum → Option TrainNum) :
    AnySteps T { s.ownings with table := f }
      { s.ownings with table := freeAttributed T s sensorPool l f } := by
  induction l generalizing f with
  | nil => exact .refl
  | cons i l ih =>
    rw [freeAttributed, List.foldl_cons]
    cases h_i : sensorPool i with
    | none => exact ih f
    | some t => exact .head ⟨t, .free _⟩ (ih _)

/-- `REGISTER_LOCATION` moves the train; any other message does a sequence of steps for
trains. -/
theorem navigationServer_owns {client : NavTask} {req : NavRequest}
    (h : Symmetric T.reverse s.reservedNodes)
    (h_ok : s.navigationServer T client req = .ok s') :
    (∃ t n, req = .registerLocation t n ∧ s'.ownings = s.ownings.register T t n) ∨
      AnySteps T s.ownings s'.ownings := by
  -- the steps of one train are steps, and no change is none
  have h_train : ∀ {t : TrainNum} {s' : NavServer}, OwnSteps T t s.ownings s'.ownings →
      AnySteps T s.ownings s'.ownings :=
    fun h_steps => h_steps.lift id fun _ _ h_step => ⟨_, h_step⟩
  have h_same : ∀ {s' : NavServer}, s'.ownings = s.ownings → AnySteps T s.ownings s'.ownings :=
    fun h_eq => h_eq ▸ .refl
  cases req with
  | navigationRequest t destinationNum offset shouldHang =>
    obtain rfl := Except.ok.inj h_ok
    exact .inr (h_same (ownings_navigationRequest ..))
  | straightpathWorker t => exact .inr (h_train (straightpathWorker_owns h h_ok))
  | straightpathWorkerDone t =>
    obtain rfl := Except.ok.inj h_ok
    exact .inr (h_train (straightpathWorkerDone_owns client h))
  | pathfindWorker t =>
    obtain rfl := Except.ok.inj h_ok
    exact .inr (h_same (ownings_pathfindWorker ..))
  | pathfindWorkerDone t result path => exact .inr (h_train (pathfindWorkerDone_owns h h_ok))
  -- the courier frees nodes for all trains, one after the other
  | attributionCourier sensorPool =>
    obtain rfl := Except.ok.inj h_ok
    rw [ownings_attributionCourier client sensorPool h]
    exact .inr (freeAttributed_steps sensorPool _ _)
  | whoami workerType =>
    refine .inr (h_same ?_)
    change s.whoami client workerType = .ok s' at h_ok
    unfold whoami at h_ok
    split at h_ok
    · obtain rfl := Except.ok.inj h_ok
      exact ownings_flush _
    · obtain rfl := Except.ok.inj h_ok
      exact ownings_flush _
    · cases h_ok
  | getReservations =>
    obtain rfl := Except.ok.inj h_ok
    exact .inr (h_same (ownings_flush _))
  | getTrainState =>
    obtain rfl := Except.ok.inj h_ok
    exact .inr (h_same (ownings_flush _))
  -- the one message with which a train comes to a place without a reservation
  | registerLocation t n =>
    obtain rfl := Except.ok.inj h_ok
    exact .inl ⟨t, n, rfl, ownings_registerLocation client h n⟩

end Messages

end NavServer

/-! ### Both directions of a node -/

/-- A reservation that is possible takes nothing away from another train, in either direction, and
the path belongs to the train in both. That both directions of a node are always alike is what makes
the check of one of them enough. -/
structure Exclusion (T : Track) (s : NavServer) : Prop where
  symmetric : ∀ n, s.reservedNodes (T.reverse n) = s.reservedNodes n
  others : ∀ t path, s.canReserveSegment path t = true → ∀ n u, u ≠ t →
    s.reservedNodes n = some u → (s.reservePath T path t).reservedNodes n = some u
  path_owned : ∀ t path, s.canReserveSegment path t = true → ∀ n ∈ path,
    (s.reservePath T path t).reservedNodes n = some t ∧
      (s.reservePath T path t).reservedNodes (T.reverse n) = some t

theorem exclusion_of_symmetric {T : Track} {s : NavServer}
    (h : Symmetric T.reverse s.reservedNodes) : Exclusion T s := by
  refine ⟨h, fun t path h_can n u h_ne h_u => ?_, fun t path h_can n hn => ?_⟩
  · obtain ⟨dirty, h_eq⟩ := NavServer.reservePath_eq T t path
    rw [h_eq]
    exact take_of_owned h ((NavServer.canReserveSegment_iff t path).mp h_can) h_u h_ne
  · obtain ⟨dirty, h_eq⟩ := NavServer.reservePath_eq T t path
    rw [h_eq]
    refine ⟨take_of_among (.inl hn), take_of_among (.inr ?_)⟩
    rwa [T.reverse_reverse']

theorem AnySteps.symmetric {T : Track} {o o' : Ownings} (h : AnySteps T o o')
    (h_o : Symmetric T.reverse o.table) : Symmetric T.reverse o'.table := by
  induction h with
  | refl => exact h_o
  | tail _ h_step ih => exact h_step.choose_spec.symmetric ih

theorem Ownings.register_symmetric {T : Track} {o : Ownings}
    (h_o : Symmetric T.reverse o.table) (t : TrainNum) (n : NodeNum) :
    Symmetric T.reverse (o.register T t n).table :=
  symmetric_take T.involutive (symmetric_free T.involutive h_o)

theorem symmetric_step {T : Track} {s s' : NavServer} {client : NavTask} {req : NavRequest}
    (h : Symmetric T.reverse s.reservedNodes)
    (h_ok : s.navigationServer T client req = .ok s') : Symmetric T.reverse s'.reservedNodes := by
  obtain ⟨t, n, -, h_eq⟩ | h_steps := NavServer.navigationServer_owns h h_ok
  · have h_table : s'.reservedNodes = (s.ownings.register T t n).table :=
      congrArg Ownings.table h_eq
    rw [h_table]
    exact Ownings.register_symmetric h t n
  · exact h_steps.symmetric h

theorem symmetric_of_reachable {T : Track} {s : NavServer} (h : (navSystem T).Reachable s) :
    Symmetric T.reverse s.reservedNodes := by
  refine @System.Reachable.invariant _ _ _ (fun s => Symmetric T.reverse s.reservedNodes) ?_ ?_ _ h
  · rintro s rfl
    exact fun _ => rfl
  · exact fun s m s' h_sym h_step => symmetric_step h_sym h_step

/-- **Exclusion.** In every reachable state, for messages of any tasks in any order, and also after
`process_straightpath_task` has freed the nodes of a train.

The invariant is that a node and its reverse are reserved by the same train: all reserving and
freeing is done in pairs. `can_reserve_segment` looks at one node of each pair only, and this is
enough. -/
theorem reservation_exclusion {T : Track} {s : NavServer} (h : (navSystem T).Reachable s) :
    Exclusion T s ∧ ∀ t, Exclusion T (s.clearReservedByTrain T t) := by
  have h_sym := symmetric_of_reachable h
  refine ⟨exclusion_of_symmetric h_sym, fun t => exclusion_of_symmetric ?_⟩
  -- what is cleared is cleared in both directions
  obtain ⟨dirty, h_clear⟩ := NavServer.clearReservedByTrain_eq T t h_sym
  rw [h_clear]
  exact symmetric_free T.involutive h_sym

/-- What `navigation_server` does next, if its behaviour is defined. -/
def navNext (T : Track) (s : NavServer) (m : NavMessage) : Option NavServer :=
  (s.navigationServer T m.client m.req).toOption

theorem navNext_step {T : Track} (s : NavServer) (m : NavMessage) (s' : NavServer)
    (h : navNext T s m = some s') : (navSystem T).step s m s' := of_toOption h

/-- Train 0 is sent along the ring, where train 1 stands at node 20; its worker has been given the
path, and the courier has reported its first sensor. -/
theorem reservation_exclusion_driving : ∃ s : NavServer,
    (s.reservedNodes 4 = none ∧ (∀ n ∈ [6, 7, 8, 9], s.reservedNodes n = some 0) ∧
      s.reservedNodes 20 = some 1 ∧ s.reservedNodes 21 = some 1) ∧
    Exclusion ringTrack s ∧ ∀ t, Exclusion ringTrack (s.clearReservedByTrain ringTrack t) := by
  obtain ⟨s, h_reach, h_has⟩ := System.exists_reaches_of_play (@navNext_step ringTrack)
    (fun _ _ => True) (fun s : NavServer => s.reservedNodes 4 = none ∧
      (∀ n ∈ [6, 7, 8, 9], s.reservedNodes n = some 0) ∧
      s.reservedNodes 20 = some 1 ∧ s.reservedNodes 21 = some 1)
    [⟨.other 0, .registerLocation 0 4⟩, ⟨.other 1, .registerLocation 1 20⟩,
      ⟨.pathfindWorker 0, .pathfindWorker 0⟩, ⟨.straightpathWorker 0, .straightpathWorker 0⟩,
      ⟨.other 0, .navigationRequest 0 8 0 false⟩,
      ⟨.pathfindWorker 0,
        .pathfindWorkerDone 0 .foundPath ⟨[4, 6, 8], .replicate 141 0, by simp [trackMax]⟩⟩,
      ⟨.other 2, .attributionCourier fun i => if i = 4 then some 0 else none⟩] rfl
        (by decide +kernel)
  exact ⟨s, h_has, reservation_exclusion h_reach.reachable⟩

/-! ### The place a train stands on -/

/-- A registered train has the node it is registered at, in both directions. This is the invariant
on the level of ownings, where the table and the places of the trains are all there is. -/
structure Standing (T : Track) (o : Ownings) : Prop where
  symmetric : Symmetric T.reverse o.table
  owned : ∀ t n, o.reged t = some n → o.table n = some t

theorem eq_of_update_self {reged : TrainNum → Option NodeNum} {t : TrainNum} {n m : NodeNum}
    (h : Function.update reged t (some n) t = some m) : n = m := by
  rw [Function.update_self] at h
  exact Option.some.inj h

/-- One step of what is owned keeps every registered train in its place: what it gives back is not
its place, and it moves only to what it has reserved. -/
theorem OwnStep.standing {T : Track} {t : TrainNum} {o o' : Ownings} (h : OwnStep T t o o')
    (h_o : Standing T o) : Standing T o' := by
  refine ⟨h.symmetric h_o.symmetric, fun u m h_m => ?_⟩
  cases h with
  | free l =>
    have h_u := h_o.owned u m h_m
    by_cases h_t : u = t
    · subst h_t
      -- its own place is the one that is not given back
      exact (free_of_at (.inl h_m.symm)).trans h_u
    · exact free_of_owned h_u h_t
  | @turn n h_n =>
    by_cases h_t : u = t
    · -- the other direction of a place belongs to the same train
      subst h_t
      obtain rfl : T.reverse n = m := eq_of_update_self h_m
      exact (h_o.symmetric n).trans (h_o.owned u n h_n)
    · exact h_o.owned u m ((Function.update_of_ne h_t ..).symm.trans h_m)
  | @drive path last h_can h_last =>
    by_cases h_t : u = t
    · -- the train is registered at the end of the path that it has reserved
      subst h_t
      obtain rfl : last = m := eq_of_update_self h_m
      exact take_of_among (.inl h_last)
    · have h_u := h_o.owned u m ((Function.update_of_ne h_t ..).symm.trans h_m)
      exact take_of_owned h_o.symmetric h_can h_u h_t

theorem AnySteps.standing {T : Track} {o o' : Ownings} (h : AnySteps T o o')
    (h_o : Standing T o) : Standing T o' := by
  induction h with
  | refl => exact h_o
  | tail _ h_step ih => exact h_step.choose_spec.standing ih

/-- Nobody but `t` is registered at `n`, in either direction. -/
def Ownings.Vacant (T : Track) (o : Ownings) (t : TrainNum) (n : NodeNum) : Prop :=
  ∀ u, u ≠ t → o.reged u ≠ some n ∧ o.reged u ≠ some (T.reverse n)

instance (T : Track) (o : Ownings) (t : TrainNum) (n : NodeNum) : Decidable (o.Vacant T t n) :=
  inferInstanceAs (Decidable (∀ u, u ≠ t → o.reged u ≠ some n ∧ o.reged u ≠ some (T.reverse n)))

theorem Ownings.register_standing {T : Track} {o : Ownings} {t : TrainNum} {n : NodeNum}
    (h_vacant : o.Vacant T t n) (h_o : Standing T o) : Standing T (o.register T t n) := by
  refine ⟨register_symmetric h_o.symmetric t n, fun u m h_m => ?_⟩
  by_cases h_t : u = t
  · subst h_t
    obtain rfl : n = m := eq_of_update_self h_m
    exact take_of_among (.inl List.mem_cons_self)
  · have h_m' : o.reged u = some m := (Function.update_of_ne h_t ..).symm.trans h_m
    have h_free : Ownership.free T.reverse (some n) t (List.finRange trackMax) o.table m = some u :=
      free_of_owned (h_o.owned u m h_m') h_t
    refine Eq.trans (if_neg fun h_among => ?_) h_free
    -- the other train would stand where this one is put
    obtain rfl | rfl := (among_singleton T.involutive).mp h_among
    · exact (h_vacant u h_t).2 h_m'
    · exact (h_vacant u h_t).1 h_m'

/-- A train is registered only where no other train stands. -/
def RegistersVacant (T : Track) (s : NavServer) (m : NavMessage) : Prop :=
  match m.req with
  | .registerLocation t n => s.ownings.Vacant T t n
  | _ => True

instance (T : Track) (s : NavServer) (m : NavMessage) : Decidable (RegistersVacant T s m) := by
  unfold RegistersVacant
  generalize m.req = req
  rcases req with _ | _ <;> infer_instance

/-- Every registered train has its place, and no two have one place: the node that a train is
registered at and the node in the other direction count as one. -/
structure OwnsPlace (T : Track) (s : NavServer) : Prop where
  owned : ∀ t n, s.regedAtNum t = some n →
    s.reservedNodes n = some t ∧ s.reservedNodes (T.reverse n) = some t
  apart : ∀ t u n, s.regedAtNum t = some n →
    s.regedAtNum u = some n ∨ s.regedAtNum u = some (T.reverse n) → t = u

/-- **A train has the place it stands on**, in every run that registers trains only where no other
one stands.

`Standing` looks at where the trains are registered and at the table of reservations, and at nothing
else. A registration is the only message that moves a train to a node which it has not reserved; the
others drive it along a path that it has reserved, turn it around where it is, or free what is not
its place. -/
theorem owns_place {T : Track} {ms : List NavMessage} {s : NavServer}
    (h : (navSystem T).Reaches (RegistersVacant T) ms s) : OwnsPlace T s := by
  have h_standing : Standing T s.ownings := by
    refine @System.Reaches.invariant _ _ _ _ (fun s => Standing T s.ownings) ?_ ?_ _ _ h
    · rintro s rfl
      exact ⟨fun _ => rfl, fun t n h_n => by cases h_n⟩
    · intro s m s' h_o h_ok h_step
      -- a registration moves a train to where nobody stands; all else moves it along what it owns
      obtain ⟨t, n, h_req, h_eq⟩ | h_steps := NavServer.navigationServer_owns h_o.symmetric h_step
      · rw [RegistersVacant, h_req] at h_ok
        rw [h_eq]
        exact Ownings.register_standing h_ok h_o
      · exact h_steps.standing h_o
  have h_both : ∀ t n, s.regedAtNum t = some n →
      s.reservedNodes n = some t ∧ s.reservedNodes (T.reverse n) = some t := by
    intro t n h_n
    have h_owned := h_standing.owned t n h_n
    exact ⟨h_owned, (h_standing.symmetric n).trans h_owned⟩
  refine ⟨h_both, ?_⟩
  -- two trains at one node would both have it
  rintro t u n h_t (h_u | h_u)
  · exact Option.some.inj ((h_both t n h_t).1.symm.trans (h_both u n h_u).1)
  · exact Option.some.inj ((h_both t n h_t).2.symm.trans (h_both u _ h_u).1)

theorem owns_place_registered : ∃ s : NavServer,
    (s.regedAtNum 0 = some 4 ∧ s.regedAtNum 1 = some 7) ∧ OwnsPlace ringTrack s := by
  obtain ⟨s, h_reach, h_has⟩ := System.exists_reaches_of_play (@navNext_step ringTrack)
    (RegistersVacant ringTrack)
    (fun s : NavServer => s.regedAtNum 0 = some 4 ∧ s.regedAtNum 1 = some 7)
    [⟨.other 0, .registerLocation 0 4⟩, ⟨.other 0, .registerLocation 1 7⟩] rfl (by decide +kernel)
  exact ⟨s, h_has, owns_place h_reach⟩

/-- Two trains are registered at one node: the first no longer has it. -/
theorem not_owns_place : ¬∀ s, (navSystem ringTrack).Reachable s → OwnsPlace ringTrack s := by
  intro h_all
  obtain ⟨s, h_reach, h_both, h_lost⟩ := System.exists_reaches_of_play
    (@navNext_step ringTrack) (fun _ _ => True)
    (fun s : NavServer => s.regedAtNum 0 = some 4 ∧ s.reservedNodes 4 ≠ some 0)
    [⟨.other 0, .registerLocation 0 4⟩, ⟨.other 0, .registerLocation 1 4⟩] rfl (by decide +kernel)
  exact h_lost ((h_all s h_reach.reachable).owned 0 4 h_both).1

end Nav
end PollingExpress
