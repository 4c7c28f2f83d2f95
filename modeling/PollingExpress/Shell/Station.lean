import PollingExpress.Dispatch.Answers
import PollingExpress.Drive.Stopping
import PollingExpress.Nav.Progress
import PollingExpress.Shell.Requests

/-!
# The shell and its servers

What becomes of the requests of the shell. A `Station` is the shell with the navigation server and
its tasks, the train server and the dispatch server. A key goes to the shell; the next request of
the shell goes to its server, and the shell reads no key while it waits for an answer; and any other
task sends the servers what it likes, a worker for random destinations that the shell has created
among them.

A run is `Conforming` if the lines are `Sound` and no message brings a server a route or a number of
commands that it cannot deal with. That the numbers in the requests are in range is not among the
conditions, but a result. In such a run (`sends_proper`)

* every request is in range and comes from a line that names its node;
* no server stops, whatever comes next, and the shell only for `q` and `die`;
* every path that a train is given has a length that its worker can deal with.

The proof looks at the parts one by one. A run of the station is a run of the shell, of the world of
the navigation server, of the train server and of the dispatch server (`System.Reaches.component`),
and what is known of each goes on without a fault.
-/

namespace PollingExpress

open Nav (TrainNum NavTask NavMessage NavWorld)
open Train (TrainMessage TrainServer)
open Dispatch (DispatchMessage DispatchServer)

/-! ### The station -/

/-- What is sent for a request of the shell. -/
inductive ServerMessage
  | navigation (m : NavMessage)
  | train (m : TrainMessage)
  | dispatch (m : DispatchMessage)
  /-- The train number, to a worker for random destinations that has just been created. -/
  | randomGoto (train : TrainNum)

/-- The readings of `mock`: one sensor. -/
def mockReadings (group reading : ℕ) : Fin 10 → UInt8 :=
  fun i => if i.val = group then UInt8.ofNat reading else 0

/-- The message for a request, by the task `tid` of the shell at `time`. -/
def Shell.Request.message (tid time : ℕ) : Shell.Request → ServerMessage
  | .speed train data => .train ⟨tid, .speed train data time⟩
  | .switch num data => .train ⟨tid, .switch num data time⟩
  | .navigation train destination offset =>
    .navigation ⟨.other tid, .navigationRequest train destination (Int32.ofInt offset) false⟩
  | .registerLocation train node => .navigation ⟨.other tid, .registerLocation train node⟩
  | .sensorUpdate group reading => .dispatch ⟨tid, .sensorUpdate (mockReadings group reading) time⟩
  | .random _ train => .randomGoto train

structure Station where
  shell : Shell
  /-- How many requests of the shell have been sent. -/
  served : ℕ
  nav : NavWorld
  train : TrainServer
  dispatch : DispatchServer

inductive StationFault
  | shell (fault : Shell.Fault)
  | navigation (fault : Nav.Fault)
  | train (fault : Train.Fault)
  | dispatch (fault : Dispatch.Fault)

inductive StationStep
  | key (c : Byte)
  /-- The shell sends its next request. -/
  | request (r : Shell.Request) (time : ℕ)
  /-- Another task sends a message. -/
  | message (m : ServerMessage)

namespace Station

variable (T : Track) (names : TrackNames) (tid : ℕ)

def start : Station where
  shell := .start
  served := 0
  nav := .start
  train := .start
  dispatch := .start

/-- A server gets a message. -/
def deliver (s : Station) : ServerMessage → Except StationFault Station
  | .navigation m =>
    embed (s.nav.server.navigationServer T m.client m.req) .navigation fun server =>
      { s with nav := s.nav.after m server }
  | .train m => embed (s.train.taskTrainserver m.client m.req) .train fun train => { s with train }
  | .dispatch m => embed (s.dispatch.dispatchserver m) .dispatch fun dispatch => { s with dispatch }
  -- the worker is no server; what it sends are messages of its own
  | .randomGoto _ => .ok s

def next (s : Station) : StationStep → Except StationFault Station
  | .key c => embed (s.shell.getc names c) .shell fun shell => { s with shell }
  | .request r time => ({ s with served := s.served + 1 } : Station).deliver T (r.message tid time)
  | .message m => s.deliver T m

/-- The shell does not wait for an answer. -/
def Ready (s : Station) : Prop := (s.nav.tasks (.other tid)).waiting = none

/-- Another task than the shell may send the message. -/
def MaySend (s : Station) : ServerMessage → Prop
  | .navigation m => m.client ≠ .other tid ∧ s.nav.MaySend T m
  | .train _ | .dispatch _ | .randomGoto _ => True

/-- What can happen next. -/
def Enabled (s : Station) : StationStep → Prop
  | .key _ => s.Ready tid ∧ s.served = s.shell.requests.length
  | .request r _ => s.Ready tid ∧ s.shell.requests[s.served]? = some r
  | .message m => s.MaySend T tid m

end Station

/-- The station, with the shell as the task `tid`. -/
def stationSystem (T : Track) (names : TrackNames) (tid : ℕ) : System Station StationStep where
  init s := s = .start
  step s l s' := s.Enabled T tid l ∧ s.next T names tid l = .ok s'

/-! ### What a run is asked for -/

/-- A straightpath worker can drive a path of this length: it is positive, and in thousandths of a
millimetre it is not 0, where 32 bits have no room for it. -/
def Plannable (dist : Int32) : Prop := 0 < dist ∧ dist * 1000 ≠ 0

instance : DecidablePred Plannable := fun _ => inferInstanceAs (Decidable (_ ∧ _))

/-- There is room for the commands of the message, and their times are below that of an empty
slot. -/
def Train.TrainServer.HasRoom (s : TrainServer) (m : TrainMessage) : Prop :=
  (Train.scheduled s.log).length + (Train.commands m.req).length ≤
    (Train.sent s.log).length + Train.maxTrainCmds ∧
    ∀ cmd ∈ Train.commands m.req, cmd.time < Heap.noKey

instance (s : TrainServer) (m : TrainMessage) : Decidable (s.HasRoom m) :=
  inferInstanceAs (Decidable (_ ∧ _))

theorem Train.admitted_iff {s : TrainServer} {m : TrainMessage} :
    Train.Admitted s m ↔ s.HasRoom m ∧ Train.ValidSwitch m.req :=
  ⟨fun h => ⟨⟨h.pending, h.time⟩, h.switch⟩, fun h => ⟨h.1.1, h.1.2, h.2⟩⟩

namespace Station

/-- The server has room for what the message brings. -/
def Bears (T : Track) (s : Station) : ServerMessage → Prop
  | .navigation m => Nav.Sensible Plannable T s.nav m
  | .train m => s.train.HasRoom m
  | .dispatch _ | .randomGoto _ => True

/-- A message of another task keeps to what its server expects. -/
def Lawful (s : Station) : ServerMessage → Prop
  | .train m => Train.ValidSwitch m.req
  | .dispatch m => Dispatch.Admitted s.dispatch m
  | .navigation _ | .randomGoto _ => True

/-- Lines are read as they should be, and the servers have room. -/
def Conforming (T : Track) (names : TrackNames) (tid : ℕ) (s : Station) : StationStep → Prop
  | .key c => Shell.Sound names s.shell c
  | .request r time => s.Bears T (r.message tid time)
  | .message m => s.Bears T m ∧ s.Lawful m

end Station

/-! ### The parts of a run -/

/-- What a step types. -/
def StationStep.key? : StationStep → Option Byte
  | .key c => some c
  | .request _ _ | .message _ => none

/-- What a step sends. -/
def StationStep.message? (tid : ℕ) : StationStep → Option ServerMessage
  | .key _ => none
  | .request r time => some (r.message tid time)
  | .message m => some m

def ServerMessage.navigation? : ServerMessage → Option NavMessage
  | .navigation m => some m
  | .train _ | .dispatch _ | .randomGoto _ => none

def ServerMessage.train? : ServerMessage → Option TrainMessage
  | .train m => some m
  | .navigation _ | .dispatch _ | .randomGoto _ => none

def ServerMessage.dispatch? : ServerMessage → Option DispatchMessage
  | .dispatch m => some m
  | .navigation _ | .train _ | .randomGoto _ => none

namespace Station

/-- What a message does: one server takes a step, and the rest of the station stays as it is. -/
inductive Delivers (T : Track) (s : Station) : ServerMessage → Station → Prop
  | navigation {m : NavMessage} {server : Nav.NavServer}
      (h : s.nav.server.navigationServer T m.client m.req = .ok server) :
      Delivers T s (.navigation m) { s with nav := s.nav.after m server }
  | train {m : TrainMessage} {train : TrainServer}
      (h : s.train.taskTrainserver m.client m.req = .ok train) :
      Delivers T s (.train m) { s with train }
  | dispatch {m : DispatchMessage} {dispatch : DispatchServer}
      (h : s.dispatch.dispatchserver m = .ok dispatch) :
      Delivers T s (.dispatch m) { s with dispatch }
  | randomGoto {train : TrainNum} : Delivers T s (.randomGoto train) s

/-- What a step does: the shell reads a key, or a message is delivered. -/
inductive Steps (T : Track) (names : TrackNames) (tid : ℕ) (s : Station) : StationStep →
      Station → Prop
  | key {c : Byte} {shell : Shell} (h : s.shell.getc names c = .ok shell) :
      Steps T names tid s (.key c) { s with shell }
  | request {r : Shell.Request} {time : ℕ} {s' : Station} (h_ready : s.Ready tid)
      (h_next : s.shell.requests[s.served]? = some r)
      (h : Delivers T { s with served := s.served + 1 } (r.message tid time) s') :
    Steps T names tid s (.request r time) s'
  | message {m : ServerMessage} {s' : Station} (h_send : s.MaySend T tid m)
      (h : Delivers T s m s') :
      Steps T names tid s (.message m) s'

section
variable {T : Track} {names : TrackNames} {tid : ℕ} {s s' : Station} {l : StationStep}
  {m : ServerMessage} {ls : List StationStep}

theorem delivers_of_deliver (h : s.deliver T m = .ok s') : Delivers T s m s' := by
  cases m with
  | navigation m =>
    obtain ⟨server, h_server, rfl⟩ := of_embed_ok h
    exact .navigation h_server
  | train m =>
    obtain ⟨train, h_train, rfl⟩ := of_embed_ok h
    exact .train h_train
  | dispatch m =>
    obtain ⟨dispatch, h_dispatch, rfl⟩ := of_embed_ok h
    exact .dispatch h_dispatch
  | randomGoto train =>
    obtain rfl := Except.ok.inj h
    exact .randomGoto

theorem steps_of_step (h : (stationSystem T names tid).step s l s') : Steps T names tid s l s' := by
  obtain ⟨h_enabled, h_next⟩ := h
  cases l with
  | key c =>
    obtain ⟨shell, h_shell, rfl⟩ := of_embed_ok h_next
    exact .key h_shell
  | request r time => exact .request h_enabled.1 h_enabled.2 (delivers_of_deliver h_next)
  | message m => exact .message h_enabled (delivers_of_deliver h_next)

theorem Delivers.shell (h : Delivers T s m s') : s'.shell = s.shell := by
  cases h <;> rfl

/-- The keys of a run are a run of the shell. -/
theorem shell_reaches (h : (stationSystem T names tid).Reaches (Conforming T names tid) ls s) :
    (shellSystem names).Reaches (Shell.Sound names) (ls.filterMap StationStep.key?) s.shell := by
  refine h.component Station.shell StationStep.key? (fun s h_s => ?_) ?_ ?_
  · obtain rfl := h_s
    rfl
  · intro ls s l s' c _ h_ok h_step h_l
    -- a key is taken by the shell, and by nothing else
    cases steps_of_step h_step with
    | key h_shell =>
      obtain rfl := Option.some.inj h_l
      exact ⟨h_ok, h_shell⟩
    | request | message => cases h_l
  · intro s l s' h_step h_l
    cases steps_of_step h_step with
    | key => cases h_l
    | request _ _ h => exact h.shell
    | message _ h => exact h.shell

/-- The shell sends only what is in range. -/
theorem request_inRange (h : (stationSystem T names tid).Reaches (Conforming T names tid) ls s)
    {r : Shell.Request} (h_r : r ∈ s.shell.requests) : r.InRange ∧
      ∃ command, Shell.Entered names (ls.filterMap StationStep.key?) command ∧
      command.request? = some r := by
  obtain ⟨p, h_p⟩ := Shell.exists_accounted (shell_reaches h)
  obtain ⟨command, h_entered, h_request⟩ := h_p.request h_r
  exact ⟨h_entered.inRange h_request, command, h_entered, h_request⟩

/-- A step that sends a message, with what the message may be and what its server has room for. -/
theorem sends_of_step (h : (stationSystem T names tid).Reaches (Conforming T names tid) ls s)
    (h_ok : s.Conforming T names tid l) (h_enabled : s.Enabled T tid l)
    (h_l : l.message? tid = some m) :
    s.Bears T m ∧ s.Lawful m ∧ ∀ x, m = .navigation x → s.nav.MaySend T x := by
  cases l with
  | key => cases h_l
  | request r time =>
    obtain rfl := Option.some.inj h_l
    obtain ⟨h_ready, h_next⟩ := h_enabled
    have h_range := (request_inRange h (List.mem_of_getElem? h_next)).1
    refine ⟨h_ok, ?_, ?_⟩
    · -- the switch is one that there is, and an update of the sensors is always lawful
      cases r with
      | switch num data => exact h_range.1
      | speed | navigation | registerLocation | sensorUpdate | random => trivial
    · intro x h_x
      cases r with
      | navigation | registerLocation =>
        obtain rfl := ServerMessage.navigation.inj h_x
        exact ⟨h_ready, trivial⟩
      | speed | switch | sensorUpdate | random => cases h_x
  | message m' =>
    obtain rfl := Option.some.inj h_l
    refine ⟨h_ok.1, h_ok.2, ?_⟩
    rintro x rfl
    exact h_enabled.2

/-- What a step delivers, to servers that are as they are in `s`. -/
theorem Steps.delivers (h : Steps T names tid s l s') (h_l : l.message? tid = some m) :
    ∃ served, Delivers T { s with served } m s' := by
  cases h with
  | key => cases h_l
  | request _ _ h =>
    obtain rfl := Option.some.inj h_l
    exact ⟨_, h⟩
  | message _ h =>
    obtain rfl := Option.some.inj h_l
    exact ⟨_, h⟩

/-- A step that sends nothing to a server leaves the server alone. -/
theorem Steps.hidden {α β : Type} {part : Station → α} {f : ServerMessage → Option β}
    (h_shell : ∀ s shell, part { s with shell } = part s)
    (h_served : ∀ s served, part { s with served } = part s)
    (h_other : ∀ {s m s'}, Delivers T s m s' → f m = none → part s' = part s)
    (h : Steps T names tid s l s') (h_l : (l.message? tid).bind f = none) : part s' = part s := by
  cases h with
  | key => exact h_shell _ _
  | request _ _ h => exact (h_other h h_l).trans (h_served _ _)
  | message _ h => exact h_other h h_l

/-- The messages to the navigation server are a run of its world. -/
theorem nav_reaches (h : (stationSystem T names tid).Reaches (Conforming T names tid) ls s) :
    (Nav.worldSystem T).Reaches (Nav.Sensible Plannable T)
      (ls.filterMap fun l => (l.message? tid).bind ServerMessage.navigation?) s.nav := by
  refine h.component Station.nav _ (fun s h_s => ?_) ?_ ?_
  · obtain rfl := h_s
    rfl
  · intro ls s l s' x h_run h_ok h_step h_l
    -- a message for this server, of the shell or of another task
    obtain ⟨m, h_m, h_x⟩ := Option.bind_eq_some_iff.mp h_l
    obtain ⟨h_bears, -, h_send⟩ := sends_of_step h_run h_ok h_step.1 h_m
    obtain ⟨served, h_delivers⟩ := (steps_of_step h_step).delivers h_m
    cases h_delivers with
    | navigation h_server =>
      obtain rfl := Option.some.inj h_x
      exact ⟨h_bears, h_send _ rfl, _, h_server, rfl⟩
    | train | dispatch | randomGoto => cases h_x
  · intro s l s' h_step h_l
    -- what is for another server leaves this one alone
    refine (steps_of_step h_step).hidden (fun _ _ => rfl) (fun _ _ => rfl)
      (fun h_other h_m => ?_) h_l
    cases h_other with
    | navigation => cases h_m
    | train | dispatch | randomGoto => rfl

/-- The messages to the train server are a run of it. -/
theorem train_reaches (h : (stationSystem T names tid).Reaches (Conforming T names tid) ls s) :
    Train.trainSystem.Reaches Train.Admitted
      (ls.filterMap fun l => (l.message? tid).bind ServerMessage.train?) s.train := by
  refine h.component Station.train _ (fun s h_s => ?_) ?_ ?_
  · obtain rfl := h_s
    rfl
  · intro ls s l s' x h_run h_ok h_step h_l
    -- the room is asked for in `Bears`, and the range of a switch in `Lawful`
    obtain ⟨m, h_m, h_x⟩ := Option.bind_eq_some_iff.mp h_l
    obtain ⟨h_bears, h_lawful, -⟩ := sends_of_step h_run h_ok h_step.1 h_m
    obtain ⟨served, h_delivers⟩ := (steps_of_step h_step).delivers h_m
    cases h_delivers with
    | train h_train =>
      obtain rfl := Option.some.inj h_x
      exact ⟨Train.admitted_iff.mpr ⟨h_bears, h_lawful⟩, h_train⟩
    | navigation | dispatch | randomGoto => cases h_x
  · intro s l s' h_step h_l
    refine (steps_of_step h_step).hidden (fun _ _ => rfl) (fun _ _ => rfl)
      (fun h_other h_m => ?_) h_l
    cases h_other with
    | train => cases h_m
    | navigation | dispatch | randomGoto => rfl

/-- The messages to the dispatch server are a run of it. -/
theorem dispatch_reaches (h : (stationSystem T names tid).Reaches (Conforming T names tid) ls s) :
    Dispatch.dispatchSystem.Reaches Dispatch.Admitted
      (ls.filterMap fun l => (l.message? tid).bind ServerMessage.dispatch?) s.dispatch := by
  refine h.component Station.dispatch _ (fun s h_s => ?_) ?_ ?_
  · obtain rfl := h_s
    rfl
  · intro ls s l s' x h_run h_ok h_step h_l
    -- an update is always admitted, and the subscriptions are those of other tasks (`Lawful`)
    obtain ⟨m, h_m, h_x⟩ := Option.bind_eq_some_iff.mp h_l
    obtain ⟨-, h_lawful, -⟩ := sends_of_step h_run h_ok h_step.1 h_m
    obtain ⟨served, h_delivers⟩ := (steps_of_step h_step).delivers h_m
    cases h_delivers with
    | dispatch h_dispatch =>
      obtain rfl := Option.some.inj h_x
      exact ⟨h_lawful, h_dispatch⟩
    | navigation | train | randomGoto => cases h_x
  · intro s l s' h_step h_l
    refine (steps_of_step h_step).hidden (fun _ _ => rfl) (fun _ _ => rfl)
      (fun h_other h_m => ?_) h_l
    cases h_other with
    | dispatch => cases h_m
    | navigation | train | randomGoto => rfl

/-! ### Nothing stops -/

/-- **No server stops** for a message that it has room for, and that keeps to what it expects. Each
of the three has gone through a run of its own, and what is known of its reachable states is that it
takes such a message. -/
theorem exists_deliver (h : (stationSystem T names tid).Reaches (Conforming T names tid) ls s)
    (served : ℕ) (h_bears : s.Bears T m) (h_lawful : s.Lawful m)
    (h_send : ∀ x, m = .navigation x → s.nav.MaySend T x) :
    ∃ s', ({ s with served } : Station).deliver T m = .ok s' := by
  -- each server goes through in the states that its run has come to
  cases m with
  | navigation x =>
    have h_room : Nav.Sensible Plannable T s.nav x := h_bears
    obtain ⟨server, h_server⟩ :=
      Nav.exists_world_step (nav_reaches h) (h_send x rfl) h_room.found h_room.fits
    exact ⟨_, by rw [deliver, h_server]; rfl⟩
  | train x =>
    obtain ⟨train, h_train⟩ :=
      Train.exists_step (train_reaches h) (Train.admitted_iff.mpr ⟨h_bears, h_lawful⟩)
    have h_train : s.train.taskTrainserver x.client x.req = .ok train := h_train
    exact ⟨_, by rw [deliver, h_train]; rfl⟩
  | dispatch x =>
    obtain ⟨dispatch, h_dispatch, -⟩ :=
      (Dispatch.exact_of_reaches (dispatch_reaches h)).1.round h_lawful
    exact ⟨_, by rw [deliver, h_dispatch]; rfl⟩
  | randomGoto train => exact ⟨_, rfl⟩

/-- The station goes on, unless the shell is told to stop. -/
theorem stops_of_error (h : (stationSystem T names tid).Reaches (Conforming T names tid) ls s)
    (h_enabled : s.Enabled T tid l) (h_ok : s.Conforming T names tid l) {fault : StationFault}
    (h_error : s.next T names tid l = .error fault) :
    fault = .shell .shutdown ∨ fault = .shell .die := by
  cases l with
  | key c =>
    obtain ⟨f, h_f, rfl⟩ := of_embed_error h_error
    -- a line that is read as it should be stops the shell only by `q` and `die`
    obtain ⟨p, h_p⟩ := Shell.exists_accounted (shell_reaches h)
    exact (h_p.stops (shell_reaches h) h_ok h_f).imp (congrArg StationFault.shell)
      (congrArg StationFault.shell)
  | request r time =>
    -- a request of the shell is in range, so the server takes it
    obtain ⟨h_bears, h_lawful, h_send⟩ := sends_of_step h h_ok h_enabled rfl
    obtain ⟨s', h_s'⟩ := exists_deliver h (s.served + 1) h_bears h_lawful h_send
    cases h_s'.symm.trans h_error
  | message m =>
    obtain ⟨h_bears, h_lawful, h_send⟩ := sends_of_step h h_ok h_enabled rfl
    obtain ⟨s', h_s'⟩ := exists_deliver h s.served h_bears h_lawful h_send
    cases h_s'.symm.trans h_error

end

/-- The lengths that have been handed out are such as a worker can drive. -/
theorem lengths_of_reaches {T : Track} {names : TrackNames} {tid : ℕ} {ls : List StationStep}
    {s : Station} (h : (stationSystem T names tid).Reaches (Conforming T names tid) ls s)
    (t : TrainNum) :
    ∀ work ∈ Nav.handedWork s.nav.server.log t, Plannable work.2 :=
  Nav.handedWork_of_reaches ((nav_reaches h).mono fun _ _ h_ok => h_ok.lengths) t

/-- What holds of the station after the steps `ls`. -/
structure ServesProperly (T : Track) (names : TrackNames) (tid : ℕ) (ls : List StationStep)
    (s : Station) :
    Prop where
  /-- The requests are in range, and come from lines that name their nodes. -/
  requests : ∀ r ∈ s.shell.requests, r.InRange ∧
    ∃ command, Shell.Entered names (ls.filterMap StationStep.key?) command ∧
      command.request? = some r
  /-- Nothing stops the shell and the servers next but what is meant to. -/
  stops : ∀ l, s.Enabled T tid l → s.Conforming T names tid l → ∀ fault,
    s.next T names tid l = .error fault → fault = .shell .shutdown ∨ fault = .shell .die
  /-- The worker's assertion on the length of its path holds, and it finds a stop. -/
  lengths : ∀ t, ∀ work ∈ Nav.handedWork s.nav.server.log t, 0 < work.2 ∧
    ∀ (r : Drive.TrainRecord) (train : TrainNum), ∃ r', r.planStop train work.2 = .ok r'
  /-- A line that is neither a command nor the end of a plan sends nothing. -/
  quiet : ∀ c, (∀ command, ¬s.shell.Takes names c command) → ¬s.shell.EndsPlan names c →
    ∀ shell, s.shell.getc names c = .ok shell → shell.requests = s.shell.requests

end Station

open Shell Station

/-- **The servers are sent what they can take**, and nothing that comes of a line stops them, as
long as the lines are read as they should be and the servers have room; and a line is read so that
no harm is done, and that its command is proper, just if it is one of these.

The station is the shell with the navigation, the train and the dispatch server, which it sends its
requests to, and the other tasks that these hear from. `Conforming` says of each step what is asked
for: of a key, that a line is read as it should be (`Sound`); of a message, that the server has room
for it (`Bears`), which is about its routes and their lengths, and its commands; and of the messages
of other tasks, that they keep to what the server expects. Each server is then on a run of its own
(`nav_reaches` and its like), and what was shown of these runs is put together. -/
theorem sends_proper {T : Track} {names : TrackNames} {tid : ℕ} {ls : List StationStep}
    {s : Station} (h : (stationSystem T names tid).Reaches (Conforming T names tid) ls s) :
    (∀ t c, Harmless names t c ↔ Sound names t c) ∧ ServesProperly T names tid ls s := by
  refine ⟨harmless_iff names, ?_, ?_, ?_, ?_⟩
  · -- what was asked for
    exact fun r h_r => request_inRange h h_r
  · exact fun l h_enabled h_ok fault h_error => stops_of_error h h_enabled h_ok h_error
  · intro t work h_work
    -- the length in micrometres does not wrap to 0, so a stop is found
    obtain ⟨h_pos, h_ne⟩ := lengths_of_reaches h t work h_work
    exact ⟨h_pos, fun r train => Drive.exists_planStop_iff.mpr h_ne⟩
  · intro c h_command h_plan shell h_step
    obtain ⟨p, h_p⟩ := exists_accounted (shell_reaches h)
    exact h_p.quiet h_step h_command h_plan

/-! ### Runs that are computed -/

namespace Station

instance (tid : ℕ) (s : Station) : Decidable (s.Ready tid) :=
  inferInstanceAs (Decidable ((s.nav.tasks (.other tid)).waiting = none))

instance (T : Track) (tid : ℕ) (s : Station) : DecidablePred (s.MaySend T tid)
  | .navigation m => inferInstanceAs (Decidable (m.client ≠ .other tid ∧ s.nav.MaySend T m))
  | .train _ | .dispatch _ | .randomGoto _ => isTrue trivial

instance (T : Track) (tid : ℕ) (s : Station) : DecidablePred (s.Enabled T tid)
  | .key _ => inferInstanceAs (Decidable (s.Ready tid ∧ s.served = s.shell.requests.length))
  | .request r _ => inferInstanceAs (Decidable (s.Ready tid ∧ s.shell.requests[s.served]? = some r))
  | .message m => inferInstanceAs (Decidable (s.MaySend T tid m))

instance (T : Track) (s : Station) : DecidablePred (s.Bears T)
  | .navigation m => inferInstanceAs (Decidable (Nav.Sensible Plannable T s.nav m))
  | .train m => inferInstanceAs (Decidable (s.train.HasRoom m))
  | .dispatch _ | .randomGoto _ => isTrue trivial

instance (s : Station) : DecidablePred s.Lawful
  | .train m => inferInstanceAs (Decidable (Train.ValidSwitch m.req))
  | .dispatch m => inferInstanceAs (Decidable (Dispatch.Admitted s.dispatch m))
  | .navigation _ | .randomGoto _ => isTrue trivial

instance (T : Track) (names : TrackNames) (tid : ℕ) (s : Station) (l : StationStep) :
    Decidable (s.Conforming T names tid l) :=
  match l with
  | .key c => inferInstanceAs (Decidable (Sound names s.shell c))
  | .request r time => inferInstanceAs (Decidable (s.Bears T (r.message tid time)))
  | .message m => inferInstanceAs (Decidable (s.Bears T m ∧ s.Lawful m))

end Station

/-- The station as a function, to compute runs. -/
def stationNext (T : Track) (names : TrackNames) (tid : ℕ) (s : Station) (l : StationStep) :
    Option Station :=
  if s.Enabled T tid l then (s.next T names tid l).toOption else none

theorem stationNext_step (T : Track) (names : TrackNames) (tid : ℕ) (s : Station) (l : StationStep)
    (s' : Station) (h : stationNext T names tid s l = some s') :
    (stationSystem T names tid).step s l s' := by
  unfold stationNext at h
  split at h
  · next h_enabled => exact ⟨h_enabled, of_toOption h⟩
  · cases h

/-- The names of two sensors that a train comes to, and of the others. -/
def fewNames : TrackNames := fun n =>
  if n = 0 then ascii ['A', '1'] else if n = 4 then ascii ['A', '5'] else ascii ['A', '2']

/-- A line is typed. -/
def typedLine (line : List Char) : List StationStep := (ascii line ++ [enter]).map .key

/-- The workers of train 0 say who they are, and ask for work. -/
def workersCheckIn : List StationStep :=
  [⟨.pathfindWorker 0, .whoami .pathfind⟩, ⟨.pathfindWorker 0, .pathfindWorker 0⟩,
    ⟨.straightpathWorker 0, .whoami .straightpath⟩,
      ⟨.straightpathWorker 0, .straightpathWorker 0⟩].map
      fun m => .message (.navigation m)

/-- A train is registered and sent to a sensor two nodes on, a switch is moved, a train set going
and a sensor mocked; the last line is no command. -/
def busyEvening : List StationStep :=
  workersCheckIn ++ typedLine ['r', 'e', 'g', ' ', '1', ' ', 'A', '1'] ++
    [.request (.registerLocation 0 0) 5] ++
    typedLine ['g', 't', ' ', '1', ' ', 'A', '5'] ++ [.request (.navigation 0 4 0) 10,
      .message (.navigation (Nav.foundRoute [0, 2, 4] (by decide)))] ++
    typedLine ['s', 'w', ' ', '1', '8', ' ', 'c'] ++ [.request (.switch 18 1) 20,
      .message (.train ⟨3, .worker 20 true⟩)] ++
    typedLine ['t', 'r', ' ', '2', '4', ' ', '1', '4'] ++ [.request (.speed 1 14) 30,
      .message (.dispatch ⟨7, .subscribeSensorList [1, 2] 1⟩)] ++
    typedLine ['m', 'o', 'c', 'k', ' ', 'A', '2'] ++ [.request (.sensorUpdate 0 0x40) 40] ++
      typedLine ['x', 'y']

theorem sends_proper_evening :
    ∃ ls s, (s.served = 5 ∧ Nav.handedWork s.nav.server.log 0 = [([0, 2, 4], 2)]) ∧
    ServesProperly ringTrack fewNames 9 ls s := by
  obtain ⟨s, h_s, h_run⟩ := System.exists_reaches_of_play (stationNext_step ringTrack fewNames 9)
    (Conforming ringTrack fewNames 9)
    (fun s => s.served = 5 ∧ Nav.handedWork s.nav.server.log 0 = [([0, 2, 4], 2)])
    busyEvening rfl (by decide +kernel)
  exact ⟨busyEvening, s, h_run, (sends_proper h_s).2⟩

/-- What has been sent when the line is entered, if the shell goes on. -/
def Shell.sentAtEnter (names : TrackNames) (s : Shell) : Option (List Request) :=
  (shellNext names s enter).map Shell.requests

/-- The lines that are typed are read as they should be. -/
def SoundKeys (names : TrackNames) (s : Station) (l : StationStep) : Prop :=
  ∀ c ∈ l.key?, Sound names s.shell c

instance (names : TrackNames) (s : Station) (l : StationStep) : Decidable (SoundKeys names s l) :=
  inferInstanceAs (Decidable (∀ c ∈ l.key?, Sound names s.shell c))

/-- A train is sent to where it is. -/
def sentNowhere : List StationStep :=
  workersCheckIn ++ typedLine ['r', 'e', 'g', ' ', '1', ' ', 'A', '5'] ++
    [.request (.registerLocation 0 4) 5] ++
    typedLine ['g', 't', ' ', '1', ' ', 'A', '5'] ++ [.request (.navigation 0 4 0) 10,
      .message (.navigation (Nav.foundRoute [4] (by decide)))]

/-- **Some lines are taken that should not be**: a switch that there is not, at which the train
server stops, and the first node where none is named; a node that is not found is read at a place in
front of the track; and two lines with which nothing is wrong send a train to where it is, and its
worker stops at a path of length 0. -/
theorem not_proper :
    (∃ s, (shellSystem fewNames).Reaches (fun _ _ => True)
      (ascii ['s', 'w', ' ', '1', '0', '0', ' ', 'c']) s ∧
      ¬Harmless fewNames s enter ∧ s.sentAtEnter fewNames = some [.switch 100 1] ∧
      ¬(Request.switch 100 1).InRange ∧
        ∀ (server : TrainServer) (task : Train.TrainTask), task.branch = 100 →
          server.recordBranch task = .error .badBranch) ∧
    (∃ s, (shellSystem fewNames).Reaches (fun _ _ => True) (ascii ['g', 't', ' ', '2', '4']) s ∧
      ¬Harmless fewNames s enter ∧ s.sentAtEnter fewNames = some [.navigation 1 0 0]) ∧
    (∃ s,
      (shellSystem fewNames).Reaches (fun _ _ => True) (ascii ['m', 'o', 'c', 'k', ' ', 'X']) s ∧
      ¬Harmless fewNames s enter ∧ s.sentAtEnter fewNames = none) ∧
    ∃ s, (stationSystem ringTrack fewNames 9).Reaches (SoundKeys fewNames) sentNowhere s ∧
      ([4], 0) ∈ Nav.handedWork s.nav.server.log 0 := by
  refine ⟨?_, ?_, ?_, ?_⟩
  · -- a switch that there is not
    obtain ⟨s, h_s, h_harm, h_sent⟩ :=
      System.exists_reaches_of_play (shellNext_step fewNames) (fun _ _ => True)
      (fun s => ¬Harmless fewNames s enter ∧ s.sentAtEnter fewNames = some [.switch 100 1])
      (ascii ['s', 'w', ' ', '1', '0', '0', ' ', 'c']) rfl (by decide +kernel)
    refine ⟨s, h_s, h_harm, h_sent, fun h_range => absurd h_range.1 (by decide),
      fun server task h_branch => ?_⟩
    exact TrainServer.recordBranch_badBranch (by rw [h_branch]; decide) (by rw [h_branch]; decide)
  · -- a destination that was not typed
    exact System.exists_reaches_of_play (shellNext_step fewNames) (fun _ _ => True)
      (fun s => ¬Harmless fewNames s enter ∧ s.sentAtEnter fewNames = some [.navigation 1 0 0])
      (ascii ['g', 't', ' ', '2', '4']) rfl (by decide +kernel)
  · -- a sensor that there is not
    exact System.exists_reaches_of_play (shellNext_step fewNames) (fun _ _ => True)
      (fun s => ¬Harmless fewNames s enter ∧ s.sentAtEnter fewNames = none)
      (ascii ['m', 'o', 'c', 'k', ' ', 'X']) rfl (by decide +kernel)
  · -- a train that is sent nowhere
    exact System.exists_reaches_of_play (stationNext_step ringTrack fewNames 9) (SoundKeys fewNames)
      (fun s => ([4], 0) ∈ Nav.handedWork s.nav.server.log 0) sentNowhere rfl (by decide +kernel)

end PollingExpress
