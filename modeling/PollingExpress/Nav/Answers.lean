import PollingExpress.Nav.Coupling

/-!
# The answers to the clients

Every message of a client is answered once, and as long as a navigation request is not
answered its client is recorded for the train, and the train is not IDLE
(`exact_answers`). The server does not always forget a client that it has answered, nor
whether it was to hang: after `noPath` both stay as they are. `Pending` says when they
mean something: while the train is not IDLE, and before a client that does not hang has
been answered.

`ClientStep` is what a message of a train does to its client; it is read off `DeskStep`
once, and the clients of the other trains are left alone.
-/

namespace PollingExpress

namespace Nav

/-! ### One train -/

/-- The client of the train, and the tasks that wait for it. Who waits for a request about the train
is the client recorded for it, and the other way round, as long as the train is not idle; so there
is one at most, and the server knows whom to answer. -/
structure Pending (t : TrainNum) (d : Desk) (waiting : NavTask → Option NavRequest) : Prop where
  recorded : ∀ k n offset hang, waiting (.other k) = some (.navigationRequest t n offset hang) →
    d.client = some (.other k) ∧ d.state ≠ .idle ∧ d.shouldHang = hang
  waits : ∀ c, d.client = some c → d.state ≠ .idle →
    ∃ n offset, waiting c = some (.navigationRequest t n offset d.shouldHang)
  answered : d.state = .straightpathing → d.client ≠ none → d.shouldHang = true

/-- When a client of the train may be answered, and how. -/
def InTime (t : TrainNum) (d d' : Desk) (req : NavRequest) (res : NavResponse) : Prop :=
  if d.shouldHang then
    (res = .noPath ∧ ∃ path, req = .pathfindWorkerDone t .noPathAtAll path) ∨
      (res = .good ∧ d'.state = .idle ∧ d'.tasks.items = [])
  else ∃ result path, req = .pathfindWorkerDone t result path

/-- The client of the train is still its client. Most messages of the workers are of this kind: they
move the train on, and its client goes on waiting. -/
structure KeepsClient (d d' : Desk) : Prop where
  client : d'.client = d.client
  shouldHang : d.client ≠ none → d'.shouldHang = d.shouldHang
  idle : d.client ≠ none → (d'.state = .idle ↔ d.state = .idle)
  answered : d'.state = .straightpathing → d.client ≠ none → d.shouldHang = true

/-- What a message of train `t` does to the client of the train. -/
inductive ClientStep (t : TrainNum) (client : NavTask) (d : Desk) (req : NavRequest)
    (es : List NavEvent) (d' : Desk) : Prop
  | accept {n : NodeNum} {offset : Int32} {hang : Bool}
      (h_req : req = .navigationRequest t n offset hang) (h_idle : d.state = .idle)
      (h_quiet : ∀ c, c.IsOther → heardBy c es = [])
      (h_client : d'.client = some client) (h_hang : d'.shouldHang = hang)
      (h_state : d'.state = .pathfinding)
  | answer {c : NavTask} {res : NavResponse} (h_sender : ¬client.IsOther)
      (h_client : d.client = some c) (h_busy : d.state ≠ .idle) (h_heard : heardBy c es = [res])
      (h_quiet : ∀ c', c'.IsOther → c' ≠ c → heardBy c' es = [])
      (h_gone : d'.state = .idle ∨ d'.client = none) (h_time : InTime t d d' req res)
  | keep (h_quiet : ∀ c, c.IsOther → c ≠ client → heardBy c es = [])
      (h_sender : client.IsOther → ∃ res, heardBy client es = [res])
      (h_keeps : KeepsClient d d')
      (h_search : ∀ result path, req = .pathfindWorkerDone t result path →
        d.client ≠ none → d.shouldHang = true)

section Train

variable {T : Track} {t u : TrainNum} {client c : NavTask} {d d' : Desk} {p q : NavTaskState}
  {f f' : Table} {req : NavRequest} {es : List NavEvent}

theorem ne_of_isOther (h_client : ¬client.IsOther) (h_c : c.IsOther) : some client ≠ some c := by
  intro h_eq
  obtain rfl := Option.some.inj h_eq
  exact h_client h_c

theorem heardBy_worker (h_c : c.IsOther) (res : NavResponse) :
    heardBy c (.reply (some (.pathfindWorker t)) res :: es) = heardBy c es :=
  heardBy_reply_ne (ne_of_isOther not_isOther_pathfindWorker h_c) res es

theorem KeepsClient.refl (h : d.state = .straightpathing → d.client ≠ none → d.shouldHang = true) :
    KeepsClient d d := ⟨rfl, fun _ => rfl, fun _ => Iff.rfl, h⟩

/-- A desk with the same client, whose state may have changed. -/
theorem KeepsClient.of_eq (h_client : d'.client = d.client) (h_hang : d'.shouldHang = d.shouldHang)
    (h_state : d'.state = d.state)
    (h : d.state = .straightpathing → d.client ≠ none → d.shouldHang = true) : KeepsClient d d' :=
  ⟨h_client, fun _ => h_hang, fun _ => by rw [h_state], fun h_s => h (h_state.symm.trans h_s)⟩

theorem Approach.shouldHang {d₁ : Desk} {task : StraightpathTask} (h : Approach T t d d₁ es task) :
    d₁.shouldHang = d.shouldHang := by
  cases h with
  | straight => rfl
  | turned => rfl

/-- `done_navigation` answers the client that is left. -/
theorem Desk.finish_client (h_hang : d.client ≠ none → d.shouldHang = true) :
    (d.client = none ∧ d.finished.client = none ∧ ∀ c, heardBy c d.finishAnswers = []) ∨
      ∃ c, d.client = some c ∧ d.shouldHang = true ∧ heardBy c d.finishAnswers = [.good] ∧
        ∀ c', c' ≠ c → heardBy c' d.finishAnswers = [] := by
  cases h_client : d.client with
  | none =>
    refine .inl ⟨rfl, ?_, fun c => ?_⟩
    · unfold finished
      split
      · rfl
      · exact h_client
    · unfold finishAnswers
      split
      · exact heardBy_reply_ne (by simp [h_client]) _ _
      · rfl
  | some c =>
    -- a client that is still recorded hangs, so it is answered now
    have h_yes : d.shouldHang = true := h_hang (by simp [h_client])
    refine .inr ⟨c, rfl, h_yes, ?_, fun c' h_ne => ?_⟩
    · rw [finishAnswers, if_pos h_yes, h_client, heardBy_reply_self, heardBy_nil]
    · rw [finishAnswers, if_pos h_yes, h_client,
        heardBy_reply_ne fun h_eq => h_ne (Option.some.inj h_eq).symm, heardBy_nil]

/-- The client of a train that has none. -/
theorem KeepsClient.of_none (h : d.client = none) (h' : d'.client = none) : KeepsClient d d' :=
  ⟨h'.trans h.symm, fun h_some => absurd h h_some, fun h_some => absurd h h_some,
    fun _ h_some => absurd h h_some⟩

/-- `process_next_task` answers the client only where the route ends. As long as there is a next
path, or the way to it is blocked and searched again, the client goes on waiting. -/
theorem NextTask.keepsClient (h : NextTask T t d f es d' f')
    (h_driver : d.driver = some (.straightpathWorker t)) (h_state : d.state = .straightpathing)
    (h_hang : d.client ≠ none → d.shouldHang = true) :
    ((∀ c, c.IsOther → heardBy c es = []) ∧ KeepsClient d d') ∨
      ∃ c, d.client = some c ∧ heardBy c es = [.good] ∧
        (∀ c', c' ≠ c → heardBy c' es = []) ∧ d'.state = .idle ∧ d'.tasks.items = [] := by
  -- the next path is driven, or it is blocked and searched again, or the route is at its end
  cases h with
  | drive h_app =>
    obtain ⟨-, h_dr, -, h_st, h_cl, -, h_quiet⟩ := h_app.desk
    refine .inl ⟨fun c h_c => ?_, .of_eq h_cl h_app.shouldHang h_st fun _ => h_hang⟩
    -- only the worker gets an answer
    rw [heardBy_append, h_quiet, h_dr, h_driver,
      heardBy_reply_ne (ne_of_isOther not_isOther_straightpathWorker h_c)]
    rfl
  | blocked h_app =>
    obtain ⟨-, -, -, -, h_cl, -, h_quiet⟩ := h_app.desk
    refine .inl ⟨fun c _ => h_quiet c, h_cl, fun _ => h_app.shouldHang, fun _ => ?_, fun h_s => ?_⟩
    · simp [Desk.restarted, h_state]
    · cases h_s
  | @arrive n tasks h_pop h_n h_next =>
    obtain ⟨h_none, h_none', h_quiet⟩ | ⟨c, h_c, -, h_heard, h_quiet⟩ :=
      @Desk.finish_client { d.turned T n with tasks } h_hang
    · exact .inl ⟨fun c _ => h_quiet c, .of_none h_none h_none'⟩
    · refine .inr ⟨c, h_c, h_heard, h_quiet, Desk.finished_state _, ?_⟩
      rw [Desk.finished_tasks]
      exact Fifo.items_of_pop_none h_next

/-- What the server answers to a client that does not hang. -/
theorem Desk.answers_eq (d : Desk) :
    (d.answers = [] ∧ (d.client ≠ none → d.shouldHang = true)) ∨
      ∃ c, d.client = some c ∧ d.shouldHang = false ∧ d.answers = [.reply (some c) .good] := by
  unfold answers
  split
  · next h =>
    obtain ⟨c, h_c⟩ := Option.ne_none_iff_exists'.mp h.1
    exact .inr ⟨c, h_c, by simpa using h.2, by rw [h_c]⟩
  · next h => exact .inl ⟨rfl, fun h_some => by simpa [h_some] using h⟩

theorem Desk.answered_of_hang (h : d.client ≠ none → d.shouldHang = true) : d.answered = d :=
  if_neg fun h_both => h_both.2 (h h_both.1)

/-- A client that does not hang is forgotten when it has been answered. -/
theorem Desk.client_answered (h : d.shouldHang = false) : d.answered.client = none := by
  unfold answered
  split
  · rfl
  · next h_not => simpa [h] using h_not

/-- A search has been reported: a client that does not hang is answered, and no other one. What
comes behind that in the round goes to workers. -/
theorem ClientStep.report {result : PathfindResult} {path : RoutePath} {rest : List NavEvent}
    (h_busy : d.state ≠ .idle) (h_other : ∀ c, d.client = some c → c.IsOther)
    (h_rest : ∀ c, c.IsOther → heardBy c rest = [])
    (h_keeps : (d.client ≠ none → d.shouldHang = true) → KeepsClient d d')
    (h_none : d.shouldHang = false → d'.client = none) :
    ClientStep t (.pathfindWorker t) d (.pathfindWorkerDone t result path)
      (.reply (some (.pathfindWorker t)) .good :: d.answers ++ rest) d' := by
  have h_heard : ∀ c, c.IsOther →
      heardBy c (.reply (some (.pathfindWorker t)) .good :: d.answers ++ rest) =
        heardBy c d.answers := by
    intro c h_c
    rw [List.cons_append, heardBy_worker h_c, heardBy_append, h_rest c h_c, List.append_nil]
  -- either the client is not answered now, or it is the one that hears `Good`
  obtain ⟨h_answers, h_hang⟩ | ⟨c, h_c, h_no, h_answers⟩ := d.answers_eq
  · refine .keep (fun c h_c _ => ?_) (fun h => absurd h not_isOther_pathfindWorker)
      (h_keeps h_hang) fun _ _ _ => h_hang
    rw [h_heard c h_c, h_answers]
    rfl
  · refine @ClientStep.answer _ _ _ _ _ _ _ .good not_isOther_pathfindWorker h_c h_busy ?_
      (fun c' h_c' h_ne => ?_) (.inr (h_none h_no)) ?_
    · rw [h_heard c (h_other c h_c), h_answers, heardBy_reply_self]
      rfl
    · rw [h_heard c' h_c', h_answers,
        heardBy_reply_ne fun h_eq => h_ne (Option.some.inj h_eq).symm]
      rfl
    · rw [InTime, if_neg (by simp [h_no])]
      exact ⟨_, _, rfl⟩

/-- A message of a worker that no client hears of. -/
theorem ClientStep.quiet (h_sender : ¬client.IsOther) (h_quiet : ∀ c, c.IsOther → heardBy c es = [])
    (h_keeps : KeepsClient d d') (h_req : ∀ result path, req ≠ .pathfindWorkerDone t result path) :
    ClientStep t client d req es d' :=
  .keep (fun c h_c _ => h_quiet c h_c) (fun h_other => absurd h_other h_sender) h_keeps
    fun result path h_eq => absurd h_eq (h_req result path)

/-- The client hears that there is no path, and the train is idle again. -/
theorem ClientStep.noPath (path : RoutePath) (h_busy : d.state ≠ .idle) (h_client : d.client ≠ none)
    (h_other : ∀ c, d.client = some c → c.IsOther) :
    ClientStep t (.pathfindWorker t) d (.pathfindWorkerDone t .noPathAtAll path)
      [.reply (some (.pathfindWorker t)) .good, .reply d.client .noPath]
      { d with state := .idle } := by
  obtain ⟨c, h_c⟩ := Option.ne_none_iff_exists'.mp h_client
  refine @ClientStep.answer _ _ _ _ _ _ _ .noPath not_isOther_pathfindWorker h_c h_busy ?_
    (fun c' h_c' h_ne => ?_) (.inl rfl) ?_
  · rw [heardBy_worker (h_other c h_c), h_c, heardBy_reply_self]
    rfl
  · rw [heardBy_worker h_c', h_c, heardBy_reply_ne fun h_eq => h_ne (Option.some.inj h_eq).symm]
    rfl
  · -- without `hang` the answer comes with the report, with it at the end
    unfold InTime
    split
    · exact .inl ⟨rfl, path, rfl⟩
    · exact ⟨_, _, rfl⟩

/-- The train goes on after a search: its client is answered unless it waits for the end of the
navigation. -/
theorem ClientStep.goOn {result : PathfindResult} {path : RoutePath} (h_busy : d.state ≠ .idle)
    (h_other : ∀ c, d.client = some c → c.IsOther)
    (h_client : d'.client = ({ d with state := .straightpathing } : Desk).answered.client)
    (h_shouldHang : d'.shouldHang = d.shouldHang) (h_busy' : d'.state ≠ .idle) :
    ClientStep t (.pathfindWorker t) d (.pathfindWorkerDone t result path)
      (.reply (some (.pathfindWorker t)) .good :: d.answers) d' := by
  have h_report := @ClientStep.report t d d' result path [] h_busy h_other fun _ _ => rfl
  rw [List.append_nil] at h_report
  refine h_report (fun h_hang => ?_) fun h_no => ?_
  · rw [Desk.answered_of_hang (d := { d with state := .straightpathing }) h_hang] at h_client
    exact ⟨h_client, fun _ => h_shouldHang, fun _ => iff_of_false h_busy' h_busy, fun _ => h_hang⟩
  · exact h_client.trans (Desk.client_answered (d := { d with state := .straightpathing }) h_no)

/-- A client that is left after the answers waits for the end of the navigation. -/
theorem Desk.hang_of_answered
    (h : ({ d with state := .straightpathing } : Desk).answered.client ≠ none) :
    d.shouldHang = true := by
  by_contra h_no
  rw [Bool.not_eq_true] at h_no
  exact h (Desk.client_answered (d := { d with state := .straightpathing }) h_no)

/-- The train goes on with the first task in the same round; the navigation may end there, and then
a client that hangs is answered too. One that does not has had its answer already. -/
theorem ClientStep.followNow {result : PathfindResult} {path : RoutePath}
    {tasks : Fifo NavigationTask} (ts : List NavigationTask) (h_busy : d.state ≠ .idle)
    (h_other : ∀ c, d.client = some c → c.IsOther)
    (h_driver : d.driver = some (.straightpathWorker t))
    (h_next :
      NextTask T t { ({ d with state := .straightpathing } : Desk).answered with tasks }
        f es d' f') :
    ClientStep t (.pathfindWorker t) d (.pathfindWorkerDone t result path)
      (.reply (some (.pathfindWorker t)) .good :: d.answers ++ .nextTask t ts d.driver :: es)
        d' := by
  obtain ⟨h_quiet, h_keeps⟩ | ⟨c, h_c, h_heard, h_quiet, h_idle, h_tasks⟩ :=
    h_next.keepsClient (by simpa using h_driver) (by simp) fun h_some => by
      simpa using Desk.hang_of_answered (d := d) h_some
  · refine .report h_busy h_other (fun c h_c => ?_) (fun h_hang => ?_) fun h_no => ?_
    · rw [heardBy_nextTask]
      exact h_quiet c h_c
    · rw [Desk.answered_of_hang (d := { d with state := .straightpathing }) h_hang] at h_keeps
      refine ⟨h_keeps.client, h_keeps.shouldHang, fun h_some => ?_, fun _ => h_hang⟩
      rw [h_keeps.idle h_some]
      exact iff_of_false (by simp) h_busy
    · exact h_keeps.client.trans
        (Desk.client_answered (d := { d with state := .straightpathing }) h_no)
  · -- the route is a reversal on the spot
    have h_client : d.client = some c :=
      @Desk.client_of_answered { d with state := .straightpathing } c h_c
    have h_hang : d.shouldHang = true :=
      Desk.hang_of_answered (by rw [show _ = some c from h_c]; simp)
    have h_answers : d.answers = [] := if_neg fun h_both => h_both.2 h_hang
    refine @ClientStep.answer _ _ _ _ _ _ _ .good not_isOther_pathfindWorker h_client h_busy ?_
      (fun c' h_c' h_ne => ?_) (.inl h_idle) ?_
    · rw [List.cons_append, heardBy_worker (h_other c h_client), h_answers, List.nil_append,
        heardBy_nextTask]
      exact h_heard
    · rw [List.cons_append, heardBy_worker h_c', h_answers, List.nil_append, heardBy_nextTask]
      exact h_quiet c' h_ne
    · rw [InTime, if_pos h_hang]
      exact .inr ⟨rfl, h_idle, h_tasks⟩

/-- The driver gets the next task, or the last reversal ends the navigation. -/
theorem ClientStep.next (ts : List NavigationTask) (h_state : d.state = .straightpathing)
    (h_hang : d.client ≠ none → d.shouldHang = true)
    (h_next : NextTask T t { d with driver := some (.straightpathWorker t) } f es d' f') :
    ClientStep t (.straightpathWorker t) d (.straightpathWorker t)
      (.nextTask t ts (some (.straightpathWorker t)) :: es) d' := by
  obtain ⟨h_quiet, h_keeps⟩ | ⟨c, h_c, h_heard, h_quiet, h_idle, h_tasks⟩ :=
    h_next.keepsClient rfl h_state h_hang
  · exact .quiet not_isOther_straightpathWorker h_quiet
      ⟨h_keeps.client, h_keeps.shouldHang, h_keeps.idle, h_keeps.answered⟩ fun _ _ h_eq =>
        by cases h_eq
  · refine .answer not_isOther_straightpathWorker h_c (by simp [h_state]) h_heard
      (fun c' _ h_ne => h_quiet c' h_ne) (.inl h_idle) ?_
    have h_yes : d.shouldHang = true := h_hang (by simp [show d.client = some c from h_c])
    rw [InTime, if_pos h_yes]
    exact .inr ⟨rfl, h_idle, h_tasks⟩

/-- The last path has been driven: the client that waits hears of it. -/
theorem ClientStep.arrived (h_busy : d.state ≠ .idle)
    (h_hang : d.client ≠ none → d.shouldHang = true) (h_other : ∀ c, d.client = some c → c.IsOther)
    (h_tasks : d.tasks.items = []) :
    ClientStep t (.straightpathWorker t) d (.straightpathWorkerDone t)
      (d.finishAnswers ++ [.reply (some (.straightpathWorker t)) .good]) d.finished := by
  -- the answer to the worker is for no client
  have h_rest : ∀ c, c.IsOther → heardBy c (d.finishAnswers ++
      [.reply (some (.straightpathWorker t)) .good]) = heardBy c d.finishAnswers := by
    intro c h_c
    rw [heardBy_append, heardBy_reply_ne (ne_of_isOther not_isOther_straightpathWorker h_c),
      heardBy_nil, List.append_nil]
  obtain ⟨h_none, h_none', h_quiet⟩ | ⟨c, h_c, h_yes, h_heard, h_quiet⟩ := Desk.finish_client h_hang
  · exact .quiet not_isOther_straightpathWorker (fun c h_c => (h_rest c h_c).trans (h_quiet c))
      (.of_none h_none h_none') fun _ _ h_eq => by cases h_eq
  · refine .answer not_isOther_straightpathWorker h_c h_busy
      ((h_rest c (h_other c h_c)).trans h_heard)
      (fun c' h_c' h_ne => (h_rest c' h_c').trans (h_quiet c' h_ne))
        (.inl (Desk.finished_state d)) ?_
    -- the route is finished: this is the time to answer a client that hangs
    rw [InTime, if_pos h_yes]
    exact .inr ⟨rfl, Desk.finished_state d, by rwa [Desk.finished_tasks]⟩

/-- What a message of the train does to its client. The cases are those of the inversion. A request
is recorded or refused, a report and the end of a route may answer the client, and everything else
is between the server and the workers. -/
theorem DeskStep.clientStep {phase : NavPhase} {waiting : NavTask → Option NavRequest}
    (h : DeskStep T t client d f req es d' f') (h_cell : Cell t d p q)
    (h_pending : Pending t d waiting) (h_calls : Calls T client phase req)
    (h_p : client = .pathfindWorker t → p.waiting = none ∧ p.phase = phase)
    (h_q : client = .straightpathWorker t → q.waiting = none ∧ q.phase = phase) :
    ClientStep t client d req es d' := by
  have h_self : ∀ (res : NavResponse), heardBy client [.reply (some client) res] = [res] :=
    fun res => heardBy_reply_self client res []
  have h_else : ∀ (res : NavResponse) (c : NavTask), c ≠ client →
      heardBy c [.reply (some client) res] = [] :=
    fun res c h_c => heardBy_reply_ne (fun h_eq => h_c (Option.some.inj h_eq).symm) res []
  cases h with
  -- the answer goes to the client of the message, and no desk changes
  | busy | needRegister =>
    exact .keep (fun c _ h_c => h_else _ c h_c) (fun _ => ⟨_, h_self _⟩) (.refl h_pending.answered)
      fun _ _ h_eq => by cases h_eq
  | register =>
    exact .keep (fun c _ h_c => h_else _ c h_c) (fun _ => ⟨_, h_self _⟩)
      (.of_eq rfl rfl rfl h_pending.answered) fun _ _ h_eq => by cases h_eq
  -- the request is recorded, and only the pathfinder hears something
  | search h_idle h_source h_parked =>
    refine .accept rfl h_idle (fun c h_c => ?_) rfl rfl rfl
    obtain h_none | ⟨h_pf, -⟩ := h_cell.pathfinder
    · exact absurd h_none.1 h_parked
    · rw [h_pf]
      exact heardBy_reply_ne (ne_of_isOther not_isOther_pathfindWorker h_c) _ _
  | searchLater h_idle => exact .accept rfl h_idle (fun _ _ => rfl) rfl rfl rfl
  -- the pathfinder and the driver are parked, or given something
  | parkPathfinder =>
    obtain ⟨rfl, -⟩ := h_calls.pathfindWorker
    exact .quiet not_isOther_pathfindWorker (fun _ _ => rfl) (.of_eq rfl rfl rfl h_pending.answered)
      fun _ _ h_eq => by cases h_eq
  | giveSearch =>
    obtain ⟨rfl, -⟩ := h_calls.pathfindWorker
    exact .quiet not_isOther_pathfindWorker
      (fun c h_c => heardBy_reply_ne (ne_of_isOther not_isOther_pathfindWorker h_c) _ _)
      (.of_eq rfl rfl rfl h_pending.answered) fun _ _ h_eq => by cases h_eq
  | parkDriver =>
    obtain ⟨rfl, -⟩ := h_calls.straightpathWorker
    exact .quiet not_isOther_straightpathWorker (fun _ _ => rfl)
      (.of_eq rfl rfl rfl h_pending.answered)
      fun _ _ h_eq => by cases h_eq
  | drove =>
    obtain ⟨rfl, -⟩ := h_calls.straightpathWorkerDone
    exact .quiet not_isOther_straightpathWorker
      (fun c h_c => heardBy_reply_ne (ne_of_isOther not_isOther_straightpathWorker h_c) _ _)
      (.refl h_pending.answered) fun _ _ h_eq => by cases h_eq
  -- the search is over
  | noPath h_client =>
    obtain ⟨rfl, source, destination, rfl, -⟩ := h_calls.pathfindWorkerDone
    obtain ⟨h_state, -⟩ := h_cell.searching _ _ (h_p rfl).2
    exact .noPath _ (by simp [h_state]) h_client h_cell.client_other
  | searchAgain =>
    obtain ⟨rfl, source, destination, rfl, -⟩ := h_calls.pathfindWorkerDone
    obtain ⟨h_state, -⟩ := h_cell.searching _ _ (h_p rfl).2
    exact .goOn (by simp [h_state]) h_cell.client_other rfl (Desk.answered_shouldHang _)
      (by simp [Desk.restarted])
  | follow =>
    obtain ⟨rfl, source, destination, rfl, -⟩ := h_calls.pathfindWorkerDone
    obtain ⟨h_state, -⟩ := h_cell.searching _ _ (h_p rfl).2
    exact .goOn (by simp [h_state]) h_cell.client_other rfl (Desk.answered_shouldHang _) (by simp)
  | followNow h_path h_result h_fill h_driver h_next =>
    obtain ⟨rfl, source, destination, rfl, -⟩ := h_calls.pathfindWorkerDone
    obtain ⟨h_state, -⟩ := h_cell.searching _ _ (h_p rfl).2
    obtain h_none | ⟨h_dr, -⟩ := h_cell.driver
    · exact absurd h_none.1 h_driver
    · exact .followNow _ (by simp [h_state]) h_cell.client_other h_dr h_next
  -- the train drives
  | next h_state _ h_next =>
    obtain ⟨rfl, -⟩ := h_calls.straightpathWorker
    exact .next _ h_state (h_pending.answered h_state) h_next
  | arrived h_tasks =>
    obtain ⟨rfl, path, ahead, rfl⟩ := h_calls.straightpathWorkerDone
    obtain ⟨h_state, -⟩ := h_cell.driving _ _ (h_q rfl).2
    exact .arrived (by simp [h_state]) (h_pending.answered h_state) h_cell.client_other h_tasks

end Train

/-! ### The world -/

/-- The client of every train, and the printers. A task that the server has recorded does wait, and
for the answer that it will get. -/
structure Answering (w : NavWorld) : Prop where
  pending : ∀ t, Pending t (w.server.desk t) fun c => (w.tasks c).waiting
  reservation : ∀ c, w.server.reservationClient = some c →
    (w.tasks c).waiting = some .getReservations
  trainstate : ∀ c, w.server.trainstatePrintClient = some c →
    (w.tasks c).waiting = some .getTrainState

section World

variable {T : Track} {w w' : NavWorld} {m : NavMessage} {c : NavTask}

theorem NavTaskState.waiting_foldl_hear (rs : List NavResponse) (x : NavTaskState) :
    (rs.foldl hear x).waiting = if rs = [] then x.waiting else none := by
  induction rs generalizing x with
  | nil => rfl
  | cons res rs ih =>
    rw [List.foldl_cons, ih, if_neg (List.cons_ne_nil res rs)]
    split
    · rfl
    · rfl

theorem NavWorld.waiting_sent (w : NavWorld) (m : NavMessage) (c : NavTask) :
    (w.sent m c).waiting = if c = m.client then some m.req else (w.tasks c).waiting := by
  rw [sent, NavTaskState.waiting_pass]
  split
  · rfl
  · rfl

/-- A task waits until it is answered. -/
theorem waiting_of_step (h_step : (worldSystem T).step w m w') (c : NavTask) :
    (w'.tasks c).waiting =
      if heardBy c (NavWorld.newEvents w.server w'.server) = []
        then (w.sent m c).waiting else none := by
  obtain ⟨-, s', -, rfl⟩ := h_step
  exact NavTaskState.waiting_foldl_hear _ _

/-- A message that is not about one train, as far as the tasks that are no workers are concerned.
Nobody but the sender hears of it, and the sender at once, unless it is a printer, which is answered
at the end of the loop body or later. -/
structure SharedAnswer (m : NavMessage) (own : List NavEvent) : Prop where
  quiet : ∀ c, c ≠ m.client → heardBy c own = []
  sender : heardBy m.client own = [] ∧ (m.req = .getReservations ∨ m.req = .getTrainState) ∨
    (∃ res, heardBy m.client own = [res]) ∧ m.req ≠ .getReservations ∧ m.req ≠ .getTrainState
  not_request : ∀ t n offset hang, m.req ≠ .navigationRequest t n offset hang
  not_search : ∀ t result path, m.req ≠ .pathfindWorkerDone t result path

/-- What a message does to the clients. -/
inductive WorldAnswer (w w' : NavWorld) (m : NavMessage) (own : List NavEvent) : Prop
  | train {t : TrainNum} {d' : Desk} (h_desk : w'.server.desk = Function.update w.server.desk t d')
      (h : ClientStep t m.client (w.server.desk t) m.req own d')
      (h_req : m.req ≠ .getReservations ∧ m.req ≠ .getTrainState ∧
        ∀ u result path, m.req = .pathfindWorkerDone u result path → u = t)
  | shared (h_desk : w'.server.desk = w.server.desk) (h : SharedAnswer m own)

/-- What a message does to the printers: those that are answered waited for just this answer, in the
world after the message was sent. -/
structure WorldPrint (w w' : NavWorld) (m : NavMessage) (fl : List NavEvent) : Prop where
  printed : ∃ s₁ a b, Printed s₁ w'.server a b fl ∧
    (∀ c, s₁.reservationClient = some c → (w.sent m c).waiting = some .getReservations) ∧
    ∀ c, s₁.trainstatePrintClient = some c → (w.sent m c).waiting = some .getTrainState

theorem DeskStep.not_shared {t : TrainNum} {client : NavTask} {d d' : Desk} {f f' : Table}
    {req : NavRequest} {es : List NavEvent} (h : DeskStep T t client d f req es d' f') :
    req ≠ .getReservations ∧ req ≠ .getTrainState ∧
      ∀ u result path, req = .pathfindWorkerDone u result path → u = t := by
  cases h <;> simp_all

theorem NavWorld.newEvents_eq {s s' : NavServer} {es : List NavEvent} (h : s'.log = s.log ++ es) :
    newEvents s s' = es := by
  rw [newEvents, h, List.drop_left]

/-- **The inversion, for the clients.** The events of a step are those of the message itself, and
behind them those of the printers (`fl`); of both it is known to whom they go and what these waited
for. It comes from the inversion of the world, case by case. -/
theorem world_step_answer (h_w : Coupled T w) (h : Answering w)
    (h_step : (worldSystem T).step w m w') : ∃ own fl, w'.server.log = w.server.log ++ (own ++ fl) ∧
      WorldAnswer w w' m own ∧ WorldPrint w w' m fl := by
  have h_old : ∀ c, (w.tasks c).waiting ≠ none → (w.sent m c).waiting = (w.tasks c).waiting := by
    intro c h_c
    rw [w.waiting_sent]
    refine if_neg fun h_eq => ?_
    subst h_eq
    exact h_c h_step.1.1
  have h_reservation : ∀ c, w.server.reservationClient = some c →
      (w.sent m c).waiting = some .getReservations :=
    fun c h_c => (h_old c (by simp [h.reservation c h_c])).trans (h.reservation c h_c)
  have h_trainstate : ∀ c, w.server.trainstatePrintClient = some c →
      (w.sent m c).waiting = some .getTrainState :=
    fun c h_c => (h_old c (by simp [h.trainstate c h_c])).trans (h.trainstate c h_c)
  obtain ⟨h_send, ⟨t, es, d', f', h_train⟩ | ⟨h_shared, h_after⟩⟩ :=
    world_step_cases h_w.symmetric h_step
  · -- a message about a train: its desk answers, and the printers may be served
    obtain ⟨a, b, fl, h_printed, h_log, -⟩ := h_train.printed
    refine ⟨es, fl, h_log, .train h_train.desk ?_ h_train.step.not_shared,
      ⟨w.server, a, b, h_printed, h_reservation, h_trainstate⟩⟩
    refine h_train.step.clientStep (h_w.cells t) (h.pending t) h_send.2 ?_ ?_
    · exact fun h_eq => ⟨h_eq ▸ h_send.1, h_eq ▸ rfl⟩
    · exact fun h_eq => ⟨h_eq ▸ h_send.1, h_eq ▸ rfl⟩
  · -- a message about no train
    obtain ⟨own, s₁, a, b, fl, h_fl, h_desk, h_log, h_own, h_res, h_tr⟩ := h_shared.effect
    have h_sent : (w.sent m m.client).waiting = some m.req := by rw [w.waiting_sent, if_pos rfl]
    refine ⟨own, fl, h_fl.log.trans (by rw [h_log, List.append_assoc]),
      .shared (h_fl.desk.trans h_desk) ?_,
        ⟨s₁, a, b, h_fl.toPrinted, fun c h_c => ?_, fun c h_c => ?_⟩⟩
    · have h_quiet : ∀ res c, c ≠ m.client → heardBy c [.reply (some m.client) res] = [] :=
        fun res c h_c => heardBy_reply_ne (fun h_eq => h_c (Option.some.inj h_eq).symm) _ _
      obtain ⟨rfl, h_get⟩ | ⟨rfl, pool, h_req⟩ | ⟨t, workerType, rfl, h_req⟩ := h_own
      · -- a printer that is left waiting hears nothing of its own message
        refine ⟨fun _ _ => rfl, .inl ⟨rfl, h_get⟩, fun t n offset hang h_eq => ?_,
          fun t result path h_eq => ?_⟩
        · rw [h_eq] at h_get
          obtain h_get | h_get := h_get <;> cases h_get
        · rw [h_eq] at h_get
          obtain h_get | h_get := h_get <;> cases h_get
      · exact ⟨h_quiet _, .inr ⟨⟨_, heardBy_reply_self _ _ _⟩, by simp [h_req], by simp [h_req]⟩,
          by simp [h_req], by simp [h_req]⟩
      · exact ⟨h_quiet _, .inr ⟨⟨_, heardBy_reply_self _ _ _⟩, by simp [h_req], by simp [h_req]⟩,
          by simp [h_req], by simp [h_req]⟩
    · -- who waits for the reservations is the old printer or the sender
      obtain h_same | ⟨h_new, h_req⟩ := h_res
      · exact h_reservation c (h_same ▸ h_c)
      · obtain rfl := Option.some.inj (h_new.symm.trans h_c)
        rw [h_sent, h_req]
    · obtain h_same | ⟨h_new, h_req⟩ := h_tr
      · exact h_trainstate c (h_same ▸ h_c)
      · obtain rfl := Option.some.inj (h_new.symm.trans h_c)
        rw [h_sent, h_req]

/-! ### One answer at most -/

/-- A printer is answered once or not at all, since one task cannot wait for both kinds of
answers. -/
theorem WorldPrint.once {fl : List NavEvent} (h : WorldPrint w w' m fl) (c : NavTask) :
    heardBy c fl = [] ∨ (∃ res, heardBy c fl = [res]) ∧
      ((w.sent m c).waiting = some .getReservations ∨
        (w.sent m c).waiting = some .getTrainState) := by
  obtain ⟨s₁, a, b, ⟨-, -, res, res', rfl⟩, h_a, h_b⟩ := h.printed
  rw [heardBy_append]
  have h_one : ∀ (client : Option NavTask) (res : NavResponse) (a : Bool),
      heardBy c (if a then [.reply client res] else []) = [] ∨
        heardBy c (if a then [.reply client res] else []) = [res] ∧ client = some c := by
    intro client res a
    cases a with
    | false => exact .inl rfl
    | true =>
      by_cases h_eq : client = some c
      · exact .inr ⟨by simp [heardBy_reply, h_eq], h_eq⟩
      · exact .inl (heardBy_reply_ne h_eq _ _)
  obtain h_fst | ⟨h_fst, h_c⟩ := h_one s₁.reservationClient res a
  · obtain h_snd | ⟨h_snd, h_c⟩ := h_one s₁.trainstatePrintClient res' b
    · exact .inl (by rw [h_fst, h_snd]; rfl)
    · exact .inr ⟨⟨_, by rw [h_fst, h_snd]; rfl⟩, .inr (h_b c h_c)⟩
  · obtain h_snd | ⟨-, h_c'⟩ := h_one s₁.trainstatePrintClient res' b
    · exact .inr ⟨⟨_, by rw [h_fst, h_snd]; rfl⟩, .inl (h_a c h_c)⟩
    · -- one task cannot wait for both
      have h_both := (h_a c h_c).symm.trans (h_b c h_c')
      cases h_both

theorem WorldPrint.quiet {fl : List NavEvent} (h : WorldPrint w w' m fl)
    (h_c : (w.sent m c).waiting ≠ some .getReservations ∧
      (w.sent m c).waiting ≠ some .getTrainState) :
    heardBy c fl = [] := by
  obtain h_nil | ⟨-, h_wait | h_wait⟩ := h.once c
  · exact h_nil
  · exact absurd h_wait h_c.1
  · exact absurd h_wait h_c.2

/-- A printer that is still recorded has not been answered. The other one may have been, but that is
another task, or it would wait for two answers. -/
theorem WorldPrint.left {fl : List NavEvent} (h : WorldPrint w w' m fl) :
    (∀ c, w'.server.reservationClient = some c →
      heardBy c fl = [] ∧ (w.sent m c).waiting = some .getReservations) ∧
    ∀ c, w'.server.trainstatePrintClient = some c →
      heardBy c fl = [] ∧ (w.sent m c).waiting = some .getTrainState := by
  obtain ⟨s₁, a, b, ⟨h_res, h_tr, res, res', rfl⟩, h_a, h_b⟩ := h.printed
  refine ⟨fun c h_c => ?_, fun c h_c => ?_⟩
  · cases a with
    | true =>
      rw [h_res] at h_c
      cases h_c
    | false =>
      -- the other printer may be answered, but a task waits for one of them only
      have h_wait := h_a c (h_res.symm.trans h_c)
      refine ⟨?_, h_wait⟩
      cases b with
      | false => rfl
      | true =>
        refine heardBy_reply_ne (fun h_eq => ?_) _ _
        have h_both := h_wait.symm.trans (h_b c h_eq)
        cases h_both
  · cases b with
    | true =>
      rw [h_tr] at h_c
      cases h_c
    | false =>
      have h_wait := h_b c (h_tr.symm.trans h_c)
      refine ⟨?_, h_wait⟩
      cases a with
      | false => rfl
      | true =>
        refine heardBy_reply_ne (fun h_eq => ?_) _ _
        have h_both := h_wait.symm.trans (h_a c h_eq)
        cases h_both

/-- A task that has not sent the message is only answered if it is the client of the train,
and the train is not idle. -/
theorem ClientStep.other {t : TrainNum} {client : NavTask} {d d' : Desk} {req : NavRequest}
    {es : List NavEvent} (h : ClientStep t client d req es d') (h_c : c.IsOther)
    (h_ne : c ≠ client) :
    heardBy c es = [] ∨ (∃ res, heardBy c es = [res] ∧ InTime t d d' req res) ∧
      d.client = some c ∧ d.state ≠ .idle := by
  cases h with
  | accept _ _ h_quiet => exact .inl (h_quiet c h_c)
  | @answer c₀ res _ h_client h_busy h_heard h_quiet _ h_time =>
    by_cases h_eq : c = c₀
    · subst h_eq
      exact .inr ⟨⟨res, h_heard, h_time⟩, h_client, h_busy⟩
    · exact .inl (h_quiet c h_c h_eq)
  | keep h_quiet => exact .inl (h_quiet c h_c h_ne)

/-- The sender of a message of a train is answered, or is recorded. -/
theorem ClientStep.sender {t : TrainNum} {client : NavTask} {d d' : Desk} {req : NavRequest}
    {es : List NavEvent} (h : ClientStep t client d req es d') (h_c : client.IsOther) :
    (∃ res, heardBy client es = [res]) ∨ heardBy client es = [] ∧
      d'.client = some client ∧ d'.state = .pathfinding ∧
        ∃ n offset, req = .navigationRequest t n offset d'.shouldHang := by
  cases h with
  | @accept n offset hang h_req _ h_quiet h_client h_hang h_state =>
    exact .inr ⟨h_quiet client h_c, h_client, h_state, n, offset, by rw [h_req, h_hang]⟩
  | answer h_sender => exact absurd h_c h_sender
  | keep _ h_sender => exact .inl (h_sender h_c)

/-- The message itself answers a task once or not at all: its sender at once, or the client of the
train, which waits for its request. -/
theorem WorldAnswer.once {own : List NavEvent} (h_ans : WorldAnswer w w' m own) (h : Answering w)
    (h_c : c.IsOther) : heardBy c own = [] ∨ (∃ res, heardBy c own = [res]) ∧
      (w.sent m c).waiting ≠ none ∧ (w.sent m c).waiting ≠ some .getReservations ∧
        (w.sent m c).waiting ≠ some .getTrainState := by
  have h_sent := w.waiting_sent m c
  -- the client that sends is answered now or not; another one only if its navigation request waits
  by_cases h_ne : c = m.client
  · subst h_ne
    rw [if_pos rfl] at h_sent
    cases h_ans with
    | train _ h_client h_req =>
      obtain h_heard | ⟨h_nil, -⟩ := h_client.sender h_c
      · exact .inr ⟨h_heard, by simp [h_sent], by simp [h_sent, h_req.1],
          by simp [h_sent, h_req.2.1]⟩
      · exact .inl h_nil
    | shared _ h_shared =>
      obtain ⟨h_nil, -⟩ | ⟨h_heard, h_res, h_tr⟩ := h_shared.sender
      · exact .inl h_nil
      · exact .inr ⟨h_heard, by simp [h_sent], by simp [h_sent, h_res], by simp [h_sent, h_tr]⟩
  · rw [if_neg h_ne] at h_sent
    cases h_ans with
    | @train t d' _ h_client _ =>
      obtain h_nil | ⟨⟨res, h_heard, -⟩, h_some, h_busy⟩ := h_client.other h_c h_ne
      · exact .inl h_nil
      · obtain ⟨n, offset, h_wait⟩ := (h.pending t).waits c h_some h_busy
        exact .inr ⟨⟨res, h_heard⟩, by simp [h_sent, h_wait], by simp [h_sent, h_wait],
          by simp [h_sent, h_wait]⟩
    | shared _ h_shared => exact .inl (h_shared.quiet c h_ne)

/-- **One answer.** A step answers a task once or not at all, and only a task that waits. The
message itself answers one task at most, and the printers are answered behind it; a task that has
been answered by the message is no printer, so it is not answered a second time. -/
theorem heard_of_step (h_w : Coupled T w) (h : Answering w) (h_step : (worldSystem T).step w m w')
    (h_c : c.IsOther) : heardBy c (NavWorld.newEvents w.server w'.server) = [] ∨
      (∃ res, heardBy c (NavWorld.newEvents w.server w'.server) = [res]) ∧
        (w.sent m c).waiting ≠ none := by
  obtain ⟨own, fl, h_log, h_ans, h_print⟩ := world_step_answer h_w h h_step
  rw [NavWorld.newEvents_eq h_log, heardBy_append]
  -- what the message itself answers, and then the loop that answers the printers
  obtain h_own | ⟨⟨res, h_own⟩, h_wait, h_print_not⟩ := h_ans.once h h_c
  · rw [h_own, List.nil_append]
    obtain h_fl | ⟨h_fl, h_wait⟩ := h_print.once c
    · exact .inl h_fl
    · refine .inr ⟨h_fl, ?_⟩
      obtain h_wait | h_wait := h_wait
      · simp [h_wait]
      · simp [h_wait]
  · refine .inr ⟨⟨res, ?_⟩, h_wait⟩
    -- who is answered by the message is no printer, so it is not answered a second time
    rw [h_own, h_print.quiet h_print_not]
    rfl

/-! ### The invariant -/

theorem answering_start : Answering .start where
  pending t := {
    recorded := fun _ _ _ _ h => by cases h
    waits := fun _ h => by cases h
    answered := fun h => by cases h }
  reservation _ h := by cases h
  trainstate _ h := by cases h

/-- The client of the train, after a message of the train. If it has been answered it waits no
longer and is no longer recorded; if not, nothing has changed for it; and a request that is accepted
makes its sender the client. -/
theorem ClientStep.pending {t : TrainNum} {client : NavTask} {d d' : Desk} {req : NavRequest}
    {es : List NavEvent} {waiting waiting' : NavTask → Option NavRequest}
    (h : ClientStep t client d req es d') (h_pending : Pending t d waiting)
    (h_other : ∀ c, d.client = some c → c.IsOther) (h_free : waiting client = none)
    (h_accept : ∀ n offset hang, req = .navigationRequest t n offset hang → client.IsOther)
    (h_waiting : ∀ c, c.IsOther → ∀ n offset hang,
      waiting' c = some (.navigationRequest t n offset hang) ↔ heardBy c es = [] ∧
        (if c = client then some req else waiting c) = some (.navigationRequest t n offset hang)) :
    Pending t d' waiting' := by
  refine ⟨fun k n offset hang h_k => ?_, fun c h_c h_busy => ?_, fun h_state h_some => ?_⟩
  · -- who waits for a train is the client that is kept for it
    obtain ⟨h_nil, h_sent⟩ := (h_waiting (.other k) ⟨k, rfl⟩ n offset hang).mp h_k
    split at h_sent
    · next h_eq =>
      -- the message is the request
      subst h_eq
      obtain rfl := Option.some.inj h_sent
      obtain ⟨res, h_heard⟩ | ⟨-, h_client, h_state, _, _, h_req⟩ := h.sender ⟨k, rfl⟩
      · rw [h_nil] at h_heard
        cases h_heard
      · cases h_req
        exact ⟨h_client, by simp [h_state], rfl⟩
    · -- it has been waiting, so the train is busy with its request
      obtain ⟨h_client, h_busy, h_hang⟩ := h_pending.recorded k n offset hang h_sent
      cases h with
      | accept _ h_idle => exact absurd h_idle h_busy
      | answer _ h_client' _ h_heard =>
        obtain rfl := Option.some.inj (h_client.symm.trans h_client')
        rw [h_nil] at h_heard
        cases h_heard
      | keep _ _ h_keeps =>
        have h_some : d.client ≠ none := by simp [h_client]
        exact ⟨h_keeps.client.trans h_client,
          fun h_idle => h_busy ((h_keeps.idle h_some).mp h_idle),
          (h_keeps.shouldHang h_some).trans h_hang⟩
  · -- the client that is kept for a busy train waits for it
    cases h with
    | @accept n offset hang h_req _ h_quiet h_client h_hang =>
      obtain rfl := Option.some.inj (h_client.symm.trans h_c)
      have h_is := h_accept _ _ _ h_req
      refine ⟨n, offset, (h_waiting client h_is _ _ _).mpr ⟨h_quiet client h_is, ?_⟩⟩
      rw [if_pos rfl, h_req, h_hang]
    | answer _ _ _ _ _ h_gone =>
      obtain h_idle | h_none := h_gone
      · exact absurd h_idle h_busy
      · rw [h_c] at h_none
        cases h_none
    | keep h_quiet _ h_keeps =>
      have h_client : d.client = some c := h_keeps.client.symm.trans h_c
      have h_some : d.client ≠ none := by simp [h_client]
      obtain ⟨n, offset, h_wait⟩ :=
        h_pending.waits c h_client fun h_idle => h_busy ((h_keeps.idle h_some).mpr h_idle)
      have h_ne : c ≠ client := by
        rintro rfl
        rw [h_free] at h_wait
        cases h_wait
      have h_is := h_other c h_client
      refine ⟨n, offset, (h_waiting c h_is _ _ _).mpr ⟨h_quiet c h_is h_ne, ?_⟩⟩
      rw [if_neg h_ne, h_wait, h_keeps.shouldHang h_some]
  · -- a client that is kept while the train drives is one that hangs
    cases h with
    | accept _ _ _ _ _ h_path =>
      rw [h_state] at h_path
      cases h_path
    | answer _ _ _ _ _ h_gone =>
      obtain h_idle | h_none := h_gone
      · rw [h_state] at h_idle
        cases h_idle
      · exact absurd h_none h_some
    | keep _ _ h_keeps =>
      have h_some' : d.client ≠ none := h_keeps.client ▸ h_some
      rw [h_keeps.shouldHang h_some']
      exact h_keeps.answered h_state h_some'

/-- The client of a train that the message is not about: it hears nothing, and nobody else begins to
wait for this train. -/
theorem Pending.other {t : TrainNum} {d : Desk} {client : NavTask} {req : NavRequest}
    {es : List NavEvent} {waiting waiting' : NavTask → Option NavRequest}
    (h_pending : Pending t d waiting) (h_other : ∀ c, d.client = some c → c.IsOther)
    (h_free : waiting client = none)
    (h_req : client.IsOther → heardBy client es = [] → ∀ n offset hang,
      req ≠ .navigationRequest t n offset hang)
    (h_quiet : ∀ c, c.IsOther → c ≠ client → ∀ n offset hang,
      waiting c = some (.navigationRequest t n offset hang) → heardBy c es = [])
    (h_waiting : ∀ c, c.IsOther → ∀ n offset hang,
      waiting' c = some (.navigationRequest t n offset hang) ↔ heardBy c es = [] ∧
        (if c = client then some req else waiting c) = some (.navigationRequest t n offset hang)) :
    Pending t d waiting' := by
  refine ⟨fun k n offset hang h_k => ?_, fun c h_c h_busy => ?_, h_pending.answered⟩
  · -- the request that waits has waited before: the sender's is about another train
    obtain ⟨h_nil, h_sent⟩ := (h_waiting (.other k) ⟨k, rfl⟩ n offset hang).mp h_k
    split at h_sent
    · next h_eq =>
      subst h_eq
      exact absurd (Option.some.inj h_sent) (h_req ⟨k, rfl⟩ h_nil n offset hang)
    · exact h_pending.recorded k n offset hang h_sent
  · obtain ⟨n, offset, h_wait⟩ := h_pending.waits c h_c h_busy
    -- a recorded client waits already, so it is not the one that sends
    have h_ne : c ≠ client := by
      rintro rfl
      rw [h_free] at h_wait
      cases h_wait
    have h_is := h_other c h_c
    refine ⟨n, offset, (h_waiting c h_is _ _ _).mpr ⟨h_quiet c h_is h_ne _ _ _ h_wait, ?_⟩⟩
    rw [if_neg h_ne, h_wait]

/-- A step keeps the clients and the printers. A task is recorded for one thing only, so what
answers a printer answers no client, and the other way round. -/
theorem Answering.step (h_w : Coupled T w) (h : Answering w)
    (h_step : (worldSystem T).step w m w') :
    Answering w' := by
  have h_w' := h_w.step h_step
  obtain ⟨own, fl, h_log, h_ans, h_print⟩ := world_step_answer h_w h h_step
  have h_wait : ∀ c, (w'.tasks c).waiting =
      if heardBy c own ++ heardBy c fl = [] then (w.sent m c).waiting else none := by
    intro c
    rw [waiting_of_step h_step, NavWorld.newEvents_eq h_log, heardBy_append]
  -- a printer that was not answered waits for the same thing
  have h_printer : ∀ c, c.IsOther → heardBy c fl = [] →
      ((w.sent m c).waiting = some .getReservations ∨
      (w.sent m c).waiting = some .getTrainState) →
        (w'.tasks c).waiting = (w.sent m c).waiting := by
    intro c h_c h_fl h_get
    obtain h_nil | ⟨-, -, h_res, h_tr⟩ := h_ans.once h h_c
    · rw [h_wait, h_nil, h_fl, List.append_nil, if_pos rfl]
    · exact absurd h_get (not_or.mpr ⟨h_res, h_tr⟩)
  -- the printers do not wait for a train
  have h_waiting : ∀ c t n offset hang, (w'.tasks c).waiting =
      some (.navigationRequest t n offset hang) ↔ heardBy c own = [] ∧
        (if c = m.client then some m.req else (w.tasks c).waiting) =
          some (.navigationRequest t n offset hang) := by
    intro c t n offset hang
    rw [h_wait, ← w.waiting_sent]
    constructor
    · intro h_eq
      split at h_eq
      · next h_nil => exact ⟨(List.append_eq_nil_iff.mp h_nil).1, h_eq⟩
      · cases h_eq
    · rintro ⟨h_nil, h_eq⟩
      have h_fl : heardBy c fl = [] := h_print.quiet (by simp [h_eq])
      rw [h_nil, h_fl, List.append_nil, if_pos rfl, h_eq]
  refine ⟨fun u => ?_, fun c h_c => ?_, fun c h_c => ?_⟩
  · have h_other := (h_w.cells u).client_other
    cases h_ans with
    | @train t d' h_desk h_client h_req =>
      rw [h_desk]
      by_cases h_u : u = t
      · -- the message is about `u` itself
        subst h_u
        rw [Function.update_self]
        exact h_client.pending (h.pending u) h_other h_step.1.1
          (fun n offset hang h_eq => (h_eq ▸ h_step.1.2 : Calls T _ _ _).isOther trivial)
          fun c _ => h_waiting c u
      · rw [Function.update_of_ne h_u]
        refine (h.pending u).other h_other h_step.1.1 (fun h_is h_nil n offset hang h_eq => ?_)
          (fun c h_c h_ne n offset hang h_c' => ?_) fun c _ => h_waiting c u
        · obtain ⟨res, h_heard⟩ | ⟨-, -, -, _, _, h_eq'⟩ := h_client.sender h_is
          · rw [h_nil] at h_heard
            cases h_heard
          · rw [h_eq] at h_eq'
            cases h_eq'
            exact h_u rfl
        · obtain h_nil | ⟨-, h_some, h_busy⟩ := h_client.other h_c h_ne
          · exact h_nil
          · obtain ⟨_, _, h_t⟩ := (h.pending t).waits c h_some h_busy
            rw [h_t] at h_c'
            cases h_c'
            exact absurd rfl h_u
    -- a message about no train answers no request for one
    | shared h_desk h_shared =>
      rw [h_desk]
      exact (h.pending u).other h_other h_step.1.1
        (fun _ _ n offset hang => h_shared.not_request u n offset hang)
        (fun c _ h_ne _ _ _ _ => h_shared.quiet c h_ne) fun c _ => h_waiting c u
  · obtain ⟨h_fl, h_get⟩ := h_print.left.1 c h_c
    rw [h_printer c (h_w'.reservation_other c h_c) h_fl (.inl h_get), h_get]
  · obtain ⟨h_fl, h_get⟩ := h_print.left.2 c h_c
    rw [h_printer c (h_w'.trainstate_other c h_c) h_fl (.inr h_get), h_get]

end World

/-! ### The result -/

/-- The route of the train has come to its end: nothing is queued, and nothing is driven. This is
the time at which a client that has asked to hang is answered. -/
structure RouteFinished (w : NavWorld) (t : TrainNum) : Prop where
  state : w.server.states t = .idle
  tasks : (w.server.navigationTasks t).items = []
  driver : ∀ path ahead, (w.tasks (.straightpathWorker t)).phase ≠ .driving path ahead

/-- What the clients are answered in the run `ms`, and by the next message.

The clients are the tasks that are no workers, any number of them; what a client hears is read off
the log of the server. The last two fields speak of each message that can be sent next. -/
structure ExactAnswers (T : Track) (ms : List NavMessage) (w : NavWorld) : Prop where
  /-- All messages of a client have been answered once, but for the one it waits for. -/
  once : ∀ k, ms.countP (·.client = .other k) = (heardBy (.other k) w.server.log).length +
    if (w.tasks (.other k)).waiting = none then 0 else 1
  recorded : ∀ k t n offset hang,
    (w.tasks (.other k)).waiting = some (.navigationRequest t n offset hang) →
      w.server.clients t = some (.other k) ∧ w.server.states t ≠ .idle
  hanging : ∀ k t n offset, (w.tasks (.other k)).waiting =
    some (.navigationRequest t n offset true) →
    ∀ m w', (worldSystem T).step w m w' →
      ∀ res ∈ heardBy (.other k) (NavWorld.newEvents w.server w'.server),
        (res = .noPath ∧ ∃ path, m.req = .pathfindWorkerDone t .noPathAtAll path) ∨
          (res = .good ∧ RouteFinished w' t)
  notHanging : ∀ k t n offset,
    (w.tasks (.other k)).waiting = some (.navigationRequest t n offset false) →
    ∀ m w', (worldSystem T).step w m w' →
      (heardBy (.other k) (NavWorld.newEvents w.server w'.server) ≠ [] ↔
        ∃ result path, m.req = .pathfindWorkerDone t result path)

section Result

variable {T : Track} {w w' : NavWorld} {m : NavMessage} {k : ℕ} {t : TrainNum} {n : NodeNum}
  {offset : Int32} {hang : Bool}

/-- The answer to a request that waits. It comes with a report of the search, or when the route has
come to its end; before that its client hears nothing, and with a report nothing only if it
hangs. -/
theorem answer_of_step (h_w : Coupled T w) (h : Answering w) (h_step : (worldSystem T).step w m w')
    (h_wait : (w.tasks (.other k)).waiting = some (.navigationRequest t n offset hang)) :
    (heardBy (.other k) (NavWorld.newEvents w.server w'.server) = [] ∧
      ((∃ result path, m.req = .pathfindWorkerDone t result path) → hang = true)) ∨
      ∃ res, heardBy (.other k) (NavWorld.newEvents w.server w'.server) = [res] ∧
        InTime t (w.server.desk t) (w'.server.desk t) m.req res := by
  obtain ⟨own, fl, h_log, h_ans, h_print⟩ := world_step_answer h_w h h_step
  obtain ⟨h_client, h_busy, h_hang⟩ := (h.pending t).recorded k n offset hang h_wait
  -- who waits sends nothing
  have h_ne : NavTask.other k ≠ m.client := by
    intro h_eq
    rw [h_eq, h_step.1.1] at h_wait
    cases h_wait
  have h_sent : (w.sent m (.other k)).waiting = some (.navigationRequest t n offset hang) := by
    rw [w.waiting_sent, if_neg h_ne, h_wait]
  -- and it does not wait for a print
  have h_fl : heardBy (.other k) fl = [] := h_print.quiet (by simp [h_sent])
  rw [NavWorld.newEvents_eq h_log, heardBy_append, h_fl, List.append_nil]
  cases h_ans with
  | @train u d' h_desk h_step h_req =>
    by_cases h_u : t = u
    · -- a message about the train of the request
      subst h_u
      rw [h_desk, Function.update_self]
      cases h_step with
      | accept _ h_idle => exact absurd h_idle h_busy
      | @answer c res _ h_client' _ h_heard _ _ h_time =>
        obtain rfl := Option.some.inj (h_client.symm.trans h_client')
        exact .inr ⟨res, h_heard, h_time⟩
      | keep h_quiet _ _ h_search =>
        refine .inl ⟨h_quiet _ ⟨k, rfl⟩ h_ne, ?_⟩
        rintro ⟨result, path, h_done⟩
        exact h_hang.symm.trans (h_search result path h_done (by simp [h_client]))
    · -- another train answers its own client only, who waits for another request
      refine .inl ⟨?_, ?_⟩
      · obtain h_nil | ⟨-, h_some, h_busy'⟩ := h_step.other ⟨k, rfl⟩ h_ne
        · exact h_nil
        · obtain ⟨_, _, h_wait'⟩ := (h.pending u).waits _ h_some h_busy'
          rw [h_wait] at h_wait'
          cases h_wait'
          exact absurd rfl h_u
      · rintro ⟨result, path, h_done⟩
        exact absurd (h_req.2.2 t result path h_done) h_u
  -- a message about no train
  | shared _ h_shared =>
    refine .inl ⟨h_shared.quiet _ h_ne, ?_⟩
    rintro ⟨result, path, h_done⟩
    exact absurd h_done (h_shared.not_search t result path)

end Result

/-- **Exactly-once answers.** In every run of the server with the workers of all trains and any
number of clients, each message of a client is answered once or still waits; a navigation request
that waits has its client recorded, and its train is not IDLE; if it hangs it is answered only where
there is no path at all or its route is finished, and if it does not, exactly at the next search
result of its train.

`Coupled` says where the workers are, and `Pending` that the recorded client of a train is the one
whose request for the train waits. A step answers a task once or not at all (`heard_of_step`), so
the number of answers follows the number of messages along the run; the time of an answer is that of
the step that gives it (`answer_of_step`). -/
theorem exact_answers {T : Track} {ms : List NavMessage} {w : NavWorld}
    (h : (worldSystem T).Reaches (fun _ _ => True) ms w) : ExactAnswers T ms w := by
  have h_w : Coupled T w := coupled_of_reaches h
  -- the count is carried along the run with the invariants that the step lemmas ask for
  have h_run : Coupled T w ∧ Answering w ∧ ∀ k, ms.countP (·.client = .other k) =
      (heardBy (.other k) w.server.log).length +
        if (w.tasks (.other k)).waiting = none then 0 else 1 := by
    clear h_w
    induction h with
    | start h =>
      obtain rfl := h
      exact ⟨coupled_start, answering_start, fun k => rfl⟩
    | @next ms w w' m _ _ h_step ih =>
      obtain ⟨h_w, h_ans, h_count⟩ := ih
      refine ⟨h_w.step h_step, h_ans.step h_w h_step, fun k => ?_⟩
      obtain ⟨own, fl, h_log, -⟩ := world_step_answer h_w h_ans h_step
      -- both sides of the count, before and after the message
      rw [List.countP_append, h_count k, waiting_of_step h_step, h_log, heardBy_append,
        ← NavWorld.newEvents_eq h_log, List.length_append, w.waiting_sent]
      by_cases h_client : m.client = .other k
      · -- the sender has waited for nothing
        have h_free : (w.tasks (.other k)).waiting = none := h_client ▸ h_step.1.1
        have h_one : [m].countP (·.client = .other k) = 1 := by simp [h_client]
        rw [h_one, if_pos h_free, if_pos h_client.symm]
        obtain h_nil | ⟨⟨res, h_heard⟩, -⟩ := heard_of_step h_w h_ans h_step ⟨k, rfl⟩
        · rw [h_nil]
          rfl
        · rw [h_heard]
          rfl
      · -- another client may be answered, and only if it waits
        have h_none : [m].countP (·.client = .other k) = 0 := by simp [h_client]
        have h_old : (w.sent m (.other k)).waiting = (w.tasks (.other k)).waiting := by
          rw [w.waiting_sent, if_neg (Ne.symm h_client)]
        rw [h_none, if_neg (Ne.symm h_client)]
        obtain h_nil | ⟨⟨res, h_heard⟩, h_wait⟩ := heard_of_step h_w h_ans h_step ⟨k, rfl⟩
        · rw [h_nil]
          rfl
        · rw [h_heard, if_neg (h_old ▸ h_wait)]
          rfl
  refine ⟨h_run.2.2, fun k t n offset hang h_wait => ?_, ?_, ?_⟩
  · obtain ⟨h_client, h_busy, -⟩ := (h_run.2.1.pending t).recorded k n offset hang h_wait
    exact ⟨h_client, h_busy⟩
  · intro k t n offset h_wait m w' h_step res h_res
    obtain ⟨h_nil, -⟩ | ⟨res', h_heard, h_time⟩ := answer_of_step h_w h_run.2.1 h_step h_wait
    · rw [h_nil] at h_res
      cases h_res
    · rw [h_heard] at h_res
      obtain rfl := List.mem_singleton.mp h_res
      rw [InTime, if_pos ((h_run.2.1.pending t).recorded k n offset true h_wait).2.2] at h_time
      obtain h_no | ⟨rfl, h_state, h_tasks⟩ := h_time
      · exact .inl h_no
      · -- no worker drives for a train that is IDLE
        refine .inr ⟨rfl, h_state, h_tasks, fun path ahead h_driving => ?_⟩
        have h_straight := (((h_w.step h_step).cells t).driving path ahead h_driving).1
        rw [h_state] at h_straight
        cases h_straight
  · intro k t n offset h_wait m w' h_step
    obtain ⟨h_nil, h_not⟩ | ⟨res', h_heard, h_time⟩ := answer_of_step h_w h_run.2.1 h_step h_wait
    · refine ⟨fun h_ne => absurd h_nil h_ne, fun h_done => ?_⟩
      cases h_not h_done
    · have h_hang := ((h_run.2.1.pending t).recorded k n offset false h_wait).2.2
      rw [InTime, if_neg (by simp [h_hang])] at h_time
      exact ⟨fun _ => h_time, fun _ => by simp [h_heard]⟩

/-- A client that waits for train 0 to arrive. -/
theorem exact_answers_hanging : ∃ ms w, ((w.tasks (.other 1)).waiting.isSome ∧
    w.server.clients 0 = some (.other 1)) ∧ ExactAnswers ringTrack ms w := by
  obtain ⟨w, h_reach, h_w⟩ := System.exists_reaches_of_play (@worldNext_step ringTrack)
    (fun _ _ => True) (fun w => (w.tasks (.other 1)).waiting.isSome ∧
      w.server.clients 0 = some (.other 1))
    [⟨.other 0, .registerLocation 0 4⟩, ⟨.pathfindWorker 0, .whoami .pathfind⟩,
      ⟨.pathfindWorker 0, .pathfindWorker 0⟩, ⟨.other 1, .navigationRequest 0 8 0 true⟩] rfl
    (by decide +kernel)
  exact ⟨_, w, h_w, exact_answers h_reach⟩

end Nav
end PollingExpress
