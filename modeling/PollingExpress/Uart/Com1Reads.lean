import PollingExpress.Uart.Com1Line

/-!
# Who gets the bytes from the track

The server answers `GET_CHAR` to the client that has the lock, whoever has called, and takes every
message of the receive notifier for a byte that this client waits for. `com1Answers_of_reaches` is
about the runs in which that is so: the one who reads has the lock, and whoever the server replies
to is waiting for the reply (`Com1Server.Answerable`). The second condition is about the start only.
The notifiers have priority 10 and have checked in before a client calls; were the first message of
the receive notifier, which has no byte, to come to a client with the lock, it would be taken for a
byte.

`Com1Reads` is what one step keeps: the bytes that came in are those given out, then the one that
the notifier holds (`Com1Server.held`), then those that can still be read.
-/

namespace PollingExpress
namespace Uart

open Com1Server

namespace Com1Server

/-- What can come: a client that waits for a reply sends nothing, and the interrupt says that there
is a byte. -/
def Sendable (s : Com1Server) : Com1Step → Prop
  | .sendChar client _ | .getChar client | .releaseLock client => s.stage client = .idle
  | .rxInterrupt => s.incoming ≠ []
  | _ => True

instance (s : Com1Server) (l : Com1Step) : Decidable (s.Sendable l) :=
  match l with
  | .sendChar client _ | .getChar client | .releaseLock client =>
    inferInstanceAs (Decidable (s.stage client = .idle))
  | .rxInterrupt => inferInstanceAs (Decidable (s.incoming ≠ []))
  | .notifierTxGood | .txWait | .txInterrupt | .notifierRxGood | .rxWait | .rxRead _ | .receive _ =>
    inferInstanceAs (Decidable True)

/-- The one who reads has the lock, and a `Reply` of the server finds a task that waits for it: the
transmit notifier when the server can write, the receive notifier when there is nothing to read, and
the client with the lock when the receive notifier comes. -/
def Answerable (s : Com1Server) : Com1Step → Prop
  | .sendChar _ _ | .releaseLock _ => s.canSend = true → s.tx = .parked
  | .getChar client => s.ownedBy = some client ∧ (s.incoming = [] → s.rx = .parked)
  | .notifierRxGood => ∀ owner ∈ s.ownedBy, s.stage owner = .reading
  | _ => True

instance (s : Com1Server) (l : Com1Step) : Decidable (s.Answerable l) :=
  match l with
  | .sendChar _ _ | .releaseLock _ =>
    inferInstanceAs (Decidable (s.canSend = true → s.tx = .parked))
  | .getChar client =>
    inferInstanceAs (Decidable (s.ownedBy = some client ∧ (s.incoming = [] → s.rx = .parked)))
  | .notifierRxGood => inferInstanceAs (Decidable (∀ owner ∈ s.ownedBy, s.stage owner = .reading))
  | .rxInterrupt | .notifierTxGood | .txWait | .txInterrupt | .rxWait | .rxRead _ | .receive _ =>
    inferInstanceAs (Decidable True)

/-- The byte that the notifier has read for the client with the lock. -/
def held (s : Com1Server) : List Byte :=
  match s.rx with
  | .sending data => if s.ownedBy.any fun owner => s.stage owner = .reading then [data] else []
  | _ => []

end Com1Server

/-- Every call for a byte is answered, in the order in which the bytes came in, and no byte is lost;
who waits for one will get it from the notifier, which is on its way. What has come in is what has
been delivered, what the notifier has read for the one who waits, and what has not been read yet. -/
structure Com1Answers (s : Com1Server) : Prop where
  answered : Answered s.history
  kept : (ledger s.history).delivered.map Prod.snd ++ s.held ++ s.incoming =
    (ledger s.history).incoming
  next : ∀ c, s.stage c = .reading → s.rx ≠ .parked ∧
    ∀ data, s.rx = .sending data → (s.notifierRxGood data).history = s.history ++ [.replied c data]

/-- What one step keeps: the line, that the answers so far were in order, that no byte is lost, and
that the notifier is on its way only if it has something to bring or somebody reads. -/
structure Com1Reads (s : Com1Server) : Prop where
  line : Com1Line s
  each : AtEach (fun past e => (ledger past).CallsInTurn e ∧ (ledger past).AnswersNext e) s.history
  kept : (ledger s.history).delivered.map Prod.snd ++ s.held ++ s.incoming =
    (ledger s.history).incoming
  /-- The notifier waits for a byte only if somebody reads. -/
  busy : s.rx = .parked ∨ (∃ data, s.rx = .sending data) ∨ ∃ c, s.stage c = .reading
  woken : s.rx = .woken → s.incoming ≠ []

section
variable {s s' : Com1Server} {client owner : TaskTid} {char data : Byte} {l : Com1Step}

theorem com1Reads_start (garbage : TaskTid → Byte) : Com1Reads (.start garbage) where
  line := com1Line_start garbage
  each := atEach_nil
  kept := rfl
  busy := .inr (.inl ⟨0, rfl⟩)
  woken h := by cases h

/-! ### The byte of the notifier -/

theorem held_of_not_sending (h : ∀ data, s.rx ≠ .sending data) : s.held = [] := by
  unfold held
  split
  · next data h_rx => exact absurd h_rx (h data)
  · rfl

theorem held_of_nobody (h : ∀ c, s.stage c ≠ .reading) : s.held = [] := by
  unfold held
  split
  · cases h_owner : s.ownedBy with
    | none => rfl
    | some owner => simp [h owner]
  · rfl

theorem held_of_reading (h : Com1Line s) (h_reading : s.stage client = .reading)
    (h_rx : s.rx = .sending data) :
    s.held = [data] := by
  simp [held, h_rx, (h.reading client h_reading).1, h_reading]

/-- What the notifier holds depends on who reads. -/
theorem Com1Line.held_eq (h : Com1Line s) (h' : Com1Line s') (h_rx : s'.rx = s.rx)
    (h_reading : ∀ c, s'.stage c = .reading ↔ s.stage c = .reading) : s'.held = s.held := by
  by_cases h_somebody : ∃ c, s.stage c = .reading
  · obtain ⟨c, h_c⟩ := h_somebody
    have h_owner' := (h'.reading c ((h_reading c).mpr h_c)).1
    unfold held
    rw [h_rx, h_owner', (h.reading c h_c).1]
    simp only [Option.any_some, h_reading]
  · have h_nobody : ∀ c, s.stage c ≠ .reading := fun c h_c => h_somebody ⟨c, h_c⟩
    rw [held_of_nobody h_nobody, held_of_nobody fun c h_c => h_nobody c ((h_reading c).mp h_c)]

/-! ### The steps -/

theorem Com1Reads.answers (h : Com1Reads s) : Com1Answers s where
  answered := answered_of_each h.each
  kept := h.kept
  next c h_c := by
    obtain ⟨h_owner, h_rx⟩ := h.line.reading c h_c
    refine ⟨h_rx, fun data h_data => ?_⟩
    rw [notifierRxGood_owned h_owner]

/-- A step that has to do with no byte that comes in. -/
theorem Com1Reads.unread (h : Com1Reads s) (h_line : Com1Line s') {es : List TrackEvent}
    (h_history : s'.history = s.history ++ es) (h_turn : (ledger s.history).AllInTurn es)
    (h_es : ∀ e ∈ es, (ledger s.history).Unread e) (h_rx : s'.rx = s.rx)
    (h_incoming : s'.incoming = s.incoming) :
    Com1Reads s' := by
  obtain ⟨h_each, h_delivered, h_received, h_reading⟩ := Ledger.unread_of_allInTurn h_es h_turn
  have h_reading : ∀ c, s'.stage c = .reading ↔ s.stage c = .reading := by
    unfold Com1Server.stage
    rw [h_history, ledger_append]
    exact h_reading
  refine ⟨h_line, h_history ▸ each_append h.each h_each, ?_, ?_, ?_⟩
  · rw [h.line.held_eq h_line h_rx h_reading, h_incoming, h_history, ledger_append,
      h_delivered, h_received]
    exact h.kept
  · rw [h_rx]
    exact h.busy.imp_right (Or.imp_right fun ⟨c, h_c⟩ => ⟨c, (h_reading c).mpr h_c⟩)
  · rw [h_rx, h_incoming]
    exact h.woken

theorem Com1Reads.sendChar (h : Com1Reads s) (h_idle : s.stage client = .idle) (char : Byte) :
    Com1Reads (s.sendChar client char) := by
  have h_line := h.line.sendChar h_idle char
  have h_ledger : (ledger s.history).stage client = .idle := h_idle
  by_cases h_owner : s.ownedBy = some client ∨ s.ownedBy = none
  · cases h_can : s.canSend with
    | true =>
      rw [sendChar_now h_owner h_can] at h_line ⊢
      refine h.unread h_line rfl
        (Ledger.allInTurn_put_wrote h_idle (h.line.owner ▸ h_owner) char 0) ?_ rfl rfl
      simp [Ledger.Unread, h_ledger]
    | false =>
      rw [sendChar_later h_owner h_can] at h_line ⊢
      exact h.unread h_line rfl ⟨h_idle, trivial⟩ (by simp [Ledger.Unread]) rfl rfl
  · obtain ⟨cb, h_push, -⟩ :=
      CircularBuffer.cbPushBack_spec h.line.valid
        (h.line.capacity ▸ h.line.room h_idle h_owner) client false
    rw [sendChar_waiting h_owner h_push] at h_line ⊢
    exact h.unread h_line rfl ⟨h_idle, trivial⟩ (by simp [Ledger.Unread]) rfl rfl

/-- The lock changes hands and no byte does: neither the client that gives it up nor the one that
gets it is reading. -/
theorem Com1Reads.releaseLock (h : Com1Reads s) (h_idle : s.stage client = .idle)
    (h_owner : s.ownedBy = some client) (h_step : s.releaseLock client = .ok s') :
    Com1Reads s' := by
  have h_ledger : (ledger s.history).owner = some client := h.line.owner.symm.trans h_owner
  have h_turn := Ledger.allInTurn_release h_idle h_ledger (0 : Byte)
  have h_unread : (ledger s.history).stage client ≠ .reading := by
    rw [show (ledger s.history).stage client = .idle from h_idle]
    simp
  have h_line : Com1Line s' := by
    obtain ⟨s₁, h_ok, h_s₁⟩ := h.line.releaseLock h_idle h_owner
    obtain rfl := Except.ok.inj (h_ok.symm.trans h_step)
    exact h_s₁
  cases h_tail : (ledger s.history).clients.tail with
  | nil =>
    rw [releaseLock_last h_owner (CircularBuffer.cbPopFront_nil (h.line.waiting.trans h_tail))]
      at h_step
    obtain rfl := Except.ok.inj h_step
    exact h.unread h_line rfl h_turn (by simp [Ledger.Unread, h_unread]) rfl rfl
  | cons next rest =>
    obtain ⟨char, h_asked⟩ := h.line.next_asked h_tail
    obtain ⟨cb, h_pop, -⟩ :=
      CircularBuffer.cbPopFront_cons h.line.valid (h.line.waiting.trans h_tail)
    have h_clients : (ledger s.history).clients = client :: next :: rest := by
      rw [← h_tail]
      exact List.eq_cons_of_mem_head? h_ledger
    -- who waits for the lock has a byte to write, and does not read
    have h_next : (ledger s.history).stage next ≠ .reading := by
      rw [show (ledger s.history).stage next = .asked char from h_asked]
      simp
    cases h_can : s.canSend with
    | true =>
      rw [releaseLock_now h_owner h_can h_pop, h.line.buffer next char h_asked] at h_step
      obtain rfl := Except.ok.inj h_step
      exact h.unread h_line rfl (h.line.inLine.allInTurn_release_wrote h_idle h_clients h_asked 0 0)
        (by simp [Ledger.Unread, h_unread, h_next]) rfl rfl
    | false =>
      rw [releaseLock_later h_owner h_can h_pop] at h_step
      obtain rfl := Except.ok.inj h_step
      exact h.unread h_line rfl h_turn (by simp [Ledger.Unread, h_unread]) rfl rfl

theorem Com1Reads.notifierTxGood (h : Com1Reads s) (h_step : s.notifierTxGood = .ok s') :
    Com1Reads s' := by
  have h_line : Com1Line s' := by
    obtain ⟨s₁, h_ok, h_s₁⟩ := h.line.notifierTxGood
    obtain rfl := Except.ok.inj (h_ok.symm.trans h_step)
    exact h_s₁
  cases h_want : s.wantSend with
  | false =>
    rw [notifierTxGood_park h_want] at h_step
    obtain rfl := Except.ok.inj h_step
    exact h.unread h_line (List.append_nil _).symm trivial (by simp) rfl rfl
  | true =>
    obtain ⟨owner, char, h_owner, h_asked⟩ := h.line.owner_asked h_want
    rw [notifierTxGood_want h_want h_owner, h.line.buffer owner char h_asked] at h_step
    obtain rfl := Except.ok.inj h_step
    refine h.unread h_line rfl
      (Ledger.allInTurn_wrote h_asked (h.line.owner.symm.trans h_owner) 0) ?_ rfl rfl
    have h_ledger : (ledger s.history).stage owner = .asked char := h_asked
    simp [Ledger.Unread, h_ledger]

/-- The byte at the head is the next that nobody has got, and the client gets it; if there is none,
the client is the one reader that the next byte is for. -/
theorem Com1Reads.getChar (h : Com1Reads s) (h_idle : s.stage client = .idle)
    (h_owner : s.ownedBy = some client) (h_rx : s.incoming = [] → s.rx = .parked) :
    Com1Reads (s.getChar client) := by
  have h_line := h.line.getChar h_idle h_owner h_rx
  have h_nobody := (h.line.quiet h_idle (.inl h_owner)).2
  have h_kept := h.kept
  rw [held_of_nobody h_nobody, List.append_nil] at h_kept
  cases h_incoming : s.incoming with
  -- a byte is there, and the client is answered at once
  | cons char rest =>
    rw [h_incoming] at h_kept
    rw [getChar_now h_owner h_incoming] at h_line ⊢
    have h_same : (ledger (s.history ++ [.get client, .replied client char])).stage = s.stage := by
      rw [ledger_append]
      have h_ledger : (ledger s.history).stage client = .idle := h_idle
      have h_stage : (ledger s.history).stage = s.stage := rfl
      simp [← h_ledger, h_stage]
    refine ⟨h_line, each_append h.each ⟨⟨h_idle, trivial⟩, ⟨trivial, fun _ => ?_⟩, trivial⟩, ?_, ?_,
      ?_⟩
    · refine ⟨rest, ?_⟩
      rw [List.append_assoc]
      exact h_kept
    · have h_held := held_of_nobody (s := { s with
        incoming := rest
        history := s.history ++ [.get client, .replied client char] }) fun c h_c =>
          h_nobody c (h_same ▸ h_c)
      rw [h_held, ledger_append]
      simpa [Ledger.after] using h_kept
    · exact h.busy.imp_right fun h_or =>
        .inl (h_or.resolve_right fun h_reading => h_nobody _ h_reading.choose_spec)
    · -- the notifier has not been sent for a byte, since nobody reads
      intro h_woken
      rcases h.busy with h_parked | ⟨data, h_data⟩ | ⟨c, h_c⟩
      · cases h_woken.symm.trans h_parked
      · cases h_woken.symm.trans h_data
      · exact absurd h_c (h_nobody c)
  -- the client is the reader that the next byte is for
  | nil =>
    rw [h_incoming] at h_kept
    rw [getChar_later h_incoming (h_rx h_incoming)] at h_line ⊢
    refine ⟨h_line, each_append h.each ⟨⟨h_idle, trivial⟩, trivial⟩, ?_,
      .inr (.inr ⟨client, ?_⟩), by simp⟩
    · rw [held_of_not_sending (by simp), ledger_append]
      simpa [Ledger.after, h_incoming] using h_kept
    · unfold Com1Server.stage
      rw [ledger_append]
      exact Function.update_self _ _ _

theorem not_isAsked_of_reading (h : ∀ owner ∈ s.ownedBy, s.stage owner = .reading) (owner : TaskTid)
    (h_own : s.ownedBy = some owner) : (s.stage owner).isAsked = false := by
  rw [h owner h_own]
  rfl

/-- A byte came in, and goes to the owner of the line. An owner is a reader here, so nobody is
answered without having asked. -/
theorem Com1Reads.notifierRxGood (h : Com1Reads s) (h_rx : s.rx = .sending data)
    (h_owner : ∀ owner ∈ s.ownedBy, s.stage owner = .reading) :
    Com1Reads (s.notifierRxGood data) := by
  have h_line := h.line.notifierRxGood (not_isAsked_of_reading h_owner) data
  have h_kept := h.kept
  -- the byte goes to the owner, or to nobody if there is none
  cases h_own : s.ownedBy with
  | none =>
    rw [notifierRxGood_free h_own] at h_line ⊢
    refine ⟨h_line, h.each, ?_, .inl rfl, by simp⟩
    have h_nobody : ∀ c, s.stage c ≠ .reading := by
      intro c h_c
      cases h_own.symm.trans (h.line.reading c h_c).1
    rw [held_of_nobody h_nobody] at h_kept
    rw [held_of_not_sending (by simp)]
    exact h_kept
  | some owner =>
    rw [notifierRxGood_owned h_own] at h_line ⊢
    have h_held :=
      held_of_not_sending
        (s := { s with rx := .parked, history := s.history ++ [.replied owner data] })
      (by simp)
    have h_reading := h_owner owner h_own
    have h_ledger : (ledger s.history).stage owner = .reading := h_reading
    -- the byte that the notifier holds is the first one not delivered
    rw [held_of_reading h.line h_reading h_rx] at h_kept
    refine ⟨h_line, each_append h.each ⟨⟨trivial, fun _ => ?_⟩, trivial⟩, ?_, .inl rfl, by simp⟩
    · exact ⟨s.incoming, h_kept⟩
    · rw [h_held, ledger_append]
      simpa [Ledger.after, h_ledger] using h_kept

/-- The notifier goes on to its interrupt for somebody who reads, and holds no byte. -/
theorem Com1Reads.rxMoves (h : Com1Reads s) {rx : RxNotifier} (h_line : Com1Line { s with rx })
    (h_reading : ∃ c, s.stage c = .reading) (h_rx : ∀ data, s.rx ≠ .sending data)
    (h_rx' : ∀ data, rx ≠ .sending data) (h_woken : rx = .woken → s.incoming ≠ []) :
    Com1Reads { s with rx } := by
  have h_kept := h.kept
  rw [held_of_not_sending h_rx] at h_kept
  refine ⟨h_line, h.each, ?_, .inr (.inr h_reading), h_woken⟩
  rw [held_of_not_sending h_rx']
  exact h_kept

/-- The byte that the notifier reads is one that it holds. -/
theorem Com1Reads.rxRead (h : Com1Reads s) {rest : List Byte} (h_rx : s.rx = .woken)
    (h_incoming : s.incoming = char :: rest)
    (h_line : Com1Line { s with rx := .sending char, incoming := rest }) :
    Com1Reads { s with rx := .sending char, incoming := rest } := by
  obtain ⟨c, h_c⟩ : ∃ c, s.stage c = .reading := by simpa [h_rx] using h.busy
  have h_kept := h.kept
  rw [held_of_not_sending (by simp [h_rx]), h_incoming] at h_kept
  refine ⟨h_line, h.each, ?_, .inr (.inl ⟨char, rfl⟩), by simp⟩
  rw [held_of_reading h_line h_c rfl]
  simpa using h_kept

/-- A byte that comes in is the last one. -/
theorem Com1Reads.receive (h : Com1Reads s)
    (h_line : Com1Line ({ s with incoming := s.incoming ++ [char] }.emit (.received char))) :
    Com1Reads ({ s with incoming := s.incoming ++ [char] }.emit (.received char)) := by
  -- a byte that comes in changes no call
  have h_reading :
      ∀ c, ({ s with incoming := s.incoming ++ [char] }.emit (.received char)).stage c = .reading ↔
      s.stage c = .reading := by
    intro c
    unfold Com1Server.stage
    rw [emit, ledger_snoc]
    rfl
  refine ⟨h_line, each_append h.each ⟨⟨trivial, trivial⟩, trivial⟩, ?_, ?_, ?_⟩
  · rw [h.line.held_eq h_line rfl h_reading]
    change (ledger (s.history ++ [_])).delivered.map _ ++ _ ++ (s.incoming ++ [char]) =
      (ledger (s.history ++ [_])).incoming
    rw [ledger_snoc, ← List.append_assoc]
    exact congrArg (· ++ [char]) h.kept
  · exact h.busy.imp_right (Or.imp_right (Exists.imp fun c h_c => (h_reading c).mpr h_c))
  · exact fun _ => by simp [emit]

theorem ownerReads_of_answerable (h_can : s.Sendable l) (h_l : s.Answerable l)
    (h_step : s.next l = .ok s') :
    s.OwnerReads l := by
  match l with
  | .sendChar client char => exact h_can
  | .getChar client => exact ⟨h_can, h_l⟩
  | .releaseLock client =>
    refine ⟨h_can, ?_⟩
    by_contra h_owner
    -- the server stops
    have h_error : s.releaseLock client = .error .notOwner := by
      rw [Com1Server.releaseLock]
      exact if_neg h_owner
    cases h_error.symm.trans h_step
  | .notifierRxGood => exact not_isAsked_of_reading h_l
  | .notifierTxGood | .txWait | .txInterrupt | .rxWait | .rxInterrupt | .rxRead _ | .receive _ =>
    trivial

/-- **One step** in which the one who reads has the lock. The steps that hand out a byte are the
call itself, if there is one to read, and the message of the notifier; both give it to the owner of
the lock, which is the one that reads. -/
theorem Com1Reads.step (h : Com1Reads s) (h_can : s.Sendable l) (h_l : s.Answerable l)
    (h_step : s.next l = .ok s') :
    Com1Reads s' := by
  have h_reads := ownerReads_of_answerable h_can h_l h_step
  have h_line := h.line.step h_reads h_step
  cases moves_of_next h_step with
  | sendChar client char => exact h.sendChar h_can char
  | getChar client => exact h.getChar h_can h_l.1 h_l.2
  | releaseLock h_release => exact h.releaseLock h_can h_reads.2 h_release
  | notifierTxGood _ h_good => exact h.notifierTxGood h_good
  | notifierRxGood h_rx => exact h.notifierRxGood h_rx h_l
  -- no byte is read or handed out
  | txWait | txInterrupt =>
    exact h.unread h_line rfl ⟨trivial, trivial⟩ (by simp [Ledger.Unread]) rfl rfl
  | rxWait h_rx =>
    exact h.rxMoves h_line (by simpa [h_rx] using h.busy) (by simp [h_rx]) (by simp) (by simp)
  | rxInterrupt h_rx =>
    exact h.rxMoves h_line (by simpa [h_rx] using h.busy) (by simp [h_rx]) (by simp) fun _ => h_can
  | rxRead h_rx h_incoming => exact h.rxRead h_rx h_incoming h_line
  -- the notifier was sent for a byte that is there
  | rxReadJunk h_rx h_incoming => exact absurd h_incoming (h.woken h_rx)
  | receive char => exact h.receive h_line

end

/-- **Every call for a byte from the track is answered** in the runs in which the one who reads has
the lock. The run begins when neither of the notifiers has checked in. -/
theorem com1Answers_of_reaches {ls : List Com1Step} {s : Com1Server}
    (h : com1System.Reaches (fun s l => s.Sendable l ∧ s.Answerable l) ls s) : Com1Answers s := by
  have h_inv : Com1Reads s := by
    refine h.invariant ?_ ?_
    · rintro _ ⟨garbage, rfl⟩
      exact com1Reads_start garbage
    · intro s l s' h_s h_l h_step
      exact h_s.step h_l.1 h_l.2 h_step
  exact h_inv.answers

end Uart
end PollingExpress
