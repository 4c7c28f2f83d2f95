import PollingExpress.Uart.Com1Line

/-!
# What is written to the track, and when

`exact_com1` is about every run of the track's server from when both notifiers have checked in: the
line is shared in tenures, and between two bytes the transmit notifier has waited for the
interrupt. `Com1Paced` is what one step keeps. The flow control in it is that `can_send` says that
the transmit notifier is parked, and that a notifier that is parked, or about to send, has
waited since the last byte (`TxNotifier.pause`).
-/

namespace PollingExpress
namespace Uart

open Com1Server

/-- How far the notifier has waited since the last byte. -/
def TxNotifier.pause : TxNotifier → Pause
  | .sending | .parked => .ready
  | .replied => .written
  | .waiting => .begun

namespace Com1Server

/-- What can be sent: a client that waits for a reply sends nothing, and only the owner of the lock
reads or releases it. -/
def Admitted (s : Com1Server) : Com1Step → Prop
  | .sendChar client _ => s.stage client = .idle
  | .getChar client | .releaseLock client => s.stage client = .idle ∧ s.ownedBy = some client
  | _ => True

instance (s : Com1Server) (l : Com1Step) : Decidable (s.Admitted l) :=
  match l with
  | .sendChar client _ => inferInstanceAs (Decidable (s.stage client = .idle))
  | .getChar client =>
    inferInstanceAs (Decidable (s.stage client = .idle ∧ s.ownedBy = some client))
  | .releaseLock client =>
    inferInstanceAs (Decidable (s.stage client = .idle ∧ s.ownedBy = some client))
  | .notifierTxGood | .txWait | .txInterrupt | .notifierRxGood | .rxWait | .rxInterrupt | .rxRead _
  | .receive _ => inferInstanceAs (Decidable True)

end Com1Server

/-- The line is shared in tenures, and the transmit notifier waits between two bytes; a byte that
its owner waits for is written at the next message of the notifier, which is on its way.

The order of the bytes and the calls is read off the history (`Orderly`, `Spaced`), and the lock and
the ring of the server are those of the ledger that it comes to. -/
structure Com1Exact (s : Com1Server) : Prop where
  orderly : Orderly s.history
  spaced : Spaced s.history
  owner : s.ownedBy = (ledger s.history).owner
  waiting : s.lockCb.cbToArray = (ledger s.history).clients.tail
  next : ∀ owner char, s.ownedBy = some owner → s.stage owner = .asked char →
    s.tx ≠ .parked ∧ ∃ s', s.notifierTxGood = .ok s' ∧
      s'.history = s.history ++ [.wrote owner char, .replied owner 0]

/-- What one step keeps. The transmit notifier is parked exactly when the server can send
(`canSend`), so that no byte goes out before the wait that the last one calls for; and there is
nothing left to be sent while it is. -/
structure Com1Paced (s : Com1Server) : Prop where
  line : Com1Line s
  inTurns : InTurns s.history
  paced : Paced s.history
  pause : PollingExpress.pause s.history = s.tx.pause
  canSend : s.canSend = true ↔ s.tx = .parked
  want : s.wantSend = true → s.tx ≠ .parked
  rx : s.rx = .parked ∨ ∃ c, s.stage c = .reading

section
variable {s s' : Com1Server} {client owner : TaskTid} {char data : Byte} {l : Com1Step}

theorem com1Paced_checkedIn (garbage : TaskTid → Byte) : Com1Paced (.checkedIn garbage) where
  line := (com1Line_start garbage).congr rfl Ledger.valid_start rfl rfl rfl rfl rfl fun ⟨_, h⟩ =>
    by cases h
  inTurns := atEach_nil
  paced := atEach_nil
  pause := rfl
  canSend := by simp [checkedIn, start]
  want h := by cases h
  rx := .inl rfl

theorem Com1Paced.exact (h : Com1Paced s) : Com1Exact s where
  orderly := orderly_of_inTurns h.inTurns
  spaced := spaced_of_paced h.paced
  owner := h.line.owner
  waiting := h.line.waiting
  next := by
    intro owner char h_owner h_asked
    have h_want : s.wantSend = true := by
      rw [h.line.want, h_owner, Option.any_some, h_asked]
      rfl
    refine ⟨h.want h_want, _, notifierTxGood_want h_want h_owner, ?_⟩
    rw [h.line.buffer owner char h_asked]

/-- A step that adds these events. -/
theorem Com1Paced.append (h : Com1Paced s) (h_line : Com1Line s') {es : List TrackEvent}
    (h_history : s'.history = s.history ++ es) (h_turn : (ledger s.history).AllInTurn es)
    (h_allows : s.tx.pause.AllowsAll es) (h_pause : es.foldl Pause.after s.tx.pause = s'.tx.pause)
    (h_can : s'.canSend = true ↔ s'.tx = .parked) (h_want : s'.wantSend = true → s'.tx ≠ .parked)
    (h_rx : s'.rx = .parked ∨ ∃ c, s'.stage c = .reading) :
    Com1Paced s' where
  line := h_line
  inTurns := h_history ▸ inTurns_append h.inTurns h_turn
  paced := h_history ▸ paced_append h.paced (h.pause ▸ h_allows)
  pause := by
    rw [h_history, PollingExpress.pause, List.foldl_append, ← h_pause, ← h.pause]
    rfl
  canSend := h_can
  want := h_want
  rx := h_rx

/-- Who reads has the lock. -/
theorem Com1Paced.ownerReads (h : Com1Paced s) (h_l : s.Admitted l) (h_step : s.next l = .ok s') :
    s.OwnerReads l := by
  match l with
  | .sendChar _ _ => exact h_l
  | .releaseLock _ => exact h_l
  | .getChar client =>
    refine ⟨h_l.1, h_l.2, fun _ => h.rx.resolve_right ?_⟩
    exact fun ⟨c, h_c⟩ => (h.line.quiet h_l.1 (.inl h_l.2)).2 c h_c
  | .notifierRxGood =>
    intro owner h_owner
    have h_rx : s.rx ≠ .parked := by
      intro h_parked
      rw [next, h_parked] at h_step
      cases h_step
    -- the notifier is on its way because the owner reads
    obtain ⟨c, h_c⟩ := h.rx.resolve_left h_rx
    obtain rfl := Option.some.inj (h_owner.symm.trans (h.line.reading c h_c).1)
    rw [h_c]
    rfl
  | .notifierTxGood | .txWait | .txInterrupt | .rxWait | .rxInterrupt | .rxRead _ | .receive _ =>
    trivial

/-- A client that has the lock or finds it free has nobody's reading to wait for. -/
theorem Com1Paced.rx_parked (h : Com1Paced s) (h_idle : s.stage client = .idle)
    (h_owner : s.ownedBy = some client ∨ s.ownedBy = none) : s.rx = .parked :=
  h.rx.resolve_right fun ⟨c, h_c⟩ => (h.line.quiet h_idle h_owner).2 c h_c

/-- A step of the transmit notifier, or a byte that comes in, leaves the reading as it is. -/
theorem Com1Paced.rx_emit (h : Com1Paced s) {e : TrackEvent} (h_e : e.client = none)
    (h_rx : s'.rx = s.rx) (h_history : s'.history = s.history ++ [e] := by rfl) :
    s'.rx = .parked ∨ ∃ c, s'.stage c = .reading := by
  rw [h_rx]
  refine h.rx.imp_right fun ⟨c, h_c⟩ => ⟨c, ?_⟩
  unfold Com1Server.stage
  rw [h_history, ledger_snoc, (Ledger.after_of_client_none h_e).1]
  exact h_c

/-- A byte that is written at once sends the transmit notifier on, which was parked; one that has to
wait leaves both notifiers where they are. -/
theorem Com1Paced.sendChar (h : Com1Paced s) (h_idle : s.stage client = .idle) (char : Byte) :
    Com1Paced (s.sendChar client char) := by
  have h_line := h.line.sendChar h_idle char
  by_cases h_owner : s.ownedBy = some client ∨ s.ownedBy = none
  · have h_ledger : (ledger s.history).owner = some client ∨ (ledger s.history).owner = none :=
      h.line.owner ▸ h_owner
    have h_want := (h.line.quiet h_idle h_owner).1
    have h_rx := h.rx_parked h_idle h_owner
    cases h_can : s.canSend with
    | true =>
      have h_tx : s.tx = .parked := h.canSend.mp h_can
      rw [sendChar_now h_owner h_can] at h_line ⊢
      refine h.append h_line rfl (Ledger.allInTurn_put_wrote h_idle h_ledger char 0) ?_ ?_ ?_ ?_
        (.inl h_rx)
      · rw [h_tx]
        exact ⟨trivial, rfl, trivial, trivial⟩
      all_goals simp [txReplied, h_tx]
      · rfl
    | false =>
      rw [sendChar_later h_owner h_can] at h_line ⊢
      have h_tx : s.tx ≠ .parked := fun h_tx => by simp [h.canSend.mpr h_tx] at h_can
      exact h.append h_line rfl ⟨h_idle, trivial⟩ ⟨trivial, trivial⟩
        (by cases s.tx <;> rfl) h.canSend
        (fun _ => h_tx) (.inl h_rx)
  · obtain ⟨cb, h_push, -⟩ :=
      CircularBuffer.cbPushBack_spec h.line.valid
        (h.line.capacity ▸ h.line.room h_idle h_owner) client false
    rw [sendChar_waiting h_owner h_push] at h_line ⊢
    refine h.append h_line rfl ⟨h_idle, trivial⟩ ⟨trivial, trivial⟩
      (by cases s.tx <;> rfl) h.canSend h.want ?_
    -- who reads does not ask for a byte to be written
    refine h.rx.imp_right fun h_reading => ?_
    obtain ⟨c, h_c⟩ := h_reading
    refine ⟨c, ?_⟩
    have h_ne : c ≠ client := by
      rintro rfl
      exact absurd (h_idle.symm.trans h_c) (by simp)
    unfold Com1Server.stage
    rw [ledger_append]
    exact (Function.update_of_ne h_ne _ _).trans h_c

/-- A read sends the receive notifier for a byte if none is there. It was parked, since nobody else
reads. -/
theorem Com1Paced.getChar (h : Com1Paced s) (h_idle : s.stage client = .idle)
    (h_owner : s.ownedBy = some client) :
    Com1Paced (s.getChar client) := by
  -- the owner reads, so the notifier is not on its way for somebody else
  have h_rx := h.rx_parked h_idle (.inl h_owner)
  have h_line := h.line.getChar h_idle h_owner fun _ => h_rx
  -- a byte is there, or the notifier is sent to wait for one
  cases h_incoming : s.incoming with
  | cons char rest =>
    rw [getChar_now h_owner h_incoming] at h_line ⊢
    exact h.append h_line rfl ⟨h_idle, .inr (.inl (by simp)), trivial⟩ ⟨trivial, trivial, trivial⟩
      (by cases s.tx <;> rfl) h.canSend h.want (.inl h_rx)
  | nil =>
    rw [getChar_later h_incoming h_rx] at h_line ⊢
    refine h.append h_line rfl ⟨h_idle, trivial⟩ ⟨trivial, trivial⟩
      (by cases s.tx <;> rfl) h.canSend h.want
      (.inr ⟨client, ?_⟩)
    unfold Com1Server.stage
    rw [ledger_append]
    exact Function.update_self _ _ _

/-- The next client in line has a byte to write, so the transmit notifier is moved on if it was
parked; the receive notifier stays where it is. -/
theorem Com1Paced.releaseLock (h : Com1Paced s) (h_idle : s.stage client = .idle)
    (h_owner : s.ownedBy = some client) (h_step : s.releaseLock client = .ok s') :
    Com1Paced s' := by
  have h_ledger : (ledger s.history).owner = some client := h.line.owner.symm.trans h_owner
  have h_rx := h.rx_parked h_idle (.inl h_owner)
  have h_turn := Ledger.allInTurn_release h_idle h_ledger (0 : Byte)
  have h_line : Com1Line s' := by
    obtain ⟨s₁, h_ok, h_s₁⟩ := h.line.releaseLock h_idle h_owner
    obtain rfl := Except.ok.inj (h_ok.symm.trans h_step)
    exact h_s₁
  cases h_tail : (ledger s.history).clients.tail with
  -- nobody is in line, and nothing is written
  | nil =>
    rw [releaseLock_last h_owner (CircularBuffer.cbPopFront_nil (h.line.waiting.trans h_tail))]
      at h_step
    obtain rfl := Except.ok.inj h_step
    exact h.append h_line rfl h_turn ⟨trivial, trivial, trivial⟩
      (by cases s.tx <;> rfl) h.canSend h.want
      (.inl h_rx)
  | cons next rest =>
    -- who is next in line has a byte to write
    obtain ⟨char, h_asked⟩ := h.line.next_asked h_tail
    obtain ⟨cb, h_pop, -⟩ :=
      CircularBuffer.cbPopFront_cons h.line.valid (h.line.waiting.trans h_tail)
    have h_clients : (ledger s.history).clients = client :: next :: rest := by
      rw [← h_tail]
      exact List.eq_cons_of_mem_head? h_ledger
    -- the byte of the next client is written now, or when the notifier is back
    cases h_can : s.canSend with
    | true =>
      have h_tx : s.tx = .parked := h.canSend.mp h_can
      have h_want := (h.line.quiet h_idle (.inl h_owner)).1
      rw [releaseLock_now h_owner h_can h_pop, h.line.buffer next char h_asked] at h_step
      obtain rfl := Except.ok.inj h_step
      refine h.append h_line rfl
        (h.line.inLine.allInTurn_release_wrote h_idle h_clients h_asked 0 0) ?_ ?_ ?_ ?_
        (.inl h_rx)
      · rw [h_tx]
        exact ⟨trivial, rfl, trivial, trivial, trivial⟩
      all_goals simp [txReplied, h_tx]
      · rfl
    | false =>
      have h_tx : s.tx ≠ .parked := fun h_tx => by simp [h.canSend.mpr h_tx] at h_can
      rw [releaseLock_later h_owner h_can h_pop] at h_step
      obtain rfl := Except.ok.inj h_step
      exact h.append h_line rfl h_turn ⟨trivial, trivial, trivial⟩ (by cases s.tx <;> rfl) h.canSend
        (fun _ => h_tx) (.inl h_rx)

/-- The transmit notifier comes back: the next byte is written and the notifier is sent on, or it
stays parked until there is one. -/
theorem Com1Paced.notifierTxGood (h : Com1Paced s) (h_tx : s.tx = .sending)
    (h_step : s.notifierTxGood = .ok s') :
    Com1Paced s' := by
  have h_line : Com1Line s' := by
    obtain ⟨s₁, h_ok, h_s₁⟩ := h.line.notifierTxGood
    obtain rfl := Except.ok.inj (h_ok.symm.trans h_step)
    exact h_s₁
  cases h_want : s.wantSend with
  | false =>
    rw [notifierTxGood_park h_want] at h_step
    obtain rfl := Except.ok.inj h_step
    exact h.append h_line (List.append_nil _).symm trivial trivial (by rw [h_tx]; rfl) (by simp)
      (by simp [h_want]) h.rx
  | true =>
    obtain ⟨owner, char, h_owner, h_asked⟩ := h.line.owner_asked h_want
    have h_ledger : (ledger s.history).owner = some owner := h.line.owner.symm.trans h_owner
    rw [notifierTxGood_want h_want h_owner, h.line.buffer owner char h_asked] at h_step
    obtain rfl := Except.ok.inj h_step
    refine h.append h_line rfl (Ledger.allInTurn_wrote h_asked h_ledger 0) ?_
      (by rw [h_tx]; rfl) ?_ (by simp)
      (.inl ?_)
    · rw [h_tx]
      exact ⟨rfl, trivial, trivial⟩
    · have h_can : ¬s.canSend = true := fun h_can => by simp [h.canSend.mp h_can] at h_tx
      simp [h_can]
    · -- the owner waits for its byte, so nobody reads
      refine h.rx.resolve_right fun ⟨c, h_c⟩ => ?_
      obtain rfl := Option.some.inj (h_owner.symm.trans (h.line.reading c h_c).1)
      exact absurd (h_asked.symm.trans h_c) (by simp)

theorem Com1Paced.notifierRxGood (h : Com1Paced s) (h_rx : s.rx ≠ .parked)
    (h_line : Com1Line (s.notifierRxGood data)) :
    Com1Paced (s.notifierRxGood data) := by
  obtain ⟨owner, h_reading⟩ := h.rx.resolve_left h_rx
  have h_owner := (h.line.reading owner h_reading).1
  rw [notifierRxGood_owned h_owner] at h_line ⊢
  exact h.append h_line rfl ⟨.inr (.inl h_reading), trivial⟩ ⟨trivial, trivial⟩
    (by cases s.tx <;> rfl) h.canSend
    h.want (.inl rfl)

/-- **One step** that can be taken. The line is kept by what was shown of it; what is new is how far
the notifier is in its two waits (`pause`), which each of its steps moves on, and no other does. -/
theorem Com1Paced.step (h : Com1Paced s) (h_l : s.Admitted l) (h_step : s.next l = .ok s') :
    Com1Paced s' := by
  have h_line : Com1Line s' := h.line.step (h.ownerReads h_l h_step) h_step
  have h_can : s.tx ≠ .parked → ¬s.canSend = true := fun h_tx h_can => h_tx (h.canSend.mp h_can)
  have h_busy : s.rx ≠ .parked → ∃ c, s.stage c = .reading := h.rx.resolve_left
  cases moves_of_next h_step with
  | sendChar client char => exact h.sendChar h_l char
  | getChar client => exact h.getChar h_l.1 h_l.2
  | releaseLock h_release => exact h.releaseLock h_l.1 h_l.2 h_release
  | notifierTxGood h_tx h_good => exact h.notifierTxGood h_tx h_good
  | notifierRxGood h_rx => exact h.notifierRxGood (by simp [h_rx]) h_line
  -- the notifier waits for the line, or has it
  | txWait h_tx | txInterrupt h_tx =>
    have h_not := h_can (by simp [h_tx])
    refine h.append h_line rfl ⟨trivial, trivial⟩ ⟨trivial, trivial⟩ (by rw [h_tx]; rfl) ?_ ?_
      (h.rx_emit rfl rfl)
    · simp [emit, h_not]
    · simp [emit]
  -- the other notifier moves, so somebody reads
  | rxWait h_rx | rxInterrupt h_rx | rxRead h_rx | rxReadJunk h_rx =>
    exact h.append h_line (List.append_nil _).symm trivial trivial rfl h.canSend h.want
      (.inr (h_busy (by simp [h_rx])))
  | receive char =>
    exact h.append h_line rfl ⟨trivial, trivial⟩ ⟨trivial, trivial⟩
      (by cases s.tx <;> rfl) h.canSend h.want
      (h.rx_emit rfl rfl)

end

/-- **The track's line is shared in tenures, at its pace**: in every run from when both notifiers
have checked in, every byte is written once and in its turn, every call is replied to once, between
two bytes the notifier has waited, and whatever can be sent goes through.

`Com1Line` ties the line of the clients to the ledger, and `Com1Paced` the transmit notifier to what
was written last: it is parked just while the server may write. A step that fails with `elsewhere`
is one of a notifier that is at another place, so it is not taken. -/
theorem exact_com1 {ls : List Com1Step} {s : Com1Server} (h : com1CheckedIn.Reaches Admitted ls s) :
    Com1Exact s ∧ ∀ l, s.Admitted l → (∃ s', s.next l = .ok s') ∨ s.next l = .error .elsewhere := by
  -- the invariant holds of the start, and every step keeps it
  have h_inv : Com1Paced s := by
    refine h.invariant ?_ ?_
    · rintro _ ⟨garbage, rfl⟩
      exact com1Paced_checkedIn garbage
    · intro s l s' h_s h_l h_step
      exact h_s.step h_l h_step
  refine ⟨h_inv.exact, fun l h_l => ?_⟩
  -- no step fails but for a notifier that is elsewhere
  match l with
  | .sendChar _ _ | .getChar _ | .receive _ => exact .inl ⟨_, rfl⟩
  | .releaseLock client =>
    obtain ⟨s', h_ok, -⟩ := h_inv.line.releaseLock h_l.1 h_l.2
    exact .inl ⟨s', h_ok⟩
  | .notifierTxGood =>
    obtain ⟨s', h_ok, -⟩ := h_inv.line.notifierTxGood
    rw [next, h_ok]
    split
    · exact .inl ⟨s', rfl⟩
    · exact .inr rfl
  | .txWait | .txInterrupt | .notifierRxGood | .rxWait | .rxInterrupt =>
    rw [next]
    split
    · exact .inl ⟨_, rfl⟩
    · exact .inr rfl
  | .rxRead junk =>
    rw [next]
    split
    · split <;> exact .inl ⟨_, rfl⟩
    · exact .inr rfl

def com1Next (s : Com1Server) (l : Com1Step) : Option Com1Server := (s.next l).toOption

theorem com1Next_step (s : Com1Server) (l : Com1Step) (s' : Com1Server)
    (h : com1Next s l = some s') :
    com1CheckedIn.step s l s' := of_toOption h

/-- Task 5 comes while task 3 waits for its second byte, and reads after it has the lock. -/
theorem exact_com1_two_clients : ∃ s : Com1Server, Com1Exact s ∧
    (ledger s.history).written = [(3, 65), (3, 66), (5, 67)] ∧
      (ledger s.history).delivered = [(5, 9)] ∧
    ∀ l, s.Admitted l → (∃ s', s.next l = .ok s') ∨ s.next l = .error .elsewhere := by
  obtain ⟨s, h_s, h_written, h_delivered⟩ := System.exists_reaches_of_play com1Next_step Admitted
    (fun s => (ledger s.history).written = [(3, 65), (3, 66), (5, 67)] ∧
      (ledger s.history).delivered = [(5, 9)])
    [.sendChar 3 65, .sendChar 3 66, .sendChar 5 67, .txWait, .txInterrupt, .notifierTxGood,
      .releaseLock 3,
      .txWait, .txInterrupt, .notifierTxGood, .getChar 5, .rxWait, .receive 9,
        .rxInterrupt, .rxRead 0,
      .notifierRxGood, .releaseLock 5] ⟨fun _ => 0, rfl⟩ (by decide +kernel)
  exact ⟨s, (exact_com1 h_s).1, h_written, h_delivered, (exact_com1 h_s).2⟩

end Uart
end PollingExpress
