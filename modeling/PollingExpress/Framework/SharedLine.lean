import Mathlib.Data.List.Nodup
import Mathlib.Logic.Function.Basic
import PollingExpress.Framework.History

/-!
# A line that clients share

Clients put bytes on a line, one at a time, and hold the line from their first byte until
they release it. The history of a server that does this for them is a list of events: the calls it
received, what it wrote, and whom it replied to.

* `ledger h` reads a history. A client's time with the line is a `Tenure`. Tenures are in the
  order in which they were asked for; `done` are those that are over, and of the others, in
  `line`, the first has the line. `stage` is where a client's call is.
* `Ledger.InTurn` says when an event is in order: the calls of a client one after the other, a
  write only of the byte that the client with the line has asked for, a reply only when the
  call has been done.

`orderly_of_inTurn` is what follows for a whole history: the bytes written are the tenures'
one after the other, every byte is written once, and every call is replied to once.

The line can also be read. `Ledger.AnswersNext` says that a client which asked for a byte gets
the first that nobody has got, and `Spaced` that between two writes somebody waited.
-/

namespace PollingExpress

variable {C B : Type*}

inductive LineEvent (C B : Type*)
  | put (c : C) (b : B)
  | get (c : C)
  | release (c : C)
  | wrote (c : C) (b : B)
  | replied (c : C) (v : B)
  /-- A byte comes in. -/
  | received (b : B)
  /-- Somebody begins to wait for the line to be ready. -/
  | waitBegun
  | waitDone
  deriving DecidableEq

/-- The client that the event is about. -/
def LineEvent.client : LineEvent C B → Option C
  | .put c _ | .get c | .release c | .wrote c _ | .replied c _ => some c
  | _ => none

/-- Where the call of a client is. -/
inductive Stage (B : Type*)
  | idle
  | asked (b : B)
  | written
  | reading
  | releasing
  deriving DecidableEq

/-- The byte that is not yet written. -/
def Stage.unwritten : Stage B → List B
  | .asked b => [b]
  | _ => []

def Stage.isAsked : Stage B → Bool
  | .asked _ => true
  | _ => false

theorem Stage.eq_asked {stage : Stage B} (h : stage.isAsked = true) : ∃ b, stage = .asked b :=
  match stage, h with
  | .asked b, _ => ⟨b, rfl⟩

/-- The calls that have not been replied to. -/
def Stage.unanswered : Stage B → ℕ
  | .idle => 0
  | _ => 1

structure Tenure (C B : Type*) where
  client : C
  bytes : List B

/-- The bytes of a tenure, with the client. -/
def Tenure.tagged (t : Tenure C B) : List (C × B) := t.bytes.map fun b => (t.client, b)

structure Ledger (C B : Type*) where
  done : List (Tenure C B)
  line : List (Tenure C B)
  stage : C → Stage B
  written : List (C × B)
  incoming : List B
  /-- Who got which byte. -/
  delivered : List (C × B)

namespace Ledger

variable [DecidableEq C] {L : Ledger C B}

def start : Ledger C B := ⟨[], [], fun _ => .idle, [], [], []⟩

/-- The clients in line; the first has it. -/
def clients (L : Ledger C B) : List C := L.line.map Tenure.client

/-- The client with the line. -/
def owner (L : Ledger C B) : Option C := L.clients.head?

/-- The byte goes into the client's tenure, which is a new one if the client is not in line. -/
def addByte (line : List (Tenure C B)) (c : C) (b : B) : List (Tenure C B) :=
  if c ∈ line.map Tenure.client then
    line.map fun t => if t.client = c then { t with bytes := t.bytes ++ [b] } else t
  else line ++ [⟨c, [b]⟩]

/-- One more event. -/
def after (L : Ledger C B) : LineEvent C B → Ledger C B
  | .put c b => { L with line := addByte L.line c b, stage := Function.update L.stage c (.asked b) }
  | .get c => { L with stage := Function.update L.stage c .reading }
  | .release c =>
    { L with
      done := L.done ++ L.line.take 1
      line := L.line.tail
      stage := Function.update L.stage c .releasing }
  | .wrote c b =>
    { L with written := L.written ++ [(c, b)], stage := Function.update L.stage c .written }
  | .replied c v =>
    { L with
      delivered := match L.stage c with
        | .reading => L.delivered ++ [(c, v)]
        | _ => L.delivered
      stage := Function.update L.stage c .idle }
  | .received b => { L with incoming := L.incoming ++ [b] }
  | .waitBegun | .waitDone => L

/-- The event is in order. -/
def InTurn (L : Ledger C B) : LineEvent C B → Prop
  | .put c _ | .get c => L.stage c = .idle
  | .release c => L.stage c = .idle ∧ L.owner = some c
  | .wrote c b => L.stage c = .asked b ∧ L.owner = some c
  | .replied c _ => L.stage c = .written ∨ L.stage c = .reading ∨ L.stage c = .releasing
  | _ => True

/-- If the event gives a client the byte it asked for, it is the first that nobody has got. -/
def AnswersNext (L : Ledger C B) : LineEvent C B → Prop
  | .replied c v => L.stage c = .reading → L.delivered.map Prod.snd ++ [v] <+: L.incoming
  | _ => True

/-- The calls of a client, and the writes for it, are in order. -/
def CallsInTurn (L : Ledger C B) : LineEvent C B → Prop
  | .put c _ | .get c | .release c => L.stage c = .idle
  | .wrote c b => L.stage c = .asked b
  | _ => True

/-- Events that are in order, one after the other. -/
def AllInTurn (L : Ledger C B) : List (LineEvent C B) → Prop
  | [] => True
  | e :: es => L.InTurn e ∧ (L.after e).AllInTurn es

/-- The byte that the client with the line has asked for. -/
def unwritten (L : Ledger C B) : List (C × B) :=
  match L.line with
  | t :: _ => (L.stage t.client).unwritten.map fun b => (t.client, b)
  | [] => []

/-! ### The line after an event -/

theorem clients_put (L : Ledger C B) (c : C) (b : B) : (L.after (.put c b)).clients =
    if c ∈ L.clients then L.clients else L.clients ++ [c] := by
  change (addByte L.line c b).map Tenure.client = _
  unfold addByte
  split
  · next h =>
    rw [List.map_map]
    refine (List.map_congr_left fun t _ => ?_).trans (if_pos h).symm
    by_cases h_t : t.client = c <;> simp [h_t]
  · next h =>
    rw [List.map_append]
    exact (if_neg h).symm

@[simp] theorem clients_release (L : Ledger C B) (c : C) :
    (L.after (.release c)).clients = L.clients.tail := List.map_tail

@[simp] theorem clients_get (L : Ledger C B) (c : C) : (L.after (.get c)).clients = L.clients := rfl

@[simp] theorem clients_wrote (L : Ledger C B) (c : C) (b : B) :
    (L.after (.wrote c b)).clients = L.clients := rfl

@[simp] theorem clients_replied (L : Ledger C B) (c : C) (v : B) :
    (L.after (.replied c v)).clients = L.clients := rfl

@[simp] theorem stage_put (L : Ledger C B) (c : C) (b : B) :
    (L.after (.put c b)).stage = Function.update L.stage c (.asked b) := rfl

@[simp] theorem stage_get (L : Ledger C B) (c : C) :
    (L.after (.get c)).stage = Function.update L.stage c .reading := rfl

@[simp] theorem stage_release (L : Ledger C B) (c : C) :
    (L.after (.release c)).stage = Function.update L.stage c .releasing := rfl

@[simp] theorem stage_wrote (L : Ledger C B) (c : C) (b : B) :
    (L.after (.wrote c b)).stage = Function.update L.stage c .written := rfl

@[simp] theorem stage_replied (L : Ledger C B) (c : C) (v : B) :
    (L.after (.replied c v)).stage = Function.update L.stage c .idle := rfl

/-- An event about nobody leaves the calls and the line as they are. -/
theorem after_of_client_none {e : LineEvent C B} (h_e : e.client = none) :
    (L.after e).stage = L.stage ∧ (L.after e).clients = L.clients ∧ L.InTurn e := by
  match e, h_e with
  | .received _, _ | .waitBegun, _ | .waitDone, _ => exact ⟨rfl, rfl, trivial⟩

end Ledger

/-! ### Reading a history -/

section
variable [DecidableEq C]

/-- The ledger after a history. -/
def ledger (h : List (LineEvent C B)) : Ledger C B := h.foldl Ledger.after .start

theorem ledger_append (h es : List (LineEvent C B)) :
    ledger (h ++ es) = es.foldl Ledger.after (ledger h) :=
  List.foldl_append

theorem ledger_snoc (h : List (LineEvent C B)) (e : LineEvent C B) :
    ledger (h ++ [e]) = (ledger h).after e := List.foldl_append

/-- The bytes the client asked to be written. -/
def putBy (c : C) : List (LineEvent C B) → List B :=
  List.filterMap fun
    | .put c' b => if c' = c then some b else none
    | _ => none

/-- The bytes of the client that have been written. -/
def wroteBy (c : C) : List (LineEvent C B) → List B :=
  List.filterMap fun
    | .wrote c' b => if c' = c then some b else none
    | _ => none

/-- The calls of the client. -/
def callsBy (c : C) : List (LineEvent C B) → ℕ :=
  List.countP fun
    | .put c' _ | .get c' | .release c' => decide (c' = c)
    | _ => false

/-- The replies to the client. -/
def repliesTo (c : C) : List (LineEvent C B) → ℕ :=
  List.countP fun
    | .replied c' _ => decide (c' = c)
    | _ => false

/-- All events are in order. -/
def InTurns (h : List (LineEvent C B)) : Prop := AtEach (fun past e => (ledger past).InTurn e) h

theorem inTurns_append {h es : List (LineEvent C B)} (h_past : InTurns h)
    (h_es : (ledger h).AllInTurn es) : InTurns (h ++ es) := by
  induction es generalizing h with
  | nil => rwa [List.append_nil]
  | cons e es ih =>
    rw [List.append_cons]
    refine ih (atEach_snoc.mpr ⟨h_past, h_es.1⟩) ?_
    rw [ledger_snoc]
    exact h_es.2

end

/-! ### Events in order -/

namespace Ledger

variable {L : Ledger C B} {c : C} {b : B} {e : LineEvent C B}

/-- What events in order keep. Who has the line and who waits for it stand in one list of tenures,
the owner first; each client is there once. -/
structure Valid (L : Ledger C B) : Prop where
  nodup : L.clients.Nodup
  /-- Who waits for the line has asked for one byte. -/
  waiters : ∀ t ∈ L.line.tail, ∃ b, L.stage t.client = .asked b ∧ t.bytes = [b]
  inside : ∀ c b, L.stage c = .asked b → c ∈ L.clients
  blocks : L.written ++ L.unwritten = (L.done ++ L.line.take 1).flatMap Tenure.tagged

theorem valid_start : (start : Ledger C B).Valid where
  nodup := .nil
  waiters := by simp [start]
  inside := by simp [start]
  blocks := rfl

@[simp] theorem unwritten_nil (done : List (Tenure C B)) (stage : C → Stage B)
    (written : List (C × B)) (incoming : List B) (delivered : List (C × B)) :
    unwritten ⟨done, [], stage, written, incoming, delivered⟩ = [] := rfl

@[simp] theorem unwritten_cons (done rest : List (Tenure C B)) (t : Tenure C B)
    (stage : C → Stage B) (written delivered : List (C × B)) (incoming : List B) :
    unwritten ⟨done, t :: rest, stage, written, incoming, delivered⟩ =
      (stage t.client).unwritten.map fun b => (t.client, b) := rfl

theorem unwritten_eq_nil {stage : Stage B} (h : ∀ b, stage ≠ .asked b) : stage.unwritten = [] := by
  match stage with
  | .asked b => exact absurd rfl (h b)
  | .idle | .written | .reading | .releasing => rfl

/-- Of the clients in line, only the first can be one that has not asked. -/
theorem Valid.owner_of_mem (h : L.Valid) (h_c : c ∈ L.clients)
    (h_stage : ∀ b, L.stage c ≠ .asked b) :
    L.owner = some c := by
  obtain ⟨done, line, stage, written, incoming, delivered⟩ := L
  have h_waiters := h.waiters
  dsimp only [clients, owner] at *
  cases line with
  | nil => cases h_c
  | cons t rest =>
    rcases List.mem_cons.mp h_c with rfl | h_c
    · rfl
    · obtain ⟨u, h_u, rfl⟩ := List.mem_map.mp h_c
      obtain ⟨b, h_b, -⟩ := h_waiters u h_u
      exact absurd h_b (h_stage b)

theorem head?_append_of_owner (h : L.owner ≠ none) (l : List C) :
    (L.clients ++ l).head? = L.owner := by
  unfold owner at *
  cases h_clients : L.clients with
  | nil => exact absurd (congrArg List.head? h_clients) h
  | cons d rest => rfl

theorem tail_append_of_owner (h : L.owner ≠ none) (l : List C) :
    (L.clients ++ l).tail = L.clients.tail ++ l := by
  unfold owner at h
  cases h_clients : L.clients with
  | nil => exact absurd (congrArg List.head? h_clients) h
  | cons d rest => rfl

variable [DecidableEq C]

theorem addByte_owner {t : Tenure C B} {rest : List (Tenure C B)}
    (h : t.client ∉ rest.map Tenure.client) (b : B) :
    addByte (t :: rest) t.client b = { t with bytes := t.bytes ++ [b] } :: rest := by
  have h_rest : ∀ u ∈ rest, u.client ≠ t.client :=
    fun u h_u h_eq => h (h_eq ▸ List.mem_map_of_mem h_u)
  rw [addByte, if_pos (List.mem_map_of_mem List.mem_cons_self), List.map_cons, if_pos rfl,
    List.cons_inj_right]
  exact (List.map_congr_left fun u h_u => if_neg (h_rest u h_u)).trans (List.map_id' _)

theorem addByte_new {line : List (Tenure C B)} (h : c ∉ line.map Tenure.client) (b : B) :
    addByte line c b = line ++ [⟨c, [b]⟩] := if_neg h

/-- A change of the stage of one client that has not asked for a byte, and does not now. The line
does not depend on the stages of such clients. -/
theorem Valid.setStage (h : L.Valid) (h_c : ∀ b, L.stage c ≠ .asked b) {stage : Stage B}
    (h_stage : ∀ b, stage ≠ .asked b) (incoming : List B) (delivered : List (C × B)) :
    { L with stage := Function.update L.stage c stage, incoming, delivered }.Valid := by
  obtain ⟨done, line, stages, written, _, _⟩ := L
  obtain ⟨h_nodup, h_waiters, h_inside, h_blocks⟩ := h
  dsimp only [clients] at *
  refine ⟨h_nodup, ?_, ?_, ?_⟩
  · -- whoever waits has asked for a byte, so it is somebody else
    intro t h_t
    obtain ⟨b, h_b, h_bytes⟩ := h_waiters t h_t
    have h_ne : t.client ≠ c := fun h_eq => h_c b (h_eq ▸ h_b)
    exact ⟨b, (Function.update_of_ne h_ne _ _).trans h_b, h_bytes⟩
  · intro c' b h_b
    dsimp only at h_b
    by_cases h_eq : c' = c
    · rw [h_eq, Function.update_self] at h_b
      exact absurd h_b (h_stage b)
    · rw [Function.update_of_ne h_eq] at h_b
      exact h_inside c' b h_b
  · dsimp only
    rw [← h_blocks]
    cases line with
    | nil => rfl
    | cons t rest =>
      rw [unwritten_cons, unwritten_cons]
      by_cases h_eq : t.client = c
      · rw [h_eq, Function.update_self, unwritten_eq_nil h_stage, unwritten_eq_nil h_c]
      · rw [Function.update_of_ne h_eq]

/-- The client has the line, or comes to an empty one: its byte is the next. It stands behind what
the client has had written in this tenure, which has all been written. -/
theorem Valid.put_owner (h : L.Valid) (h_idle : L.stage c = .idle) (b : B)
    (h_owner : L.owner = some c ∨ L.line = []) : (L.after (.put c b)).Valid := by
  obtain ⟨done, line, stage, written, incoming, delivered⟩ := L
  obtain ⟨h_nodup, h_waiters, h_inside, h_blocks⟩ := h
  dsimp only [clients, after, owner] at *
  cases line with
  | nil =>
    -- a new tenure, the only one
    refine ⟨List.nodup_singleton c, by simp [addByte], ?_, ?_⟩
    · intro c' b' h_b'
      by_cases h_eq : c' = c
      · rw [h_eq]
        exact List.mem_singleton_self c
      · exact absurd (h_inside c' b' ((Function.update_of_ne h_eq _ _).symm.trans h_b')) (by simp)
    · rw [unwritten_nil, List.append_nil, List.take_nil, List.append_nil] at h_blocks
      simp [addByte, Stage.unwritten, h_blocks, Tenure.tagged]
  | cons t rest =>
    obtain rfl : t.client = c := h_owner.elim Option.some.inj fun h_nil => by cases h_nil
    have h_t : t.client ∉ rest.map Tenure.client := (List.nodup_cons.mp h_nodup).1
    rw [unwritten_cons, h_idle] at h_blocks
    -- its tenure becomes longer
    rw [addByte_owner h_t]
    refine ⟨h_nodup, ?_, ?_, ?_⟩
    · intro u h_u
      have h_ne : u.client ≠ t.client := fun h_eq => h_t (h_eq ▸ List.mem_map_of_mem h_u)
      obtain ⟨b', h_b', h_bytes⟩ := h_waiters u h_u
      exact ⟨b', (Function.update_of_ne h_ne _ _).trans h_b', h_bytes⟩
    · intro c' b' h_b'
      by_cases h_eq : c' = t.client
      · rw [h_eq]
        exact List.mem_cons_self
      · exact h_inside c' b' ((Function.update_of_ne h_eq _ _).symm.trans h_b')
    · simp only [Stage.unwritten, List.map_nil, List.append_nil, List.take_succ_cons,
        List.take_zero, List.flatMap_append, List.flatMap_singleton, Tenure.tagged] at h_blocks
      simp [Stage.unwritten, h_blocks, Tenure.tagged]

/-- The client has to wait for the line. Its tenure is the last one, and has the one byte that it
has asked for; what is to be written does not change. -/
theorem Valid.put_waiter (h : L.Valid) (b : B) (h_line : L.line ≠ []) (h_c : c ∉ L.clients) :
    (L.after (.put c b)).Valid := by
  obtain ⟨done, line, stage, written, incoming, delivered⟩ := L
  obtain ⟨h_nodup, h_waiters, h_inside, h_blocks⟩ := h
  dsimp only [clients, after] at *
  obtain ⟨t, rest, rfl⟩ := List.exists_cons_of_ne_nil h_line
  rw [addByte_new h_c]
  have h_ne : ∀ u ∈ t :: rest, u.client ≠ c :=
    fun u h_u h_eq => h_c (h_eq ▸ List.mem_map_of_mem h_u)
  refine ⟨?_, ?_, ?_, ?_⟩
  · change (List.map _ _).Nodup
    rw [List.map_append]
    exact h_nodup.append (List.nodup_singleton c) (List.disjoint_singleton.mpr h_c)
  · -- the new tenure, at the end, has the one byte that its client waits for
    intro u h_u
    rcases List.mem_append.mp h_u with h_u | h_u
    · obtain ⟨b', h_b', h_bytes⟩ := h_waiters u h_u
      exact ⟨b', (Function.update_of_ne (h_ne u (List.mem_cons_of_mem _ h_u)) _ _).trans h_b',
        h_bytes⟩
    · obtain rfl := List.mem_singleton.mp h_u
      exact ⟨b, Function.update_self _ _ _, rfl⟩
  · intro c' b' h_b'
    change c' ∈ List.map _ _
    rw [List.map_append]
    by_cases h_eq : c' = c
    · rw [h_eq]
      exact List.mem_append_right _ (List.mem_singleton_self c)
    · exact List.mem_append_left _
        (h_inside c' b' ((Function.update_of_ne h_eq _ _).symm.trans h_b'))
  · change written ++ (Function.update stage c (.asked b) t.client).unwritten.map _ = _
    rw [Function.update_of_ne (h_ne t List.mem_cons_self)]
    exact h_blocks

theorem Valid.put (h : L.Valid) (h_idle : L.stage c = .idle) (b : B) :
    (L.after (.put c b)).Valid := by
  by_cases h_line : L.line = []
  · exact h.put_owner h_idle b (.inr h_line)
  by_cases h_c : c ∈ L.clients
  · exact h.put_owner h_idle b (.inl (h.owner_of_mem h_c (by simp [h_idle])))
  · exact h.put_waiter b h_line h_c

/-- The client with the line gives it up. Its tenure is over, and the next client has the line with
the one byte that it has been waiting for. -/
theorem Valid.release (h : L.Valid) (h_turn : L.InTurn (.release c)) :
    (L.after (.release c)).Valid := by
  obtain ⟨h_idle, h_owner⟩ := h_turn
  obtain ⟨done, line, stage, written, incoming, delivered⟩ := L
  obtain ⟨h_nodup, h_waiters, h_inside, h_blocks⟩ := h
  dsimp only [clients, after, owner] at *
  cases line with
  | nil => cases h_owner
  | cons t rest =>
    obtain rfl : t.client = c := Option.some.inj h_owner
    obtain ⟨h_t, h_nodup⟩ := List.nodup_cons.mp h_nodup
    have h_stage : ∀ c', c' ≠ t.client → Function.update stage t.client .releasing c' = stage c' :=
      fun c' h_ne => Function.update_of_ne h_ne _ _
    have h_rest : ∀ u ∈ rest, u.client ≠ t.client :=
      fun u h_u h_eq => h_t (h_eq ▸ List.mem_map_of_mem h_u)
    refine ⟨h_nodup, ?_, ?_, ?_⟩
    · intro u h_u
      have h_u := List.mem_of_mem_tail h_u
      obtain ⟨b', h_b', h_bytes⟩ := h_waiters u h_u
      exact ⟨b', (h_stage _ (h_rest u h_u)).trans h_b', h_bytes⟩
    · intro c' b' h_b'
      by_cases h_eq : c' = t.client
      · rw [h_eq] at h_b'
        exact absurd ((Function.update_self _ _ _).symm.trans h_b') (by simp)
      · exact (List.mem_cons.mp (h_inside c' b' ((h_stage c' h_eq).symm.trans h_b'))).resolve_left
          h_eq
    · rw [unwritten_cons, h_idle] at h_blocks
      change written ++ unwritten ⟨_, rest, _, _, _, _⟩ = ((done ++ [t]) ++ rest.take 1).flatMap _
      rw [List.flatMap_append, show done ++ [t] = done ++ (t :: rest).take 1 from rfl, ← h_blocks]
      -- the next client has asked for the one byte of its tenure
      cases rest with
      | nil => simp [unwritten, Stage.unwritten]
      | cons u rest =>
        obtain ⟨b', h_b', h_bytes⟩ := h_waiters u List.mem_cons_self
        simp [unwritten, Stage.unwritten, h_stage _ (h_rest u List.mem_cons_self), h_b', h_bytes,
          Tenure.tagged]

/-- The byte of the client with the line is written. It was the one byte that was to be written, and
the tenures are what they were. -/
theorem Valid.wrote (h : L.Valid) (h_turn : L.InTurn (.wrote c b)) :
    (L.after (.wrote c b)).Valid := by
  obtain ⟨h_asked, h_owner⟩ := h_turn
  obtain ⟨done, line, stage, written, incoming, delivered⟩ := L
  obtain ⟨h_nodup, h_waiters, h_inside, h_blocks⟩ := h
  dsimp only [clients, after, owner] at *
  cases line with
  | nil => cases h_owner
  | cons t rest =>
    -- the one that writes has the line, so its tenure is the first one
    obtain rfl : t.client = c := Option.some.inj h_owner
    have h_t : t.client ∉ rest.map Tenure.client := (List.nodup_cons.mp h_nodup).1
    rw [unwritten_cons, h_asked] at h_blocks
    refine ⟨h_nodup, ?_, ?_, ?_⟩
    · -- those that wait are other clients, whose stages have not changed
      intro u h_u
      have h_ne : u.client ≠ t.client := fun h_eq => h_t (h_eq ▸ List.mem_map_of_mem h_u)
      obtain ⟨b', h_b', h_bytes⟩ := h_waiters u h_u
      exact ⟨b', (Function.update_of_ne h_ne _ _).trans h_b', h_bytes⟩
    · intro c' b' h_b'
      by_cases h_eq : c' = t.client
      · rw [h_eq]
        exact List.mem_cons_self
      · exact h_inside c' b' ((Function.update_of_ne h_eq _ _).symm.trans h_b')
    · rw [← h_blocks]
      simp [Stage.unwritten]

/-- A reply to a client that does not wait for its byte to be written. -/
theorem Valid.replied (h : L.Valid) (h_c : ∀ b, L.stage c ≠ .asked b) (v : B) :
    (L.after (.replied c v)).Valid := h.setStage h_c (by simp) _ _

/-- **One event in order.** There is a case for each kind of event; those with an argument have
lemmas of their own. A byte that comes in and the waits of the line touch nothing that `Valid`
speaks of. -/
theorem Valid.after (h : L.Valid) (h_turn : L.InTurn e) : (L.after e).Valid := by
  match e with
  | .put c b => exact h.put h_turn b
  | .get c =>
    have h_c : L.stage c = .idle := h_turn
    exact h.setStage (fun b => by simp [h_c]) (by simp) _ _
  | .release c => exact h.release h_turn
  | .wrote c b => exact h.wrote h_turn
  | .replied c v =>
    refine h.replied (fun b => ?_) v
    rcases h_turn with h_c | h_c | h_c <;> simp [h_c]
  | .received b => exact ⟨h.nodup, h.waiters, h.inside, h.blocks⟩
  | .waitBegun | .waitDone => exact h

/-! ### What a server does for one message -/

/-- A client that has the line, or finds it free, has it after its byte. -/
theorem clients_put_owner (h_owner : L.owner = some c ∨ L.owner = none) (b : B) :
    (L.after (.put c b)).clients = c :: L.clients.tail := by
  rw [clients_put]
  unfold owner at h_owner
  cases h_clients : L.clients with
  | nil => rfl
  | cons d rest =>
    rw [h_clients] at h_owner
    obtain rfl : d = c := h_owner.elim Option.some.inj fun h_none => by cases h_none
    exact if_pos List.mem_cons_self

/-- A client that finds the line taken is the last in it. -/
theorem Valid.clients_put_waiter (h : L.Valid) (h_idle : L.stage c = .idle)
    (h_owner : ¬(L.owner = some c ∨ L.owner = none)) (b : B) :
    (L.after (.put c b)).clients = L.clients ++ [c] := by
  rw [clients_put]
  exact if_neg fun h_c => h_owner (.inl (h.owner_of_mem h_c (by simp [h_idle])))

/-- The byte of the client with the line is written at once. -/
theorem allInTurn_put_wrote (h_idle : L.stage c = .idle)
    (h_owner : L.owner = some c ∨ L.owner = none) (b v : B) :
    L.AllInTurn [.put c b, .wrote c b, .replied c v] := by
  refine ⟨h_idle, ⟨by simp, ?_⟩, .inl (by simp), trivial⟩
  rw [owner, clients_put_owner h_owner]
  rfl

theorem stage_put_wrote (h_idle : L.stage c = .idle) (b v : B) :
    (((L.after (.put c b)).after (.wrote c b)).after (.replied c v)).stage = L.stage := by
  simp [← h_idle]

/-- The byte the client with the line waits for is written. -/
theorem allInTurn_wrote (h_asked : L.stage c = .asked b) (h_owner : L.owner = some c) (v : B) :
    L.AllInTurn [.wrote c b, .replied c v] :=
  ⟨⟨h_asked, h_owner⟩, .inl (by simp), trivial⟩

theorem stage_wrote_replied (c : C) (b v : B) :
    ((L.after (.wrote c b)).after (.replied c v)).stage =
    Function.update L.stage c .idle := by simp

/-- A client releases the line, and the byte of the next is written at once. -/
theorem Valid.allInTurn_release_wrote {d : C} {rest : List C} (h : L.Valid)
    (h_idle : L.stage c = .idle) (h_clients : L.clients = c :: d :: rest)
    (h_asked : L.stage d = .asked b) (v w : B) :
    L.AllInTurn [.release c, .wrote d b, .replied d v, .replied c w] := by
  have h_ne : d ≠ c := by
    rintro rfl
    exact (List.nodup_cons.mp (h_clients ▸ h.nodup)).1 List.mem_cons_self
  refine ⟨⟨h_idle, ?_⟩, ⟨?_, ?_⟩, .inl (by simp), .inr (.inr ?_), trivial⟩
  · rw [owner, h_clients]
    rfl
  · rw [stage_release, Function.update_of_ne h_ne, h_asked]
  · rw [owner, clients_release, h_clients]
    rfl
  · simp [Function.update_of_ne h_ne.symm]

theorem stage_release_wrote {d : C} (h_idle : L.stage c = .idle) (h_ne : d ≠ c) (b v w : B) :
    ((((L.after (.release c)).after (.wrote d b)).after (.replied d v)).after
      (.replied c w)).stage =
      Function.update L.stage d .idle := by
  ext1 e
  by_cases h_c : e = c
  · subst h_c
    simp [Function.update_of_ne h_ne.symm, h_idle]
  · by_cases h_d : e = d
    · subst h_d
      simp [Function.update_of_ne h_c]
    · simp [Function.update_of_ne h_c, Function.update_of_ne h_d]

theorem allInTurn_release (h_idle : L.stage c = .idle) (h_owner : L.owner = some c) (v : B) :
    L.AllInTurn [.release c, .replied c v] :=
  ⟨⟨h_idle, h_owner⟩, .inr (.inr (by simp)), trivial⟩

theorem stage_release_replied (h_idle : L.stage c = .idle) (v : B) :
    ((L.after (.release c)).after (.replied c v)).stage = L.stage := by
  simp [← h_idle]

theorem Valid.afterAll {es : List (LineEvent C B)} (h : L.Valid) (h_es : L.AllInTurn es) :
    (es.foldl Ledger.after L).Valid := by
  induction es generalizing L with
  | nil => exact h
  | cons e es ih => exact ih (h.after h_es.1) h_es.2

end Ledger

/-! ### Whole histories -/

section
variable [DecidableEq C] {h : List (LineEvent C B)}

/-- The line is shared in tenures, and every call is answered once. -/
structure Orderly (h : List (LineEvent C B)) : Prop where
  inTurns : InTurns h
  /-- What has been written, and the byte that is next, are the tenures one after the other, up to
  the one that has the line. -/
  blocks : (ledger h).written ++ (ledger h).unwritten =
    ((ledger h).done ++ (ledger h).line.take 1).flatMap Tenure.tagged
  /-- What a client has asked to be written has been written, but for the last byte if the client
  waits for it. -/
  bytes : ∀ c, wroteBy c h ++ ((ledger h).stage c).unwritten = putBy c h
  /-- Every call of a client has been replied to, but for the one it waits in. -/
  replies : ∀ c, repliesTo c h + ((ledger h).stage c).unanswered = callsBy c h
  /-- Nobody who waits is left out. -/
  inside : ∀ c b, (ledger h).stage c = .asked b → c ∈ (ledger h).clients

theorem valid_of_inTurns (h_turns : InTurns h) : (ledger h).Valid := by
  induction h using List.reverseRecOn with
  | nil => exact Ledger.valid_start
  | append_singleton h e ih =>
    obtain ⟨h_past, h_turn⟩ := atEach_snoc.mp h_turns
    rw [ledger_snoc]
    exact (ih h_past).after h_turn

/-- An event about somebody else. -/
theorem accounts_of_ne {c : C} {e : LineEvent C B} (h_e : e.client ≠ some c) :
    ((ledger h).after e).stage c = (ledger h).stage c ∧ wroteBy c (h ++ [e]) = wroteBy c h ∧
      putBy c (h ++ [e]) = putBy c h ∧ repliesTo c (h ++ [e]) = repliesTo c h ∧
      callsBy c (h ++ [e]) = callsBy c h := by
  match e with
  | .put c' b | .wrote c' b | .get c' | .release c' | .replied c' v =>
    have h_ne : ¬c' = c := fun h_eq => h_e (congrArg some h_eq)
    simp [wroteBy, putBy, repliesTo, callsBy, h_ne, Function.update_of_ne (Ne.symm h_ne)]
  | .received b | .waitBegun | .waitDone => simp [wroteBy, putBy, repliesTo, callsBy, Ledger.after]

/-- What one more event adds to the accounts. -/
theorem accounts_snoc (c : C) (e : LineEvent C B) :
    wroteBy c (h ++ [e]) = wroteBy c h ++ wroteBy c [e] ∧
      putBy c (h ++ [e]) = putBy c h ++ putBy c [e] ∧
      repliesTo c (h ++ [e]) = repliesTo c h + repliesTo c [e] ∧
      callsBy c (h ++ [e]) = callsBy c h + callsBy c [e] :=
  ⟨List.filterMap_append, List.filterMap_append, List.countP_append, List.countP_append⟩

/-- A call, with the bytes that it asks to be written. -/
theorem accounts_call {c : C} {e : LineEvent C B} {stage : Stage B}
    (h_idle : (ledger h).stage c = .idle) (h_stage : ((ledger h).after e).stage c = stage)
    (h_wrote : wroteBy c [e] = []) (h_put : putBy c [e] = stage.unwritten)
    (h_replied : repliesTo c [e] = 0) (h_called : callsBy c [e] = stage.unanswered)
    (h_bytes : wroteBy c h ++ ((ledger h).stage c).unwritten = putBy c h)
    (h_replies : repliesTo c h + ((ledger h).stage c).unanswered = callsBy c h) :
    wroteBy c (h ++ [e]) ++ (((ledger h).after e).stage c).unwritten = putBy c (h ++ [e]) ∧
      repliesTo c (h ++ [e]) + (((ledger h).after e).stage c).unanswered =
        callsBy c (h ++ [e]) := by
  obtain ⟨h_w, h_p, h_r, h_k⟩ := accounts_snoc (h := h) c e
  rw [h_idle] at h_bytes h_replies
  rw [h_stage, h_w, h_p, h_r, h_k, h_wrote, h_put, h_replied, h_called, ← h_bytes, ← h_replies]
  exact ⟨by rw [List.append_assoc, List.append_assoc]; rfl, rfl⟩

/-- Every byte of a client, and every call, is accounted for. The induction is on the history from
its end: the last event is a call, which is open from then on, or it closes one, or it is about
another client. -/
theorem accounts_of_inTurns (h_turns : InTurns h) (c : C) :
    wroteBy c h ++ ((ledger h).stage c).unwritten = putBy c h ∧
      repliesTo c h + ((ledger h).stage c).unanswered = callsBy c h := by
  induction h using List.reverseRecOn with
  | nil => exact ⟨rfl, rfl⟩
  | append_singleton h e ih =>
    obtain ⟨h_past, h_turn⟩ := atEach_snoc.mp h_turns
    obtain ⟨h_bytes, h_replies⟩ := ih h_past
    rw [ledger_snoc]
    by_cases h_e : e.client = some c
    · match e with
      | .put c' b =>
        obtain rfl : c' = c := Option.some.inj h_e
        exact accounts_call h_turn (Function.update_self _ _ _) rfl
          (by simp [putBy, Stage.unwritten]) rfl
          (by simp [callsBy, Stage.unanswered]) h_bytes h_replies
      | .get c' =>
        obtain rfl : c' = c := Option.some.inj h_e
        exact accounts_call h_turn (Function.update_self _ _ _) rfl rfl rfl
          (by simp [callsBy, Stage.unanswered])
          h_bytes h_replies
      | .release c' =>
        obtain rfl : c' = c := Option.some.inj h_e
        exact accounts_call h_turn.1 (Function.update_self _ _ _) rfl rfl rfl
          (by simp [callsBy, Stage.unanswered])
          h_bytes h_replies
      | .wrote c' b =>
        -- the byte that was asked for has been written; the call is still open
        obtain rfl : c' = c := Option.some.inj h_e
        obtain ⟨h_w, h_p, h_r, h_k⟩ := accounts_snoc (h := h) c' (.wrote c' b)
        have h_one : wroteBy c' [.wrote c' b] = [b] := by simp [wroteBy]
        rw [show (ledger h).stage c' = .asked b from h_turn.1] at h_bytes h_replies
        rw [h_w, h_p, h_r, h_k, Ledger.stage_wrote, Function.update_self, h_one, ← h_bytes,
          ← h_replies]
        exact ⟨(List.append_nil _).trans (List.append_nil _).symm, rfl⟩
      | .replied c' v =>
        -- the call is closed, and no byte was left to be written
        obtain rfl : c' = c := Option.some.inj h_e
        obtain ⟨h_w, h_p, h_r, h_k⟩ := accounts_snoc (h := h) c' (.replied c' v)
        have h_one : repliesTo c' [.replied (B := B) c' v] = 1 := by simp [repliesTo]
        have h_open : ((ledger h).stage c').unwritten = [] ∧
            ((ledger h).stage c').unanswered = 1 := by
          rcases h_turn with h_stage | h_stage | h_stage <;> exact h_stage ▸ ⟨rfl, rfl⟩
        rw [h_open.1] at h_bytes
        rw [h_open.2] at h_replies
        rw [h_w, h_p, h_r, h_k, Ledger.stage_replied, Function.update_self, h_one, ← h_bytes,
          ← h_replies]
        exact ⟨rfl, rfl⟩
      | .received b | .waitBegun | .waitDone => cases h_e
    · -- what another client does has no part in the accounts of `c`
      obtain ⟨h_stage, h_wrote, h_put, h_replied, h_called⟩ := accounts_of_ne h_e
      rw [h_stage, h_wrote, h_put, h_replied, h_called]
      exact ⟨h_bytes, h_replies⟩

/-- **A history in order is an orderly one.** It is enough that every event comes in its turn: what
has been written, asked and answered then follows by counting along the history. -/
theorem orderly_of_inTurns (h_turns : InTurns h) : Orderly h where
  inTurns := h_turns
  blocks := (valid_of_inTurns h_turns).blocks
  bytes c := (accounts_of_inTurns h_turns c).1
  replies c := (accounts_of_inTurns h_turns c).2
  inside := (valid_of_inTurns h_turns).inside

/-! ### Bytes that come in -/

/-- The calls of the client for a byte. -/
def getsBy (c : C) : List (LineEvent C B) → ℕ :=
  List.countP fun
    | .get c' => decide (c' = c)
    | _ => false

/-- The calls for a byte that have not been answered. -/
def Stage.reads : Stage B → ℕ
  | .reading => 1
  | _ => 0

/-- The clients that ask for a byte get the bytes in the order in which they came in, and every call
is answered once. The events themselves say who was answered with what (`each`); the other two
fields are what follows for the bytes and for the calls as a whole. -/
structure Answered (h : List (LineEvent C B)) : Prop where
  each : AtEach (fun past e => (ledger past).CallsInTurn e ∧ (ledger past).AnswersNext e) h
  delivered : (ledger h).delivered.map Prod.snd <+: (ledger h).incoming
  once : ∀ c, ((ledger h).delivered.countP fun x => x.1 = c) +
    ((ledger h).stage c).reads = getsBy c h

theorem Ledger.delivered_replied {L : Ledger C B} {c : C} (h_c : L.stage c ≠ .reading) (v : B) :
    (L.after (.replied c v)).delivered = L.delivered := by
  rw [Ledger.after]
  dsimp only
  split
  · next h_reading => exact absurd h_reading h_c
  · rfl

theorem delivered_of_each
    (h_each : AtEach (fun past e => (ledger past).CallsInTurn e ∧ (ledger past).AnswersNext e) h) :
    (ledger h).delivered.map Prod.snd <+: (ledger h).incoming := by
  induction h using List.reverseRecOn with
  | nil => exact List.prefix_rfl
  | append_singleton h e ih =>
    obtain ⟨h_past, -, h_next⟩ := atEach_snoc.mp h_each
    rw [ledger_snoc]
    match e with
    | .received b => exact (ih h_past).trans (List.prefix_append _ _)
    | .replied c v =>
      -- the client is given the next byte, or it does not read
      by_cases h_c : (ledger h).stage c = .reading
      · simpa [Ledger.after, h_c] using h_next h_c
      · rw [Ledger.delivered_replied h_c]
        exact ih h_past
    | .put c b | .get c | .release c | .wrote c b | .waitBegun | .waitDone => exact ih h_past

/-- The calls of a client for a byte: as many as bytes have been given to it, and one more while it
reads. -/
theorem once_of_each
    (h_each : AtEach (fun past e => (ledger past).CallsInTurn e ∧ (ledger past).AnswersNext e) h)
    (c : C) :
    ((ledger h).delivered.countP fun x => x.1 = c) + ((ledger h).stage c).reads = getsBy c h := by
  induction h using List.reverseRecOn with
  | nil => rfl
  | append_singleton h e ih =>
    obtain ⟨h_past, h_turn, -⟩ := atEach_snoc.mp h_each
    have h_ih := ih h_past
    rw [ledger_snoc]
    by_cases h_e : e.client = some c
    · -- only a call for a byte, and the reply to one, count
      match e with
      | .put c' b =>
        obtain rfl : c' = c := Option.some.inj h_e
        rw [show (ledger h).stage c' = .idle from h_turn] at h_ih
        simpa [getsBy, Stage.reads, Ledger.after] using h_ih
      | .get c' =>
        obtain rfl : c' = c := Option.some.inj h_e
        rw [show (ledger h).stage c' = .idle from h_turn] at h_ih
        simpa [getsBy, Stage.reads, Ledger.after] using h_ih
      | .release c' =>
        obtain rfl : c' = c := Option.some.inj h_e
        rw [show (ledger h).stage c' = .idle from h_turn] at h_ih
        simpa [getsBy, Stage.reads, Ledger.after] using h_ih
      | .wrote c' b =>
        obtain rfl : c' = c := Option.some.inj h_e
        rw [show (ledger h).stage c' = .asked b from h_turn] at h_ih
        simpa [getsBy, Stage.reads, Ledger.after] using h_ih
      | .replied c' v =>
        obtain rfl : c' = c := Option.some.inj h_e
        cases h_stage : (ledger h).stage c'
        all_goals
          rw [h_stage] at h_ih
          simpa [getsBy, Stage.reads, Ledger.after, h_stage] using h_ih
      | .received b | .waitBegun | .waitDone => cases h_e
    · -- the event of another client counts for nothing
      obtain ⟨h_stage, -⟩ := accounts_of_ne h_e
      rw [h_stage]
      match e with
      | .replied c' v =>
        have h_ne : ¬c' = c := fun h_eq => h_e (congrArg some h_eq)
        cases h_c : (ledger h).stage c' <;> simpa [getsBy, Ledger.after, h_c, h_ne] using h_ih
      | .put c' b | .get c' | .release c' | .wrote c' b =>
        have h_ne : ¬c' = c := fun h_eq => h_e (congrArg some h_eq)
        simpa [getsBy, Ledger.after, h_ne] using h_ih
      | .received b | .waitBegun | .waitDone => simpa [getsBy, Ledger.after] using h_ih

/-- Calls in order, and answers with the next byte, one after the other. -/
def Ledger.AllAnswering (L : Ledger C B) : List (LineEvent C B) → Prop
  | [] => True
  | e :: es => (L.CallsInTurn e ∧ L.AnswersNext e) ∧ (L.after e).AllAnswering es

theorem each_append {es : List (LineEvent C B)}
    (h_past : AtEach (fun past e => (ledger past).CallsInTurn e ∧ (ledger past).AnswersNext e) h)
    (h_es : (ledger h).AllAnswering es) :
    AtEach (fun past e => (ledger past).CallsInTurn e ∧ (ledger past).AnswersNext e) (h ++ es) := by
  induction es generalizing h with
  | nil => rwa [List.append_nil]
  | cons e es ih =>
    rw [List.append_cons]
    refine ih (atEach_snoc.mpr ⟨h_past, h_es.1⟩) ?_
    rw [ledger_snoc]
    exact h_es.2

/-- The event has to do with no byte that comes in. -/
def Ledger.Unread (L : Ledger C B) : LineEvent C B → Prop
  | .get _ | .received _ => False
  | .replied c _ => L.stage c ≠ .reading
  | _ => True

/-- Such an event leaves who reads, and what has been given out, as it is. -/
theorem Ledger.Unread.after {L : Ledger C B} {e : LineEvent C B} (h_e : L.Unread e)
    (h_turn : L.InTurn e) :
    (L.CallsInTurn e ∧ L.AnswersNext e) ∧ (L.after e).delivered = L.delivered ∧
      (L.after e).incoming = L.incoming ∧ ∀ c, (L.after e).stage c = .reading ↔
      L.stage c = .reading := by
  -- the stage of one client goes from one that is not `reading` to another such
  have h_update : ∀ c (stage : Stage B), L.stage c ≠ .reading → stage ≠ .reading →
      ∀ d, Function.update L.stage c stage d = .reading ↔ L.stage d = .reading := by
    intro c stage h_c h_stage d
    by_cases h_d : d = c
    · rw [h_d, Function.update_self]
      exact iff_of_false h_stage h_c
    · rw [Function.update_of_ne h_d]
  match e with
  | .put c b =>
    have h_idle : L.stage c = .idle := h_turn
    exact ⟨⟨h_turn, trivial⟩, rfl, rfl, h_update c _ (by simp [h_idle]) (by simp)⟩
  | .release c => exact ⟨⟨h_turn.1, trivial⟩, rfl, rfl, h_update c _ (by simp [h_turn.1]) (by simp)⟩
  | .wrote c b => exact ⟨⟨h_turn.1, trivial⟩, rfl, rfl, h_update c _ (by simp [h_turn.1]) (by simp)⟩
  | .replied c v =>
    exact ⟨⟨trivial, fun h_reading => absurd h_reading h_e⟩, L.delivered_replied h_e v, rfl,
      h_update c _ h_e (by simp)⟩
  | .waitBegun | .waitDone => exact ⟨⟨trivial, trivial⟩, rfl, rfl, fun _ => Iff.rfl⟩
  | .get _ | .received _ => exact h_e.elim

/-- Events that are not about reading, one after the other, leave the clients that read and what
they have been given as they are. -/
theorem Ledger.unread_of_allInTurn {L : Ledger C B} {es : List (LineEvent C B)}
    (h_es : ∀ e ∈ es, L.Unread e) (h_turn : L.AllInTurn es) :
    L.AllAnswering es ∧ (es.foldl Ledger.after L).delivered = L.delivered ∧
      (es.foldl Ledger.after L).incoming = L.incoming ∧
      ∀ c, (es.foldl Ledger.after L).stage c = .reading ↔ L.stage c = .reading := by
  induction es generalizing L with
  | nil => exact ⟨trivial, rfl, rfl, fun _ => Iff.rfl⟩
  | cons e es ih =>
    obtain ⟨h_each, h_delivered, h_incoming, h_reading⟩ :=
      (h_es e List.mem_cons_self).after h_turn.1
    -- the first event has changed nobody who reads
    have h_rest : ∀ e' ∈ es, (L.after e).Unread e' := by
      intro e' h_e'
      have h_unread := h_es e' (List.mem_cons_of_mem _ h_e')
      match e' with
      | .replied c _ => exact fun h_c => h_unread ((h_reading c).mp h_c)
      | .get _ | .received _ => exact h_unread.elim
      | .put _ _ | .release _ | .wrote _ _ | .waitBegun | .waitDone => trivial
    obtain ⟨h_all, h_delivered', h_incoming', h_reading'⟩ := ih h_rest h_turn.2
    exact ⟨⟨h_each, h_all⟩, h_delivered'.trans h_delivered, h_incoming'.trans h_incoming,
      fun c => (h_reading' c).trans (h_reading c)⟩

/-- **A history in which every byte is the next one**, and every call one that its client could
make. Then no byte is lost or given twice, and no call is answered twice. -/
theorem answered_of_each
    (h_each : AtEach (fun past e => (ledger past).CallsInTurn e ∧ (ledger past).AnswersNext e) h) :
    Answered h := ⟨h_each, delivered_of_each h_each, once_of_each h_each⟩

end

/-! ### Waiting between two writes -/

/-- How far somebody has waited since the last write. -/
inductive Pause
  | ready
  | written
  | begun
  deriving DecidableEq

def Pause.after : Pause → LineEvent C B → Pause
  | _, .wrote _ _ => .written
  | .written, .waitBegun => .begun
  | .begun, .waitDone => .ready
  | p, _ => p

def pause (h : List (LineEvent C B)) : Pause := h.foldl Pause.after .ready

theorem pause_snoc (h : List (LineEvent C B)) (e : LineEvent C B) :
    pause (h ++ [e]) = (pause h).after e :=
  List.foldl_append

/-- A write comes when the line is ready. -/
def Pause.Allows (p : Pause) : LineEvent C B → Prop
  | .wrote _ _ => p = .ready
  | _ => True

/-- All writes come when the line is ready. -/
def Pause.AllowsAll : Pause → List (LineEvent C B) → Prop
  | _, [] => True
  | p, e :: es => p.Allows e ∧ (p.after e).AllowsAll es

/-- All writes of a history come when the line is ready. -/
def Paced (h : List (LineEvent C B)) : Prop := AtEach (fun past e => (pause past).Allows e) h

theorem paced_append {h es : List (LineEvent C B)} (h_past : Paced h)
    (h_es : (pause h).AllowsAll es) :
    Paced (h ++ es) := by
  induction es generalizing h with
  | nil => rwa [List.append_nil]
  | cons e es ih =>
    rw [List.append_cons]
    refine ih (atEach_snoc.mpr ⟨h_past, h_es.1⟩) ?_
    rw [pause_snoc]
    exact h_es.2

/-- Between two writes somebody has begun to wait, and has waited. -/
def Spaced (h : List (LineEvent C B)) : Prop :=
  ∀ h₁ c b h₂ c' b' h₃, h = h₁ ++ .wrote c b :: (h₂ ++ .wrote c' b' :: h₃) →
    ∃ x y z, h₂ = x ++ .waitBegun :: (y ++ .waitDone :: z)

/-- What has happened when the line is ready again: behind the byte that was written the wait has
begun and then been done. Both parts are shown in one induction, since the second is what is left of
the first. -/
theorem waited_of_ready (l : List (LineEvent C B)) :
    (l.foldl Pause.after .written = .ready → ∃ x y z,
      l = x ++ .waitBegun :: (y ++ .waitDone :: z)) ∧
      (l.foldl Pause.after .begun = .ready → ∃ y z, l = y ++ .waitDone :: z) := by
  induction l with
  | nil => simp
  | cons e l ih =>
    -- one more event in front of those that were waited for
    have h_written : l.foldl Pause.after .written = .ready →
        ∃ x y z, e :: l = x ++ .waitBegun :: (y ++ .waitDone :: z) := by
      intro h
      obtain ⟨x, y, z, rfl⟩ := ih.1 h
      exact ⟨e :: x, y, z, rfl⟩
    have h_begun : l.foldl Pause.after .begun = .ready → ∃ y z, e :: l = y ++ .waitDone :: z := by
      intro h
      obtain ⟨y, z, rfl⟩ := ih.2 h
      exact ⟨e :: y, z, rfl⟩
    cases e with
    | wrote c b =>
      refine ⟨h_written, fun h => ?_⟩
      obtain ⟨x, y, z, h_eq⟩ := h_written h
      exact ⟨x ++ .waitBegun :: y, z, by rw [h_eq, List.append_assoc, List.cons_append]⟩
    | waitBegun =>
      refine ⟨fun h => ?_, h_begun⟩
      obtain ⟨y, z, rfl⟩ := ih.2 h
      exact ⟨[], y, z, rfl⟩
    | waitDone => exact ⟨h_written, fun _ => ⟨[], l, rfl⟩⟩
    | put c b => exact ⟨h_written, h_begun⟩
    | get c => exact ⟨h_written, h_begun⟩
    | release c => exact ⟨h_written, h_begun⟩
    | replied c v => exact ⟨h_written, h_begun⟩
    | received b => exact ⟨h_written, h_begun⟩

theorem spaced_of_paced {h : List (LineEvent C B)} (h_paced : Paced h) : Spaced h := by
  intro h₁ c b h₂ c' b' h₃ h_eq
  -- at the second write the line was ready
  have h_second : h = (h₁ ++ .wrote c b :: h₂) ++ .wrote c' b' :: h₃ := by
    rw [h_eq, List.append_assoc, List.cons_append]
  have h_ready : pause (h₁ ++ .wrote c b :: h₂) = .ready := h_paced _ _ _ h_second
  rw [pause, List.foldl_append, List.foldl_cons] at h_ready
  exact (waited_of_ready h₂).1 h_ready

end PollingExpress
