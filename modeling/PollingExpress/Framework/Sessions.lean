import PollingExpress.Framework.SharedLine

/-!
# Sessions on a shared line

Clients that have a program for the line: sessions, one after the other, each of which is some bytes
and then a release. `Follows` says how far a client has come, by the ledger: its tenures that are
over are its first sessions, the one that is in line is a front part of the next, and the rest is
still to do. Every event in order keeps this (`Follows.put`, `Follows.release`; `Follows.of_other`,
if it is another client's).

A client that has put all bytes of its session has the line (`Follows.owner`), since no session is
empty.
-/

namespace PollingExpress

variable {C B : Type*} [DecidableEq C]

/-- The bytes of the client's tenures. -/
def sessionsOf (c : C) (ts : List (Tenure C B)) : List (List B) :=
  (ts.filter fun t => t.client = c).map Tenure.bytes

/-- The session that has begun, with what is still to do of it, and the others. -/
def resume : List (List B) → List (List B) → List (List B)
  | begun :: _, rest :: todo => (begun ++ rest) :: todo
  | _, todo => todo

theorem resume_nil (begun : List (List B)) : resume begun [] = [] := by
  cases begun <;> rfl

/-- What the client has done of its program, and what it has still to do. The session that it is in
the middle of is in both parts, and `resume` puts them together; as long as it has the line or waits
for it there is something left to do. -/
structure Follows (L : Ledger C B) (program todo : List (List B)) (c : C) : Prop where
  sessions : sessionsOf c L.done ++ resume (sessionsOf c L.line) todo = program
  within : c ∈ L.clients → todo ≠ []

section
variable {L : Ledger C B} {program todo more : List (List B)} {rest : List B} {c d : C} {b : B}

theorem sessionsOf_append (c : C) (ts ts' : List (Tenure C B)) :
    sessionsOf c (ts ++ ts') = sessionsOf c ts ++ sessionsOf c ts' := by
  rw [sessionsOf, List.filter_append, List.map_append]
  rfl

theorem sessionsOf_cons_self {t : Tenure C B} (h : t.client = c) (ts : List (Tenure C B)) :
    sessionsOf c (t :: ts) = t.bytes :: sessionsOf c ts := by
  rw [sessionsOf, List.filter_cons_of_pos (by simpa using h)]
  rfl

theorem sessionsOf_cons_of_ne {t : Tenure C B} (h : t.client ≠ c) (ts : List (Tenure C B)) :
    sessionsOf c (t :: ts) = sessionsOf c ts := by
  rw [sessionsOf, List.filter_cons_of_neg (by simpa using h)]
  rfl

theorem sessionsOf_eq_nil {ts : List (Tenure C B)} (h : c ∉ ts.map Tenure.client) :
    sessionsOf c ts = [] := by
  induction ts with
  | nil => rfl
  | cons t ts ih =>
    rw [List.map_cons, List.mem_cons, not_or] at h
    rw [sessionsOf_cons_of_ne (Ne.symm h.1), ih h.2]

/-- A client in line has one tenure there. -/
theorem sessionsOf_eq_singleton {ts : List (Tenure C B)} (h_nodup : (ts.map Tenure.client).Nodup)
    (h : c ∈ ts.map Tenure.client) : ∃ begun, sessionsOf c ts = [begun] := by
  induction ts with
  | nil => cases h
  | cons t ts ih =>
    rw [List.map_cons] at h_nodup h
    obtain ⟨h_t, h_ts⟩ := List.nodup_cons.mp h_nodup
    by_cases h_c : t.client = c
    · rw [sessionsOf_cons_self h_c, sessionsOf_eq_nil (h_c ▸ h_t)]
      exact ⟨_, rfl⟩
    · rw [sessionsOf_cons_of_ne h_c]
      exact ih h_ts ((List.mem_cons.mp h).resolve_left (Ne.symm h_c))

theorem sessionsOf_grow (c d : C) (b : B) (ts : List (Tenure C B)) :
    sessionsOf d (ts.map fun t => if t.client = c then { t with bytes := t.bytes ++ [b] } else t) =
      (sessionsOf d ts).map fun bytes => if d = c then bytes ++ [b] else bytes := by
  induction ts with
  | nil => rfl
  | cons t ts ih =>
    rw [List.map_cons]
    by_cases h_d : t.client = d
    · rw [sessionsOf_cons_self h_d, sessionsOf_cons_self (by split <;> exact h_d), ih,
        List.map_cons, h_d]
      split <;> rfl
    · rw [sessionsOf_cons_of_ne h_d, sessionsOf_cons_of_ne (by split <;> exact h_d), ih]

/-- The byte goes into the session that has begun, or begins one. -/
theorem sessionsOf_addByte {line : List (Tenure C B)}
    (h_nodup : (line.map Tenure.client).Nodup) (b : B) :
    sessionsOf c (Ledger.addByte line c b) = [(sessionsOf c line).flatten ++ [b]] := by
  rw [Ledger.addByte]
  by_cases h : c ∈ line.map Tenure.client
  · obtain ⟨begun, h_begun⟩ := sessionsOf_eq_singleton h_nodup h
    rw [if_pos h, sessionsOf_grow, h_begun, List.map_singleton, if_pos rfl, List.flatten_singleton]
  · have h_new : sessionsOf c [(⟨c, [b]⟩ : Tenure C B)] = [[b]] := sessionsOf_cons_self rfl []
    rw [if_neg h, sessionsOf_append, sessionsOf_eq_nil h, h_new]
    rfl

theorem sessionsOf_addByte_of_ne (h_ne : d ≠ c) (line : List (Tenure C B)) (b : B) :
    sessionsOf d (Ledger.addByte line c b) = sessionsOf d line := by
  rw [Ledger.addByte]
  split
  · rw [sessionsOf_grow, List.map_congr_left fun bytes _ => if_neg h_ne, List.map_id']
  · rw [sessionsOf_append, sessionsOf_cons_of_ne h_ne.symm]
    exact List.append_nil _

/-! ### Events -/

/-- The client puts the next byte of its session. -/
theorem Follows.put (h : Follows L program ((b :: rest) :: more) c) (h_nodup : L.clients.Nodup) :
    Follows (L.after (.put c b)) program (rest :: more) c where
  sessions := by
    change sessionsOf c L.done ++ resume (sessionsOf c (Ledger.addByte L.line c b)) _ = program
    rw [sessionsOf_addByte h_nodup, ← h.sessions]
    by_cases h_c : c ∈ L.clients
    · obtain ⟨begun, h_begun⟩ := sessionsOf_eq_singleton h_nodup h_c
      rw [h_begun, resume, resume, List.flatten_singleton, List.append_assoc]
      rfl
    · rw [sessionsOf_eq_nil h_c]
      rfl
  within _ := List.cons_ne_nil _ _

/-- The client releases the line when its session is over. -/
theorem Follows.release (h : Follows L program ([] :: more) c) (h_nodup : L.clients.Nodup)
    (h_owner : L.owner = some c) : Follows (L.after (.release c)) program more c := by
  obtain ⟨done, line, stage, written, incoming, delivered⟩ := L
  cases line with
  | nil => cases h_owner
  | cons t line =>
    obtain rfl : t.client = c := Option.some.inj h_owner
    have h_line : t.client ∉ line.map Tenure.client := (List.nodup_cons.mp h_nodup).1
    constructor
    · rw [← h.sessions]
      change sessionsOf t.client (done ++ [t]) ++ resume (sessionsOf t.client line) more = _
      rw [sessionsOf_append, sessionsOf_cons_self rfl, sessionsOf_cons_self rfl,
        sessionsOf_eq_nil h_line, resume, List.append_nil, List.append_assoc]
      rfl
    · exact fun h_c => absurd h_c h_line

/-- What is not the client's own doing leaves it where it is. Another client may release the line,
but then the tenure that is over is not this one's. -/
theorem Follows.of_other {e : LineEvent C B} (h : Follows L program todo c) (h_turn : L.InTurn e)
    (h_e : ∀ b, e ≠ .put c b) (h_e' : e ≠ .release c) : Follows (L.after e) program todo c := by
  match e with
  | .get _ | .wrote _ _ | .replied _ _ | .received _ | .waitBegun | .waitDone =>
    exact ⟨h.sessions, h.within⟩
  | .put d b =>
    have h_ne : c ≠ d := by
      rintro rfl
      exact h_e b rfl
    constructor
    · rw [← h.sessions]
      change sessionsOf c L.done ++ resume (sessionsOf c (Ledger.addByte L.line d b)) _ = _
      rw [sessionsOf_addByte_of_ne h_ne]
    · intro h_c
      refine h.within ?_
      rw [Ledger.clients_put] at h_c
      split at h_c
      · exact h_c
      · exact (List.mem_append.mp h_c).resolve_right fun h_d => h_ne (List.mem_singleton.mp h_d)
  | .release d =>
    obtain ⟨done, line, stage, written, incoming, delivered⟩ := L
    cases line with
    | nil => cases h_turn.2
    | cons t line =>
      -- the tenure that is over is the other client's
      have h_t : t.client ≠ c := by
        rintro rfl
        exact h_e' (congrArg LineEvent.release (Option.some.inj h_turn.2).symm)
      constructor
      · rw [← h.sessions]
        change sessionsOf c (done ++ [t]) ++ resume (sessionsOf c line) todo =
          sessionsOf c done ++ resume (sessionsOf c (t :: line)) todo
        rw [sessionsOf_append, sessionsOf_cons_of_ne h_t, sessionsOf_cons_of_ne h_t]
        exact congrArg (· ++ _) (List.append_nil _)
      · exact fun h_c => h.within (List.mem_cons_of_mem _ h_c)

theorem Follows.of_others {es : List (LineEvent C B)} (h : Follows L program todo c)
    (h_turn : L.AllInTurn es) (h_es : ∀ e ∈ es, (∀ b, e ≠ .put c b) ∧ e ≠ .release c) :
    Follows (es.foldl Ledger.after L) program todo c := by
  induction es generalizing L with
  | nil => exact h
  | cons e es ih =>
    obtain ⟨h_put, h_release⟩ := h_es e List.mem_cons_self
    exact ih (h.of_other h_turn.1 h_put h_release) h_turn.2 fun e' h_e' =>
      h_es e' (List.mem_cons_of_mem _ h_e')

/-- The events at the end of a history in order. -/
theorem allInTurn_of_inTurns {past es : List (LineEvent C B)} (h : InTurns (past ++ es)) :
    (ledger past).AllInTurn es := by
  induction es generalizing past with
  | nil => trivial
  | cons e es ih =>
    refine ⟨h past e es rfl, ?_⟩
    rw [← ledger_snoc]
    exact ih (by rwa [List.append_assoc])

/-- A client that has put all bytes of its session has the line. -/
theorem Follows.owner (h : Follows L program ([] :: more) c) (h_valid : L.Valid)
    (h_program : [] ∉ program) (h_idle : L.stage c = .idle) : L.owner = some c := by
  refine h_valid.owner_of_mem ?_ fun b h_asked => by cases h_idle.symm.trans h_asked
  by_contra h_c
  refine h_program ?_
  rw [← h.sessions, sessionsOf_eq_nil h_c]
  exact List.mem_append_right _ List.mem_cons_self

end

/-! ### What has been written -/

/-- What has been written, and the byte that is being written, are whole sessions, but for the last
one. The tenures of the line come in the order in which they are over, so the sessions of different
clients are one behind the other, and never inside one another. -/
structure InSessions (L : Ledger C B) (program : C → List (List B)) : Prop where
  blocks : L.written ++ L.unwritten = (L.done ++ L.line.take 1).flatMap Tenure.tagged
  /-- The tenures of a client that are over are its first sessions. -/
  done : ∀ c, sessionsOf c L.done <+: program c
  /-- The one in line is a front part of the next. -/
  begun : ∀ t ∈ L.line, ∃ session, (program t.client)[(sessionsOf t.client L.done).length]? =
    some session ∧
    t.bytes <+: session

/-- If every client follows its program, what has been written is made of whole sessions and the
begin of one. A client with a tenure in line has part of its next session in it. -/
theorem inSessions {L : Ledger C B} {program todo : C → List (List B)} (h_valid : L.Valid)
    (h : ∀ c, Follows L (program c) (todo c) c) : InSessions L program where
  blocks := h_valid.blocks
  done c := (h c).sessions ▸ List.prefix_append _ _
  begun t h_t := by
    have h_c : t.client ∈ L.line.map Tenure.client := List.mem_map_of_mem h_t
    -- a client has one tenure in the line, which has what it has written of its session
    obtain ⟨begun, h_begun⟩ := sessionsOf_eq_singleton h_valid.nodup h_c
    have h_bytes : t.bytes ∈ sessionsOf t.client L.line :=
      List.mem_map_of_mem (List.mem_filter.mpr ⟨h_t, decide_eq_true rfl⟩)
    rw [h_begun, List.mem_singleton] at h_bytes
    have h_sessions := (h t.client).sessions
    -- the session goes on, since a client with nothing left to do is not in the line
    cases h_todo : todo t.client with
    | nil => exact absurd h_todo ((h t.client).within h_c)
    | cons rest more =>
      rw [h_todo, h_begun, resume] at h_sessions
      refine ⟨begun ++ rest, ?_, h_bytes ▸ List.prefix_append _ _⟩
      rw [← h_sessions, List.getElem?_append_right (Nat.le_refl _), Nat.sub_self]
      rfl

end PollingExpress
