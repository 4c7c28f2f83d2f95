import Mathlib.Data.Int.Cast.Basic
import Mathlib.Data.List.Perm.Subperm
import Mathlib.Data.List.TakeWhile
import PollingExpress.Clock.Lists
import PollingExpress.Framework.History

/-!
# When the clock server answers

`Served` says how one message is answered: at once, or, if it has to wait for a deadline `D`,
not before the tick that makes the ticks `D`, and then with `D`. It looks at the log only.
`Accounts` relates the log to the delays the server holds: a message without an answer is
the one delay that is for it. One message keeps this whether it is answered at once
(`Accounts.answered`), has to wait (`Accounts.queued`) or is a tick (`Accounts.ticked`).

`exact_clock` is about every run in which a deadline is an `int` and at most 50 tasks wait.
-/

namespace PollingExpress
namespace Clock

/-! ### What the messages ask for -/

/-- The deadline a message asks for, as a number without bound. -/
def deadline (ticks : Int) (req : ClockserverRequest) : Option Int :=
  match req.type with
  | .delay => if req.data < 0 then none else some (ticks + req.data)
  | .delayUntil => some req.data
  | _ => none

/-- The deadline that is not yet reached. -/
def waitsFor (ticks : Int) (req : ClockserverRequest) : Option Int :=
  (deadline ticks req).filter fun D => ticks < D

/-- The answer to a message that does not wait. -/
def immediate (ticks : Int) (req : ClockserverRequest) : Option Int :=
  match req.type with
  | .tick => none
  | .delay => some (if req.data < 0 then -2 else ticks)
  | _ => some ticks

def Round.waitsFor (r : Round) : Option Int := Clock.waitsFor r.ticks r.message.req

def Round.immediate (r : Round) : Option Int := Clock.immediate r.ticks r.message.req

def Round.isTick (r : Round) : Bool := decide (r.message.req.type = .tick)

/-- The answers to message `i`, each with the round it is given in. -/
def answersTo (log : List Round) (i : ℕ) : List (ℕ × Answer) :=
  log.zipIdx.flatMap fun x => (x.1.replies.filter fun a => a.request = i).map fun a => (x.2, a)

/-- The ticks from message `i` on. -/
def ticksSince (log : List Round) (i : ℕ) : ℕ := (log.drop i).countP Round.isTick

/-- The ticks, as an `int` counts them. -/
def counted (log : List Round) : Int := int32 (log.countP Round.isTick)

/-- The messages without an answer. -/
def outstanding (log : List Round) : ℕ := (List.range log.length).countP fun i =>
  answersTo log i = []

/-- Message `i`, which had to wait for `D`, is answered in the tick that made the ticks `D`. -/
def AnsweredAt (log : List Round) (i client : ℕ) (D : Int) : Prop :=
  ∃ j r, i < j ∧ log[j]? = some r ∧ r.isTick ∧ r.ticks + 1 = D ∧
    answersTo log i = [(j, ⟨i, client, some D⟩)]

/-- How message `i` is answered, up to now. -/
def Served (log : List Round) (i : ℕ) (r : Round) : Prop :=
  match r.waitsFor with
  | none => answersTo log i = [(i, ⟨i, r.message.client, r.immediate⟩)]
  | some D =>
    if r.ticks + ticksSince log i < D then answersTo log i = []
    else AnsweredAt log i r.message.client D

/-- Deadlines are `int`s, and at most 50 tasks wait.

The deadline of a message is that of its `DELAY` or `DELAYUNTIL`, without the wrap of 32 bits; a
message that does not wait has none. A deadline that has passed takes no node, so it does not
count. -/
def Admitted (s : ClockServer) (m : ClockMessage) : Prop :=
  ∀ D ∈ deadline s.ticks m.req, D ≤ intMax ∧ (s.ticks < D → outstanding s.log < maxDelays)

instance (s : ClockServer) (m : ClockMessage) : Decidable (Admitted s m) :=
  inferInstanceAs (Decidable (∀ D ∈ deadline s.ticks m.req, _))

/-- The server is exact up to now: `ms` are the messages it got.

The nodes are shared by the two lists, the pending ones in the order of their deadlines and all of
them later than now; the time is the number of `TICK`s; each message has been answered as `Served`
says, and there is no answer to anything else. -/
structure ExactClock (s : ClockServer) (ms : List ClockMessage) : Prop where
  lists : ∃ pending unused, Lists s pending unused ∧
    pending.Pairwise (fun i j => s.time i ≤ s.time j) ∧ ∀ i ∈ pending, s.ticks < s.time i
  messages : s.log.map Round.message = ms
  ticks : s.ticks = counted s.log
  rounds : AtEach (fun past r => r.ticks = counted past) s.log
  served : ∀ i r, s.log[i]? = some r → Served s.log i r
  nobody_else : ∀ i, s.log.length ≤ i → answersTo s.log i = []

/-! ### The log, one round later -/

section
variable {log : List Round} {r : Round} {i : ℕ}

theorem answersTo_snoc (log : List Round) (r : Round) (i : ℕ) : answersTo (log ++ [r]) i =
    answersTo log i ++ (r.replies.filter fun a => a.request = i).map fun a => (log.length, a) := by
  simp [answersTo, List.zipIdx_append]

theorem answersTo_snoc_of_quiet (h : ∀ a ∈ r.replies, a.request ≠ i) :
    answersTo (log ++ [r]) i = answersTo log i := by
  have h_none : r.replies.filter (fun a => a.request = i) = [] :=
    List.filter_eq_nil_iff.mpr fun a h_a => by simpa using h a h_a
  rw [answersTo_snoc, h_none, List.map_nil, List.append_nil]

theorem ticksSince_snoc (h : i ≤ log.length) :
    ticksSince (log ++ [r]) i = ticksSince log i + if r.isTick then 1 else 0 := by
  rw [ticksSince, List.drop_append_of_le_length h, List.countP_append, List.countP_singleton]
  rfl

theorem counted_snoc (log : List Round) (r : Round) :
    counted (log ++ [r]) = if r.isTick then int32 (counted log + 1) else counted log := by
  rw [counted, List.countP_append, List.countP_singleton]
  split
  · rw [counted, int32, int32, int32, Int.bmod_add_bmod, Int.natCast_add, Int.natCast_one]
  · rfl

theorem int32_of_range {x : Int} (h_min : -2 ^ 31 ≤ x) (h_max : x ≤ intMax) : int32 x = x := by
  rw [intMax] at h_max
  refine Int.bmod_eq_of_le ?_ ?_ <;> omega

theorem int32_min (x : Int) : -2 ^ 31 ≤ int32 x := by
  have h_le := Int.le_bmod (x := x) (m := 2 ^ 32) (by decide)
  rw [int32]
  omega

theorem forall_getElem?_snoc {P : ℕ → Round → Prop} (h : ∀ i r', log[i]? = some r' → P i r')
    (h_last : P log.length r) : ∀ i r', (log ++ [r])[i]? = some r' → P i r' := by
  intro i r' h_i
  rcases Nat.lt_or_ge i log.length with h_lt | h_ge
  · exact h i r' (by rwa [List.getElem?_append_left h_lt] at h_i)
  · obtain ⟨h_i, h_r⟩ := List.getElem?_eq_some_iff.mp h_i
    obtain rfl : i = log.length := by
      rw [List.length_append, List.length_singleton] at h_i
      omega
    rwa [← h_r, List.getElem_concat_length rfl]

theorem lt_of_getElem? (h : log[i]? = some r) : i < log.length :=
  (List.getElem?_eq_some_iff.mp h).1

theorem getElem?_snoc {r' : Round} (h : log[i]? = some r) : (log ++ [r'])[i]? = some r := by
  rwa [List.getElem?_append_left (lt_of_getElem? h)]

end

/-! ### Messages and delays -/

/-- A message that has been answered. -/
def Settled (log : List Round) (i : ℕ) (r : Round) : Prop :=
  match r.waitsFor with
  | none => answersTo log i = [(i, ⟨i, r.message.client, r.immediate⟩)]
  | some D => D ≤ r.ticks + ticksSince log i ∧ AnsweredAt log i r.message.client D

/-- The delay is for a message that has not been answered: the message of the round `d.request` of
the log, from the client and until the time that the node says. The server's ticks have gone on
since by the ticks that have come. -/
structure Waiting (log : List Round) (ticks : Int) (d : Delay) (r : Round) : Prop where
  message : log[d.request]? = some r
  time : r.waitsFor = some d.time
  client : d.client = r.message.client
  unanswered : answersTo log d.request = []
  ticks : ticks = r.ticks + ticksSince log d.request

/-- The delays `w` are those the log calls for: each is for a message that still waits (`Waiting`),
and every other message has been answered as it should be (`Settled`). That all of them lie ahead of
the ticks, and in order, is what the loop of `wake` relies on when it stops at the first one that is
not due; `rounds` says at which ticks each message came. -/
structure Accounts (log : List Round) (ticks : Int) (w : List Delay) : Prop where
  sorted : w.Pairwise Delay.Le
  later : ∀ d ∈ w, ticks < d.time ∧ d.time ≤ intMax
  requests : (w.map Delay.request).Nodup
  waiting : ∀ d ∈ w, ∃ r, Waiting log ticks d r
  settled : ∀ i r, log[i]? = some r → i ∉ w.map Delay.request → Settled log i r
  nobody_else : ∀ i, log.length ≤ i → answersTo log i = []
  ticks : ticks = counted log
  rounds : AtEach (fun past r => r.ticks = counted past) log

section
variable {log : List Round} {ticks : Int} {w : List Delay} {m : ClockMessage} {r r' : Round} {i : ℕ}
  {d : Delay}

/-- What is answered stays answered, once. -/
theorem Settled.snoc (h : Settled log i r) (h_i : log[i]? = some r)
    (h_quiet : ∀ a ∈ r'.replies, a.request ≠ i) : Settled (log ++ [r']) i r := by
  unfold Settled at h ⊢
  split at h
  · rw [answersTo_snoc_of_quiet h_quiet, h]
  · next D h_some =>
    obtain ⟨h_time, j, r_j, h_lt, h_j, h_tick, h_D, h_answers⟩ := h
    refine ⟨?_, j, r_j, h_lt, getElem?_snoc h_j, h_tick, h_D, ?_⟩
    · rw [ticksSince_snoc (lt_of_getElem? h_i).le]
      omega
    · rw [answersTo_snoc_of_quiet h_quiet, h_answers]

theorem Waiting.snoc (h : Waiting log ticks d r) (r' : Round)
    (h_quiet : ∀ a ∈ r'.replies, a.request ≠ d.request) :
    Waiting (log ++ [r']) (ticks + if r'.isTick then 1 else 0) d r where
  message := getElem?_snoc h.message
  time := h.time
  client := h.client
  unanswered := (answersTo_snoc_of_quiet h_quiet).trans h.unanswered
  ticks := by
    rw [ticksSince_snoc (lt_of_getElem? h.message).le, h.ticks]
    split <;> push_cast <;> omega

theorem Settled.served (h : Settled log i r) : Served log i r := by
  unfold Settled at h
  unfold Served
  split at h
  · exact h
  · rw [if_neg (not_lt.mpr h.1)]
    exact h.2

theorem Waiting.served (h : Waiting log ticks d r) (h_later : ticks < d.time) :
    Served log d.request r := by
  unfold Served
  rw [h.time]
  dsimp only
  rw [← h.ticks, if_pos h_later]
  exact h.unanswered

/-- The answer to a delay among those that are answered with it. -/
theorem filter_answers (h : (w.map Delay.request).Nodup) (h_d : d ∈ w) :
    (w.map (Delay.answer ticks)).filter (fun a => a.request = d.request) = [d.answer ticks] := by
  induction w with
  | nil => cases h_d
  | cons e w ih =>
    obtain ⟨h_e, h⟩ := List.nodup_cons.mp h
    rcases List.mem_cons.mp h_d with rfl | h_d
    · rw [List.map_cons, List.filter_cons_of_pos (by simp), List.cons_inj_right]
      refine List.filter_eq_nil_iff.mpr fun a h_a => ?_
      obtain ⟨b, h_b, rfl⟩ := List.mem_map.mp h_a
      exact fun h_eq => h_e (List.mem_map.mpr ⟨b, h_b, of_decide_eq_true h_eq⟩)
    · have h_ne : e.request ≠ d.request := fun h_eq => h_e (h_eq ▸ List.mem_map_of_mem h_d)
      rw [List.map_cons, List.filter_cons_of_neg (by simp [h_ne])]
      exact ih h h_d

/-- The tick that answers a delay. -/
theorem Waiting.settled (h : Waiting log ticks d r) (h_time : d.time = ticks + 1)
    (h_tick : r'.isTick = true) (h_ticks : r'.ticks = ticks)
    (h_answer : r'.replies.filter (fun a => a.request = d.request) = [d.answer d.time]) :
    Settled (log ++ [r']) d.request r := by
  unfold Settled
  rw [h.time]
  refine ⟨?_, log.length, r', lt_of_getElem? h.message, List.getElem?_concat_length, h_tick, ?_, ?_⟩
  · rw [ticksSince_snoc (lt_of_getElem? h.message).le, h_tick, if_pos rfl, h_time, h.ticks]
    omega
  · rw [h_ticks, h_time]
  · rw [answersTo_snoc, h.unanswered, h_answer, ← h.client]
    rfl

/-- The delays left in a sorted list are not due. -/
theorem not_due_of_mem_dropWhile (h : w.Pairwise Delay.Le)
    (h_d : d ∈ w.dropWhile (Delay.due ticks)) :
    ¬Delay.due ticks d := by
  induction w with
  | nil => cases h_d
  | cons e w ih =>
    obtain ⟨h_e, h⟩ := List.pairwise_cons.mp h
    by_cases h_due : Delay.due ticks e
    · rw [List.dropWhile_cons_of_pos h_due] at h_d
      exact ih h h_d
    · rw [List.dropWhile_cons_of_neg h_due] at h_d
      rcases List.mem_cons.mp h_d with rfl | h_d
      · exact h_due
      · have h_le : e.time ≤ d.time := h_e d h_d
        exact fun h_d_due => h_due (decide_eq_true (h_le.trans (of_decide_eq_true h_d_due)))

namespace Accounts

theorem request_lt (h : Accounts log ticks w) (h_d : d ∈ w) : d.request < log.length := by
  obtain ⟨r, h_r⟩ := h.waiting d h_d
  exact lt_of_getElem? h_r.message

theorem request_mem_lt (h : Accounts log ticks w) (h_i : i ∈ w.map Delay.request) :
    i < log.length := by
  obtain ⟨d, h_d, rfl⟩ := List.mem_map.mp h_i
  exact h.request_lt h_d

/-- Every delay is for a message without an answer. -/
theorem length_le (h : Accounts log ticks w) : w.length ≤ outstanding log := by
  have h_sub : w.map Delay.request ⊆ (List.range log.length).filter fun i =>
      answersTo log i = [] := by
    intro i h_i
    obtain ⟨d, h_d, rfl⟩ := List.mem_map.mp h_i
    obtain ⟨r, h_r⟩ := h.waiting d h_d
    exact List.mem_filter.mpr ⟨List.mem_range.mpr (h.request_lt h_d), decide_eq_true h_r.unanswered⟩
  have h_le := (h.requests.subperm h_sub).length_le
  rwa [List.length_map, ← List.countP_eq_length_filter] at h_le

/-- A message that is answered at once. The delays stay as they are, for the only answer of the
round is that to the message; and this is the answer that the message asks for. -/
theorem answered (h : Accounts log ticks w) (h_now : waitsFor ticks m.req = none)
    (h_type : m.req.type ≠ .tick) :
    Accounts (log ++ [⟨m, ticks, [⟨log.length, m.client, immediate ticks m.req⟩]⟩]) ticks w := by
  have h_tick : Round.isTick ⟨m, ticks, [⟨log.length, m.client, immediate ticks m.req⟩]⟩ = false :=
    decide_eq_false h_type
  have h_quiet : ∀ i, i ≠ log.length →
      ∀ a ∈ [(⟨log.length, m.client, immediate ticks m.req⟩ : Answer)], a.request ≠ i := by
    intro i h_i a h_a
    rw [List.mem_singleton.mp h_a]
    exact h_i.symm
  refine ⟨h.sorted, h.later, h.requests, ?_, ?_, ?_, ?_, atEach_snoc.mpr ⟨h.rounds, h.ticks⟩⟩
  · -- those that wait are not answered
    intro d h_d
    obtain ⟨r, h_r⟩ := h.waiting d h_d
    have h_snoc := h_r.snoc ⟨m, ticks, [⟨log.length, m.client, immediate ticks m.req⟩]⟩
      (h_quiet _ (h.request_lt h_d).ne)
    rw [h_tick] at h_snoc
    exact ⟨r, by simpa using h_snoc⟩
  · refine forall_getElem?_snoc ?_ ?_
    · intro i r' h_i h_not
      exact (h.settled i r' h_i h_not).snoc h_i (h_quiet i (lt_of_getElem? h_i).ne)
    · -- the message has its one answer
      intro _
      have h_none : Round.waitsFor ⟨m, ticks, [⟨log.length, m.client, immediate ticks m.req⟩]⟩ =
          none :=
        h_now
      unfold Settled
      rw [h_none]
      simp [answersTo_snoc, h.nobody_else log.length le_rfl, Round.immediate]
  · intro i h_i
    rw [List.length_append, List.length_singleton] at h_i
    rw [answersTo_snoc_of_quiet (h_quiet i (by omega)), h.nobody_else i (by omega)]
  · rw [counted_snoc, h_tick, if_neg Bool.false_ne_true]
    exact h.ticks

/-- A message that has to wait. It goes on the list in front of the first deadline that is not
before its own, and nobody is answered in the round. -/
theorem queued (h : Accounts log ticks w) {D : Int} (h_wait : waitsFor ticks m.req = some D)
    (h_max : D ≤ intMax) : Accounts (log ++ [⟨m, ticks, []⟩]) ticks
      (w.orderedInsert Delay.Le ⟨m.client, D, log.length⟩) := by
  have h_perm := List.perm_orderedInsert Delay.Le ⟨m.client, D, log.length⟩ w
  obtain ⟨h_deadline, h_later⟩ := Option.filter_eq_some_iff.mp h_wait
  -- a request is no tick, so no time passes, and nobody is answered
  have h_tick : Round.isTick ⟨m, ticks, []⟩ = false := by
    refine decide_eq_false ?_
    intro h_type
    rw [deadline, show m.req.type = .tick from h_type] at h_deadline
    cases h_deadline
  have h_quiet : ∀ i, ∀ a ∈ ([] : List Answer), a.request ≠ i := by simp
  have h_answers : ∀ i, answersTo (log ++ [⟨m, ticks, []⟩]) i = answersTo log i :=
    fun i => answersTo_snoc_of_quiet (h_quiet i)
  refine ⟨h.sorted.orderedInsert _ _, ?_, ?_, ?_, ?_, ?_, ?_, atEach_snoc.mpr ⟨h.rounds, h.ticks⟩⟩
  · intro d h_d
    rcases (List.mem_orderedInsert _).mp h_d with rfl | h_d
    · exact ⟨of_decide_eq_true h_later, h_max⟩
    · exact h.later d h_d
  · rw [(h_perm.map _).nodup_iff, List.map_cons, List.nodup_cons]
    exact ⟨fun h_mem => (h.request_mem_lt h_mem).false, h.requests⟩
  · -- one more waits, which has no answer and has seen no tick yet
    intro d h_d
    rcases (List.mem_orderedInsert _).mp h_d with rfl | h_d
    · refine ⟨⟨m, ticks, []⟩, List.getElem?_concat_length, h_wait, rfl, ?_, ?_⟩
      · exact (h_answers _).trans (h.nobody_else _ le_rfl)
      · simp [ticksSince, h_tick]
    · obtain ⟨r, h_r⟩ := h.waiting d h_d
      have h_snoc := h_r.snoc ⟨m, ticks, []⟩ (h_quiet _)
      rw [h_tick] at h_snoc
      exact ⟨r, by simpa using h_snoc⟩
  · -- the settled ones stay settled, and the new one is not settled
    refine forall_getElem?_snoc ?_ ?_
    · intro i r' h_i h_not
      refine (h.settled i r' h_i ?_).snoc h_i (h_quiet i)
      exact fun h_mem => h_not ((h_perm.map _).mem_iff.mpr (List.mem_cons_of_mem _ h_mem))
    · intro h_not
      exact absurd ((h_perm.map _).mem_iff.mpr List.mem_cons_self) h_not
  · intro i h_i
    rw [List.length_append, List.length_singleton] at h_i
    rw [h_answers, h.nobody_else i (by omega)]
  · rw [counted_snoc, h_tick, if_neg Bool.false_ne_true]
    exact h.ticks

/-- While a task waits, the ticks do not wrap around. -/
theorem ticks_succ (h : Accounts log ticks w) (h_d : d ∈ w) : int32 (ticks + 1) = ticks + 1 := by
  obtain ⟨h_later, h_max⟩ := h.later d h_d
  have h_min : -2 ^ 31 ≤ ticks := h.ticks ▸ int32_min _
  exact int32_of_range (by omega) (by omega)

theorem time_eq_of_due (h : Accounts log ticks w) (h_d : d ∈ w)
    (h_due : Delay.due (int32 (ticks + 1)) d) : d.time = ticks + 1 := by
  have h_later := (h.later d h_d).1
  rw [h.ticks_succ h_d] at h_due
  have h_time : d.time ≤ ticks + 1 := of_decide_eq_true h_due
  omega

/-- The one answer of a tick to a delay that is due: the delay is settled. -/
theorem settled_of_due (h : Accounts log ticks w) {r : Round} {expired : List Delay}
    (h_tick : r.isTick = true) (h_ticks : r.ticks = ticks)
    (h_replies : r.replies = ⟨log.length, m.client, none⟩ ::
      expired.map (Delay.answer (int32 (ticks + 1)))) (h_nodup : (expired.map Delay.request).Nodup)
    (h_d : d ∈ expired) (h_w : d ∈ w) (h_due : Delay.due (int32 (ticks + 1)) d) {r' : Round}
    (h_r' : log[d.request]? = some r') : Settled (log ++ [r]) d.request r' := by
  obtain ⟨r₀, h_r⟩ := h.waiting d h_w
  obtain rfl : r₀ = r' := Option.some.inj (h_r.message.symm.trans h_r')
  have h_time := h.time_eq_of_due h_w h_due
  refine h_r.settled h_time h_tick h_ticks ?_
  rw [h_time, ← h.ticks_succ h_w, h_replies,
    List.filter_cons_of_neg (by simpa using (h.request_lt h_w).ne')]
  exact filter_answers h_nodup h_d

/-- The tick itself is answered at once, as the first of the round. The answers behind it go to
messages that came before. -/
theorem settled_tick (h : Accounts log ticks w) {r : Round} {expired : List Delay}
    (h_type : r.message.req.type = .tick) (h_client : r.message.client = m.client)
    (h_replies : r.replies = ⟨log.length, m.client, none⟩ ::
      expired.map (Delay.answer (int32 (ticks + 1)))) (h_sub : ∀ d ∈ expired, d ∈ w) :
    Settled (log ++ [r]) log.length r := by
  -- a tick waits for nothing and asks for no value
  have h_none : r.waitsFor = none := by
    rw [Round.waitsFor, waitsFor, deadline, h_type]
    rfl
  have h_value : r.immediate = none := by
    rw [Round.immediate, immediate, h_type]
  -- the other answers of the round go to the clients that were delayed, whose requests are older
  have h_others : (expired.map (Delay.answer (int32 (ticks + 1)))).filter
      (fun a => a.request = log.length) = [] := by
    refine List.filter_eq_nil_iff.mpr fun a h_a => ?_
    obtain ⟨d, h_d, rfl⟩ := List.mem_map.mp h_a
    simp [(h.request_lt (h_sub d h_d)).ne]
  unfold Settled
  rw [h_none]
  dsimp only
  -- no earlier round has answered this request
  rw [answersTo_snoc, h.nobody_else _ le_rfl, h_value, h_replies,
    List.filter_cons_of_pos (by simp), h_others]
  rw [h_client]
  rfl

/-- A tick: the delays that are due are answered and taken off. The list is split where the first
deadline lies ahead, so that each delay is on one side: those of the front part are settled from now
on, and those of the rest have seen one tick more. -/
theorem ticked (h : Accounts log ticks w) (h_type : m.req.type = .tick) :
    Accounts (log ++ [⟨m, ticks, ⟨log.length, m.client, none⟩ ::
        (w.takeWhile (Delay.due (int32 (ticks + 1)))).map (Delay.answer (int32 (ticks + 1)))⟩])
      (int32 (ticks + 1)) (w.dropWhile (Delay.due (int32 (ticks + 1)))) := by
  -- the delays that are due come first, since the list is in order
  obtain ⟨expired, rest, h_expired, h_rest⟩ : ∃ expired rest,
      w.takeWhile (Delay.due (int32 (ticks + 1))) = expired ∧
      w.dropWhile (Delay.due (int32 (ticks + 1))) = rest := ⟨_, _, rfl, rfl⟩
  rw [h_expired, h_rest]
  let r : Round :=
    ⟨m, ticks, ⟨log.length, m.client, none⟩ :: expired.map (Delay.answer (int32 (ticks + 1)))⟩
  change Accounts (log ++ [r]) _ _
  have h_w : expired ++ rest = w := h_expired ▸ h_rest ▸ List.takeWhile_append_dropWhile
  have h_sub : ∀ d ∈ rest, d ∈ w := fun d h_d => h_w ▸ List.mem_append_right _ h_d
  have h_due : ∀ d ∈ expired, d ∈ w ∧ Delay.due (int32 (ticks + 1)) d := by
    intro d h_d
    rw [← h_expired] at h_d
    exact ⟨List.takeWhile_subset _ h_d, List.mem_takeWhile_imp h_d⟩
  have h_tick : r.isTick = true := decide_eq_true h_type
  -- a request is heard of in this round if it is the tick or one that is due
  have h_quiet : ∀ i, i ≠ log.length → i ∉ expired.map Delay.request →
      ∀ a ∈ r.replies, a.request ≠ i := by
    intro i h_i h_not a h_a
    rcases List.mem_cons.mp h_a with rfl | h_a
    · exact h_i.symm
    · obtain ⟨d, h_d, rfl⟩ := List.mem_map.mp h_a
      exact fun h_eq => h_not (List.mem_map.mpr ⟨d, h_d, h_eq⟩)
  have h_nodup := h.requests
  rw [← h_w, List.map_append, List.nodup_append] at h_nodup
  obtain ⟨h_nodup, h_nodup_rest, h_disj⟩ := h_nodup
  refine ⟨?_, ?_, h_nodup_rest, ?_, ?_, ?_, ?_, atEach_snoc.mpr ⟨h.rounds, h.ticks⟩⟩
  · exact h.sorted.sublist (h_rest ▸ List.dropWhile_sublist _)
  · -- what is left is later than the time
    intro d h_d
    refine ⟨?_, (h.later d (h_sub d h_d)).2⟩
    have h_not : ¬Delay.due (int32 (ticks + 1)) d :=
      not_due_of_mem_dropWhile h.sorted (h_rest ▸ h_d)
    exact not_le.mp fun h_le => h_not (decide_eq_true h_le)
  · -- what is left still waits, with one tick more behind it
    intro d h_d
    obtain ⟨r', h_r⟩ := h.waiting d (h_sub d h_d)
    have h_snoc := h_r.snoc r (h_quiet d.request (h.request_lt (h_sub d h_d)).ne
      fun h_mem => h_disj _ h_mem _ (List.mem_map_of_mem h_d) rfl)
    rw [h_tick, if_pos rfl, ← h.ticks_succ (h_sub d h_d)] at h_snoc
    exact ⟨r', h_snoc⟩
  · -- what is not waited for any more: an old request, one that is due, and the tick itself
    refine forall_getElem?_snoc ?_ fun _ => ?_
    · intro i r' h_i h_not
      by_cases h_mem : i ∈ expired.map Delay.request
      · obtain ⟨d, h_d, rfl⟩ := List.mem_map.mp h_mem
        exact h.settled_of_due h_tick rfl rfl h_nodup h_d (h_due d h_d).1 (h_due d h_d).2 h_i
      · refine (h.settled i r' h_i ?_).snoc h_i (h_quiet i (lt_of_getElem? h_i).ne h_mem)
        rw [← h_w, List.map_append, List.mem_append]
        exact not_or.mpr ⟨h_mem, h_not⟩
    · exact h.settled_tick h_type rfl rfl fun d h_d => (h_due d h_d).1
  · -- no answer goes to a request that has not come
    intro i h_i
    rw [List.length_append, List.length_singleton] at h_i
    rw [answersTo_snoc_of_quiet (h_quiet i (by omega) ?_), h.nobody_else i (by omega)]
    intro h_mem
    obtain ⟨d, h_d, rfl⟩ := List.mem_map.mp h_mem
    have h_lt := h.request_lt (h_due d h_d).1
    omega
  · rw [counted_snoc, h_tick, if_pos rfl, ← h.ticks]

end Accounts
end

/-! ### The server -/

/-- The server holds the delays the log calls for. This is the invariant of the runs; it is about
the server between two messages, so no reply is on its way. -/
structure Keeps (s : ClockServer) (w : List Delay) : Prop where
  lists : Represents s w
  accounts : Accounts s.log s.ticks w
  replies : s.replies = []

section
variable {s s' : ClockServer} {w : List Delay} {m : ClockMessage}

theorem Represents.congr (h : Represents s w) (h_backing : s'.backing = s.backing)
    (h_head : s'.head = s.head) (h_free : s'.free = s.free) : Represents s' w := by
  obtain ⟨pending, unused, h, rfl⟩ := h
  have h_next : s'.next = s.next := by
    unfold ClockServer.next
    rw [h_backing]
  have h_delay : s'.delay = s.delay := by
    unfold ClockServer.delay
    rw [h_backing]
  refine ⟨pending, unused, ⟨?_, ?_, h.perm⟩, by rw [h_delay]⟩
  · rw [h_next, h_head]
    exact h.head
  · rw [h_next, h_free]
    exact h.free

theorem keeps_start : Keeps .start [] where
  lists := represents_start
  accounts :=
    { sorted := .nil
      later := by simp
      requests := .nil
      waiting := by simp
      settled := by simp [ClockServer.start]
      nobody_else := by simp [ClockServer.start, answersTo]
      ticks := by decide
      rounds := atEach_nil }
  replies := rfl

/-- What the message does is what it has to do, and the round is logged. -/
theorem Keeps.round {s₁ : ClockServer} (h_ok : s.handle m.client m.req = .ok s₁)
    (h_lists : Represents s₁ w)
    (h_accounts : Accounts (s.log ++ [⟨m, s.ticks, s₁.replies⟩]) s₁.ticks w) :
    ∃ s' w', s.clockserver m = .ok s' ∧ Keeps s' w' :=
  ⟨_, w, bind_of_ok h_ok, h_lists.congr rfl rfl rfl, h_accounts, rfl⟩

/-- A message that is answered at once. -/
theorem Keeps.answer (h : Keeps s w) (h_now : waitsFor s.ticks m.req = none)
    (h_type : m.req.type ≠ .tick)
    (h_ok : s.handle m.client m.req = .ok (s.answer m.client (immediate s.ticks m.req))) :
    ∃ s' w', s.clockserver m = .ok s' ∧ Keeps s' w' := by
  refine Keeps.round h_ok (h.lists.congr rfl rfl rfl) ?_
  have h_replies : (s.answer m.client (immediate s.ticks m.req)).replies =
      [⟨s.log.length, m.client, immediate s.ticks m.req⟩] := by
    rw [ClockServer.answer, ClockServer.reply, h.replies, List.nil_append]
  rw [h_replies]
  exact h.accounts.answered h_now h_type

/-- `DELAYUNTIL`, and `DELAY` with the deadline it comes to. -/
theorem Keeps.delayUntil (h : Keeps s w) (h_admitted : Admitted s m) (h_type : m.req.type ≠ .tick)
    {D : Int} (h_deadline : deadline s.ticks m.req = some D)
    (h_value : immediate s.ticks m.req = some s.ticks)
    (h_handle : s.handle m.client m.req = s.delayUntil m.client D) :
    ∃ s' w', s.clockserver m = .ok s' ∧ Keeps s' w' := by
  obtain ⟨h_max, h_room⟩ := h_admitted D h_deadline
  -- a deadline that is not ahead is answered at once, with the ticks; any other is put on the list
  by_cases h_le : D ≤ s.ticks
  · have h_now : waitsFor s.ticks m.req = none := by
      rw [waitsFor, h_deadline, Option.filter_some, if_neg (by simpa using h_le)]
    refine h.answer h_now h_type ?_
    rw [h_handle, ClockServer.delayUntil, if_pos h_le, h_value]
  · have h_lt : s.ticks < D := not_le.mp h_le
    have h_wait : waitsFor s.ticks m.req = some D := by
      rw [waitsFor, h_deadline, Option.filter_some, if_pos (decide_eq_true h_lt)]
    -- there is a free node, since the run is admitted
    obtain ⟨s₁, h_ok, ⟨h_ticks, h_replies, -⟩, h_lists⟩ :=
      insertNode_spec h.lists (h.accounts.length_le.trans_lt (h_room h_lt)) m.client D
    refine Keeps.round ?_ h_lists ?_
    · rw [h_handle, ClockServer.delayUntil, if_neg h_le, h_ok]
    · rw [h_replies, h.replies, h_ticks]
      exact h.accounts.queued h_wait h_max

/-- `TICK`. -/
theorem Keeps.tick (h : Keeps s w) (h_type : m.req.type = .tick) :
    ∃ s' w', s.clockserver m = .ok s' ∧ Keeps s' w' := by
  let s₀ : ClockServer := { s.answer m.client none with ticks := int32 (s.ticks + 1) }
  have h_lists₀ : Represents s₀ w := h.lists.congr rfl rfl rfl
  -- the tick is counted and answered before the list is looked at
  obtain ⟨pending, unused, h_lists₀, rfl⟩ := h_lists₀
  -- each turn of the loop takes a node off the list, of which there are 50 at most
  have h_fuel : pending.length < maxDelays + 1 := by
    have h_len := h_lists₀.length
    omega
  obtain ⟨s₁, h_ok, h_ticks, -, h_replies, h_lists⟩ := wake_spec h_lists₀ h_fuel
  have h_handle : s.handle m.client m.req = .ok s₁ := by
    rw [ClockServer.handle, h_type]
    exact h_ok
  have h_replies₀ : s₀.replies = [⟨s.log.length, m.client, none⟩] := by
    change s.replies ++ _ = _
    rw [h.replies, List.nil_append]
  -- the ghost list loses the same delays as the list of the server
  refine Keeps.round h_handle h_lists ?_
  rw [h_replies, h_ticks, h_replies₀]
  exact h.accounts.ticked h_type

/-- **One round.** A message that is admitted goes through, and the server stays exact.

The cases are the four requests: a tick answers what is due, and moves the rest of the list on; the
time is answered at once; a delay goes on the list, or is answered at once, if its time has come or
it is negative. The step needs `Admitted` only where a node is taken off the free list and where the
time is counted up. -/
theorem Keeps.step (h : Keeps s w) (h_admitted : Admitted s m) :
    ∃ s' w', s.clockserver m = .ok s' ∧ Keeps s' w' := by
  have h_handle : ∀ {type : ClockserverRequestType}, m.req.type = type →
      s.handle m.client m.req = s.handle m.client ⟨type, m.req.data⟩ := by
    rintro _ rfl
    rfl
  match h_type : m.req.type with
  | .tick => exact h.tick h_type
  | .time =>
    refine h.answer ?_ (by simp [h_type]) ?_
    · rw [waitsFor, deadline, h_type]
      rfl
    · rw [h_handle h_type, immediate, h_type]
      rfl
  | .delayUntil =>
    refine h.delayUntil (D := m.req.data) h_admitted (by simp [h_type]) ?_ ?_ (h_handle h_type)
    · rw [deadline, h_type]
    · rw [immediate, h_type]
  | .delay =>
    -- a negative delay is refused at once
    rcases lt_or_ge m.req.data 0 with h_neg | h_pos
    · refine h.answer ?_ (by simp [h_type]) ?_
      · rw [waitsFor, deadline, h_type]
        exact congrArg (Option.filter _) (if_pos h_neg)
      · rw [h_handle h_type, immediate, h_type]
        refine (if_pos h_neg).trans ?_
        dsimp only
        rw [if_pos h_neg]
    · have h_deadline : deadline s.ticks m.req = some (s.ticks + m.req.data) := by
        rw [deadline, h_type]
        exact if_neg (not_lt.mpr h_pos)
      -- the sum does not overflow
      have h_sum : int32 (s.ticks + m.req.data) = s.ticks + m.req.data := by
        have h_min : -2 ^ 31 ≤ s.ticks := h.accounts.ticks ▸ int32_min _
        exact int32_of_range (by omega) (h_admitted _ h_deadline).1
      refine h.delayUntil h_admitted (by simp [h_type]) h_deadline ?_ ?_
      · rw [immediate, h_type]
        dsimp only
        rw [if_neg (not_lt.mpr h_pos)]
      · rw [h_handle h_type, ← h_sum]
        exact if_neg (not_lt.mpr h_pos)

theorem messages_clockserver (h : s.clockserver m = .ok s') :
    s'.log.map Round.message = s.log.map Round.message ++ [m] := by
  obtain ⟨s₁, -, h⟩ := of_bind_ok h
  rw [← Except.ok.inj h, List.map_append]
  rfl

end

/-- The nodes on the list carry the delays that the log calls for, so what holds of these holds of
the server. -/
theorem Keeps.exact {s : ClockServer} {w : List Delay} (h : Keeps s w) :
    ExactClock s (s.log.map Round.message) where
  lists := by
    obtain ⟨pending, unused, h_lists, h_w⟩ := h.lists
    -- `Accounts` keeps the ghost list in order of deadline, and the nodes carry the same deadlines
    have h_sorted := h.accounts.sorted
    rw [← h_w, List.pairwise_map] at h_sorted
    refine ⟨pending, unused, h_lists, h_sorted, ?_⟩
    intro i h_i
    exact (h.accounts.later (s.delay i) (h_w ▸ List.mem_map_of_mem h_i)).1
  messages := rfl
  ticks := h.accounts.ticks
  rounds := h.accounts.rounds
  served := by
    intro i r h_i
    -- a request still waits, and then it is on the list, or it is settled
    by_cases h_mem : i ∈ w.map Delay.request
    · obtain ⟨d, h_d, rfl⟩ := List.mem_map.mp h_mem
      obtain ⟨r', h_r⟩ := h.accounts.waiting d h_d
      obtain rfl : r' = r := Option.some.inj (h_r.message.symm.trans h_i)
      exact h_r.served (h.accounts.later d h_d).1
    · exact (h.accounts.settled i r h_i h_mem).served
  nobody_else := h.accounts.nobody_else

/-- **The clock server is exact.** In every run in which deadlines are `int`s and at most 50 tasks
wait, the lists are in order, every message is answered as `Served` says, and the next message goes
through.

The invariant is `Keeps`: beside the two lists of the server there is a ghost list of the delays
that wait, and `Accounts` says what the log owes them. `Keeps.step` has one case for each request;
`Admitted` is what a client has to heed for it, a condition on the message and on how many wait. -/
theorem exact_clock {ms : List ClockMessage} {s : ClockServer}
    (h : clockSystem.Reaches Admitted ms s) :
    ExactClock s ms ∧ ∀ m, Admitted s m → ∃ s', s.clockserver m = .ok s' := by
  -- by induction on the run: the invariant holds, and the log has the messages of the run
  have h_keeps : (∃ w, Keeps s w) ∧ s.log.map Round.message = ms := by
    induction h with
    | start h_init =>
      obtain rfl : _ = ClockServer.start := h_init
      exact ⟨⟨[], keeps_start⟩, rfl⟩
    | next _ h_admitted h_step ih =>
      obtain ⟨⟨w, h_keeps⟩, h_ms⟩ := ih
      obtain ⟨s', w', h_ok, h_keeps'⟩ := h_keeps.step h_admitted
      obtain rfl := Except.ok.inj (h_ok.symm.trans h_step)
      exact ⟨⟨w', h_keeps'⟩, by rw [messages_clockserver h_step, h_ms]⟩
  obtain ⟨⟨w, h_keeps⟩, rfl⟩ := h_keeps
  -- the invariant gives the property, and the next step
  refine ⟨h_keeps.exact, fun m h_m => ?_⟩
  obtain ⟨s', -, h_ok, -⟩ := h_keeps.step h_m
  exact ⟨s', h_ok⟩

def clockNext (s : ClockServer) (m : ClockMessage) : Option ClockServer :=
  (s.clockserver m).toOption

theorem clockNext_step (s : ClockServer) (m : ClockMessage) (s' : ClockServer)
    (h : clockNext s m = some s') : clockSystem.step s m s' := of_toOption h

/-- Two tasks that wait for the same tick, and one that asks for a time that is over. -/
theorem exact_clock_of_two_delays : ∃ s : ClockServer,
    ExactClock s [⟨5, .delay, 2⟩, ⟨1, .tick, 0⟩, ⟨6, .delayUntil, 2⟩, ⟨1, .tick, 0⟩,
      ⟨5, .delayUntil, 1⟩] ∧
      (∀ m, Admitted s m → ∃ s', s.clockserver m = .ok s') ∧
      answersTo s.log 0 = [(3, ⟨0, 5, some 2⟩)] ∧ answersTo s.log 2 = [(3, ⟨2, 6, some 2⟩)] ∧
      answersTo s.log 4 = [(4, ⟨4, 5, some 2⟩)] := by
  obtain ⟨s, h_s, h_answers⟩ := System.exists_reaches_of_play clockNext_step Admitted
    (fun s => answersTo s.log 0 = [(3, ⟨0, 5, some 2⟩)] ∧
      answersTo s.log 2 = [(3, ⟨2, 6, some 2⟩)] ∧
      answersTo s.log 4 = [(4, ⟨4, 5, some 2⟩)])
    [⟨5, .delay, 2⟩, ⟨1, .tick, 0⟩, ⟨6, .delayUntil, 2⟩, ⟨1, .tick, 0⟩, ⟨5, .delayUntil, 1⟩] rfl
    (by decide +kernel)
  exact ⟨s, (exact_clock h_s).1, (exact_clock h_s).2, h_answers⟩

end Clock
end PollingExpress
