import PollingExpress.Kernel.Partition

/-!
# System calls that cannot be carried out

Which calls fail (`Fails`), the code the documentation gives them (`errorCode`),
and what a failure should be: the code is returned, the caller is ready again,
and nothing else changed (`Atomic`).

Whether it is, depends on where the kernel looks first. `Create` looks at the free
list; `Send` tests the range of its tid, one too far; `Reply` and `AwaitEvent`
index their array with whatever they are given. A `Reply` that is rejected for
what its target is doing sets the code and puts the caller back, but then prints
from within the kernel, and that does not come back. `Answered` collects the
failing calls that get their answer, and `atomic_iff_answered` says that these
are exactly the ones that are atomic.
-/

namespace PollingExpress
namespace Kernel

/-- The call of `cur` names a task or an event that it cannot be carried out for, or needs a
descriptor when there is none.

These are the failures that the source declares codes for: a `Send` to a task that is none, or no
longer; a `Reply` to one that does not wait for it; an `AwaitEvent` of what is no event; and a
`Create` without a free descriptor. -/
def Fails (k : Kernel) (cur : TaskTid) : Syscall → Prop
  | .send => ∀ t, taskAt (k.mem.sendArgs (k.getData cur)).tid = some t →
      (k.backing t).state = .zombie
  | .reply => ∀ t, taskAt (k.mem.replyArgs (k.getData cur)).tid = some t →
      (k.backing t).state ≠ .reply
  | .awaitEvent => Event.ofInt (k.getData cur) = none
  | .create => k.freeTcb = none
  | _ => False

/-- The documented code of a failure. -/
def errorCode (k : Kernel) (cur : TaskTid) : Syscall → Int
  | .reply =>
    match taskAt (k.mem.replyArgs (k.getData cur)).tid with
    | some t => if (k.backing t).state = .zombie then eInvalidTid else eNotReplyWait
    | none => eInvalidTid
  | .create => eNoTaskDescriptors
  | _ => -1

/-- The caller gets `code` and is ready again, and nothing else changed: no other descriptor, no
list, no event and no byte of memory. The reading of TIMER3 with which the caller goes into the heap
is not fixed. -/
def Atomic (k : Kernel) (cur : TaskTid) (code : Int) (r : Except Halt Kernel) : Prop :=
  ∃ k', r = .ok k' ∧
    k'.readyTasks = cur ::ₘ k.readyTasks ∧
    (∃ stamp, k'.backing cur =
      { k.backing cur with context := { r0 := code }, addedTime := stamp }) ∧
    (∀ t, t ≠ cur → k'.backing t = k.backing t) ∧
    k'.freeTcb = k.freeTcb ∧ k'.eventMapping = k.eventMapping ∧ k'.mem = k.mem

/-- The failing calls that are answered: every `Create`, and every `Send` but the one to
`MAX_NUM_TASKS`. No `Reply` is: outside the array it reads what is no descriptor, and inside it ends
in the `debugprint`, which does not come back from inside the kernel. No `AwaitEvent` is either: the
entry of the event is read before the number is looked at. -/
def Answered (k : Kernel) (cur : TaskTid) : Syscall → Prop
  | .send => (k.mem.sendArgs (k.getData cur)).tid ≠ maxNumTasks
  | .reply | .awaitEvent => False
  | _ => True

variable {k : Kernel} {cur : TaskTid}

theorem not_atomic_error {code : Int} {e : Halt} : ¬Atomic k cur code (.error e) := by
  rintro ⟨k', h_eq, -⟩
  simp at h_eq

/-- Returning a code and putting the caller back is atomic. -/
theorem requeue_atomic (h_room : k.count < maxNumTasks) (code : Int) :
    Atomic k cur code ((k.setReturn cur code).addToReadyQueue cur) := by
  obtain ⟨k', h_ok⟩ :=
    addToReadyQueue_room (show (k.setReturn cur code).count < maxNumTasks from h_room) cur
  have h_add := addToReadyQueue_ok h_ok
  obtain ⟨h_free, h_event, h_mem⟩ := h_add.same
  refine ⟨k', h_ok, h_add.tasks, ⟨k.timer3 k.reads, ?_⟩, fun t ht => ?_, h_free, h_event, h_mem⟩
  · rw [h_add.backing, modify_self, setReturn, modify_self]
    rfl
  · rw [h_add.backing, modify_of_ne _ _ ht, setReturn, modify_of_ne _ _ ht]

theorem taskAt_range {tid : Int} (h : ¬(tid < 0 ∨ tid > maxNumTasks)) :
    (taskAt tid).isSome ↔ tid ≠ maxNumTasks := by
  unfold taskAt
  split
  · next h_in => simp only [Option.isSome_some, true_iff]; omega
  · next h_out => simp only [Option.isSome_none, Bool.false_eq_true, false_iff]; omega

theorem syscallSend_atomic (h_room : k.count < maxNumTasks) (h : Fails k cur .send) :
    Atomic k cur eInvalidTid (k.syscallSend cur) ↔
      (k.mem.sendArgs (k.getData cur)).tid ≠ maxNumTasks := by
  unfold syscallSend
  dsimp only
  split
  · -- out of range: the call is answered, and the number is not 125
    next h_range =>
    refine iff_of_true (requeue_atomic h_room _) ?_
    omega
  · next h_range =>
    -- the range test lets 125 through, which is no task's number
    rw [← taskAt_range h_range]
    split
    · next h_none => simp [h_none, not_atomic_error]
    · next target h_some =>
      -- the descriptor is there, and the call can fail only if it is free
      rw [if_pos (h target h_some), h_some]
      exact iff_of_true (requeue_atomic h_room _) rfl

/-- Whether or not there is room for the caller, its `debugprint` does not come back. -/
theorem not_atomic_rejectReply (code errno : Int) (text : String) :
    ¬Atomic k cur code (k.rejectReply cur errno text) := by
  unfold rejectReply
  cases (k.setReturn cur errno).addToReadyQueue cur with
  | error e => exact not_atomic_error
  | ok k' => exact not_atomic_error

theorem syscallReply_not_atomic (h : Fails k cur .reply) (code : Int) :
    ¬Atomic k cur code (k.syscallReply cur) := by
  unfold syscallReply
  dsimp only
  cases h_tid : taskAt (k.mem.replyArgs (k.getData cur)).tid with
  | none => exact not_atomic_error
  | some target =>
    dsimp only
    split_ifs with h_zombie h_reply
    · exact not_atomic_rejectReply _ _ _
    · exact not_atomic_rejectReply _ _ _
    · exact absurd (not_not.mp h_reply) (h target h_tid)

/-- **Error atomicity.** With room in the ready heap, a call that cannot be carried out is atomic
exactly if it is answered.

`Fails` says of each call when it cannot be carried out, and `Answered` which of these are answered
with an error: a `Send` unless it is to number 125, and a `Create`. A `Reply` to a task that does
not wait for one prints from inside of the kernel, and that does not come back; an `AwaitEvent` for
an undeclared event reads past its array. -/
theorem atomic_iff_answered (k : Kernel) (cur : TaskTid) (why : Syscall)
    (h_room : k.count < maxNumTasks) (h_fails : Fails k cur why) :
    Atomic k cur (errorCode k cur why) (k.serve cur why) ↔ Answered k cur why := by
  -- one case for each system call; the calls that cannot fail come last
  cases why with
  | send => exact syscallSend_atomic h_room h_fails
  | reply => exact iff_of_false (syscallReply_not_atomic h_fails _) id
  | awaitEvent =>
    -- `event_mapping` is read at a number that is no event
    refine iff_of_false ?_ id
    change ¬Atomic k cur _ (k.syscallAwaitEvent cur)
    unfold syscallAwaitEvent
    rw [show Event.ofInt (k.getData cur) = none from h_fails]
    exact not_atomic_error
  | create =>
    refine iff_of_true ?_ trivial
    change Atomic k cur _ (k.syscallCreate cur)
    unfold syscallCreate schedulerAdd
    rw [show k.freeTcb = none from h_fails]
    exact requeue_atomic h_room _
  | _ => exact absurd h_fails id

/-- A task that sends to `tid`. -/
def sendRun (tid : Int) : UserRun := messageRun tid .send

/-- The first task after boot sends to a descriptor that is free. -/
theorem atomic_iff_answered_send : ∃ k cur k₁, boot (zeroBoard tickingTimer) = .ok k ∧
    k.popReadyQueue = .ok (cur, k₁) ∧
    (Atomic (k₁.runUser cur (sendRun 7)) cur (errorCode (k₁.runUser cur (sendRun 7)) cur .send)
      ((k₁.runUser cur (sendRun 7)).serve cur .send) ↔
        Answered (k₁.runUser cur (sendRun 7)) cur .send) := by
  refine ⟨_, _, _, rfl, rfl, atomic_iff_answered _ _ _ (by decide +kernel) ?_⟩
  intro t ht
  obtain rfl : (7 : TaskTid) = t := Option.some.inj ht
  rfl

/-- The first task after boot sends to `MAX_NUM_TASKS`. -/
theorem not_atomic_send : ¬∀ (k k₁ : Kernel) (cur : TaskTid) (u : UserRun),
    system.Reachable k → k.popReadyQueue = .ok (cur, k₁) →
    Fails (k₁.runUser cur u) cur u.why →
    Atomic (k₁.runUser cur u) cur (errorCode (k₁.runUser cur u) cur u.why)
      ((k₁.runUser cur u).serve cur u.why) := by
  intro h_all
  refine not_atomic_error (h_all _ _ _ (sendRun 125)
    ⟨[], .start ⟨zeroBoard tickingTimer, timer3_ticking, rfl⟩⟩ rfl fun t ht => ?_)
  exact absurd ht (by simp [taskAt, sendRun, messageRun, userRun, runUser, maxNumTasks])

end Kernel
end PollingExpress
