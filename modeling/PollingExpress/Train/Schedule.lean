import Mathlib.Algebra.Order.Group.Multiset
import Mathlib.Data.Fintype.Card
import PollingExpress.Framework.Fallible
import PollingExpress.Framework.History
import PollingExpress.Train.Server

/-!
# The schedule of the train server

What the server has scheduled and not yet handed to its worker is a multiset of commands,
each with the number of its request (`TrainServer.pending`). A request adds its commands to
it (`Schedules`), a poll takes one of the earliest away if it is due (`Polled`), and nothing
else touches it. `Pooled` is what the representation needs for this: the heap is ordered,
and a slot is either in the heap or on the list of free ones.

`sent_once` is about every run with at most `MAX_TRAIN_CMDS` commands pending: the commands
of the requests are handed out once each, none before its time.
-/

namespace PollingExpress
namespace Train

open Nav (TrainNum)

/-- The command that moves switch `sw`. No switch has the number -1. -/
def moveCommand (time sw data : Int) : Command :=
  ⟨time, UInt8.ofInt (33 + data), UInt8.ofInt sw, 2, if sw = -1 then none else some (sw, data)⟩

/-- The commands that a request stands for, in the order in which they are built. -/
def commands : TrainRequest → List Command
  | .speed target data time =>
    [⟨time, UInt8.ofInt data ||| 16, UInt8.ofInt (vPTrainNum target), 2, none⟩]
  | .reverse target data time =>
    [⟨time, 16, UInt8.ofInt (vPTrainNum target), 2, none⟩,
      ⟨time + 500, 15, UInt8.ofInt (vPTrainNum target), 2, none⟩,
      ⟨time + 510, UInt8.ofInt data ||| 16, UInt8.ofInt (vPTrainNum target), 2, none⟩]
  | .switch target data time =>
    match TrainServer.partner target with
    | some other =>
      [moveCommand time target data, moveCommand (time + 20) other (TrainServer.cNot data),
        ⟨time + 20 + 20, 32, 0, 1, none⟩]
    | none => [moveCommand time target data, ⟨time + 20, 32, 0, 1, none⟩]
  | _ => []

/-- The numbers that switches have. -/
def SwitchNum (sw : Int) : Prop := 0 ≤ sw ∧ sw < 20 ∨ 153 ≤ sw ∧ sw ≤ 156

instance : DecidablePred SwitchNum := fun _ => inferInstanceAs (Decidable (_ ∨ _))

/-- A request to move a switch is for one that there is. -/
def ValidSwitch : TrainRequest → Prop
  | .switch target _ _ => SwitchNum target
  | _ => True

instance : DecidablePred ValidSwitch
  | .switch target _ _ => inferInstanceAs (Decidable (SwitchNum target))
  | .worker .. | .workerSensor .. | .sensorEvent | .branchEvent | .speed .. | .reverse .. =>
    isTrue trivial

/-- The event says where a switch is. -/
def TrainEvent.position (event : TrainEvent) (sw : Int) : Option UInt8 :=
  if h : 0 ≤ sw ∧ sw < 20 then some (event.branchA ⟨sw.toNat, by omega⟩)
  else if h : 153 ≤ sw ∧ sw ≤ 156 then some (event.branchB ⟨(sw - 153).toNat, by omega⟩)
  else none

/-- Where the switches are after the command, if they were at `pos`. -/
def Command.move (cmd : Command) (pos : Int → Option UInt8) (sw : Int) : Option UInt8 :=
  match cmd.switch with
  | some (moved, data) => if sw = moved then some (UInt8.ofInt data) else pos sw
  | none => pos sw

theorem Command.move_of_switch {cmd : Command} {moved data : Int}
    (h : cmd.switch = some (moved, data)) (pos : Int → Option UInt8) :
    cmd.move pos = fun sw => if sw = moved then some (UInt8.ofInt data) else pos sw := by
  unfold Command.move
  rw [h]

theorem TrainEvent.position_branchA (event : TrainEvent) {moved : Int} (h : 0 ≤ moved ∧ moved < 20)
    (x : UInt8) :
    { event with branchA := Function.update event.branchA ⟨moved.toNat, by omega⟩ x }.position =
      fun sw => if sw = moved then some x else event.position sw := by
  ext1 sw
  unfold TrainEvent.position
  dsimp only
  -- the switch that is moved, or another one, at another place of the same array
  by_cases h_eq : sw = moved
  · subst h_eq
    rw [dif_pos h, if_pos rfl, Function.update_self]
  · rw [if_neg h_eq]
    split
    · next h_sw =>
      refine congrArg some (Function.update_of_ne (fun h_fin => h_eq ?_) _ _)
      have := congrArg Fin.val h_fin
      dsimp only at this
      omega
    · rfl

/-- A write to `branch_b` is a change of the position of one of the switches from 153 to 156, and of
no other. -/
theorem TrainEvent.position_branchB (event : TrainEvent) {moved : Int}
    (h : 153 ≤ moved ∧ moved ≤ 156) (x : UInt8) :
    { event with
      branchB := Function.update event.branchB ⟨(moved - 153).toNat, by omega⟩ x }.position =
      fun sw => if sw = moved then some x else event.position sw := by
  ext1 sw
  unfold TrainEvent.position
  dsimp only
  -- the switches from 153 on have an array of their own
  by_cases h_eq : sw = moved
  · subst h_eq
    rw [dif_neg (by omega), dif_pos h, if_pos rfl, Function.update_self]
  · rw [if_neg h_eq]
    split
    · rfl
    · split
      · next h_sw =>
        refine congrArg some (Function.update_of_ne (fun h_fin => h_eq ?_) _ _)
        have := congrArg Fin.val h_fin
        dsimp only at this
        omega
      · rfl

/-- The commands that were scheduled, in order. -/
def scheduled (log : List TrainLog) : List (Command × ℕ) :=
  log.filterMap fun
    | .scheduled cmd => some cmd
    | _ => none

/-- The commands that were handed to the worker, in order. -/
def sent (log : List TrainLog) : List (Command × ℕ) :=
  log.filterMap fun
    | .command _ cmd _ => some cmd
    | _ => none

@[simp] theorem scheduled_append (log log' : List TrainLog) :
    scheduled (log ++ log') = scheduled log ++ scheduled log' := List.filterMap_append

@[simp] theorem sent_append (log log' : List TrainLog) :
    sent (log ++ log') = sent log ++ sent log' := List.filterMap_append

theorem scheduled_map (l : List (Command × ℕ)) : scheduled (l.map .scheduled) = l := by
  rw [scheduled, List.filterMap_map]
  exact List.filterMap_some

theorem sent_map (l : List (Command × ℕ)) : sent (l.map .scheduled) = [] := by
  rw [sent, List.filterMap_map]
  exact List.filterMap_eq_nil_iff.mpr fun _ _ => rfl

theorem commands_worker (time : Int) (trackKnown : Bool) :
    commands (.worker time trackKnown) = [] := rfl

namespace TrainServer

/-- What is scheduled and has not been handed out. -/
def pending (s : TrainServer) : Multiset (Command × ℕ) :=
  s.heap.contents.map fun i => (s.backing i).numbered

/-- What holds of the slots between two messages: every slot is in the heap or on the free list, so
none is handed out twice, and the times of those in the heap are in order and below that of an empty
one. -/
structure Pooled (s : TrainServer) : Prop where
  ordered : Heap.MinOrdered s.timeOf s.heap.items s.heap.len
  /-- The slots in the heap and those on the free list are all slots, each once. -/
  slots : ∃ l, Chain (fun i => (s.backing i).next) s.free l ∧
    s.heap.contents + l = (Finset.univ : Finset Slot).val
  timely : ∀ i ∈ s.heap.contents, s.timeOf i < Heap.noKey

/-- `s'` is `s` with `cmds` scheduled. Each command gets the next number, and is pending and noted
in the log under it; what the server knows about the sensors stays. -/
structure Schedules (s : TrainServer) (cmds : List Command) (s' : TrainServer) : Prop where
  pooled : s'.Pooled
  pending : s'.pending = cmds.zipIdx s.reqid + s.pending
  reqid : s'.reqid = s.reqid + cmds.length
  log : s'.log = s.log ++ (cmds.zipIdx s.reqid).map .scheduled
  event : s'.event = s.event

/-- `s'` is `s` with `cmd` handed out for the poll of `client` at `time`. -/
structure Hands (s : TrainServer) (client : ℕ) (cmd : Command × ℕ) (time : Int) (s' : TrainServer) :
    Prop where
  pooled : s'.Pooled
  pending : s.pending = cmd ::ₘ s'.pending
  due : cmd.1.time ≤ time
  least : ∀ other ∈ s.pending, cmd.1.time ≤ other.1.time
  reqid : s'.reqid = s.reqid
  log : s'.log = s.log ++ [.command client cmd time]
  position : s'.event.position = cmd.1.move s.event.position

/-- Nothing happens but that tasks are answered, and that sensors are read: no command is scheduled
or handed out. -/
structure Quiet (s s' : TrainServer) : Prop where
  heap : s'.heap = s.heap
  backing : s'.backing = s.backing
  free : s'.free = s.free
  reqid : s'.reqid = s.reqid
  position : s'.event.position = s.event.position
  log : ∃ l, s'.log = s.log ++ l ∧ ∀ e ∈ l, ∃ client res, e = .reply client res

/-- What a message does. -/
inductive Serves (s : TrainServer) (m : TrainMessage) (s' : TrainServer) : Prop
  | schedule {s₁ : TrainServer} (h_req : ∀ time trackKnown, m.req ≠ .worker time trackKnown)
      (h : s.Schedules (commands m.req) s₁) (h_quiet : s₁.Quiet s')
  | hand {time : Int} {trackKnown : Bool} {cmd : Command × ℕ} {s₁ : TrainServer}
      (h_req : m.req = .worker time trackKnown) (h : s.Hands m.client cmd time s₁)
      (h_quiet : s₁.Quiet s')
  | wait {time : Int} {trackKnown : Bool} (h_req : m.req = .worker time trackKnown)
      (h : ∀ cmd ∈ s.pending, time < cmd.1.time) (h_quiet : s.Quiet s')

variable {s s' s'' : TrainServer} {cmds cmds' : List Command} {client : ℕ} {time : Int}

/-! ### Requests -/

@[simp] theorem card_pending : s.pending.card = s.heap.len := by
  rw [pending, Multiset.card_map, Heap.contents, card_slots]

/-- Only the heap, the slots and the head of the free list matter. -/
theorem Pooled.congr (h : s.Pooled) (h_heap : s'.heap = s.heap) (h_backing : s'.backing = s.backing)
    (h_free : s'.free = s.free) : s'.Pooled := by
  obtain ⟨h_ord, h_slots, h_time⟩ := h
  have h_key : s'.timeOf = s.timeOf := by
    unfold timeOf
    rw [h_backing]
  constructor
  · rwa [h_key, h_heap]
  · rwa [h_backing, h_free, h_heap]
  · rwa [h_key, h_heap]

theorem pending_congr (h_heap : s'.heap = s.heap) (h_backing : s'.backing = s.backing) :
    s'.pending = s.pending := by
  rw [pending, h_heap, h_backing, pending]

/-- Unless everything is in the heap, there is a free slot. -/
theorem Pooled.exists_free (h : s.Pooled) (h_len : s.heap.len < maxTrainCmds) :
    ∃ cur, s.free = some cur := by
  obtain ⟨l, h_chain, h_all⟩ := h.slots
  cases l with
  | nil =>
    have h_card := congrArg Multiset.card h_all
    rw [Multiset.card_add, Heap.contents, card_slots, ← Finset.card_def, Finset.card_univ,
      Fintype.card_fin]
      at h_card
    exact absurd h_card (by simpa using h_len.ne)
  | cons cur l => exact ⟨cur, h_chain.1⟩

/-- A task that was built in slot `cur` goes into the heap. The slot leaves the free list and comes
under the heap, with the command that was written to it, and all other slots stay where they are. -/
theorem Pooled.add (s' : TrainServer) (h : s.Pooled) {cur : Slot} {l : List Slot} {task : TrainTask}
    (h_chain : Chain (fun i => (s.backing i).next) (s.backing cur).next l)
    (h_all : s.heap.contents + (cur :: l : List Slot) = (Finset.univ : Finset Slot).val)
    (h_time : task.time < Heap.noKey)
    (h_free : s'.free = (s.backing cur).next)
    (h_backing : s'.backing = Function.update s.backing cur task)
    (h_heap : s'.heap = s.heap.heapAdd s'.timeOf cur) :
    s'.Pooled ∧ s'.pending = task.numbered ::ₘ s.pending := by
  have h_nodup := (Finset.univ : Finset Slot).nodup
  rw [← h_all, Multiset.nodup_add] at h_nodup
  have h_cur : cur ∉ s.heap.contents := fun h_in =>
    Multiset.disjoint_left.mp h_nodup.2.2 h_in List.mem_cons_self
  have h_l : cur ∉ l := (List.nodup_cons.mp (Multiset.coe_nodup.mp h_nodup.2.1)).1
  -- the write to `cur` is seen neither in the heap nor in the rest of the chain
  have h_same : ∀ i, i ≠ cur → s'.backing i = s.backing i := fun i h_ne => by
    rw [h_backing, Function.update_of_ne h_ne]
  have h_heaped : ∀ i ∈ s.heap.contents, s'.backing i = s.backing i := fun i h_i =>
    h_same i fun h_eq => h_cur (h_eq ▸ h_i)
  have h_self : s'.backing cur = task := by rw [h_backing, Function.update_self]
  have h_contents : s'.heap.contents = cur ::ₘ s.heap.contents := by
    rw [h_heap, Heap.contents_heapAdd]
  refine ⟨⟨?_, ⟨l, ?_, ?_⟩, ?_⟩, ?_⟩
  · rw [h_heap]
    refine Heap.heapAdd_ordered (h.ordered.congr fun i h_i => ?_)
    exact congrArg TrainTask.time (h_heaped _ (mem_slots.mpr ⟨i, h_i, rfl⟩))
  · rw [h_free]
    exact h_chain.congr fun i h_i => congrArg TrainTask.next (h_same i fun h_eq => h_l (h_eq ▸ h_i))
  · -- `cur` moves from the chain of the free ones to the heap
    rw [h_contents, ← h_all, ← Multiset.cons_coe, Multiset.cons_add, Multiset.add_cons]
  · intro i h_i
    rcases Multiset.mem_cons.mp (h_contents ▸ h_i) with rfl | h_i
    · rwa [timeOf, h_self]
    · rw [timeOf, h_heaped i h_i]
      exact h.timely i h_i
  · rw [pending, h_contents, Multiset.map_cons, h_self]
    exact congrArg _ (Multiset.map_congr rfl fun i h_i => congrArg _ (h_heaped i h_i))

theorem Schedules.nil (h : s.Pooled) : s.Schedules [] s where
  pooled := h
  pending := (zero_add _).symm
  reqid := rfl
  log := (List.append_nil _).symm
  event := rfl

theorem Schedules.append (h : s.Schedules cmds s') (h' : s'.Schedules cmds' s'') :
    s.Schedules (cmds ++ cmds') s'' where
  pooled := h'.pooled
  pending := by
    rw [h'.pending, h.pending, h.reqid, List.zipIdx_append, Nat.add_comm s.reqid,
      ← Multiset.coe_add, add_left_comm, add_assoc]
  reqid := by rw [h'.reqid, h.reqid, List.length_append, add_assoc]
  log := by rw [h'.log, h.log, h.reqid, List.zipIdx_append, List.map_append, List.append_assoc]
  event := h'.event.trans h.event

/-- `task` is built in slot `cur` and goes into the heap. -/
def queue (s : TrainServer) (cur : Slot) (task : TrainTask) : TrainServer :=
  { s with
    free := (s.backing cur).next
    backing := Function.update s.backing cur task
    reqid := s.reqid + 1 }.heapAdd cur

/-- A task is queued: the first slot of the free list gets the command, with the number of its
request. -/
theorem Pooled.queue (h : s.Pooled) {cur : Slot} (task : TrainTask) (h_free : s.free = some cur)
    (h_time : task.time < Heap.noKey) (h_reqid : task.reqid = s.reqid) :
    s.Schedules [task.command] (s.queue cur task) := by
  obtain ⟨l, h_chain, h_all⟩ := h.slots
  -- the slot is the first of the free list
  obtain ⟨l, rfl⟩ : ∃ l', l = cur :: l' := by
    cases l with
    | nil => exact absurd (h_free.symm.trans h_chain) (by simp)
    | cons a l => exact ⟨l, by rw [Option.some.inj (h_free.symm.trans h_chain.1)]⟩
  obtain ⟨h_pooled, h_pending⟩ := Pooled.add (s.queue cur task) h h_chain.2 h_all h_time rfl rfl rfl
  have h_numbered : task.numbered = (task.command, s.reqid) := by rw [TrainTask.numbered, h_reqid]
  constructor
  · exact h_pooled
  · rw [h_pending, h_numbered]
    rfl
  · rfl
  · change s.log ++ [TrainLog.scheduled (Function.update s.backing cur task cur).numbered] = _
    rw [Function.update_self, h_numbered]
    rfl
  · rfl

/-- `build_task` and `heap_add`, for a command that moves no switch. -/
theorem schedule_eq (time : Int) {cur : Slot} (h_free : s.free = some cur) (a b : UInt8) (len : ℕ) :
    s.schedule time a b len = .ok (s.queue cur { s.backing cur with
      time, a, b, len, branch := -1, reqid := s.reqid }) := by
  unfold schedule buildTask
  rw [h_free]
  rfl

/-- The same for a command that moves a switch. -/
theorem scheduleSwitch_eq (time : Int) {cur : Slot} (h_free : s.free = some cur) (sw data : Int) :
    s.scheduleSwitch time sw data = .ok (s.queue cur { s.backing cur with
      time, a := UInt8.ofInt (33 + data), b := UInt8.ofInt sw, len := 2
      branch := sw, branchState := data, reqid := s.reqid }) := by
  unfold scheduleSwitch buildTask
  rw [h_free]
  change Except.ok (TrainServer.heapAdd _ cur) = _
  dsimp only
  rw [Function.update_self, Function.update_idem]
  rfl

theorem Pooled.schedule (h : s.Pooled) {a b : UInt8} {len : ℕ} (h_time : time < Heap.noKey)
    (h_ok : s.schedule time a b len = .ok s') : s.Schedules [⟨time, a, b, len, none⟩] s' := by
  cases h_free : s.free with
  | none =>
    unfold TrainServer.schedule buildTask at h_ok
    rw [h_free] at h_ok
    cases h_ok
  | some cur =>
    obtain rfl := Except.ok.inj ((schedule_eq time h_free a b len).symm.trans h_ok)
    let task := { s.backing cur with time, a, b, len, branch := -1, reqid := s.reqid }
    exact h.queue task h_free h_time rfl

theorem Pooled.scheduleSwitch (h : s.Pooled) {sw data : Int} (h_time : time < Heap.noKey)
    (h_ok : s.scheduleSwitch time sw data = .ok s') :
    s.Schedules [moveCommand time sw data] s' := by
  cases h_free : s.free with
  | none =>
    unfold TrainServer.scheduleSwitch buildTask at h_ok
    rw [h_free] at h_ok
    cases h_ok
  | some cur =>
    obtain rfl := Except.ok.inj ((scheduleSwitch_eq time h_free sw data).symm.trans h_ok)
    let task := { s.backing cur with
      time, a := UInt8.ofInt (33 + data), b := UInt8.ofInt sw, len := 2
      branch := sw, branchState := data, reqid := s.reqid }
    exact h.queue task h_free h_time rfl

theorem Schedules.len (h : s.Schedules cmds s') : s'.heap.len = s.heap.len + cmds.length := by
  rw [← card_pending, h.pending, Multiset.card_add, Multiset.coe_card, List.length_zipIdx,
    card_pending, Nat.add_comm]

/-! What a request does. -/

theorem Pooled.speed (h : s.Pooled) {target : TrainNum} {data : Int}
    (h_time : ∀ cmd ∈ commands (.speed target data time), cmd.time < Heap.noKey)
    (h_ok : s.speed client target data time = .ok s') :
    ∃ s₁, s.Schedules (commands (.speed target data time)) s₁ ∧ s' = s₁.reply client .done := by
  obtain ⟨s₁, h_s₁, h_ok⟩ := of_bind_ok h_ok
  exact ⟨s₁, h.schedule (h_time _ List.mem_cons_self) h_s₁, (Except.ok.inj h_ok).symm⟩

theorem Pooled.reverse (h : s.Pooled) {target : TrainNum} {data : Int}
    (h_time : ∀ cmd ∈ commands (.reverse target data time), cmd.time < Heap.noKey)
    (h_ok : s.reverse client target data time = .ok s') :
    ∃ s₁, s.Schedules (commands (.reverse target data time)) s₁ ∧ s' = s₁.reply client .done := by
  simp only [commands, List.forall_mem_cons] at h_time
  obtain ⟨h_time₁, h_time₂, h_time₃, -⟩ := h_time
  obtain ⟨s₁, h_ok₁, h_ok⟩ := of_bind_ok h_ok
  have h_s₁ := h.schedule h_time₁ h_ok₁
  obtain ⟨s₂, h_ok₂, h_ok⟩ := of_bind_ok h_ok
  have h_s₂ := h_s₁.pooled.schedule h_time₂ h_ok₂
  obtain ⟨s₃, h_ok₃, h_ok⟩ := of_bind_ok h_ok
  have h_s₃ := h_s₂.pooled.schedule h_time₃ h_ok₃
  exact ⟨s₃, (h_s₁.append h_s₂).append h_s₃, (Except.ok.inj h_ok).symm⟩

/-- `SWITCH`. It schedules two commands, or three if the switch is half of a three-way switch, and
then replies to the client. The list of free slots is long enough, or the step is a fault. -/
theorem Pooled.switch (h : s.Pooled) {target data : Int}
    (h_time : ∀ cmd ∈ commands (.switch target data time), cmd.time < Heap.noKey)
    (h_ok : s.switch client target data time = .ok s') :
    ∃ s₁, s.Schedules (commands (.switch target data time)) s₁ ∧ s' = s₁.reply client .done := by
  obtain ⟨s₁, h_ok₁, h_ok⟩ := of_bind_ok h_ok
  obtain ⟨⟨s₂, t⟩, h_ok₂, h_ok⟩ := of_bind_ok h_ok
  obtain ⟨s₃, h_ok₃, h_ok⟩ := of_bind_ok h_ok
  obtain rfl := Except.ok.inj h_ok
  unfold switchPartner at h_ok₂
  -- the two forms of the message differ in how many commands they schedule
  cases h_other : partner target with
  | some other =>
    rw [h_other] at h_ok₂
    obtain ⟨s₂, h_other₂, h_eq⟩ := of_bind_ok h_ok₂
    obtain ⟨rfl, rfl⟩ := Prod.mk.inj (Except.ok.inj h_eq)
    simp only [commands, h_other, List.forall_mem_cons] at h_time ⊢
    obtain ⟨h_time₁, h_time₂, h_time₃, -⟩ := h_time
    have h_s₁ := h.scheduleSwitch h_time₁ h_ok₁
    have h_s₂ := h_s₁.pooled.scheduleSwitch h_time₂ h_other₂
    have h_s₃ := h_s₂.pooled.schedule h_time₃ h_ok₃
    exact ⟨s₃, (h_s₁.append h_s₂).append h_s₃, rfl⟩
  -- no second half: the command that turns the solenoids off has the same time plus 20
  | none =>
    rw [h_other] at h_ok₂
    obtain ⟨rfl, rfl⟩ := Prod.mk.inj (Except.ok.inj h_ok₂)
    simp only [commands, h_other, List.forall_mem_cons] at h_time ⊢
    obtain ⟨h_time₁, h_time₂, -⟩ := h_time
    have h_s₁ := h.scheduleSwitch h_time₁ h_ok₁
    have h_s₂ := h_s₁.pooled.schedule h_time₂ h_ok₃
    exact ⟨s₃, h_s₁.append h_s₂, rfl⟩

/-! A request that there is room for goes through. -/

theorem Pooled.exists_schedule (h : s.Pooled) (h_len : s.heap.len < maxTrainCmds)
    (h_time : time < Heap.noKey) (a b : UInt8) (len : ℕ) :
    ∃ s', s.schedule time a b len = .ok s' ∧ s'.Pooled ∧ s'.heap.len = s.heap.len + 1 := by
  obtain ⟨cur, h_free⟩ := h.exists_free h_len
  have h_ok := schedule_eq time h_free a b len
  have h_s' := h.schedule h_time h_ok
  exact ⟨_, h_ok, h_s'.pooled, h_s'.len⟩

theorem Pooled.exists_scheduleSwitch (h : s.Pooled) (h_len : s.heap.len < maxTrainCmds)
    (h_time : time < Heap.noKey) (sw data : Int) :
    ∃ s', s.scheduleSwitch time sw data = .ok s' ∧ s'.Pooled ∧ s'.heap.len = s.heap.len + 1 := by
  obtain ⟨cur, h_free⟩ := h.exists_free h_len
  have h_ok := scheduleSwitch_eq time h_free sw data
  have h_s' := h.scheduleSwitch h_time h_ok
  exact ⟨_, h_ok, h_s'.pooled, h_s'.len⟩

theorem Pooled.exists_reverse (h : s.Pooled) {target : TrainNum} {data : Int}
    (h_len : s.heap.len + (commands (.reverse target data time)).length ≤ maxTrainCmds)
    (h_time : ∀ cmd ∈ commands (.reverse target data time), cmd.time < Heap.noKey) :
    ∃ s', s.reverse client target data time = .ok s' := by
  simp only [commands, List.forall_mem_cons, List.length_cons, List.length_nil] at h_time h_len
  obtain ⟨h_time₁, h_time₂, h_time₃, -⟩ := h_time
  refine exists_bind_ok (h.exists_schedule (by omega) h_time₁ _ _ _) fun s₁ ⟨h₁, h_len₁⟩ => ?_
  refine exists_bind_ok (h₁.exists_schedule (by omega) h_time₂ _ _ _) fun s₂ ⟨h₂, h_len₂⟩ => ?_
  exact exists_bind_ok (h₂.exists_schedule (by omega) h_time₃ _ _ _) fun s₃ _ => ⟨_, rfl⟩

theorem Pooled.exists_switchPartner (h : s.Pooled) {target data : Int}
    (h_len : s.heap.len + (commands (.switch target data time)).length ≤ maxTrainCmds + 1)
    (h_time : ∀ cmd ∈ commands (.switch target data time), cmd.time < Heap.noKey) :
    ∃ p, s.switchPartner target data time = .ok p ∧ p.1.Pooled ∧ p.1.heap.len < maxTrainCmds ∧
      p.2 + 20 < Heap.noKey := by
  unfold switchPartner
  -- the other half of a three-way switch is moved too, the other way
  cases h_other : partner target with
  | some other =>
    simp only [commands, h_other, List.forall_mem_cons, List.length_cons, List.length_nil]
      at h_time h_len
    obtain ⟨-, h_time₂, h_time₃, -⟩ := h_time
    obtain ⟨s₁, h_ok, h₁, h_len₁⟩ := h.exists_scheduleSwitch (by omega) h_time₂ other (cNot data)
    exact ⟨(s₁, time + 20), bind_of_ok h_ok, h₁, by dsimp only; omega, h_time₃⟩
  | none =>
    simp only [commands, h_other, List.forall_mem_cons, List.length_cons, List.length_nil]
      at h_time h_len
    exact ⟨(s, time), rfl, h, by dsimp only; omega, h_time.2.1⟩

theorem Pooled.exists_switch (h : s.Pooled) {target data : Int}
    (h_len : s.heap.len + (commands (.switch target data time)).length ≤ maxTrainCmds)
    (h_time : ∀ cmd ∈ commands (.switch target data time), cmd.time < Heap.noKey) :
    ∃ s', s.switch client target data time = .ok s' := by
  have h_mem : moveCommand time target data ∈ commands (.switch target data time) := by
    cases h_other : partner target <;> simp [commands, h_other]
  have h_pos := List.length_pos_of_mem h_mem
  have h_time₁ : time < Heap.noKey := h_time _ h_mem
  refine exists_bind_ok (h.exists_scheduleSwitch (by omega) h_time₁ _ _) fun s₁ ⟨h₁, h_len₁⟩ => ?_
  refine exists_bind_ok (h₁.exists_switchPartner (by omega) h_time) fun p ⟨h₂, h_len₂, h_time₂⟩ =>
    ?_
  exact exists_bind_ok (h₂.exists_schedule h_len₂ h_time₂ _ _ _) fun s₃ _ => ⟨_, rfl⟩

/-! ### Answers -/

theorem Quiet.refl (s : TrainServer) : s.Quiet s where
  heap := rfl
  backing := rfl
  free := rfl
  reqid := rfl
  position := rfl
  log := ⟨[], (List.append_nil _).symm, by simp⟩

theorem Quiet.trans (h : s.Quiet s') (h' : s'.Quiet s'') : s.Quiet s'' where
  heap := h'.heap.trans h.heap
  backing := h'.backing.trans h.backing
  free := h'.free.trans h.free
  reqid := h'.reqid.trans h.reqid
  position := h'.position.trans h.position
  log := by
    obtain ⟨l, h_l, h_replies⟩ := h.log
    obtain ⟨l', h_l', h_replies'⟩ := h'.log
    refine ⟨l ++ l', by rw [h_l', h_l, List.append_assoc], fun e h_e => ?_⟩
    exact (List.mem_append.mp h_e).elim (h_replies e) (h_replies' e)

theorem quiet_reply (s : TrainServer) (client : ℕ) (res : TrainReply) :
    s.Quiet (s.reply client res) where
  heap := rfl
  backing := rfl
  free := rfl
  reqid := rfl
  position := rfl
  log := ⟨[.reply client res], rfl, by simp⟩

/-- A task begins to wait. -/
theorem Quiet.wait (sensorWaiting branchWaiting : Option ℕ)
    (h : { s with sensorWaiting, branchWaiting }.Quiet s') : s.Quiet s' :=
  ⟨h.heap, h.backing, h.free, h.reqid, h.position, h.log⟩

theorem Quiet.pending (h : s.Quiet s') : s'.pending = s.pending := pending_congr h.heap h.backing

theorem Quiet.pooled (h : s.Quiet s') (h_s : s.Pooled) : s'.Pooled :=
  h_s.congr h.heap h.backing h.free

/-! ### Polls -/

/-- Of the slot that is recycled, only `next` changes. -/
theorem retire_backing (top i : Slot) : (s.retire top).backing i =
    { s.backing i with next := if i = top then s.free else (s.backing i).next } := by
  unfold TrainServer.retire
  dsimp only
  by_cases h_i : i = top
  · subst h_i
    rw [Function.update_self, if_pos rfl]
  · rw [Function.update_of_ne h_i, if_neg h_i]

/-- The top of the heap is recycled: its slot is put in front of the free list, and its command,
which is the earliest one, is pending no more. -/
theorem Pooled.retire (h : s.Pooled) (top : Slot) (h_top : s.heap.heapPeek = some top) :
    (s.retire top).Pooled ∧ s.pending = (s.backing top).numbered ::ₘ (s.retire top).pending := by
  obtain ⟨h_ord, ⟨l, h_chain, h_all⟩, h_time⟩ := h
  have h_contents : s.heap.contents = top ::ₘ (s.retire top).heap.contents :=
    Heap.contents_heapPop h_top (Heap.popInside_of_lt h_time)
  have h_mem : ∀ i ∈ (s.retire top).heap.contents, i ∈ s.heap.contents := fun i h_i =>
    h_contents ▸ Multiset.mem_cons_of_mem h_i
  -- the slot on top is in the heap, so it is not in the chain that it is put in front of
  have h_l : top ∉ l := by
    have h_nodup := (Finset.univ : Finset Slot).nodup
    rw [← h_all, Multiset.nodup_add] at h_nodup
    intro h_in
    exact Multiset.disjoint_left.mp h_nodup.2.2 (h_contents ▸ Multiset.mem_cons_self _ _) h_in
  have h_key : (s.retire top).timeOf = s.timeOf := funext fun i => by
    rw [timeOf, retire_backing, timeOf]
  refine ⟨⟨?_, ⟨top :: l, ⟨rfl, ?_⟩, ?_⟩, ?_⟩, ?_⟩
  · rw [h_key]
    exact Heap.heapPop_ordered h_ord (Heap.popInside_of_lt h_time)
  · dsimp only
    rw [retire_backing, if_pos rfl]
    refine h_chain.congr fun i h_i => ?_
    have h_ne : i ≠ top := fun h_eq => h_l (h_eq ▸ h_i)
    rw [retire_backing, if_neg h_ne]
  · rw [← h_all, h_contents, ← Multiset.cons_coe, Multiset.cons_add, Multiset.add_cons]
  · intro i h_i
    rw [h_key]
    exact h_time i (h_mem i h_i)
  · -- the ghost content of a command does not read `next`
    have h_numbered : ∀ i, ((s.retire top).backing i).numbered = (s.backing i).numbered :=
      fun i => by
      rw [retire_backing]
      rfl
    simp only [pending, h_numbered, h_contents, Multiset.map_cons]

/-- The branch that a command moves is recorded for the next event. The number -1 stands for none;
for any other number that is no switch the step is a fault, and there is no next state. -/
theorem recordBranch_ok {top : TrainTask} (h_ok : s.recordBranch top = .ok s') :
    s'.event.position = top.command.move s.event.position ∧ s'.heap = s.heap ∧
      s'.backing = s.backing ∧
      s'.free = s.free ∧ s'.reqid = s.reqid ∧ s'.log = s.log := by
  unfold recordBranch at h_ok
  split at h_ok
  · -- `-1`: the command moves no switch
    next h_none =>
    obtain rfl := Except.ok.inj h_ok
    refine ⟨?_, rfl, rfl, rfl, rfl, rfl⟩
    unfold Command.move TrainTask.command
    rw [if_pos h_none]
  · next h_some =>
    have h_switch : top.command.switch = some (top.branch, top.branchState) := if_neg h_some
    rw [Command.move_of_switch h_switch]
    split at h_ok
    · -- a switch below 20; the write in front of `branch_a` is a fault and gives no next state
      split at h_ok
      · next h_a =>
        obtain rfl := Except.ok.inj h_ok
        exact ⟨s.event.position_branchA h_a _, rfl, rfl, rfl, rfl, rfl⟩
      · cases h_ok
    · -- a switch from 153 to 156; any other number is a fault
      split at h_ok
      · next h_b =>
        obtain rfl := Except.ok.inj h_ok
        exact ⟨s.event.position_branchB h_b _, rfl, rfl, rfl, rfl, rfl⟩
      · cases h_ok

theorem exists_recordBranch {top : TrainTask}
    (h_sw : ∀ sw data, top.command.switch = some (sw, data) → SwitchNum sw) :
    ∃ s', s.recordBranch top = .ok s' := by
  unfold recordBranch
  split
  · exact ⟨_, rfl⟩
  · next h_some =>
    rcases h_sw _ _ (if_neg h_some) with h_a | h_b
    · rw [if_pos h_a.2, dif_pos h_a]
      exact ⟨_, rfl⟩
    · rw [if_neg (by omega), dif_pos h_b]
      exact ⟨_, rfl⟩

/-- "Bad Branch". -/
theorem recordBranch_badBranch {top : TrainTask} (h_ge : 20 ≤ top.branch)
    (h_sw : ¬SwitchNum top.branch) :
    s.recordBranch top = .error .badBranch := by
  have h_b : ¬(153 ≤ top.branch ∧ top.branch ≤ 156) := fun h => h_sw (.inr h)
  rw [recordBranch, if_neg (by omega), if_neg (by omega), dif_neg h_b]

/-- A poll that finds a due command gets one of the earliest; a poll that finds none changes
nothing, and then no pending command is due. -/
theorem Pooled.worker (h : s.Pooled) {trackKnown : Bool}
    (h_ok : s.worker client time trackKnown = .ok s') :
    (∃ cmd, s.Hands client cmd time s') ∨ (∀ cmd ∈ s.pending, time < cmd.1.time) ∧ s.Quiet s' := by
  unfold TrainServer.worker at h_ok
  split at h_ok
  · next top h_top =>
    have h_least : ∀ cmd ∈ s.pending, s.timeOf top ≤ cmd.1.time := by
      intro cmd h_cmd
      obtain ⟨i, h_i, rfl⟩ := Multiset.mem_map.mp h_cmd
      exact Heap.le_of_heapPeek h.ordered h_top i h_i
    -- the branch of `WORKER` in which the time of the top has come
    split at h_ok
    · next h_due =>
      obtain ⟨s₁, h_eq, h_ok⟩ := of_bind_ok h_ok
      obtain rfl := Except.ok.inj h_ok
      obtain ⟨h_position, h_heap, h_backing, h_free, h_reqid, h_log⟩ := recordBranch_ok h_eq
      obtain ⟨h_pooled, h_pending⟩ :=
        (h.congr h_heap h_backing h_free).retire top (by rw [h_heap]; exact h_top)
      rw [pending_congr h_heap h_backing, h_backing] at h_pending
      refine .inl ⟨(s.backing top).numbered, ?_⟩
      constructor
      · exact h_pooled.congr rfl rfl rfl
      · exact h_pending
      · exact h_due
      · exact h_least
      · exact h_reqid
      · exact congrArg (· ++ _) h_log
      · exact h_position
    · -- every other command is at least as late as the top
      next h_early =>
      have h_none : ∀ cmd ∈ s.pending, time < cmd.1.time := fun cmd h_cmd =>
        lt_of_lt_of_le (not_le.mp h_early) (h_least cmd h_cmd)
      split at h_ok <;> obtain rfl := Except.ok.inj h_ok <;> exact .inr ⟨h_none, quiet_reply _ _ _⟩
  · -- an empty heap: nothing is pending
    next h_empty =>
    have h_none : s.pending = 0 := by
      rw [pending, Heap.heapPeek_eq_none_iff.mp h_empty, Multiset.map_zero]
    split at h_ok <;> obtain rfl := Except.ok.inj h_ok <;>
      exact .inr ⟨by simp [h_none], quiet_reply _ _ _⟩

theorem Pooled.exists_worker (h : s.Pooled) (trackKnown : Bool)
    (h_sw : ∀ cmd ∈ s.pending, ∀ sw data, cmd.1.switch = some (sw, data) → SwitchNum sw) :
    ∃ s', s.worker client time trackKnown = .ok s' := by
  unfold TrainServer.worker
  split
  · next top h_top =>
    have h_contents := Heap.contents_heapPop h_top (Heap.popInside_of_lt h.timely)
    have h_pending : (s.backing top).numbered ∈ s.pending :=
      Multiset.mem_map_of_mem _ (h_contents ▸ Multiset.mem_cons_self _ _)
    split
    · obtain ⟨s₁, h_eq⟩ := exists_recordBranch (s := s) (h_sw _ h_pending)
      exact ⟨_, bind_of_ok h_eq⟩
    · split <;> exact ⟨_, rfl⟩
  · split <;> exact ⟨_, rfl⟩

/-! ### The other messages -/

theorem quiet_flush (s : TrainServer) : s.Quiet s.flush := by
  unfold flush
  extract_lets _ s₁
  have h_sensor : s.Quiet s₁ := by
    unfold s₁
    split
    · split
      · exact ⟨rfl, rfl, rfl, rfl, rfl, (quiet_reply _ _ _).log⟩
      · exact Quiet.refl s
    · exact Quiet.refl s
  refine h_sensor.trans ?_
  split
  · split
    · exact ⟨rfl, rfl, rfl, rfl, rfl, (quiet_reply _ _ _).log⟩
    · exact Quiet.refl s₁
  · exact Quiet.refl s₁

/-- What a message does, for each of the requests of the server: it schedules the commands of the
request, or hands one out to a poll, or is quiet. -/
theorem Pooled.serves (h : s.Pooled) {m : TrainMessage}
    (h_time : ∀ cmd ∈ commands m.req, cmd.time < Heap.noKey)
    (h_ok : s.taskTrainserver m.client m.req = .ok s') : s.Serves m s' := by
  obtain ⟨client, req⟩ := m
  obtain ⟨s₁, h_handle, h_ok⟩ := of_bind_ok h_ok
  obtain rfl := Except.ok.inj h_ok
  have h_flush := quiet_flush s₁
  cases req with
  | worker time trackKnown =>
    -- a poll either takes the earliest command that is due or finds none
    rcases h.worker h_handle with ⟨cmd, h_hands⟩ | ⟨h_none, h_quiet⟩
    · exact .hand rfl h_hands h_flush
    · exact .wait rfl h_none (h_quiet.trans h_flush)
  | workerSensor readings time =>
    obtain rfl := Except.ok.inj h_handle
    -- only what the event says changes, which no command reads
    refine .schedule (by simp) (Schedules.nil h) (.trans ?_ h_flush)
    exact ⟨rfl, rfl, rfl, rfl, rfl, (quiet_reply _ _ _).log⟩
  -- the tasks that wait are heard by `flush` only
  | sensorEvent =>
    obtain rfl := Except.ok.inj h_handle
    exact .schedule (by simp) (Schedules.nil h) (.wait _ _ h_flush)
  | branchEvent =>
    obtain rfl := Except.ok.inj h_handle
    exact .schedule (by simp) (Schedules.nil h) (.wait _ _ h_flush)
  | speed target data time =>
    obtain ⟨s₂, h_s₂, rfl⟩ := h.speed h_time h_handle
    exact .schedule (by simp) h_s₂ ((quiet_reply _ _ _).trans h_flush)
  | reverse target data time =>
    obtain ⟨s₂, h_s₂, rfl⟩ := h.reverse h_time h_handle
    exact .schedule (by simp) h_s₂ ((quiet_reply _ _ _).trans h_flush)
  | switch target data time =>
    obtain ⟨s₂, h_s₂, rfl⟩ := h.switch h_time h_handle
    exact .schedule (by simp) h_s₂ ((quiet_reply _ _ _).trans h_flush)

theorem Serves.pooled {m : TrainMessage} (h : s.Serves m s') (h_s : s.Pooled) : s'.Pooled := by
  cases h with
  | schedule _ h_schedules h_quiet => exact h_quiet.pooled h_schedules.pooled
  | hand _ h_hands h_quiet => exact h_quiet.pooled h_hands.pooled
  | wait _ _ h_quiet => exact h_quiet.pooled h_s

/-- A message goes through if there is room for its commands, and all switches are switches. -/
theorem Pooled.exists_serves (h : s.Pooled) {m : TrainMessage}
    (h_len : s.heap.len + (commands m.req).length ≤ maxTrainCmds)
    (h_time : ∀ cmd ∈ commands m.req, cmd.time < Heap.noKey)
    (h_sw : ∀ cmd ∈ s.pending, ∀ sw data, cmd.1.switch = some (sw, data) → SwitchNum sw) :
    ∃ s', s.taskTrainserver m.client m.req = .ok s' := by
  obtain ⟨client, req⟩ := m
  suffices ∃ s₁, s.handle client req = .ok s₁ by
    obtain ⟨s₁, h_handle⟩ := this
    exact ⟨_, bind_of_ok h_handle⟩
  -- only the requests that schedule need room, and only the poll looks at the switches
  cases req with
  | worker time trackKnown => exact h.exists_worker trackKnown h_sw
  | workerSensor | sensorEvent | branchEvent => exact ⟨_, rfl⟩
  | speed target data time =>
    exact exists_bind_ok (h.exists_schedule h_len (h_time _ List.mem_cons_self) _ _ _) fun s₁ _ =>
      ⟨_, rfl⟩
  | reverse target data time => exact h.exists_reverse h_len h_time
  | switch target data time => exact h.exists_switch h_len h_time

end TrainServer

/-! ### Runs -/

variable {cs : List Command} {ms : List TrainMessage} {s s' : TrainServer} {m : TrainMessage}

/-- The commands that are pending after `log`. -/
def pendingAfter (log : List TrainLog) : Multiset (Command × ℕ) := ↑(scheduled log) - ↑(sent log)

/-- A command is handed out while it is pending, after its time, and before all that are later. -/
def OnTime (past : List TrainLog) : TrainLog → Prop
  | .command _ cmd time => cmd ∈ pendingAfter past ∧ cmd.1.time ≤ time ∧
    ∀ other ∈ pendingAfter past, cmd.1.time ≤ other.1.time
  | _ => True

/-- What the log says of a run whose requests stand for the commands `cs`. All of them have been
scheduled, in order and each under its own number; each is pending or has been sent, and never both
(`once`); and each was sent when its time had come, and no earlier one was pending. -/
structure Accounted (cs : List Command) (s : TrainServer) : Prop where
  pooled : s.Pooled
  reqid : s.reqid = cs.length
  generated : scheduled s.log = cs.zipIdx
  once : (scheduled s.log : Multiset (Command × ℕ)) = sent s.log + s.pending
  onTime : AtEach OnTime s.log

theorem Accounted.pendingAfter (h : Accounted cs s) : pendingAfter s.log = s.pending := by
  rw [Train.pendingAfter, h.once, add_tsub_cancel_left]

theorem Accounted.schedules (h : Accounted cs s) {cs' : List Command} (h' : s.Schedules cs' s') :
    Accounted (cs ++ cs') s' := by
  constructor
  · exact h'.pooled
  · rw [h'.reqid, h.reqid, List.length_append]
  · rw [h'.log, scheduled_append, scheduled_map, h.generated, h.reqid, List.zipIdx_append,
      Nat.zero_add]
  · rw [h'.log, scheduled_append, sent_append, scheduled_map, sent_map, List.append_nil, h'.pending,
      ← Multiset.coe_add, h.once, add_assoc, add_comm s.pending]
  · rw [h'.log]
    refine h.onTime.append fun past e h_e => ?_
    obtain ⟨cmd, -, rfl⟩ := List.mem_map.mp h_e
    trivial

theorem Accounted.hands (h : Accounted cs s) {client : ℕ} {cmd : Command × ℕ} {time : Int}
    (h' : s.Hands client cmd time s') : Accounted cs s' := by
  constructor
  · exact h'.pooled
  · rw [h'.reqid, h.reqid]
  · rw [h'.log, scheduled_append, h.generated]
    exact List.append_nil _
  · -- a command goes from what is pending to what has been sent
    have h_scheduled : scheduled [.command client cmd time] = [] := rfl
    have h_sent : sent [.command client cmd time] = [cmd] := rfl
    rw [h'.log, scheduled_append, sent_append, h_scheduled, h_sent, List.append_nil, h.once,
      h'.pending, ← Multiset.coe_add, add_assoc]
    rfl
  · rw [h'.log, atEach_snoc]
    refine ⟨h.onTime, ?_, h'.due, ?_⟩
    · rw [h.pendingAfter, h'.pending]
      exact Multiset.mem_cons_self _ _
    · rw [h.pendingAfter]
      exact h'.least

theorem Accounted.quiet (h : Accounted cs s) (h' : s.Quiet s') : Accounted cs s' := by
  obtain ⟨l, h_log, h_l⟩ := h'.log
  -- the log has got replies only
  have h_scheduled : scheduled l = [] := List.filterMap_eq_nil_iff.mpr fun e h_e => by
    obtain ⟨client, res, rfl⟩ := h_l e h_e
    rfl
  have h_sent : sent l = [] := List.filterMap_eq_nil_iff.mpr fun e h_e => by
    obtain ⟨client, res, rfl⟩ := h_l e h_e
    rfl
  constructor
  · exact h'.pooled h.pooled
  · rw [h'.reqid, h.reqid]
  · rw [h_log, scheduled_append, h_scheduled, List.append_nil, h.generated]
  · rw [h_log, scheduled_append, h_scheduled, sent_append, h_sent, List.append_nil, List.append_nil,
      h'.pending, h.once]
  · rw [h_log]
    refine h.onTime.append fun past e h_e => ?_
    obtain ⟨client, res, rfl⟩ := h_l e h_e
    trivial

theorem Accounted.serves (h : Accounted cs s) (h' : s.Serves m s') :
    Accounted (cs ++ commands m.req) s' := by
  cases h' with
  | schedule _ h_schedules h_quiet => exact (h.schedules h_schedules).quiet h_quiet
  | hand h_req h_hands h_quiet =>
    rw [h_req, commands_worker, List.append_nil]
    exact (h.hands h_hands).quiet h_quiet
  | wait h_req _ h_quiet =>
    rw [h_req, commands_worker, List.append_nil]
    exact h.quiet h_quiet

theorem TrainServer.pooled_start : TrainServer.start.Pooled where
  ordered := fun i _ h_i => absurd h_i (Nat.not_lt_zero i)
  slots := by
    have h_head : start.free = (List.finRange maxTrainCmds).head? := rfl
    refine ⟨List.finRange maxTrainCmds, h_head ▸ chain_of_getElem fun i h_i => ?_, zero_add _⟩
    rw [List.getElem_finRange]
    unfold start
    dsimp only
    split
    · next h_next =>
      rw [List.getElem?_eq_getElem (by simpa using h_next), List.getElem_finRange]
      rfl
    · next h_last => exact (List.getElem?_eq_none (by simpa using h_last)).symm
  timely := fun i h_i => absurd h_i (Multiset.notMem_zero i)

theorem Accounted.start : Accounted [] .start where
  pooled := TrainServer.pooled_start
  reqid := rfl
  generated := rfl
  once := rfl
  onTime := atEach_nil

/-- The scheduled times are below the time of an empty slot of the heap. -/
def Timely (_ : TrainServer) (m : TrainMessage) : Prop :=
  ∀ cmd ∈ commands m.req, cmd.time < Heap.noKey

instance (s : TrainServer) : DecidablePred (Timely s) := fun m =>
  inferInstanceAs (Decidable (∀ cmd ∈ commands m.req, cmd.time < Heap.noKey))

theorem Accounted.of_reaches (h : trainSystem.Reaches Timely ms s) :
    Accounted (ms.flatMap fun m => commands m.req) s := by
  induction h with
  | start h_init =>
    obtain rfl := h_init
    exact .start
  | next _ h_ok h_step ih =>
    rw [List.flatMap_append, List.flatMap_singleton]
    exact ih.serves (ih.pooled.serves h_ok h_step)

theorem Accounted.length_scheduled (h : Accounted cs s) :
    (scheduled s.log).length = (sent s.log).length + s.heap.len := by
  have h_card := congrArg Multiset.card h.once
  rwa [Multiset.card_add, Multiset.coe_card, Multiset.coe_card, TrainServer.card_pending] at h_card

theorem TrainServer.Pooled.len_le (h : s.Pooled) : s.heap.len ≤ maxTrainCmds := by
  obtain ⟨l, -, h_all⟩ := h.slots
  have h_card := congrArg Multiset.card h_all
  rw [Multiset.card_add, Heap.contents, card_slots, ← Finset.card_def, Finset.card_univ,
    Fintype.card_fin]
    at h_card
  exact h_card ▸ Nat.le_add_right _ _

/-- No more than `MAX_TRAIN_CMDS` commands are pending with those of the message, all times are
below the time of an empty slot of the heap, and switches have numbers of switches.

What is pending is counted by the log: what has been scheduled and not handed out. -/
structure Admitted (s : TrainServer) (m : TrainMessage) : Prop where
  pending : (scheduled s.log).length + (commands m.req).length ≤ (sent s.log).length + maxTrainCmds
  time : ∀ cmd ∈ commands m.req, cmd.time < Heap.noKey
  switch : ValidSwitch m.req

instance (s : TrainServer) (m : TrainMessage) : Decidable (Admitted s m) :=
  decidable_of_iff (_ ∧ _ ∧ _) ⟨fun h => ⟨h.1, h.2.1, h.2.2⟩,
    fun h => ⟨h.pending, h.time, h.switch⟩⟩

theorem Accounted.admitted_poll (h : Accounted cs s) {time : Int} {trackKnown : Bool}
    (h_req : m.req = .worker time trackKnown) : Admitted s m where
  pending := by
    rw [h_req, h.length_scheduled]
    exact Nat.add_le_add_left h.pooled.len_le _
  time := by
    rw [h_req]
    exact fun cmd h_cmd => absurd h_cmd List.not_mem_nil
  switch := by
    rw [h_req]
    trivial

theorem TrainServer.switchNum_partner {sw other : Int} (h : partner sw = some other) :
    SwitchNum other := by
  unfold partner at h
  split_ifs at h <;> obtain rfl := Option.some.inj h <;> decide

/-- The switches that the commands of a valid request move are switches that there are, its partner
included. -/
theorem switchNum_of_mem {req : TrainRequest} (h : ValidSwitch req) {cmd : Command}
    (h_cmd : cmd ∈ commands req) {sw data : Int} (h_sw : cmd.switch = some (sw, data)) :
    SwitchNum sw := by
  have h_move : ∀ {time target data'}, SwitchNum target →
      (moveCommand time target data').switch = some (sw, data) → SwitchNum sw := by
    intro time target data' h_target h_eq
    unfold moveCommand at h_eq
    dsimp only at h_eq
    split at h_eq
    · cases h_eq
    · obtain ⟨rfl, -⟩ := Prod.mk.inj (Option.some.inj h_eq)
      exact h_target
  -- only a `SWITCH` has commands that move a switch
  cases req with
  | worker | workerSensor | sensorEvent | branchEvent => exact absurd h_cmd List.not_mem_nil
  | speed target data' time =>
    obtain rfl := List.mem_singleton.mp h_cmd
    cases h_sw
  | reverse target data' time =>
    simp only [commands, List.mem_cons, List.not_mem_nil, or_false] at h_cmd
    obtain rfl | rfl | rfl := h_cmd <;> cases h_sw
  | switch target data' time =>
    cases h_other : TrainServer.partner target with
    | some other =>
      simp only [commands, h_other, List.mem_cons, List.not_mem_nil, or_false] at h_cmd
      obtain rfl | rfl | rfl := h_cmd
      · -- the first command moves `target`, the second its partner, the third none
        exact h_move h h_sw
      · exact h_move (TrainServer.switchNum_partner h_other) h_sw
      · cases h_sw
    | none =>
      simp only [commands, h_other, List.mem_cons, List.not_mem_nil, or_false] at h_cmd
      obtain rfl | rfl := h_cmd
      · exact h_move h h_sw
      · cases h_sw

/-- An admitted message does not stop the server. -/
theorem exists_step (h : trainSystem.Reaches Admitted ms s) (h_ok : Admitted s m) :
    ∃ s', trainSystem.step s m s' := by
  have h_acc := Accounted.of_reaches (h.mono fun _ _ => Admitted.time)
  have h_valid := h.forall_label (P := fun m => ValidSwitch m.req) fun _ _ => Admitted.switch
  refine h_acc.pooled.exists_serves ?_ h_ok.time fun cmd h_cmd sw data h_sw => ?_
  · have h_all := h_acc.length_scheduled
    have h_room := h_ok.pending
    omega
  · have h_scheduled : cmd ∈ scheduled s.log := by
      rw [← Multiset.mem_coe, h_acc.once]
      exact Multiset.mem_add.mpr (.inr h_cmd)
    rw [h_acc.generated] at h_scheduled
    obtain ⟨m', h_m', h_cmd'⟩ := List.mem_flatMap.mp (List.fst_mem_of_mem_zipIdx h_scheduled)
    exact switchNum_of_mem (h_valid m' h_m') h_cmd' h_sw

/-- A poll at a time at which everything is due. -/
def PollsAll (s : TrainServer) (m : TrainMessage) : Prop :=
  ∃ time trackKnown, m.req = .worker time trackKnown ∧ ∀ cmd ∈ s.pending, cmd.1.time ≤ time

/-- Enough polls get everything that is pending. Polls that come late enough for all of it take one
command each, so as many polls as there are commands leave none. -/
theorem delivered {polls : List TrainMessage} (h : trainSystem.Reaches Admitted ms s)
    (h_polls : ∀ m ∈ polls, PollsAll s m) (h_len : s.pending.card ≤ polls.length) :
    ∃ s', trainSystem.Reaches Admitted (ms ++ polls) s' ∧ (scheduled s.log).Perm (sent s'.log) := by
  -- one poll more takes one command more; what is pending only shrinks under polls
  induction polls generalizing ms s with
  | nil =>
    have h_acc := Accounted.of_reaches (h.mono fun _ _ => Admitted.time)
    have h_none : s.pending = 0 := Multiset.card_eq_zero.mp (Nat.le_zero.mp h_len)
    refine ⟨s, by rwa [List.append_nil], Multiset.coe_eq_coe.mp ?_⟩
    rw [h_acc.once, h_none, add_zero]
  | cons m polls ih =>
    have h_acc := Accounted.of_reaches (h.mono fun _ _ => Admitted.time)
    obtain ⟨time, trackKnown, h_req, h_due⟩ := h_polls m List.mem_cons_self
    have h_ok : Admitted s m := h_acc.admitted_poll h_req
    obtain ⟨s', h_eq⟩ := exists_step h h_ok
    have h_serves := h_acc.pooled.serves h_ok.time h_eq
    have h_next : trainSystem.Reaches Admitted (ms ++ [m]) s' := .next h h_ok h_eq
    -- a poll generates nothing, so the commands to be sent stay the same
    have h_same : scheduled s'.log = scheduled s.log := by
      rw [(h_acc.serves h_serves).generated, h_acc.generated, h_req, commands_worker,
        List.append_nil]
    -- one command less is pending, unless none was
    have h_less : s'.pending ≤ s.pending ∧ s'.pending.card ≤ polls.length := by
      cases h_serves with
      | schedule h_not _ _ => exact absurd h_req (h_not _ _)
      | hand _ h_hands h_quiet =>
        rw [h_quiet.pending]
        rw [h_hands.pending, Multiset.card_cons, List.length_cons] at h_len
        exact ⟨h_hands.pending ▸ Multiset.le_cons_self _ _, Nat.le_of_succ_le_succ h_len⟩
      | wait h_req' h_early h_quiet =>
        obtain ⟨rfl, rfl⟩ := TrainRequest.worker.inj (h_req.symm.trans h_req')
        have h_none : s.pending = 0 := Multiset.eq_zero_of_forall_notMem fun cmd h_cmd =>
          absurd (h_due cmd h_cmd) (not_le.mpr (h_early cmd h_cmd))
        rw [h_quiet.pending, h_none]
        exact ⟨le_rfl, Nat.zero_le _⟩
    have h_later : ∀ m' ∈ polls, PollsAll s' m' := by
      intro m' h_m'
      obtain ⟨time', trackKnown', h_req', h_due'⟩ := h_polls m' (List.mem_cons_of_mem _ h_m')
      exact ⟨time', trackKnown', h_req', fun cmd h_cmd =>
        h_due' cmd (Multiset.mem_of_le h_less.1 h_cmd)⟩
    obtain ⟨s'', h_reach, h_perm⟩ := ih h_next h_later h_less.2
    rw [List.append_assoc] at h_reach
    exact ⟨s'', h_reach, h_same ▸ h_perm⟩

/-- What holds of the server after the messages `ms`.

A request comes to one command or more (`commands`), which are numbered as they are scheduled.
`PollsAll` is a poll of the worker at a time at which everything that is pending is due, while the
track is known. -/
structure SentOnce (ms : List TrainMessage) (s : TrainServer) : Prop where
  /-- What was scheduled are the commands of the requests, numbered. -/
  generated : scheduled s.log = (ms.flatMap fun m => commands m.req).zipIdx
  /-- Each of them was handed out once or is pending. -/
  once : (scheduled s.log : Multiset (Command × ℕ)) = sent s.log + s.pending
  onTime : AtEach OnTime s.log
  /-- The heap and the free list share the slots. -/
  slots : ∃ l, Chain (fun i => (s.backing i).next) s.free l ∧
    s.heap.contents + l = (Finset.univ : Finset Slot).val
  /-- No assertion fails. -/
  accepted : ∀ m, Admitted s m → ∃ s', trainSystem.step s m s'
  delivered : ∀ polls : List TrainMessage, (∀ m ∈ polls, PollsAll s m) →
    s.pending.card ≤ polls.length →
    ∃ s', trainSystem.Reaches Admitted (ms ++ polls) s' ∧ (scheduled s.log).Perm (sent s'.log)

/-- **Every command is sent once and not before its time.**

A run is admitted if there is a slot for each command that is pending, the times are below that of
an empty slot of the heap, and switches have numbers of switches. `Accounted` compares three lists
along the run, the commands of the requests, those that were scheduled and those that were handed
out, and the heap; the last field of `SentOnce` says that the worker gets all of them if it polls
long enough. -/
theorem sent_once (h : trainSystem.Reaches Admitted ms s) : SentOnce ms s := by
  -- the accounts ask for the times only; the room is for the next message
  have h_acc := Accounted.of_reaches (h.mono fun _ _ => Admitted.time)
  exact ⟨h_acc.generated, h_acc.once, h_acc.onTime, h_acc.pooled.slots,
    fun m => exists_step h, fun polls => delivered h⟩

/-- The server as a function, to compute runs. -/
def trainNext (s : TrainServer) (m : TrainMessage) : Option TrainServer :=
  (s.taskTrainserver m.client m.req).toOption

theorem trainNext_step (s : TrainServer) (m : TrainMessage) (s' : TrainServer)
    (h : trainNext s m = some s') : trainSystem.step s m s' := of_toOption h

/-- A three-way switch and a train: after three polls two of six commands have been sent. -/
theorem sent_once_threeWay :
    ∃ ms s, ((sent s.log).map (fun cmd => cmd.2) = [0, 3] ∧ s.heap.len = 4) ∧
    SentOnce ms s := by
  obtain ⟨s, h_reach, h_s⟩ := System.exists_reaches_of_play trainNext_step Admitted
    (fun s => (sent s.log).map (fun cmd => cmd.2) = [0, 3] ∧ s.heap.len = 4)
    [⟨1, .switch 154 0 100⟩, ⟨2, .reverse 1 8 110⟩, ⟨3, .worker 99 true⟩, ⟨3, .worker 110 true⟩,
      ⟨3, .worker 110 true⟩] rfl (by decide +kernel)
  exact ⟨_, s, h_s, sent_once h_reach⟩

/-! ### The order of the commands -/

/-- No command that is pending is earlier than the one that is handed out. -/
def EarlierFirst (past : List TrainLog) : TrainLog → Prop
  | .command _ cmd _ => ∀ other ∈ scheduled past, other.1.time < cmd.1.time → other ∈ sent past
  | _ => True

instance (past : List TrainLog) : DecidablePred (EarlierFirst past)
  | .command _ cmd _ =>
    inferInstanceAs
      (Decidable (∀ other ∈ scheduled past, other.1.time < cmd.1.time → other ∈ sent past))
  | .reply .. | .scheduled .. => isTrue trivial

/-- **Of two pending commands the earlier one is handed out first.** The heap is keyed on the times
alone, so nothing is said of commands for the same time.

What is handed out is the least of what is pending (`Accounted.onTime`). So if a command has been
scheduled and not sent when another one is handed out, its time is not before the other's. -/
theorem earlier_first (h : trainSystem.Reaches Timely ms s) : AtEach EarlierFirst s.log := by
  refine (Accounted.of_reaches h).onTime.mono fun past e h_e => ?_
  cases e with
  | reply | scheduled => trivial
  | command client cmd time =>
    intro other h_other h_time
    by_contra h_sent
    -- what has been scheduled and not sent is pending, and the least of it is handed out
    have h_pending : other ∈ pendingAfter past := by
      rw [pendingAfter, Multiset.mem_sub,
        Multiset.count_eq_zero.mpr (Multiset.mem_coe.not.mpr h_sent)]
      exact Multiset.count_pos.mpr (Multiset.mem_coe.mpr h_other)
    exact absurd h_time (not_lt.mpr (h_e.2.2 other h_pending))

/-- Two commands, of which the one that was requested last is handed out first. -/
theorem earlier_first_reordered : ∃ s : TrainServer, (sent s.log).map (fun cmd => cmd.2) = [1, 0] ∧
    AtEach EarlierFirst s.log := by
  obtain ⟨s, h_reach, h_s⟩ := System.exists_reaches_of_play trainNext_step Timely
    (fun s => (sent s.log).map (fun cmd => cmd.2) = [1, 0])
    [⟨1, .speed 0 14 200⟩, ⟨2, .speed 1 0 100⟩, ⟨3, .worker 150 true⟩, ⟨3, .worker 200 true⟩] rfl
    (by decide +kernel)
  exact ⟨s, h_s, earlier_first h_reach⟩

/-- Of two pending commands, neither later than the other, the one that was requested first is
handed out first. -/
def RequestOrder (past : List TrainLog) : TrainLog → Prop
  | .command _ cmd _ => ∀ other ∈ scheduled past, other.2 < cmd.2 → other.1.time ≤ cmd.1.time →
    other ∈ sent past
  | _ => True

instance (past : List TrainLog) : DecidablePred (RequestOrder past)
  | .command _ cmd _ => inferInstanceAs (Decidable (∀ other ∈ scheduled past, other.2 < cmd.2 →
    other.1.time ≤ cmd.1.time → other ∈ sent past))
  | .reply .. | .scheduled .. => isTrue trivial

/-- Four commands for one tick: when the first is gone the last is put on top, and the right
of the two below it rises, which is the third. And with times beyond that of an empty slot
even a later command can overtake an earlier one. -/
theorem not_request_order :
    (¬∀ ms s, trainSystem.Reaches Timely ms s → AtEach RequestOrder s.log) ∧
      ¬∀ ms s, trainSystem.Reaches (fun _ _ => True) ms s → AtEach EarlierFirst s.log := by
  constructor
  · intro h
    obtain ⟨s, h_reach, h_s⟩ := System.exists_reaches_of_play trainNext_step Timely
      (fun s => ¬AtEach RequestOrder s.log)
      [⟨1, .speed 0 14 100⟩, ⟨1, .speed 0 10 100⟩, ⟨1, .speed 0 5 100⟩, ⟨1, .speed 0 0 100⟩,
        ⟨3, .worker 100 true⟩, ⟨3, .worker 100 true⟩] rfl (by decide +kernel)
    exact h_s (h _ s h_reach)
  · intro h
    obtain ⟨s, h_reach, h_s⟩ := System.exists_reaches_of_play trainNext_step (fun _ _ => True)
      (fun s => ¬AtEach EarlierFirst s.log)
      [⟨1, .speed 0 14 1⟩, ⟨1, .speed 0 10 0x00FFFFFF⟩, ⟨1, .speed 0 0 0x01000004⟩,
        ⟨3, .worker 1 true⟩, ⟨3, .worker 0x01000004 true⟩] rfl (by decide +kernel)
    exact h_s (h _ s h_reach)

end Train
end PollingExpress
