import Mathlib.Algebra.Order.Ring.Int
import Mathlib.Data.Prod.Lex
import Mathlib.Data.Set.Lattice
import Mathlib.Order.CompletePartialOrder
import PollingExpress.Framework.Chain
import PollingExpress.Framework.Heap

/-!
# Task descriptors and the scheduler

The data model of `kernel/task.c`: the array of task descriptors, the free list
and the ready heap. A `TCB *` that points into `backing` is the index of the
descriptor, and a null pointer is `none`; `next` is one field shared by the free
list and the send queues, as in the source.

The scheduler's two assertions, and everything else that stops the kernel, are
`Halt`s. The user's memory is kept apart from the kernel's and is split by the
type of the object at an address: message bytes, the `int` a `Receive` stores
the sender's tid in, and the argument blocks the system call wrappers build.

Two fields of `Kernel` are not in the source. `timer3` is the sequence of values
the down counter will be read as, fixed from the start and consumed through
`reads`. `log` is a ghost record of what the scheduler and the message passing
did; no definition reads it.
-/

namespace PollingExpress

/-- `MAX_NUM_TASKS`. -/
def maxNumTasks : ℕ := 125

/-- `MAX_TASK_NAME_LEN`. -/
def maxTaskNameLen : ℕ := 30

/-- A task descriptor, by its position in `backing`. -/
abbrev TaskTid := Fin maxNumTasks

instance : NeZero maxNumTasks := ⟨by decide⟩

/-- `tcb_state`. The source never assigns `active` or `event`. -/
inductive TcbState
  | active | ready | zombie | send | receive | reply | event
  deriving DecidableEq, Repr

/-- The events of `enum Event`, without the closing `NUMBER_OF_EVENTS`. -/
inductive Event
  | breakIdle | timerTick | uart1RxIntr | uart1TxIntr | uart2TxHalfEmpty | uart2RxIncoming
  deriving DecidableEq, Repr

/-- A string that fits, with its final NUL, in the `char[MAX_TASK_NAME_LEN]` of a
descriptor. -/
structure TaskName where
  text : String
  fits : text.length < maxTaskNameLen

instance : Inhabited TaskName := ⟨⟨"", by decide⟩⟩

abbrev Byte := UInt8

/-! ### User memory -/

structure SendArgs where
  tid : Int
  msg : Int
  msglen : Int
  reply : Int
  rplen : Int
  deriving DecidableEq

structure ReceiveArgs where
  tid : Int
  msg : Int
  msglen : Int
  deriving DecidableEq

structure ReplyArgs where
  tid : Int
  reply : Int
  rplen : Int

/-- The wrapper copies the name into the block without a bound, so it is any string. -/
structure CreateArgs where
  priority : Int
  name : String

/-- User memory, by the type of the object at an address. Addresses are integers. -/
structure Memory where
  bytes : Int → Byte
  /-- The `int` objects that `Receive` stores a tid in. -/
  tids : Int → Int
  sendArgs : Int → SendArgs
  receiveArgs : Int → ReceiveArgs
  replyArgs : Int → ReplyArgs
  createArgs : Int → CreateArgs

/-- The `n` bytes from address `a` on. -/
def readBytes (bytes : Int → Byte) (a : Int) (n : ℕ) : List Byte :=
  (List.range n).map fun i : ℕ => bytes (a + i)

/-! ### The kernel's state -/

/-- The saved registers of a task. `r0` carries the argument of a system call in
and its result out; the kernel touches no other register of a running task. -/
structure UserTask where
  r0 : Int

structure TCB where
  next : Option TaskTid
  taskName : TaskName
  tid : Int
  priority : Int
  state : TcbState
  parentTid : Int
  context : UserTask
  addedTime : ℕ
  wantSend : Option TaskTid
  wantSendEnd : Option TaskTid

/-- The interrupt enable bits of a UART's control register. -/
structure UartCtrl where
  msien : Bool
  rien : Bool
  tien : Bool
  rtien : Bool

/-- Why the kernel does not get back to the head of its loop.

`nestedTrap` is what `debugprint` does in the kernel: it prints through
`printf`, whose `WhoIsBlock` sends to the name server, and that `swi` is taken
while `user_reg` is null. `return_swi` then saves the registers over the
exception vectors at address 0 and resumes the last `switch_user` a second
time. -/
inductive Halt
  /-- The loop condition failed. -/
  | exited
  | shutdown
  /-- `KASSERT`, with its text. -/
  | assertion (text : String)
  /-- A descriptor or an event slot outside its array was accessed. -/
  | outOfBounds
  /-- A name was copied past the end of `task_name`, over the rest of the descriptor. -/
  | nameOverrun
  | nestedTrap (text : String)
  deriving DecidableEq

/-- What happened to the ready heap and to messages, in order. -/
inductive KernelEvent
  /-- `add_to_ready_queue t`, at priority `priority`, stamped `stamp`. -/
  | ready (t : TaskTid) (priority : Int) (stamp : ℕ)
  /-- `pop_ready_queue` returned `t`. -/
  | popped (t : TaskTid)
  /-- The `Send` of `msg` from `src` to `dst` was accepted. -/
  | sent (src dst : TaskTid) (msg : List Byte)
  /-- `handle_send`: `dst` took a message of `src`. Its `int` now holds `tid`,
  the `Receive` returns `ret`, and `buf` is what the first `ret` bytes of its
  buffer at `addr` hold; the buffer has room for `cap`. -/
  | received (src dst : TaskTid) (tid : Int) (buf : List Byte) (ret cap : Int) (addr : Int)
  /-- The `Reply` of `replier` to `src` with `reply` was accepted. The `Send` of
  `src` returns `retSrc` with `buf` in the first `retSrc` bytes of its reply
  buffer at `addr`, which has room for `cap`; the `Reply` returns `retBy`. -/
  | replied (src replier : TaskTid) (reply buf : List Byte) (retSrc retBy cap : Int) (addr : Int)
  deriving DecidableEq

/-- The events of message passing, as opposed to those of the ready heap. -/
def KernelEvent.IsMessage : KernelEvent → Prop
  | .ready .. | .popped _ => False
  | .sent .. | .received .. | .replied .. => True

instance : DecidablePred KernelEvent.IsMessage
  | .ready .. | .popped _ => .isFalse id
  | .sent .. | .received .. | .replied .. => .isTrue trivial

/-- The variables of `kmain` and the static ones of `task.c`, the memory of the tasks, the readings
of TIMER3, and a log of what has happened. A descriptor is its index into `backing`, and a pointer
to one that may be null is an option. -/
structure Kernel where
  backing : TaskTid → TCB
  freeTcb : Option TaskTid
  readyQueue : ℕ → TaskTid
  count : ℕ
  eventMapping : Event → Option TaskTid
  interruptTasks : Int
  uart1TxFlag : ℕ
  uart1Ctrl : UartCtrl
  uart2Ctrl : UartCtrl
  mem : Memory
  timer3 : ℕ → ℕ
  reads : ℕ
  log : List KernelEvent

namespace Kernel

/-- Write one descriptor. -/
def modify (k : Kernel) (t : TaskTid) (f : TCB → TCB) : Kernel :=
  { k with backing := Function.update k.backing t (f (k.backing t)) }

theorem modify_self (k : Kernel) (t : TaskTid) (f : TCB → TCB) :
    (k.modify t f).backing t = f (k.backing t) := Function.update_self _ _ _

theorem modify_of_ne (k : Kernel) {t s : TaskTid} (f : TCB → TCB) (h : s ≠ t) :
    (k.modify t f).backing s = k.backing s := Function.update_of_ne h _ _

/-- A field that the write keeps. -/
theorem modify_keep {β : Type*} (g : TCB → β) {f : TCB → TCB} (h : ∀ c, g (f c) = g c)
    (k : Kernel) (t s : TaskTid) : g ((k.modify t f).backing s) = g (k.backing s) := by
  by_cases h_eq : s = t
  · rw [h_eq, modify_self, h]
  · rw [modify_of_ne k f h_eq]

def setState (k : Kernel) (t : TaskTid) (s : TcbState) : Kernel :=
  k.modify t fun c => { c with state := s }

def getData (k : Kernel) (t : TaskTid) : Int := (k.backing t).context.r0

def setReturn (k : Kernel) (t : TaskTid) (data : Int) : Kernel :=
  k.modify t fun c => { c with context := { r0 := data } }

def record (k : Kernel) (e : KernelEvent) : Kernel := { k with log := k.log ++ [e] }

/-- `read_timer(TIMER3, ..)`: the value read, and the kernel after the read. -/
def readTimer (k : Kernel) : ℕ × Kernel := (k.timer3 k.reads, { k with reads := k.reads + 1 })

/-! ### The ready heap -/

/-- `cmp_priority`, on the tasks in slots `a` and `b`. -/
def cmpPriority (backing : TaskTid → TCB) (q : ℕ → TaskTid) (a b : ℕ) : Int :=
  if (backing (q a)).priority > (backing (q b)).priority then 1
  else if (backing (q a)).priority < (backing (q b)).priority then -1
  else if (backing (q a)).addedTime > (backing (q b)).addedTime then 1
  else -1

/-- The loop of `add_to_ready_queue`. Every round at least halves `i`, so `i`
rounds are enough. -/
def bubbleUp (backing : TaskTid → TCB) : ℕ → (ℕ → TaskTid) → ℕ → (ℕ → TaskTid)
  | 0, q, _ => q
  | fuel + 1, q, i =>
    if i ≠ 0 ∧ cmpPriority backing q i (heapParent i) = 1 then
      bubbleUp backing fuel (swap q i (heapParent i)) (heapParent i)
    else q

/-- The child `top_down_heapify` goes on with, or `i` itself. -/
def largestOf (backing : TaskTid → TCB) (count : ℕ) (q : ℕ → TaskTid) (i : ℕ) : ℕ :=
  let l := 2 * i + 1
  let r := 2 * i + 2
  let largest := if l < count ∧ cmpPriority backing q l i = 1 then l else i
  if r < count ∧ cmpPriority backing q r largest = 1 then r else largest

/-- `top_down_heapify`. The slot moves down and stays below `count`, so `count`
calls are enough. -/
def topDownHeapify (backing : TaskTid → TCB) (count : ℕ) : ℕ → (ℕ → TaskTid) → ℕ → (ℕ → TaskTid)
  | 0, q, _ => q
  | fuel + 1, q, i =>
    let largest := largestOf backing count q i
    if largest ≠ i then topDownHeapify backing count fuel (swap q i largest) largest else q

def schedulerLength (k : Kernel) : ℕ := k.count

def addToReadyQueue (k : Kernel) (t : TaskTid) : Except Halt Kernel :=
  if k.count < maxNumTasks then
    let stamp := k.readTimer.1
    let k := k.readTimer.2.modify t fun c => { c with addedTime := stamp }
    let i := k.count
    let q := Function.update k.readyQueue i t
    .ok ({ k with count := k.count + 1, readyQueue := bubbleUp k.backing i q i }.record
      (.ready t (k.backing t).priority stamp))
  else .error (.assertion "Ready queue should have space to add")

def popReadyQueue (k : Kernel) : Except Halt (TaskTid × Kernel) :=
  if k.count > 0 then
    let ret := k.readyQueue 0
    let k := k.record (.popped ret)
    if k.count = 1 then .ok (ret, { k with count := k.count - 1 })
    else
      let q := Function.update k.readyQueue 0 (k.readyQueue (k.count - 1))
      let count := k.count - 1
      .ok (ret, { k with count, readyQueue := topDownHeapify k.backing count count q 0 })
  else .error (.assertion "Ready queue should contain TCB's to pop")

/-! ### Descriptors -/

def eNoTaskDescriptors : Int := -2

/-- `ret`, the first free descriptor, is taken and filled in. -/
def takeFree (k : Kernel) (ret : TaskTid) (priority : Int) (parentTid : Int) (name : TaskName) :
    Kernel :=
  let k := { k with freeTcb := (k.backing ret).next }
  k.modify ret fun c => { c with
    next := none, parentTid, priority, state := .ready, taskName := name, context := { r0 := 0 } }

/-- `scheduler_add`. Its `strncpy` stops at the NUL of the name and nowhere else, so a
name that does not fit is written over what follows `task_name`. -/
def schedulerAdd (k : Kernel) (priority : Int) (parentTid : Int) (name : String) :
    Except Halt (Int × Kernel) :=
  match k.freeTcb with
  | none => .ok (eNoTaskDescriptors, k)
  | some ret =>
    if h : name.length < maxTaskNameLen then do
      let k ← (k.takeFree ret priority parentTid ⟨name, h⟩).addToReadyQueue ret
      .ok ((k.backing ret).tid, k)
    else .error .nameOverrun

/-- `scheduler_init`, over descriptors whose other fields are whatever the stack
held. -/
def schedulerInit (stack : TaskTid → TCB) : TaskTid → TCB := fun i =>
  { stack i with
    state := .zombie
    tid := i
    wantSend := none
    wantSendEnd := none
    next := if h : i.val + 1 < maxNumTasks then some ⟨i.val + 1, h⟩ else none }

end Kernel
end PollingExpress
