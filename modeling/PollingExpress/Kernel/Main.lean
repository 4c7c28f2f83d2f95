import PollingExpress.Framework.Fallible
import PollingExpress.Framework.System
import PollingExpress.Kernel.Task

/-!
# The kernel loop

`kmain` is one round of the loop in `main.c`: test the loop condition, take the
task at the root of the ready heap, let it run until it traps, and serve the
trap. What the task did to memory, the trap and what the hardware shows are the
round's input (`UserRun`); a round that does not come back to the loop head ends
in a `Halt`.

`Kernel.system` is the transition system of these rounds from any boot.
-/

namespace PollingExpress

/-- The interrupt identification bits of a UART, at one read. -/
structure UartIntr where
  mis : Bool
  ris : Bool
  tis : Bool
  rtis : Bool
  deriving DecidableEq

/-- What the interrupt handler reads. UART1's interrupt register is read three
times and its modem status twice, so each read has its own value. -/
structure IrqStatus where
  timer1 : Bool
  uart2 : Bool
  uart2Intr : UartIntr
  uart1 : Bool
  uart1IntrRx : UartIntr
  uart1IntrTx : UartIntr
  uart1IntrModem : UartIntr
  mdmstsDcts : Bool
  mdmstsCts : Bool
  deriving DecidableEq

/-- Why `run_user` came back, with what the hardware then shows. `other` is a
`swi` with a number that `kmain` does not know. -/
inductive Syscall
  | irq (status : IrqStatus)
  | create | myTid | myParentTid | yield | exit | shutdown
  | send | receive | reply | awaitEvent
  | other
  deriving DecidableEq

/-- What the environment supplies for one round of the loop: what the task that runs has made of
memory, why it traps, and what the hardware shows. Nothing is asked of it, but for what a theorem
says. -/
structure UserRun where
  /-- UART1's overrun bit, tested at the loop head. -/
  overrun : Bool
  /-- Memory when the task traps. -/
  mem : Memory
  /-- Its `r0` when it traps. -/
  r0 : Int
  why : Syscall

/-- The interrupts that `enable_interrupt` and `disable_interrupt` are called
with. -/
inductive InterruptType
  | uart1CtsIntr | uart1TxIntr | uart1RxIntr | uart2TxIntr | uart2RxIntr | uart2RtieIntr

/-- The event number `n`, if it is declared. -/
def Event.ofInt (n : Int) : Option Event :=
  if n = 0 then some .breakIdle
  else if n = 1 then some .timerTick
  else if n = 2 then some .uart1RxIntr
  else if n = 3 then some .uart1TxIntr
  else if n = 4 then some .uart2TxHalfEmpty
  else if n = 5 then some .uart2RxIncoming
  else none

/-- The index of `backing[tid]`, if it is inside the array. -/
def taskAt (tid : Int) : Option TaskTid :=
  if h : 0 ≤ tid ∧ tid.toNat < maxNumTasks then some ⟨tid.toNat, h.2⟩ else none

def eInvalidTid : Int := -1

def eNotReplyWait : Int := -2

/-- The copy loop of `msg_copy`: the first `n` bytes, one after the other. -/
def msgCopyLoop (bytes : Int → Byte) (src dest : Int) : ℕ → (Int → Byte)
  | 0 => bytes
  | n + 1 =>
    let bytes := msgCopyLoop bytes src dest n
    Function.update bytes (dest + n) (bytes (src + n))

/-- `msg_copy`: the number returned, and the bytes afterwards. -/
def msgCopy (bytes : Int → Byte) (src : Int) (srclen : Int) (dest : Int) (destlen : Int) :
    Int × (Int → Byte) :=
  let n := if srclen < destlen then srclen else destlen
  (n, msgCopyLoop bytes src dest n.toNat)

namespace Kernel

/-! ### Interrupt enables -/

def setInterrupt (k : Kernel) (i : InterruptType) (on : Bool) : Kernel :=
  match i with
  | .uart1CtsIntr => { k with uart1Ctrl := { k.uart1Ctrl with msien := on } }
  | .uart1TxIntr => { k with uart1Ctrl := { k.uart1Ctrl with tien := on } }
  | .uart1RxIntr => { k with uart1Ctrl := { k.uart1Ctrl with rien := on } }
  | .uart2RxIntr => { k with uart2Ctrl := { k.uart2Ctrl with rien := on } }
  | .uart2TxIntr => { k with uart2Ctrl := { k.uart2Ctrl with tien := on } }
  | .uart2RtieIntr => { k with uart2Ctrl := { k.uart2Ctrl with rtien := on } }

def enableInterrupt (k : Kernel) (i : InterruptType) : Kernel := k.setInterrupt i true

def disableInterrupt (k : Kernel) (i : InterruptType) : Kernel := k.setInterrupt i false

/-! ### Message passing -/

/-- `handle_send` up to its last line: `dst` gets the message of `src`. -/
def deliver (k : Kernel) (src dst : TaskTid) : Kernel :=
  let k := k.setState src .reply
  let k := k.setState dst .ready
  let sArgs := k.mem.sendArgs (k.getData src)
  let rArgs := k.mem.receiveArgs (k.getData dst)
  let tids := Function.update k.mem.tids rArgs.tid (k.backing src).tid
  let copy := msgCopy k.mem.bytes sArgs.msg sArgs.msglen rArgs.msg rArgs.msglen
  let k := { k with mem := { k.mem with tids, bytes := copy.2 } }
  let k := k.setReturn dst copy.1
  k.record (.received src dst (k.mem.tids rArgs.tid)
    (readBytes k.mem.bytes rArgs.msg copy.1.toNat) (k.getData dst) rArgs.msglen rArgs.msg)

/-- `handle_send`. -/
def handleSend (k : Kernel) (src dst : TaskTid) : Except Halt Kernel :=
  (k.deliver src dst).addToReadyQueue dst

/-- `cur` waits at the end of `target`'s send queue. -/
def enqueueSender (k : Kernel) (cur target : TaskTid) : Kernel :=
  let k := k.modify cur fun c => { c with state := .send, next := none }
  let k := match (k.backing target).wantSendEnd with
    | some last => k.modify last fun c => { c with next := some cur }
    | none => k.modify target fun c => { c with wantSend := some cur }
  k.modify target fun c => { c with wantSendEnd := some cur }

/-- The ghost record of an accepted `Send`. -/
def sendEvent (k : Kernel) (cur target : TaskTid) : KernelEvent :=
  let args := k.mem.sendArgs (k.getData cur)
  .sent cur target (readBytes k.mem.bytes args.msg args.msglen.toNat)

/-- `SYSCALL_SEND`. The range test lets `MAX_NUM_TASKS` through, and
`backing[MAX_NUM_TASKS]` is no descriptor. -/
def syscallSend (k : Kernel) (cur : TaskTid) : Except Halt Kernel :=
  let args := k.mem.sendArgs (k.getData cur)
  if args.tid < 0 ∨ args.tid > maxNumTasks then
    (k.setReturn cur eInvalidTid).addToReadyQueue cur
  else
    match taskAt args.tid with
    -- `MAX_NUM_TASKS` itself
    | none => .error .outOfBounds
    | some target =>
      if (k.backing target).state = .zombie then
        (k.setReturn cur eInvalidTid).addToReadyQueue cur
      else
        let k := k.record (k.sendEvent cur target)
        -- a target that waits gets the message now
        if (k.backing target).state = .receive then k.handleSend cur target
        else .ok (k.enqueueSender cur target)

/-- `src`, the first of `cur`'s send queue, leaves it. -/
def dequeueSender (k : Kernel) (cur src : TaskTid) : Kernel :=
  let k := k.modify cur fun c => { c with wantSend := (k.backing src).next }
  let k := if (k.backing cur).wantSend = none then
      k.modify cur fun c => { c with wantSendEnd := none }
    else k
  k.modify src fun c => { c with next := none }

/-- `SYSCALL_RECEIVE`. -/
def syscallReceive (k : Kernel) (cur : TaskTid) : Except Halt Kernel :=
  match (k.backing cur).wantSend with
  | some src => (k.dequeueSender cur src).handleSend src cur
  | none => .ok (k.setState cur .receive)

/-- The text that a rejected `Reply` hands to `debugprint`. -/
def replyErrorText (k : Kernel) (cur target : TaskTid) (err : String) : String :=
  "[" ++ (k.backing cur).taskName.text ++ "] Reply to [" ++
    (k.backing target).taskName.text ++ "] " ++ err

/-- A rejected `Reply`: the caller gets `code` and is ready again, and then
`debugprint` does not come back (`Halt.nestedTrap`). -/
def rejectReply (k : Kernel) (cur : TaskTid) (code : Int) (text : String) : Except Halt Kernel := do
  let _ ← (k.setReturn cur code).addToReadyQueue cur
  .error (.nestedTrap text)

/-- The copy of a `Reply` of `cur` into the buffer of `target`, and the count that
both get. -/
def replyCopy (k : Kernel) (cur target : TaskTid) : Int × (Int → Byte) :=
  let args := k.mem.replyArgs (k.getData cur)
  let sArgs := k.mem.sendArgs (k.getData target)
  msgCopy k.mem.bytes args.reply args.rplen sArgs.reply sArgs.rplen

/-- `target` gets the reply of `cur`. -/
def deliverReply (k : Kernel) (cur target : TaskTid) : Kernel :=
  let copy := k.replyCopy cur target
  let k := k.setState target .ready
  let k := { k with mem := { k.mem with bytes := copy.2 } }
  k.setReturn target copy.1

/-- The ghost record of a `Reply`, from the two kernel states around it. -/
def replyEvent (k k' : Kernel) (cur target : TaskTid) : KernelEvent :=
  let args := k.mem.replyArgs (k.getData cur)
  let sArgs := k.mem.sendArgs (k.getData target)
  .replied target cur (readBytes k.mem.bytes args.reply args.rplen.toNat)
    (readBytes k'.mem.bytes sArgs.reply (k'.getData target).toNat)
    (k'.getData target) (k'.getData cur) sArgs.rplen sArgs.reply

/-- `SYSCALL_REPLY`. There is no range test on the tid, and both error branches
end in a `debugprint`. -/
def syscallReply (k : Kernel) (cur : TaskTid) : Except Halt Kernel :=
  let args := k.mem.replyArgs (k.getData cur)
  match taskAt args.tid with
  | none => .error .outOfBounds
  | some target =>
    if (k.backing target).state = .zombie then
      k.rejectReply cur eInvalidTid (k.replyErrorText cur target "EINVALIDTID")
    else if (k.backing target).state ≠ .reply then
      k.rejectReply cur eNotReplyWait (k.replyErrorText cur target "ENOTREPLYWAIT")
    else do
      let ret := (k.replyCopy cur target).1
      -- the target is ready before the caller
      let k' ← (k.deliverReply cur target).addToReadyQueue target
      let k' := k'.setReturn cur ret
      (k'.record (k.replyEvent k' cur target)).addToReadyQueue cur

/-! ### Events -/

/-- `wake_up`. -/
def wakeUp (k : Kernel) (e : Event) : Except Halt (Bool × Kernel) :=
  match k.eventMapping e with
  | some waiting => do
    let k := { k with
      eventMapping := Function.update k.eventMapping e none
      interruptTasks := k.interruptTasks - 1 }
    let k ← (k.setReturn waiting 0).addToReadyQueue waiting
    .ok (true, k)
  | none => .ok (false, k)

/-- `cur` waits for event `e`. -/
def awaitIn (k : Kernel) (cur : TaskTid) (e : Event) : Kernel :=
  { k with
    eventMapping := Function.update k.eventMapping e (some cur)
    interruptTasks := k.interruptTasks + 1 }

/-- `SYSCALL_AWAITEVENT`. The slot is read before the number is looked at. -/
def syscallAwaitEvent (k : Kernel) (cur : TaskTid) : Except Halt Kernel :=
  match Event.ofInt (k.getData cur) with
  | none => .error .outOfBounds
  | some e =>
    if k.eventMapping e ≠ none then
      .error (.assertion "No other task should be waiting for this event")
    else
      match e with
      | .breakIdle =>
        -- the processor halts between the two readings
        let (startTime, k) := k.readTimer
        let (endTime, k) := k.readTimer
        (k.setReturn cur (((startTime : Int) - endTime).bmod (2 ^ 32))).addToReadyQueue cur
      | .uart1TxIntr =>
        let k := (k.enableInterrupt .uart1TxIntr).enableInterrupt .uart1CtsIntr
        .ok { k.awaitIn cur e with uart1TxFlag := 0 }
      | .uart1RxIntr => .ok ((k.enableInterrupt .uart1RxIntr).awaitIn cur e)
      | .uart2TxHalfEmpty => .ok ((k.enableInterrupt .uart2TxIntr).awaitIn cur e)
      | .uart2RxIncoming =>
        .ok (((k.enableInterrupt .uart2RxIntr).enableInterrupt .uart2RtieIntr).awaitIn cur e)
      | .timerTick => .ok (k.awaitIn cur e)

/-- Wake the task that waits for `e` and go on with `f`; an empty slot is the
assertion "Nobody home". -/
def wakeUpOrHalt (k : Kernel) (e : Event) (f : Kernel → Kernel) : Except Halt Kernel := do
  let (woken, k) ← k.wakeUp e
  if woken then .ok (f k) else .error (.assertion "Nobody home")

/-- The timer part of the interrupt handler: a tick that nobody waits for is
dropped. -/
def irqTimer (k : Kernel) (s : IrqStatus) : Except Halt Kernel :=
  if s.timer1 then do
    let (_, k) ← k.wakeUp .timerTick
    .ok k
  else .ok k

/-- The UART2 part of the interrupt handler. -/
def irqUart2 (k : Kernel) (s : IrqStatus) : Except Halt Kernel :=
  if s.uart2 then
    if s.uart2Intr.rtis ∨ s.uart2Intr.ris then
      k.wakeUpOrHalt .uart2RxIncoming fun k =>
        (k.disableInterrupt .uart2RxIntr).disableInterrupt .uart2RtieIntr
    -- received bytes hide the transmitter
    else if s.uart2Intr.tis then
      k.wakeUpOrHalt .uart2TxHalfEmpty fun k => k.disableInterrupt .uart2TxIntr
    else .ok k
  else .ok k

/-- The receive part of the UART1 handler. -/
def irqUart1Rx (k : Kernel) (s : IrqStatus) : Except Halt Kernel :=
  if s.uart1IntrRx.ris then
    k.wakeUpOrHalt .uart1RxIntr fun k => k.disableInterrupt .uart1RxIntr
  else .ok k

/-- The two halves of the UART1 transmit condition. -/
def irqUart1Flags (k : Kernel) (s : IrqStatus) : Kernel :=
  let k := if s.uart1IntrTx.tis then
      { k with uart1TxFlag := k.uart1TxFlag ||| 1 }.disableInterrupt .uart1TxIntr
    else k
  if s.uart1IntrModem.mis ∧ s.mdmstsDcts ∧ s.mdmstsCts then
    { k with uart1TxFlag := k.uart1TxFlag ||| 2 }.disableInterrupt .uart1CtsIntr
  else k

/-- The UART1 part of the interrupt handler. -/
def irqUart1 (k : Kernel) (s : IrqStatus) : Except Halt Kernel :=
  if s.uart1 then do
    let k ← k.irqUart1Rx s
    let k := k.irqUart1Flags s
    -- the two bits may come from different interrupts
    if k.uart1TxFlag = 3 then
      k.wakeUpOrHalt .uart1TxIntr fun k => { k with uart1TxFlag := 0 }
    else .ok k
  else .ok k

/-- `SYSCALL_IRQ`. -/
def syscallIrq (k : Kernel) (cur : TaskTid) (s : IrqStatus) : Except Halt Kernel := do
  let k ← k.irqTimer s
  let k ← k.irqUart2 s
  let k ← k.irqUart1 s
  k.addToReadyQueue cur

/-! ### The loop -/

/-- `SYSCALL_CREATE`. -/
def syscallCreate (k : Kernel) (cur : TaskTid) : Except Halt Kernel := do
  let args := k.mem.createArgs (k.getData cur)
  let (ret, k) ← k.schedulerAdd args.priority (k.backing cur).tid args.name
  (k.setReturn cur ret).addToReadyQueue cur

/-- The branch of `kmain` for each trap of `cur`. -/
def serve (k : Kernel) (cur : TaskTid) : Syscall → Except Halt Kernel
  | .create => k.syscallCreate cur
  | .myTid => (k.setReturn cur (k.backing cur).tid).addToReadyQueue cur
  | .myParentTid => (k.setReturn cur (k.backing cur).parentTid).addToReadyQueue cur
  | .yield => k.addToReadyQueue cur
  | .exit => .ok (k.setState cur .zombie)
  | .shutdown => .error .shutdown
  | .send => k.syscallSend cur
  | .receive => k.syscallReceive cur
  | .reply => k.syscallReply cur
  | .awaitEvent => k.syscallAwaitEvent cur
  | .irq s => k.syscallIrq cur s
  | .other => .error (.assertion "Unknown Syscall\r\n")

/-- `run_user`: the task runs until it traps. -/
def runUser (k : Kernel) (cur : TaskTid) (u : UserRun) : Kernel :=
  { k.setReturn cur u.r0 with mem := u.mem }

/-- One round of the loop of `kmain`. A round that does not come back to the head of the loop is an
error, a shutdown and the end of the loop among them. -/
def kmain (k : Kernel) (u : UserRun) : Except Halt Kernel :=
  if k.schedulerLength > 1 ∨ k.interruptTasks ≠ 0 then
    -- `OE_MASK` in the receive status of UART1
    if u.overrun then .error (.assertion "Dropped sensor byte")
    else do
      let (cur, k) ← k.popReadyQueue
      (k.runUser cur u).serve cur u.why
  else .error .exited

/-- What `kmain` finds when it starts. -/
structure BootEnv where
  stack : TaskTid → TCB
  readyQueue : ℕ → TaskTid
  uart1Ctrl : UartCtrl
  uart2Ctrl : UartCtrl
  mem : Memory
  timer3 : ℕ → ℕ

/-- `kmain` up to the first `scheduler_add`: `uart_init`, `enable_irq` and
`scheduler_init`. -/
def bootKernel (env : BootEnv) : Kernel :=
  let k : Kernel := {
    backing := schedulerInit env.stack
    freeTcb := some ⟨0, by decide⟩
    readyQueue := env.readyQueue
    count := 0
    eventMapping := fun _ => none
    interruptTasks := 0
    uart1TxFlag := 0
    uart1Ctrl := env.uart1Ctrl
    uart2Ctrl := { env.uart2Ctrl with tien := true, rien := true, rtien := true }
    mem := env.mem
    timer3 := env.timer3
    reads := 0
    log := [] }
  -- `enable_irq` turns the single sources off
  let k := ((k.disableInterrupt .uart1RxIntr).disableInterrupt .uart1TxIntr).disableInterrupt
    .uart1CtsIntr
  ((k.disableInterrupt .uart2RxIntr).disableInterrupt .uart2TxIntr).disableInterrupt .uart2RtieIntr

/-- `kmain` up to its loop. -/
def boot (env : BootEnv) : Except Halt Kernel := do
  let (_, k) ← (bootKernel env).schedulerAdd (-99) (-1) "idle"
  let (_, k) ← k.schedulerAdd 100 (-1) "k1init"
  .ok k

/-- TIMER3 counts down from `2 ^ 32 - 1` and reloads after 0; `elapsed i` is how
often it had counted when it was read for the `i`-th time. -/
def Timer3 (timer3 : ℕ → ℕ) : Prop :=
  ∃ elapsed : ℕ → ℕ, Monotone elapsed ∧ ∀ i, timer3 i = 2 ^ 32 - 1 - elapsed i % 2 ^ 32

/-- The kernel's rounds, from any boot. -/
def system : System Kernel UserRun where
  init k := ∃ env : BootEnv, Timer3 env.timer3 ∧ boot env = .ok k
  step k u k' := kmain k u = .ok k'

/-! ### A board to run on -/

/-- Cleared memory. -/
def zeroMemory : Memory where
  bytes _ := 0
  tids _ := 0
  sendArgs _ := ⟨0, 0, 0, 0, 0⟩
  receiveArgs _ := ⟨0, 0, 0⟩
  replyArgs _ := ⟨0, 0, 0⟩
  createArgs _ := ⟨0, ""⟩

/-- A board with cleared memory, whose TIMER3 is read as `timer3`. -/
def zeroBoard (timer3 : ℕ → ℕ) : BootEnv where
  stack _ := ⟨none, default, 0, 0, .active, 0, ⟨0⟩, 0, none, none⟩
  readyQueue _ := ⟨0, by decide⟩
  uart1Ctrl := ⟨false, false, false, false⟩
  uart2Ctrl := ⟨false, false, false, false⟩
  mem := zeroMemory
  timer3 := timer3

/-- TIMER3 read once per tick. -/
def tickingTimer (i : ℕ) : ℕ := 2 ^ 32 - 1 - i % 2 ^ 32

theorem timer3_ticking : Timer3 tickingTimer := ⟨id, monotone_id, fun _ => rfl⟩

/-- The first loop head after a boot. -/
def loopHead (env : BootEnv) : Kernel :=
  match boot env with
  | .ok k => k
  | .error _ => bootKernel env

/-- The first loop head on a board with cleared memory. -/
def firstLoopHead : Kernel := loopHead (zeroBoard tickingTimer)

theorem init_firstLoopHead : system.init firstLoopHead :=
  ⟨zeroBoard tickingTimer, timer3_ticking, rfl⟩

/-- A round without an overrun, in memory `mem`. -/
def userRun (mem : Memory) (r0 : Int) (why : Syscall) : UserRun := ⟨false, mem, r0, why⟩

/-- A task that creates one of the given priority. -/
def createRun (priority : Int) : UserRun :=
  userRun { zeroMemory with createArgs := fun _ => ⟨priority, ""⟩ } 0 .create

/-- A task whose arguments are all at address 0: a `Send` and a `Reply` to `tid`. -/
def messageRun (tid : Int) (why : Syscall) : UserRun :=
  userRun { zeroMemory with
    sendArgs := fun _ => ⟨tid, 0, 0, 0, 0⟩
    replyArgs := fun _ => ⟨tid, 0, 0⟩ } 0 why

/-- One round, for runs that are computed. -/
def kmainNext (k : Kernel) (u : UserRun) : Option Kernel := (k.kmain u).toOption

theorem kmainNext_step (k : Kernel) (u : UserRun) (k' : Kernel) (h : kmainNext k u = some k') :
    system.step k u k' := of_toOption h

end Kernel
end PollingExpress
