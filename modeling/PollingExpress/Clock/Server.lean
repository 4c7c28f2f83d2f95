import Mathlib.Data.List.FinRange
import Mathlib.Logic.Function.Basic
import PollingExpress.Framework.Chain
import PollingExpress.Framework.System

/-!
# The clock server

`clockserver.c`: tasks ask for the time, or to be answered at a later time; the notifier sends a
`TICK` for every interrupt of the timer. A task that waits has one of 50 nodes. The nodes are
linked into two lists, the free ones and the pending ones by deadline, and a node is put into
the pending list through the pointer to the link it goes to, which is the first pointer or
the `next` of a node.

What the server does for a message is logged as a `Round`. A node, and an answer, also say which
message they are for, by its number: a task that has a node is the one that sent that message,
and nothing the server does depends on the number.
-/

namespace PollingExpress
namespace Clock

/-- The size of `backing`. -/
def maxDelays : ℕ := 50

abbrev Slot := Fin maxDelays

/-- What an `int` holds after arithmetic. -/
def int32 (x : Int) : Int := x.bmod (2 ^ 32)

/-- The largest `int`. -/
def intMax : Int := 2 ^ 31 - 1

inductive Fault
  /-- "No more delay slots". -/
  | noFreeSlot
  /-- A loop over the list that does not come to its end. -/
  | endless
  deriving DecidableEq

inductive ClockserverRequestType
  | time
  | delay
  | delayUntil
  | tick
  deriving DecidableEq

structure ClockserverRequest where
  type : ClockserverRequestType
  data : Int
  deriving DecidableEq

/-- A message to the clock server, with its sender. -/
structure ClockMessage where
  client : ℕ
  req : ClockserverRequest
  deriving DecidableEq

structure DelayNode where
  client : ℕ
  time : Int
  next : Option Slot
  /-- The message the node is for. -/
  request : ℕ

/-- A `Reply`, to the message with this number; `none` is a reply of length 0. -/
structure Answer where
  request : ℕ
  client : ℕ
  value : Option Int
  deriving DecidableEq

/-- What the server did for a message that came when it had counted `ticks`. -/
structure Round where
  message : ClockMessage
  ticks : Int
  replies : List Answer

/-- The variables of `clockserver`, and what it has done. The node that a message is answered from
is the index into `backing`; `free` and `head` are the first nodes of the two lists. -/
structure ClockServer where
  backing : Slot → DelayNode
  free : Option Slot
  head : Option Slot
  ticks : Int
  /-- What has been answered in this round. -/
  replies : List Answer
  log : List Round

namespace ClockServer

/-- `clockserver` up to its loop: every node is free. -/
def start : ClockServer where
  backing i := ⟨0, 0, if h : i.val + 1 < maxDelays then some ⟨i.val + 1, h⟩ else none, 0⟩
  free := some ⟨0, by decide⟩
  head := none
  ticks := 0
  replies := []
  log := []

def next (s : ClockServer) (i : Slot) : Option Slot := (s.backing i).next

def time (s : ClockServer) (i : Slot) : Int := (s.backing i).time

def reply (s : ClockServer) (request client : ℕ) (value : Option Int) : ClockServer :=
  { s with replies := s.replies ++ [⟨request, client, value⟩] }

/-- The answer to the message the server is at. -/
def answer (s : ClockServer) (client : ℕ) (value : Option Int) : ClockServer :=
  s.reply s.log.length client value

def setNode (s : ClockServer) (i : Slot) (node : DelayNode) : ClockServer :=
  { s with backing := Function.update s.backing i node }

def setNext (s : ClockServer) (i : Slot) (next : Option Slot) : ClockServer :=
  s.setNode i { s.backing i with next }

/-- `*prev`, where `prev` is `none` for `&head` and `some i` for `&backing[i].next`. -/
def deref (s : ClockServer) (prev : Option Slot) : Option Slot := link s.next s.head prev

/-- `*prev = cur`. -/
def store (s : ClockServer) (prev : Option Slot) (cur : Slot) : ClockServer :=
  match prev with
  | none => { s with head := some cur }
  | some i => s.setNext i (some cur)

/-- `while (*prev && (*prev)->time < cur->time) prev = &(*prev)->next`. -/
def findPrev (s : ClockServer) (time : Int) : ℕ → Option Slot → Except Fault (Option Slot)
  | 0, _ => .error .endless
  | fuel + 1, prev =>
    match s.deref prev with
    | none => .ok prev
    | some i => if s.time i < time then findPrev s time fuel (some i) else .ok prev

/-- The task waits for `time`. -/
def insertNode (s : ClockServer) (client : ℕ) (time : Int) : Except Fault ClockServer :=
  match s.free with
  | none => .error .noFreeSlot
  | some cur => do
    let s := { s with free := s.next cur }
    let s := s.setNode cur { s.backing cur with client, time, request := s.log.length }
    let prev ← s.findPrev time (maxDelays + 1) none
    let s := s.setNext cur (s.deref prev)
    .ok (s.store prev cur)

/-- `DELAYUNTIL`, with the deadline as it is held. -/
def delayUntil (s : ClockServer) (client : ℕ) (time : Int) : Except Fault ClockServer :=
  if time ≤ s.ticks then .ok (s.answer client (some s.ticks)) else s.insertNode client time

/-- `while (head && head->time <= ticks)`: the tasks whose time has come. -/
def wake (s : ClockServer) : ℕ → Except Fault ClockServer
  | 0 => .error .endless
  | fuel + 1 =>
    match s.head with
    | none => .ok s
    | some cur =>
      if s.time cur ≤ s.ticks then
        let s := { s with head := s.next cur }
        let s := s.reply (s.backing cur).request (s.backing cur).client (some s.ticks)
        wake { s.setNext cur s.free with free := some cur } fuel
      else .ok s

/-- `TICK`. -/
def tick (s : ClockServer) (client : ℕ) : Except Fault ClockServer :=
  let s := s.answer client none
  { s with ticks := int32 (s.ticks + 1) }.wake (maxDelays + 1)

/-- What the message does. -/
def handle (s : ClockServer) (client : ℕ) (req : ClockserverRequest) : Except Fault ClockServer :=
  match req.type with
  | .time => .ok (s.answer client (some s.ticks))
  | .delay =>
    if req.data < 0 then .ok (s.answer client (some (-2)))
    else s.delayUntil client (int32 (s.ticks + req.data))
  | .delayUntil => s.delayUntil client req.data
  | .tick => s.tick client

/-- The loop body of `clockserver`. -/
def clockserver (s : ClockServer) (m : ClockMessage) : Except Fault ClockServer := do
  let s' ← s.handle m.client m.req
  .ok { s' with replies := [], log := s.log ++ [⟨m, s.ticks, s'.replies⟩] }

end ClockServer

/-- The server, for messages of any tasks in any order. -/
def clockSystem : System ClockServer ClockMessage where
  init s := s = .start
  step s m s' := s.clockserver m = .ok s'

end Clock
end PollingExpress
