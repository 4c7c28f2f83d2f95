import Mathlib.Data.Fintype.Basic
import PollingExpress.Common.CircularBuffer
import PollingExpress.Framework.Fallible
import PollingExpress.Framework.SharedLine
import PollingExpress.Framework.System
import PollingExpress.Kernel.Task

/-!
# The terminal's transmit server

`uart_com2_tx_server` of `uartserver.c`. A client that puts a byte gets the lock if it is free, and
waits in a ring otherwise; its byte is in `char_buffer` until it is written, and 0 there is no
byte. The notifier is parked in its `Send` until there is something to wait for.

The history of a run has the calls of the clients, the bytes written, each with the client
that has the lock then, and the replies to clients.
-/

namespace PollingExpress
namespace Uart

abbrev UartEvent := LineEvent TaskTid Byte

inductive Com2TxFault
  /-- "Uart 2 You must own the lock to uart". -/
  | notOwner
  deriving DecidableEq

/-- `MAX_CAPACITY`, of the ring. -/
def maxCapacity : ℕ := 100

inductive Com2TxMessage
  /-- `SEND_CHAR`, and what `uart_can_write` says if it is asked. -/
  | sendChar (client : TaskTid) (char : Byte) (canWrite : Bool)
  | releaseLock (client : TaskTid)
  | notifierTxGood
  deriving DecidableEq

/-- The variables of `uart_com2_tx_server`, with the history of its line. The ring has the clients
that wait for the lock, and `charBuffer` a byte for each task. -/
structure Com2TxServer where
  /-- Whether the notifier waits for a reply. -/
  notifierParking : Bool
  lockCb : CircularBuffer TaskTid
  charBuffer : TaskTid → Byte
  ownedBy : Option TaskTid
  history : List UartEvent

namespace Com2TxServer

/-- `uart_com2_tx_server` up to its loop, and the first message of the notifier. The `memset` does
not reach the end of `char_buffer`. -/
def start (garbage : TaskTid → Byte) : Com2TxServer where
  notifierParking := true
  lockCb := .cbInit 0 maxCapacity
  charBuffer i := if i.val < maxCapacity then 0 else garbage i
  ownedBy := none
  history := []

def emit (s : Com2TxServer) (e : UartEvent) : Com2TxServer := { s with history := s.history ++ [e] }

/-- `unpark_com2_tx_notifier`, if it is parked. -/
def unpark (s : Com2TxServer) : Com2TxServer := { s with notifierParking := false }

/-- `NOTIFIER_TX_GOOD`. -/
def notifierTxGood (s : Com2TxServer) : Com2TxServer :=
  let s := { s with notifierParking := true }
  match s.ownedBy with
  | none => s
  | some owner =>
    if s.charBuffer owner ≠ 0 then
      let s := s.emit (.wrote owner (s.charBuffer owner))
      { s with charBuffer := Function.update s.charBuffer owner 0 }.emit (.replied owner 0)
    else s

/-- `SEND_CHAR`. -/
def sendChar (s : Com2TxServer) (client : TaskTid) (char : Byte) (canWrite : Bool) : Com2TxServer :=
  let s := s.emit (.put client char)
  if s.ownedBy = some client ∨ s.ownedBy = none then
    let s := { s with ownedBy := some client }
    if canWrite then (s.emit (.wrote client char)).emit (.replied client 0)
    else { s with charBuffer := Function.update s.charBuffer client char }.unpark
  else
    { s with
      -- whether there was room is not looked at
      lockCb := (s.lockCb.cbPushBack client false).getD s.lockCb
      charBuffer := Function.update s.charBuffer client char }

/-- `RELEASE_LOCK`. -/
def releaseLock (s : Com2TxServer) (client : TaskTid) : Except Com2TxFault Com2TxServer :=
  let s := s.emit (.release client)
  if s.ownedBy = some client then
    let s := match s.lockCb.cbPopFront with
      | none => { s with ownedBy := none }
      | some (owner, lockCb) => { s with ownedBy := some owner, lockCb }
    .ok (s.unpark.emit (.replied client 0))
  else .error .notOwner

/-- The loop body of `uart_com2_tx_server`. -/
def uartCom2TxServer (s : Com2TxServer) : Com2TxMessage → Except Com2TxFault Com2TxServer
  | .notifierTxGood => .ok s.notifierTxGood
  | .sendChar client char canWrite => .ok (s.sendChar client char canWrite)
  | .releaseLock client => s.releaseLock client

/-- Where the call of a client is. -/
def stage (s : Com2TxServer) (c : TaskTid) : Stage Byte := (ledger s.history).stage c

/-- What can be sent: a client that waits for a reply sends nothing, only the owner releases the
lock, and the notifier sends nothing while it is parked. -/
def Admitted (s : Com2TxServer) : Com2TxMessage → Prop
  | .sendChar client _ _ => s.stage client = .idle
  | .releaseLock client => s.stage client = .idle ∧ s.ownedBy = some client
  | .notifierTxGood => s.notifierParking = false

/-- A byte that has to be kept is not 0, there is room for a client that has to wait, and the
notifier finds no byte but one its owner waits for. -/
def Fits (s : Com2TxServer) : Com2TxMessage → Prop
  | .sendChar client char canWrite =>
    if s.ownedBy = some client ∨ s.ownedBy = none then canWrite ∨ char ≠ 0
    else char ≠ 0 ∧ s.lockCb.count < maxCapacity
  | .releaseLock _ => True
  | .notifierTxGood => ∀ owner, s.ownedBy = some owner → s.stage owner = .idle →
    s.charBuffer owner = 0

instance (s : Com2TxServer) (m : Com2TxMessage) : Decidable (s.Admitted m) :=
  match m with
  | .sendChar client _ _ => inferInstanceAs (Decidable (s.stage client = .idle))
  | .releaseLock client =>
    inferInstanceAs (Decidable (s.stage client = .idle ∧ s.ownedBy = some client))
  | .notifierTxGood => inferInstanceAs (Decidable (s.notifierParking = false))

instance (s : Com2TxServer) (m : Com2TxMessage) : Decidable (s.Fits m) :=
  match m with
  | .sendChar client char canWrite =>
    inferInstanceAs (Decidable (if s.ownedBy = some client ∨ s.ownedBy = none then
      canWrite ∨ char ≠ 0 else char ≠ 0 ∧ s.lockCb.count < maxCapacity))
  | .releaseLock _ => inferInstanceAs (Decidable True)
  | .notifierTxGood =>
    inferInstanceAs
      (Decidable (∀ owner ∈ s.ownedBy, s.stage owner = .idle → s.charBuffer owner = 0))

end Com2TxServer

/-- The server, from when the notifier is parked. -/
def com2TxSystem : System Com2TxServer Com2TxMessage where
  init s := ∃ garbage, s = .start garbage
  step s m s' := s.uartCom2TxServer m = .ok s'

end Uart
end PollingExpress
