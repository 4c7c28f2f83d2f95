import Mathlib.Data.Fintype.Basic
import PollingExpress.Common.CircularBuffer
import PollingExpress.Framework.Fallible
import PollingExpress.Framework.SharedLine
import PollingExpress.Framework.System
import PollingExpress.Kernel.Task

/-!
# The track's server

`uart_com1_server` of `uartserver.c`, with its two notifiers. One server writes to the track and
reads from it: a client that puts a byte gets the lock if it is free and waits in a ring
otherwise, and the two notifiers wait for the interrupts.

A notifier is at one place of its loop, and a step of the system is a message that the server
receives, with all that the server does for it, a step of a notifier, or a byte that comes in.
A reply to a notifier that is not waiting for one does nothing. The history of a run has the calls
of the clients, the bytes written, each with the client that has the lock then, the replies
to clients, the bytes that come in, and the waits of the transmit notifier.
-/

namespace PollingExpress
namespace Uart

abbrev TrackEvent := LineEvent TaskTid Byte

inductive Com1Fault
  /-- "Uart 1 You must own the lock to uart". -/
  | notOwner
  /-- `send_buffer[-1]`. -/
  | noOwner
  /-- The notifier is at another place. -/
  | elsewhere
  deriving DecidableEq

/-- Where `uart_com1_tx_notifier` is. -/
inductive TxNotifier
  | sending
  | parked
  | replied
  | waiting
  deriving DecidableEq

/-- Where `uart_com1_rx_notifier` is; it sends `req.data`. -/
inductive RxNotifier
  | sending (data : Byte)
  | parked
  | replied
  | waiting
  | woken
  deriving DecidableEq

/-- What happens next: a call of a client, a message of a notifier, something that a notifier does
by itself, or a byte that comes in. -/
inductive Com1Step
  | sendChar (client : TaskTid) (char : Byte)
  | getChar (client : TaskTid)
  | releaseLock (client : TaskTid)
  | notifierTxGood
  /-- `AwaitEvent(UART1_TX_INTR)` is called. -/
  | txWait
  /-- `UART1_TX_INTR`. -/
  | txInterrupt
  | notifierRxGood
  /-- `AwaitEvent(UART1_RX_INTR)` is called. -/
  | rxWait
  /-- `UART1_RX_INTR`. -/
  | rxInterrupt
  /-- The notifier reads the byte, or `junk` if there is none. -/
  | rxRead (junk : Byte)
  /-- A byte comes in. -/
  | receive (char : Byte)
  deriving DecidableEq

/-- The variables of `uart_com1_server`, where its two notifiers are, the bytes that have come in
and not been read, and what has happened on the line. -/
structure Com1Server where
  tx : TxNotifier
  rx : RxNotifier
  lockCb : CircularBuffer TaskTid
  ownedBy : Option TaskTid
  canSend : Bool
  wantSend : Bool
  sendBuffer : TaskTid → Byte
  /-- What `uart_get_char` will read. -/
  incoming : List Byte
  history : List TrackEvent

namespace Com1Server

/-- `uart_com1_server` up to its loop. -/
def start (garbage : TaskTid → Byte) : Com1Server where
  tx := .sending
  rx := .sending 0
  lockCb := .cbInit 0 maxNumTasks
  ownedBy := none
  canSend := true
  wantSend := false
  sendBuffer := garbage
  incoming := []
  history := []

/-- Both notifiers have sent their first message, and nobody has called. -/
def checkedIn (garbage : TaskTid → Byte) : Com1Server :=
  { start garbage with tx := .parked, rx := .parked }

def emit (s : Com1Server) (e : TrackEvent) : Com1Server := { s with history := s.history ++ [e] }

/-- `Reply(tx, ..)`. -/
def replyTx (s : Com1Server) : Com1Server :=
  { s with tx := if s.tx = .parked then .replied else s.tx }

/-- `Reply(rx, ..)`. -/
def replyRx (s : Com1Server) : Com1Server :=
  { s with rx := if s.rx = .parked then .replied else s.rx }

/-- `uart_put_char(COM1, ..)` for the owner, and the replies to the notifier and to the owner. -/
def putChar (s : Com1Server) (owner : TaskTid) (char : Byte) : Com1Server :=
  ((s.emit (.wrote owner char)).replyTx).emit (.replied owner 0)

/-- `NOTIFIER_TX_GOOD`. -/
def notifierTxGood (s : Com1Server) : Except Com1Fault Com1Server :=
  let s := { s with tx := .parked }
  if s.wantSend then
    match s.ownedBy with
    | none => .error .noOwner
    | some owner => .ok ({ s with wantSend := false }.putChar owner (s.sendBuffer owner))
  else .ok { s with canSend := true }

/-- `NOTIFIER_RX_GOOD`. -/
def notifierRxGood (s : Com1Server) (data : Byte) : Com1Server :=
  let s := { s with rx := .parked }
  match s.ownedBy with
  | none => s
  | some owner => s.emit (.replied owner data)

/-- `SEND_CHAR`. -/
def sendChar (s : Com1Server) (client : TaskTid) (char : Byte) : Com1Server :=
  let s := s.emit (.put client char)
  let s := if s.ownedBy = none then { s with ownedBy := some client } else s
  if s.ownedBy = some client then
    if s.canSend then { s with canSend := false }.putChar client char
    else { s with wantSend := true, sendBuffer := Function.update s.sendBuffer client char }
  else
    { s with
      lockCb := (s.lockCb.cbPushBack client false).getD s.lockCb
      sendBuffer := Function.update s.sendBuffer client char }

/-- `GET_CHAR`. -/
def getChar (s : Com1Server) (client : TaskTid) : Com1Server :=
  let s := s.emit (.get client)
  match s.incoming with
  | char :: incoming =>
    let s := { s with incoming }
    match s.ownedBy with
    | none => s
    -- whoever has called
    | some owner => s.emit (.replied owner char)
  | [] => s.replyRx

/-- `RELEASE_LOCK`. -/
def releaseLock (s : Com1Server) (client : TaskTid) : Except Com1Fault Com1Server :=
  let s := s.emit (.release client)
  if s.ownedBy = some client then
    let s := match s.lockCb.cbPopFront with
      | none => { s with ownedBy := none }
      | some (owner, lockCb) =>
        let s := { s with ownedBy := some owner, lockCb }
        if s.canSend then { s with canSend := false }.putChar owner (s.sendBuffer owner)
        else { s with wantSend := true }
    .ok (s.emit (.replied client 0))
  else .error .notOwner

/-- One step of the server, of a notifier, or of the line. -/
def next (s : Com1Server) : Com1Step → Except Com1Fault Com1Server
  | .sendChar client char => .ok (s.sendChar client char)
  | .getChar client => .ok (s.getChar client)
  | .releaseLock client => s.releaseLock client
  | .notifierTxGood => if s.tx = .sending then s.notifierTxGood else .error .elsewhere
  | .txWait =>
    if s.tx = .replied then .ok ({ s with tx := .waiting }.emit .waitBegun) else .error .elsewhere
  | .txInterrupt =>
    if s.tx = .waiting then .ok ({ s with tx := .sending }.emit .waitDone) else .error .elsewhere
  | .notifierRxGood =>
    match s.rx with
    | .sending data => .ok (s.notifierRxGood data)
    | _ => .error .elsewhere
  | .rxWait => if s.rx = .replied then .ok { s with rx := .waiting } else .error .elsewhere
  | .rxInterrupt => if s.rx = .waiting then .ok { s with rx := .woken } else .error .elsewhere
  | .rxRead junk =>
    if s.rx = .woken then
      match s.incoming with
      | char :: incoming => .ok { s with rx := .sending char, incoming }
      | [] => .ok { s with rx := .sending junk }
    else .error .elsewhere
  | .receive char => .ok ({ s with incoming := s.incoming ++ [char] }.emit (.received char))

/-- Where the call of a client is. -/
def stage (s : Com1Server) (c : TaskTid) : Stage Byte := (ledger s.history).stage c

/-- The steps that can be taken, and where they lead. -/
inductive Moves (s : Com1Server) : Com1Step → Com1Server → Prop
  | sendChar (client : TaskTid) (char : Byte) :
    Moves s (.sendChar client char) (s.sendChar client char)
  | getChar (client : TaskTid) : Moves s (.getChar client) (s.getChar client)
  | releaseLock {client : TaskTid} {s' : Com1Server} (h : s.releaseLock client = .ok s') :
    Moves s (.releaseLock client) s'
  | notifierTxGood {s' : Com1Server} (h_tx : s.tx = .sending) (h : s.notifierTxGood = .ok s') :
    Moves s .notifierTxGood s'
  | txWait (h_tx : s.tx = .replied) : Moves s .txWait ({ s with tx := .waiting }.emit .waitBegun)
  | txInterrupt (h_tx : s.tx = .waiting) :
    Moves s .txInterrupt ({ s with tx := .sending }.emit .waitDone)
  | notifierRxGood {data : Byte} (h_rx : s.rx = .sending data) :
    Moves s .notifierRxGood (s.notifierRxGood data)
  | rxWait (h_rx : s.rx = .replied) : Moves s .rxWait { s with rx := .waiting }
  | rxInterrupt (h_rx : s.rx = .waiting) : Moves s .rxInterrupt { s with rx := .woken }
  | rxRead {junk char : Byte} {incoming : List Byte} (h_rx : s.rx = .woken)
      (h_incoming : s.incoming = char :: incoming) :
    Moves s (.rxRead junk) { s with rx := .sending char, incoming }
  | rxReadJunk {junk : Byte} (h_rx : s.rx = .woken) (h_incoming : s.incoming = []) :
    Moves s (.rxRead junk) { s with rx := .sending junk }
  | receive (char : Byte) :
    Moves s (.receive char) ({ s with incoming := s.incoming ++ [char] }.emit (.received char))

/-- **The inversion**: what a step that goes through was, and what it found. The steps of the
notifiers are possible in one of their states each; for the messages it is the branch of the
server. -/
theorem moves_of_next {s s' : Com1Server} {l : Com1Step} (h : s.next l = .ok s') :
    s.Moves l s' := by
  cases l with
  | sendChar client char =>
    obtain rfl := Except.ok.inj h
    exact .sendChar client char
  | getChar client =>
    obtain rfl := Except.ok.inj h
    exact .getChar client
  | releaseLock client => exact .releaseLock h
  | notifierTxGood =>
    rw [next] at h
    split at h
    · next h_tx => exact .notifierTxGood h_tx h
    · cases h
  -- a notifier goes on from where it is, or the step does not go through
  | txWait | txInterrupt | rxWait | rxInterrupt =>
    rw [next] at h
    split at h
    · next h_at =>
      obtain rfl := Except.ok.inj h
      constructor
      exact h_at
    · cases h
  | notifierRxGood =>
    rw [next] at h
    split at h
    · next data h_rx =>
      obtain rfl := Except.ok.inj h
      exact .notifierRxGood h_rx
    · cases h
  | rxRead junk =>
    rw [next] at h
    split at h
    · next h_rx =>
      split at h
      · next char incoming h_incoming =>
        obtain rfl := Except.ok.inj h
        exact .rxRead h_rx h_incoming
      · next h_incoming =>
        obtain rfl := Except.ok.inj h
        exact .rxReadJunk h_rx h_incoming
    · cases h
  | receive char =>
    obtain rfl := Except.ok.inj h
    exact .receive char

end Com1Server

/-- The server from its loop on. -/
def com1System : System Com1Server Com1Step where
  init s := ∃ garbage, s = .start garbage
  step s l s' := s.next l = .ok s'

/-- The server from when both notifiers have checked in. -/
def com1CheckedIn : System Com1Server Com1Step where
  init s := ∃ garbage, s = .checkedIn garbage
  step s l s' := s.next l = .ok s'

end Uart
end PollingExpress
