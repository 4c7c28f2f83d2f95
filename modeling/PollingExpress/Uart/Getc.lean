import PollingExpress.Uart.Com1Reads
import PollingExpress.Uart.Com2Rx

/-!
# Getc

`Getc` is to return the next byte that no call has returned, on both lines. `getc_answered` puts the
two servers together; `getc_lost` has a run of each in which a call is never answered.
-/

namespace PollingExpress
namespace Uart

/-- **Getc answers the caller**, from the track in the runs in which the caller has the lock, and
from the terminal in the runs in which one client waits at a time and the notifier finds a byte for
it. In both, whoever the server replies to waits for the reply: the notifiers have checked in. (A
`Reply` to a task that does not wait for one does not come back, and none of these calls is answered
then.) -/
theorem getc_answered {ls : List Com1Step} {s : Com1Server} {ms : List Com2RxStep}
    {r : Com2RxServer} (h_com1 : com1System.Reaches (fun s l => s.Sendable l ∧ s.Answerable l) ls s)
    (h_com2 : com2RxSystem.Reaches (fun s l => s.Sendable l ∧ s.Answerable l) ms r) :
    Com1Answers s ∧ Com2RxAnswers r :=
  ⟨com1Answers_of_reaches h_com1, com2RxAnswers_of_reaches h_com2⟩

def com1StartNext (s : Com1Server) (l : Com1Step) : Option Com1Server := (s.next l).toOption

theorem com1StartNext_step (s : Com1Server) (l : Com1Step) (s' : Com1Server)
    (h : com1StartNext s l = some s') :
    com1System.step s l s' := of_toOption h

def com2RxNext (s : Com2RxServer) (l : Com2RxStep) : Option Com2RxServer := (s.next l).toOption

theorem com2RxNext_step (s : Com2RxServer) (l : Com2RxStep) (s' : Com2RxServer)
    (h : com2RxNext s l = some s') :
    com2RxSystem.step s l s' := of_toOption h

/-- The client with the lock reads a byte that is there and one that is not; at the terminal one
client waits and another finds a byte. -/
theorem getc_answered_two_bytes : ∃ (s : Com1Server) (r : Com2RxServer),
    (ledger s.history).delivered = [(3, 7), (3, 8)] ∧
      (ledger r.history).delivered = [(3, 7), (5, 8)] ∧
    Com1Answers s ∧ Com2RxAnswers r := by
  obtain ⟨s, h_s, h_com1⟩ := System.exists_reaches_of_play com1StartNext_step
    (fun s l => s.Sendable l ∧ s.Answerable l)
      (fun s => (ledger s.history).delivered = [(3, 7), (3, 8)])
    [.notifierTxGood, .notifierRxGood, .sendChar 3 65, .receive 7, .getChar 3, .getChar 3,
      .rxWait, .receive 8,
      .rxInterrupt, .rxRead 0, .notifierRxGood] ⟨fun _ => 0, rfl⟩ (by decide +kernel)
  obtain ⟨r, h_r, h_com2⟩ := System.exists_reaches_of_play com2RxNext_step
    (fun s l => s.Sendable l ∧ s.Answerable l)
      (fun s => (ledger s.history).delivered = [(3, 7), (5, 8)])
    [.notifierRxGood 0, .getChar 3, .rxWait, .receive 7, .rxInterrupt, .notifierRxGood 0,
      .receive 8, .getChar 5]
    rfl (by decide +kernel)
  exact ⟨s, r, h_com1, h_com2, getc_answered h_s h_r⟩

/-- **A byte from the track that is given to nobody, and a client of the terminal that is
forgotten**: client 3 has the lock and client 5 reads; clients 3 and 5 wait for the terminal. The
byte goes to the owner of the lock, which does not wait; and the one place for a client that waits
is written over. -/
theorem getc_lost :
    (∃ s, com1System.Reaches (fun s l => s.Sendable l)
        [.notifierTxGood, .notifierRxGood, .sendChar 3 65, .receive 9, .getChar 5] s ∧
      s.history.getLast? = some (.replied 3 9) ∧ s.stage 5 = .reading ∧ s.incoming = [] ∧
      ¬Com1Answers s) ∧
    ∃ s,
      com2RxSystem.Reaches (fun s l => s.Sendable l) [.notifierRxGood 0, .getChar 3, .getChar 5] s ∧
      s.stage 3 = .reading ∧ s.waiting = some 5 ∧ ¬Com2RxAnswers s := by
  constructor
  · obtain ⟨s, h_s, h_last, h_reading, h_incoming, h_rx⟩ :=
      System.exists_reaches_of_play com1StartNext_step
      (fun s l => s.Sendable l)
      (fun s => s.history.getLast? = some (.replied 3 9) ∧ s.stage 5 = .reading ∧ s.incoming = [] ∧
        s.rx = .parked)
      [.notifierTxGood, .notifierRxGood, .sendChar 3 65, .receive 9, .getChar 5] ⟨fun _ => 0, rfl⟩
      (by decide +kernel)
    exact ⟨s, h_s, h_last, h_reading, h_incoming, fun h => (h.next 5 h_reading).1 h_rx⟩
  · obtain ⟨s, h_s, h_reading, h_waiting⟩ := System.exists_reaches_of_play com2RxNext_step
      (fun s l => s.Sendable l) (fun s => s.stage 3 = .reading ∧ s.waiting = some 5)
      [.notifierRxGood 0, .getChar 3, .getChar 5] rfl (by decide +kernel)
    refine ⟨s, h_s, h_reading, h_waiting, fun h => ?_⟩
    have h_three := (h.next 3 h_reading).1.symm.trans h_waiting
    exact absurd (Option.some.inj h_three) (by decide)

end Uart
end PollingExpress
