import Mathlib.Logic.Function.Basic
import PollingExpress.Framework.History
import PollingExpress.Framework.System

/-!
# Send, receive, reply

The rendezvous protocol as a specification. A party that sends waits until its
message has been received and then until somebody has replied; messages to one
party wait in one line.

* `Rendezvous` — the phase of every party, and the line of every receiver.
* `Rendezvous.Step` — the three acts and what each one needs.
* `rendezvous` — the transition system.

Two facts hold of every history. Each receiver takes the messages in the order
in which they were sent, each once (`sentTo_eq`). Each party sends, is received
from and is replied to in turn, over and over (`inTurn`).
-/

namespace PollingExpress

/-- How far a party's exchange is. -/
inductive Phase
  | idle | sending | awaiting
  deriving DecidableEq

/-- `receive src dst msg`: `dst` takes the message `msg` of `src`. -/
inductive Act (Party Msg : Type*)
  | send (src dst : Party) (msg : Msg)
  | receive (src dst : Party) (msg : Msg)
  | reply (src : Party)

structure Rendezvous (Party Msg : Type*) where
  phase : Party → Phase
  pending : Party → List (Party × Msg)

variable {Party Msg : Type*} [DecidableEq Party]

namespace Rendezvous

/-- Nobody has sent anything. -/
def start : Rendezvous Party Msg where
  phase _ := .idle
  pending _ := []

/-- One act. -/
inductive Step : Rendezvous Party Msg → Act Party Msg → Rendezvous Party Msg → Prop
  | send {s : Rendezvous Party Msg} {src dst : Party} {msg : Msg} (h : s.phase src = .idle) :
      Step s (.send src dst msg)
        { phase := Function.update s.phase src .sending
          pending := Function.update s.pending dst (s.pending dst ++ [(src, msg)]) }
  | receive {s : Rendezvous Party Msg} {src dst : Party} {msg : Msg} {rest : List (Party × Msg)}
      (h : s.pending dst = (src, msg) :: rest) :
      Step s (.receive src dst msg)
        { phase := Function.update s.phase src .awaiting
          pending := Function.update s.pending dst rest }
  | reply {s : Rendezvous Party Msg} {src : Party} (h : s.phase src = .awaiting) :
      Step s (.reply src) { s with phase := Function.update s.phase src .idle }

end Rendezvous

/-- The protocol. -/
def rendezvous : System (Rendezvous Party Msg) (Act Party Msg) where
  init s := s = .start
  step := Rendezvous.Step

/-! ### Reading a history -/

/-- The messages sent to `r`, with their senders. -/
def sentTo (r : Party) : List (Act Party Msg) → List (Party × Msg) :=
  List.filterMap fun
    | .send src dst msg => if dst = r then some (src, msg) else none
    | _ => none

/-- The messages received by `r`, with their senders. -/
def receivedBy (r : Party) : List (Act Party Msg) → List (Party × Msg) :=
  List.filterMap fun
    | .receive src dst msg => if dst = r then some (src, msg) else none
    | _ => none

/-- The phase of `p` after one more act. -/
def phaseAfter (p : Party) (phase : Phase) : Act Party Msg → Phase
  | .send src _ _ => if src = p then .sending else phase
  | .receive src _ _ => if src = p then .awaiting else phase
  | .reply src => if src = p then .idle else phase

/-- The phase of `p` after a history. -/
def phaseOf (p : Party) (h : List (Act Party Msg)) : Phase := h.foldl (phaseAfter p) .idle

/-- The act comes when its sender is in the phase for it. -/
def InTurn (past : List (Act Party Msg)) : Act Party Msg → Prop
  | .send src _ _ => phaseOf src past = .idle
  | .receive src _ _ => phaseOf src past = .sending
  | .reply src => phaseOf src past = .awaiting

theorem phaseOf_snoc (p : Party) (h : List (Act Party Msg)) (a : Act Party Msg) :
    phaseOf p (h ++ [a]) = phaseAfter p (phaseOf p h) a := by
  simp [phaseOf]

/-! ### Every history -/

/-- What a history and the state it leads to have to do with each other. The phase of a party can be
read off its acts, and who is in the line of a receiver is who has sent to it and has not been
received yet, in the order of the sends; `inTurn` says that no party ever acted out of its turn. -/
structure RendezvousInv (h : List (Act Party Msg)) (s : Rendezvous Party Msg) : Prop where
  phase : ∀ p, s.phase p = phaseOf p h
  line : ∀ r, sentTo r h = receivedBy r h ++ s.pending r
  sending : ∀ r src msg, (src, msg) ∈ s.pending r → s.phase src = .sending
  /-- A party is in one line only, and there once. -/
  once : ∀ r r' src, src ∈ (s.pending r).map Prod.fst → src ∈ (s.pending r').map Prod.fst → r = r'
  nodup : ∀ r, ((s.pending r).map Prod.fst).Nodup
  inTurn : AtEach InTurn h

variable {h : List (Act Party Msg)} {s s' : Rendezvous Party Msg} {a : Act Party Msg}

namespace RendezvousInv

theorem phase_snoc (hi : RendezvousInv h s) (p : Party) (phase : Phase)
    (h_after : ∀ q phase', phaseAfter q phase' a = if p = q then phase else phase') (q : Party) :
    Function.update s.phase p phase q = phaseOf q (h ++ [a]) := by
  rw [phaseOf_snoc, h_after, Function.update_apply, hi.phase q]
  by_cases h_eq : q = p
  · rw [if_pos h_eq, if_pos h_eq.symm]
  · rw [if_neg h_eq, if_neg (Ne.symm h_eq)]

/-- A party that is not sending is in no line. -/
theorem not_pending (hi : RendezvousInv h s) {src : Party} (h_phase : s.phase src ≠ .sending)
    (r : Party) : src ∉ (s.pending r).map Prod.fst := by
  intro h_mem
  obtain ⟨⟨src', msg⟩, h_in, rfl⟩ := List.mem_map.mp h_mem
  exact h_phase (hi.sending r src' msg h_in)

/-- A party that is idle sends: its message goes to the end of the receiver's line, and it is in no
other line, since it was idle. -/
theorem send (hi : RendezvousInv h s) {src dst : Party} {msg : Msg} (h_idle : s.phase src = .idle) :
    RendezvousInv (h ++ [.send src dst msg])
      { phase := Function.update s.phase src .sending
        pending := Function.update s.pending dst (s.pending dst ++ [(src, msg)]) } := by
  have h_out := hi.not_pending (show s.phase src ≠ .sending by simp [h_idle])
  have h_names : ∀ r, (Function.update s.pending dst (s.pending dst ++ [(src, msg)]) r).map
      Prod.fst = if r = dst then (s.pending dst).map Prod.fst ++ [src]
        else (s.pending r).map Prod.fst := by
    intro r
    rw [Function.update_apply]
    split <;> simp
  refine ⟨?_, fun r => ?_, ?_, ?_, fun r => ?_, ?_⟩
  · exact hi.phase_snoc src .sending fun q phase => rfl
  · -- the line of `dst` gets the message at its end, as the history says
    have h_line := hi.line r
    simp only [sentTo, receivedBy, List.filterMap_append, List.filterMap_cons, List.filterMap_nil,
      Function.update_apply] at h_line ⊢
    rw [h_line]
    by_cases h_eq : dst = r
    · subst h_eq
      simp
    · simp [h_eq, Ne.symm h_eq]
  · -- who has a message in a line is sending: `src`, or one that was before
    intro r src' msg' h_mem
    change (src', msg') ∈ Function.update s.pending dst (s.pending dst ++ [(src, msg)]) r at h_mem
    change Function.update s.phase src .sending src' = .sending
    rw [Function.update_apply]
    split
    · rfl
    · next h_ne =>
      rw [Function.update_apply] at h_mem
      split at h_mem
      · next h_eq =>
        have h_old : (src', msg') ∈ s.pending dst := by simpa [h_ne] using h_mem
        exact hi.sending dst src' msg' h_old
      · exact hi.sending r src' msg' h_mem
  · intro r r' src' h_mem h_mem'
    -- only `src` is new, and it was in no line
    rw [h_names] at h_mem h_mem'
    by_cases h_src : src' = src
    · subst h_src
      have h_at : ∀ q, src' ∈ (if q = dst then (s.pending dst).map Prod.fst ++ [src']
          else (s.pending q).map Prod.fst) → q = dst := by
        intro q hq
        by_contra h_ne
        rw [if_neg h_ne] at hq
        exact h_out q hq
      rw [h_at r h_mem, h_at r' h_mem']
    · have h_old : ∀ q, src' ∈ (if q = dst then (s.pending dst).map Prod.fst ++ [src]
          else (s.pending q).map Prod.fst) → src' ∈ (s.pending q).map Prod.fst := by
        intro q hq
        split at hq
        · next h_eq =>
          rw [h_eq]
          obtain hq | hq := List.mem_append.mp hq
          · exact hq
          · exact absurd (List.mem_singleton.mp hq) h_src
        · exact hq
      exact hi.once r r' src' (h_old r h_mem) (h_old r' h_mem')
  · -- no party is twice in a line
    change ((Function.update s.pending dst (s.pending dst ++ [(src, msg)]) r).map Prod.fst).Nodup
    rw [h_names]
    split
    · refine List.nodup_append.mpr ⟨hi.nodup dst, List.pairwise_singleton _ src, ?_⟩
      intro a ha b hb
      rw [List.mem_singleton.mp hb]
      rintro rfl
      exact h_out dst ha
    · exact hi.nodup r
  · exact atEach_snoc.mpr ⟨hi.inTurn, (hi.phase src).symm.trans h_idle⟩

/-- The first of a line is received: it leaves the line, and its sender waits for the reply from
then on. -/
theorem receive (hi : RendezvousInv h s) {src dst : Party} {msg : Msg} {rest : List (Party × Msg)}
    (h_line : s.pending dst = (src, msg) :: rest) :
    RendezvousInv (h ++ [.receive src dst msg])
      { phase := Function.update s.phase src .awaiting
        pending := Function.update s.pending dst rest } := by
  have h_head : src ∈ (s.pending dst).map Prod.fst := by simp [h_line]
  have h_nodup := hi.nodup dst
  rw [h_line, List.map_cons, List.nodup_cons] at h_nodup
  have h_sub : ∀ r, (Function.update s.pending dst rest r).Sublist (s.pending r) := by
    intro r
    rw [Function.update_apply]
    split
    · next h_eq => rw [h_eq, h_line]; exact List.sublist_cons_self _ _
    · exact List.Sublist.refl _
  -- `receive` takes the head out of the line of `dst` and lets `src` await the reply
  refine ⟨?_, fun r => ?_, ?_, ?_, fun r => ?_, ?_⟩
  · exact hi.phase_snoc src .awaiting fun q phase => rfl
  · have h_old := hi.line r
    simp only [sentTo, receivedBy, List.filterMap_append, List.filterMap_cons, List.filterMap_nil,
      Function.update_apply] at h_old ⊢
    rw [h_old]
    by_cases h_eq : dst = r
    · subst h_eq
      simp [h_line]
    · simp [h_eq, Ne.symm h_eq]
  · intro r src' msg' h_mem
    change (src', msg') ∈ Function.update s.pending dst rest r at h_mem
    change Function.update s.phase src .awaiting src' = .sending
    have h_in := (h_sub r).subset h_mem
    have h_ne : src' ≠ src := by
      rintro rfl
      -- `src` was in the line of `dst` only, and is not any more
      obtain rfl := hi.once r dst src' (List.mem_map_of_mem h_in) h_head
      rw [Function.update_self] at h_mem
      exact h_nodup.1 (List.mem_map.mpr ⟨_, h_mem, rfl⟩)
    rw [Function.update_of_ne h_ne]
    exact hi.sending r src' msg' h_in
  · intro r r' src' h_mem h_mem'
    exact hi.once r r' src' (((h_sub r).map _).subset h_mem) (((h_sub r').map _).subset h_mem')
  · exact (hi.nodup r).sublist ((h_sub r).map _)
  · refine atEach_snoc.mpr ⟨hi.inTurn, (hi.phase src).symm.trans ?_⟩
    exact hi.sending dst src msg (by simp [h_line])

/-- A party that waits for a reply is replied to, and is idle again. The lines are not touched. -/
theorem reply (hi : RendezvousInv h s) {src : Party} (h_wait : s.phase src = .awaiting) :
    RendezvousInv (h ++ [.reply src])
      { s with phase := Function.update s.phase src .idle } := by
  -- only the phase of the one that is replied to changes
  refine ⟨?_, fun r => ?_, ?_, hi.once, hi.nodup, ?_⟩
  · exact hi.phase_snoc src .idle fun q phase => rfl
  · have h_old := hi.line r
    simp only [sentTo, receivedBy, List.filterMap_append, List.filterMap_cons,
      List.filterMap_nil] at h_old ⊢
    simpa using h_old
  · intro r src' msg' h_mem
    change Function.update s.phase src .idle src' = .sending
    have h_send := hi.sending r src' msg' h_mem
    -- who waits for a reply has no message under way
    have h_ne : src' ≠ src := by
      rintro rfl
      simp [h_wait] at h_send
    rw [Function.update_of_ne h_ne]
    exact h_send
  · exact atEach_snoc.mpr ⟨hi.inTurn, (hi.phase src).symm.trans h_wait⟩

theorem step (hi : RendezvousInv h s) (hstep : rendezvous.step s a s') :
    RendezvousInv (h ++ [a]) s' := by
  cases hstep with
  | send h_idle => exact hi.send h_idle
  | receive h_line => exact hi.receive h_line
  | reply h_wait => exact hi.reply h_wait

end RendezvousInv

/-- The invariant of every run. -/
theorem rendezvousInv_of_reaches {ok : Rendezvous Party Msg → Act Party Msg → Prop}
    (h_run : rendezvous.Reaches ok h s) : RendezvousInv h s := by
  induction h_run with
  | start h_init =>
    obtain rfl := h_init
    exact ⟨fun _ => rfl, fun _ => rfl, fun _ _ _ h_mem => absurd h_mem List.not_mem_nil,
      fun _ _ _ h_mem => absurd h_mem List.not_mem_nil, fun _ => List.nodup_nil, atEach_nil⟩
  | next _ _ hstep ih => exact ih.step hstep

end PollingExpress
