import PollingExpress.Framework.Fallible

/-!
# Machines that answer

A machine takes one operation after the other, answers it, and goes on from another state; a program
of the source may also stop (`playOps`), what it is meant to be does not (`answerOps`).

* `playOps_refines` — if each operation on related states goes through, is answered alike and leaves
  the states related, so does each list of operations.
-/

namespace PollingExpress

section
variable {σ τ ω α ε : Type}

/-- The answers to a list of operations, and the state behind the last. -/
def answerOps (step : τ → ω → α × τ) : τ → List ω → List α × τ
  | t, [] => ([], t)
  | t, op :: ops =>
    let (a, t) := step t op
    let (as, t) := answerOps step t ops
    (a :: as, t)

/-- The same, of a program that may stop. -/
def playOps (step : σ → ω → Except ε (α × σ)) : σ → List ω → Except ε (List α × σ)
  | s, [] => .ok ([], s)
  | s, op :: ops => do
    let (a, s) ← step s op
    let (as, s) ← playOps step s ops
    .ok (a :: as, s)

/-- **The refinement rule.** If every operation of the machine goes through and answers as the
specification does, and the two states stay related, then the same is true of every sequence of
operations. The relation is carried along the induction on the operations. -/
theorem playOps_refines {R : σ → τ → Prop} {step : σ → ω → Except ε (α × σ)} {spec : τ → ω → α × τ}
    (h_step : ∀ s t op, R s t → ∃ s', step s op = .ok ((spec t op).1, s') ∧ R s' (spec t op).2)
    {s : σ} {t : τ} (h : R s t) (ops : List ω) :
    ∃ s', playOps step s ops = .ok ((answerOps spec t ops).1, s') ∧
      R s' (answerOps spec t ops).2 := by
  induction ops generalizing s t with
  | nil => exact ⟨s, rfl, h⟩
  | cons op ops ih =>
    obtain ⟨s₁, h_one, h_one'⟩ := h_step s t op h
    obtain ⟨s₂, h_rest, h_rest'⟩ := ih h_one'
    refine ⟨s₂, ?_, h_rest'⟩
    rw [playOps, h_one]
    change (do let (as, s) ← playOps step s₁ ops; Except.ok (_ :: as, s)) = _
    rw [h_rest]
    rfl

end
end PollingExpress
