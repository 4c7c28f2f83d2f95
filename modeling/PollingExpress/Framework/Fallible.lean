import Mathlib.Tactic.Common

/-!
# Programs that may stop

A function of the source that can reach an assertion or undefined behaviour is an `Except` program.
`of_bind_ok` takes a run that went through apart into its steps (`of_map_ok`, if there is only one),
`of_bind_error` one that did not, and `exists_bind_ok` puts one together, `P` being what the rest
needs of the first step. `Agree` compares two runs step by step; `of_toOption` is for runs that are
computed. `embed` is for a program that is part of a larger one.
-/

namespace PollingExpress

variable {ε : Type*} {α β : Type} {x : Except ε α} {f : α → Except ε β}

theorem of_bind_ok {b : β} (h : x >>= f = .ok b) : ∃ a, x = .ok a ∧ f a = .ok b :=
  match x, h with
  | .ok a, h => ⟨a, rfl, h⟩

/-- Where a sequence fails. -/
theorem of_bind_error {e : ε} (h : x >>= f = .error e) :
    x = .error e ∨ ∃ a, x = .ok a ∧ f a = .error e :=
  match x, h with
  | .error _, h => .inl (congrArg Except.error (Except.error.inj h))
  | .ok a, h => .inr ⟨a, rfl, h⟩

theorem of_map_ok {g : α → β} {b : β} (h : x.map g = .ok b) : ∃ a, x = .ok a ∧ g a = b :=
  match x, h with
  | .ok a, h => ⟨a, rfl, Except.ok.inj h⟩

theorem bind_of_ok {a : α} (h : x = .ok a) : x >>= f = f a := by
  rw [h]
  rfl

theorem exists_bind_ok {P : α → Prop} (h : ∃ a, x = .ok a ∧ P a)
    (h_f : ∀ a, P a → ∃ b, f a = .ok b) :
    ∃ b, x >>= f = .ok b := by
  obtain ⟨a, rfl, h_a⟩ := h
  exact h_f a h_a

/-- Two runs stop for the same reason, or come to results that are related. -/
def Agree (R : α → β → Prop) : Except ε α → Except ε β → Prop
  | .error e, .error e' => e = e'
  | .ok a, .ok b => R a b
  | _, _ => False

theorem Agree.bind {α' β' : Type} {R : α → α' → Prop} {S : β → β' → Prop} {x' : Except ε α'}
    {f' : α' → Except ε β'} (h : Agree R x x') (h_f : ∀ a a', R a a' → Agree S (f a) (f' a')) :
    Agree S (x >>= f) (x' >>= f') :=
  match x, x', h with
  | .error _, .error _, h => h
  | .ok a, .ok a', h => h_f a a' h

/-- A part of a larger program runs: its result goes into the larger state, its faults are among the
larger faults. -/
def embed {ε' : Type*} (x : Except ε α) (fault : ε → ε') (put : α → β) : Except ε' β :=
  (x.mapError fault).map put

theorem of_embed_ok {ε' : Type*} {fault : ε → ε'} {put : α → β} {b : β}
    (h : embed x fault put = .ok b) :
    ∃ a, x = .ok a ∧ put a = b :=
  match x, h with
  | .ok a, h => ⟨a, rfl, Except.ok.inj h⟩

theorem of_embed_error {ε' : Type*} {fault : ε → ε'} {put : α → β} {e' : ε'}
    (h : embed x fault put = .error e') :
    ∃ e, x = .error e ∧ fault e = e' :=
  match x, h with
  | .error e, h => ⟨e, rfl, Except.error.inj h⟩

theorem of_toOption {ε α : Type*} {x : Except ε α} {a : α} (h : x.toOption = some a) : x = .ok a :=
  match x, h with
  | .ok _, h => congrArg Except.ok (Option.some.inj h)

end PollingExpress
