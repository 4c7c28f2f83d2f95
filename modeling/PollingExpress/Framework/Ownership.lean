import Mathlib.Logic.Function.Basic
import Mathlib.Tactic.Common

/-!
# Ownership of places with two sides

Each element of `N` is one side of a place, `rev` leads to the other one, and a table
says who owns each side. An owner takes and gives back a list of places with both
their sides.

* `Symmetric` — both sides of a place have the same owner.
* `take` — the places of a list go to an owner.
* `free` — the places of a list that an owner has become free, except for the one
  the owner is at.

On a symmetric table, `take` and `free` of one owner leave the places of the others
alone (`take_of_owned`, `free_of_owned`), so it is enough to look at one side before
a place is taken.
-/

namespace PollingExpress
namespace Ownership

variable {N O : Type*} [DecidableEq N]

/-- Both sides of a place have the same owner. -/
def Symmetric (rev : N → N) (f : N → Option O) : Prop := ∀ n, f (rev n) = f n

/-- `n` is at the place `kept`. -/
def At (rev : N → N) (kept : Option N) (n : N) : Prop := some n = kept ∨ some (rev n) = kept

instance (rev : N → N) (kept : Option N) (n : N) : Decidable (At rev kept n) :=
  inferInstanceAs (Decidable (_ ∨ _))

/-- `n` is one side of a place in `l`. -/
def Among (rev : N → N) (l : List N) (n : N) : Prop := n ∈ l ∨ rev n ∈ l

instance (rev : N → N) (l : List N) (n : N) : Decidable (Among rev l n) :=
  inferInstanceAs (Decidable (_ ∨ _))

/-- `t` takes the places in `l`. -/
def take (rev : N → N) (t : O) (l : List N) (f : N → Option O) : N → Option O :=
  fun n => if Among rev l n then some t else f n

variable {rev : N → N} {f : N → Option O} {kept : Option N} {t u : O} {l l' : List N} {n : N}

omit [DecidableEq N] in
theorem among_append : Among rev (l ++ l') n ↔ Among rev l n ∨ Among rev l' n := by
  simp only [Among, List.mem_append]
  exact or_or_or_comm

omit [DecidableEq N] in
theorem among_rev (h : Function.Involutive rev) : Among rev l (rev n) ↔ Among rev l n := by
  rw [Among, h n]
  exact or_comm

omit [DecidableEq N] in
theorem among_singleton (h : Function.Involutive rev) {m : N} :
    Among rev [n] m ↔ m = rev n ∨ m = n := by
  rw [Among, List.mem_singleton, List.mem_singleton, or_comm]
  refine or_congr_left ⟨fun h_eq => ?_, fun h_eq => ?_⟩
  · rw [← h_eq, h m]
  · rw [h_eq, h n]

omit [DecidableEq N] in
theorem at_rev (h : Function.Involutive rev) : At rev kept (rev n) ↔ At rev kept n := by
  rw [At, h n]
  exact or_comm

/-! ### Taking -/

theorem symmetric_take (h : Function.Involutive rev) (h_f : Symmetric rev f) :
    Symmetric rev (take rev t l f) := by
  intro n
  simp only [take, among_rev h, h_f n]

theorem take_nil : take rev t [] f = f := by
  funext n
  exact if_neg (by simp [Among])

theorem take_append : take rev t (l ++ l') f = take rev t l' (take rev t l f) := by
  funext n
  simp only [take, among_append]
  by_cases h : Among rev l' n
  · rw [if_pos h, if_pos (.inr h)]
  · rw [if_neg h]
    exact if_congr (or_iff_left h) rfl rfl

/-- Taking one place is two writes. -/
theorem take_singleton (h : Function.Involutive rev) : take rev t [n] f =
    Function.update (Function.update f n (some t)) (rev n) (some t) := by
  funext m
  rw [Function.update_apply, Function.update_apply, ← ite_or]
  exact if_congr (among_singleton h) rfl rfl

theorem take_of_among (h : Among rev l n) : take rev t l f n = some t := if_pos h

/-- On a symmetric table, looking at one side of each place is enough. -/
theorem take_of_owned (h_f : Symmetric rev f) (h_l : ∀ m ∈ l, f m = none ∨ f m = some t)
    (h_u : f n = some u) (h_ne : u ≠ t) : take rev t l f n = some u := by
  have h_not : ∀ m ∈ l, f m ≠ some u := by
    intro m hm h_m
    obtain h_none | h_t := h_l m hm
    · rw [h_none] at h_m
      cases h_m
    · rw [h_t] at h_m
      exact h_ne (Option.some.inj h_m).symm
  unfold take
  rw [if_neg, h_u]
  rintro (h_mem | h_mem)
  · exact h_not n h_mem h_u
  · exact h_not (rev n) h_mem ((h_f n).trans h_u)

/-! ### Giving back -/

variable [DecidableEq O]

/-- `t` gives back the places in `l` that are its own, but not the one at `kept`. -/
def free (rev : N → N) (kept : Option N) (t : O) (l : List N) (f : N → Option O) : N → Option O :=
  fun n => if Among rev l n ∧ f n = some t ∧ ¬At rev kept n then none else f n

theorem symmetric_free (h : Function.Involutive rev) (h_f : Symmetric rev f) :
    Symmetric rev (free rev kept t l f) := by
  intro n
  simp only [free, among_rev h, at_rev h, h_f n]

/-- The place the owner is at is kept. -/
theorem free_of_at (h : At rev kept n) : free rev kept t l f n = f n :=
  if_neg fun h_free => h_free.2.2 h

theorem free_of_not_among (h : ¬Among rev l n) : free rev kept t l f n = f n :=
  if_neg fun h_free => h h_free.1

/-- What is not the owner's is not given back. -/
theorem free_of_ne (h : f n ≠ some t) : free rev kept t l f n = f n :=
  if_neg fun h_free => h h_free.2.1

theorem free_of_owned (h_u : f n = some u) (h_ne : u ≠ t) : free rev kept t l f n = some u := by
  rw [free_of_ne, h_u]
  rw [h_u]
  exact fun h_eq => h_ne (Option.some.inj h_eq)

theorem free_eq_some (h : free rev kept t l f n = some u) : f n = some u := by
  unfold free at h
  split at h
  · cases h
  · exact h

/-- Giving back one place is two writes, if it is to be given back. -/
theorem free_singleton (h : Function.Involutive rev) (h_f : Symmetric rev f) :
    free rev kept t [n] f = if f n = some t ∧ ¬At rev kept n then
      Function.update (Function.update f n none) (rev n) none else f := by
  -- both sides of a place have the same owner, and are kept or not together
  have h_side : ∀ m, m = rev n ∨ m = n → (f m = some t ∧ ¬At rev kept m ↔
      f n = some t ∧ ¬At rev kept n) := by
    rintro m (rfl | rfl)
    · rw [h_f n, at_rev h]
    · rfl
  funext m
  by_cases h_own : f n = some t ∧ ¬At rev kept n
  · rw [if_pos h_own, Function.update_apply, Function.update_apply, ← ite_or]
    refine if_congr ⟨fun h_free => (among_singleton h).mp h_free.1, fun h_m => ?_⟩ rfl rfl
    exact ⟨(among_singleton h).mpr h_m, (h_side m h_m).mpr h_own⟩
  · rw [if_neg h_own]
    refine if_neg fun h_free => h_own ?_
    exact (h_side m ((among_singleton h).mp h_free.1)).mp h_free.2

theorem free_nil : free rev kept t [] f = f := by
  funext n
  exact free_of_not_among (by simp [Among])

/-- Freeing the places of two lists is freeing those of one after those of the other. A place that
is kept is kept both times. -/
theorem free_append : free rev kept t (l ++ l') f = free rev kept t l' (free rev kept t l f) := by
  funext n
  -- a place that the first list frees is owned by nobody then, and the second leaves it alone
  by_cases h : Among rev l n ∧ f n = some t ∧ ¬At rev kept n
  · have h_none : free rev kept t l f n = none := if_pos h
    have h_ne : free rev kept t l f n ≠ some t := by simp [h_none]
    refine Eq.trans (if_pos ⟨among_append.mpr (.inl h.1), h.2⟩) ?_
    exact ((free_of_ne h_ne).trans h_none).symm
  · have h_keep : free rev kept t l f n = f n := if_neg h
    -- what the first list keeps the second finds as it was
    by_cases h' : Among rev l' n ∧ f n = some t ∧ ¬At rev kept n
    · refine Eq.trans (if_pos ⟨among_append.mpr (.inr h'.1), h'.2⟩) (if_pos ?_).symm
      rw [h_keep]
      exact h'
    · refine Eq.trans (if_neg ?_) (Eq.trans (if_neg ?_) h_keep).symm
      · rintro ⟨h_among, h_own⟩
        obtain h_among | h_among := among_append.mp h_among
        · exact h ⟨h_among, h_own⟩
        · exact h' ⟨h_among, h_own⟩
      · rw [h_keep]
        exact h'

end Ownership
end PollingExpress
