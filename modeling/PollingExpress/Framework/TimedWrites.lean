import Mathlib.Algebra.Order.Ring.Int
import Mathlib.Data.Multiset.AddSub
import Mathlib.Data.Set.Lattice
import Mathlib.Logic.Function.Basic
import Mathlib.Order.CompletePartialOrder
import Mathlib.Order.Defs.LinearOrder

/-!
# Registers that are written later

A write to a register is scheduled for a time and performed some time after that, always one
of the earliest of those that are pending. What a register ends up with is then not what was
scheduled last, unless writes that contradict each other are scheduled in the order of their
times. `Aimed` says that this has been so: `aim` is what was scheduled last for each register,
and whatever is pending against it will be made good by something later that agrees with it.

`Aimed.schedule` and `Aimed.perform` are the two steps. With nothing pending for a register, it
holds what was scheduled last (`Aimed.settled`).
-/

namespace PollingExpress

variable {R V T W : Type*} [DecidableEq R] [LinearOrder T] {time : W → T}
  {write : W → Option (R × V)}

/-- The registers after a write, if it is one. -/
def performed (w : Option (R × V)) (reg : R → Option V) : R → Option V :=
  match w with
  | some (r, v) => Function.update reg r (some v)
  | none => reg

theorem performed_of_ne {w : Option (R × V)} {r : R} (h : ∀ v, w ≠ some (r, v))
    (reg : R → Option V) :
    performed w reg r = reg r := by
  match w with
  | none => rfl
  | some (r', v) =>
    have h_ne : r ≠ r' := by
      rintro rfl
      exact h v rfl
    exact Function.update_of_ne h_ne _ _

theorem performed_of_eq {w : Option (R × V)} {r : R} {v : V} (h : w = some (r, v))
    (reg : R → Option V) :
    performed w reg r = some v := by
  rw [h]
  exact Function.update_self _ _ _

/-- The registers will hold what was scheduled last, which is `aim`. A write that would spoil it may
still be pending, but then a later one will put it right; and where nothing is pending any more the
register holds it already. -/
structure Aimed (time : W → T) (write : W → Option (R × V)) (aim : R → Option V)
    (pending : Multiset W) (reg : R → Option V) : Prop where
  /-- What is pending against the aim is earlier than something for it. -/
  outdated : ∀ r v, aim r = some v → ∀ w ∈ pending, ∀ v', write w = some (r, v') → v' ≠ v →
    ∃ w' ∈ pending, write w' = some (r, v) ∧ time w < time w'
  settled : ∀ r v, aim r = some v → (∀ w ∈ pending, ∀ v', write w ≠ some (r, v')) → reg r = some v

variable {aim reg : R → Option V} {pending : Multiset W} {w : W}

omit [DecidableEq R] in
/-- Before anything is scheduled. -/
theorem Aimed.start (reg : R → Option V) : Aimed time write (fun _ => none) 0 reg where
  outdated := fun _ _ h => nomatch h
  settled := fun _ _ h => nomatch h

/-- A write is scheduled, later than all that contradict it. It is the aim of its register from then
on, and what is against it is earlier than itself. -/
theorem Aimed.schedule (h : Aimed time write aim pending reg)
    (h_later : ∀ r v, write w = some (r, v) → ∀ w' ∈ pending, ∀ v',
      write w' = some (r, v') → v' ≠ v →
      time w' < time w) :
    Aimed time write (performed (write w) aim) (w ::ₘ pending) reg where
  outdated := by
    intro r v h_aim w₁ h_w₁ v₁ h_write h_ne
    -- `w` may set the aim of `r`; if it does, `h_later` makes it later than all against it
    by_cases h_w : ∃ v', write w = some (r, v')
    · obtain ⟨v', h_w⟩ := h_w
      obtain rfl := Option.some.inj ((performed_of_eq h_w aim).symm.trans h_aim)
      rcases Multiset.mem_cons.mp h_w₁ with rfl | h_w₁
      · obtain ⟨-, rfl⟩ := Prod.mk.inj (Option.some.inj (h_w.symm.trans h_write))
        -- a write is not against its own value
        exact absurd rfl h_ne
      · exact ⟨w, Multiset.mem_cons_self _ _, h_w, h_later r v' h_w w₁ h_w₁ v₁ h_write h_ne⟩
    · rw [performed_of_ne (fun v' h_eq => h_w ⟨v', h_eq⟩)] at h_aim
      rcases Multiset.mem_cons.mp h_w₁ with rfl | h_w₁
      · exact absurd ⟨v₁, h_write⟩ h_w
      · obtain ⟨w', h_w', h_rest⟩ := h.outdated r v h_aim w₁ h_w₁ v₁ h_write h_ne
        exact ⟨w', Multiset.mem_cons_of_mem h_w', h_rest⟩
  settled := by
    intro r v h_aim h_none
    rw [performed_of_ne (h_none w (Multiset.mem_cons_self _ _))] at h_aim
    exact h.settled r v h_aim fun w' h_w' => h_none w' (Multiset.mem_cons_of_mem h_w')

/-- Several writes are scheduled, which do not contradict one another. -/
theorem Aimed.scheduleAll {ws : List W} (h : Aimed time write aim pending reg)
    (h_later : ∀ w ∈ ws, ∀ r v, write w = some (r, v) → ∀ w' ∈ pending, ∀ v',
      write w' = some (r, v') →
      v' ≠ v → time w' < time w)
    (h_agree : ws.Pairwise fun w' w => ∀ r v v', write w = some (r, v) →
      write w' = some (r, v') → v' = v) :
    Aimed time write (ws.foldl (fun aim w => performed (write w) aim) aim) (ws + pending) reg := by
  induction ws generalizing aim pending with
  | nil => rwa [Multiset.coe_nil, Multiset.zero_add]
  | cons w ws ih =>
    obtain ⟨h_w, h_ws⟩ := List.pairwise_cons.mp h_agree
    have h_first := h.schedule (h_later w List.mem_cons_self)
    rw [List.foldl_cons, ← Multiset.cons_coe, Multiset.cons_add, ← Multiset.add_cons]
    refine ih h_first (fun w₁ h_w₁ r v h_write w' h_w' v' h_write' h_ne => ?_) h_ws
    -- what was just scheduled agrees with the rest, and what was there before is not later
    rcases Multiset.mem_cons.mp h_w' with rfl | h_w'
    · exact absurd (h_w w₁ h_w₁ r v v' h_write h_write') h_ne
    · exact h_later w₁ (List.mem_cons_of_mem _ h_w₁) r v h_write w' h_w' v' h_write' h_ne

/-- One of the earliest of the pending writes is performed. If it was against the aim, something
later for the aim is still pending; if nothing is, the register has just been set as it should be,
or was so before. -/
theorem Aimed.perform (h : Aimed time write aim (w ::ₘ pending) reg)
    (h_least : ∀ w' ∈ w ::ₘ pending, time w ≤ time w') :
    Aimed time write aim pending (performed (write w) reg) where
  outdated := by
    intro r v h_aim w₁ h_w₁ v₁ h_write h_ne
    -- the write that is later than `w₁` is not the earliest, so it is still pending
    obtain ⟨w', h_w', h_rest⟩ :=
      h.outdated r v h_aim w₁ (Multiset.mem_cons_of_mem h_w₁) v₁ h_write h_ne
    rcases Multiset.mem_cons.mp h_w' with rfl | h_w'
    · exact absurd h_rest.2 (not_lt.mpr (h_least w₁ (Multiset.mem_cons_of_mem h_w₁)))
    · exact ⟨w', h_w', h_rest⟩
  settled := by
    intro r v h_aim h_none
    by_cases h_w : ∃ v', write w = some (r, v')
    · obtain ⟨v', h_w⟩ := h_w
      rw [performed_of_eq h_w]
      by_contra h_ne
      -- had it been against the aim, something for the aim would still be pending
      obtain ⟨w', h_w', h_write, h_lt⟩ := h.outdated r v h_aim w (Multiset.mem_cons_self _ _) v' h_w
        fun h_eq => h_ne (congrArg some h_eq)
      rcases Multiset.mem_cons.mp h_w' with rfl | h_w'
      · exact absurd h_lt (lt_irrefl _)
      · exact h_none w' h_w' v h_write
    · rw [performed_of_ne (fun v' h_eq => h_w ⟨v', h_eq⟩)]
      refine h.settled r v h_aim fun w' h_w' v' h_write => ?_
      rcases Multiset.mem_cons.mp h_w' with rfl | h_w'
      · exact h_w ⟨v', h_write⟩
      · exact h_none w' h_w' v' h_write

end PollingExpress
