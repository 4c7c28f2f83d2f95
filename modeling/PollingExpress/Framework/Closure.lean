import Mathlib.Data.Fin.Basic
import Mathlib.Data.Nat.Bitwise
import Mathlib.Logic.Function.Iterate

/-!
# Reachability by rounds

A graph with so many vertices, as the list of its edges, and a set of vertices as the bits of a
number. A round adds to the set where one edge leads from it (`spread`); what is there after so many
rounds can be reached over at most as many edges (`within_of_reached`). Against the edges this finds
from where a vertex can be reached.
-/

namespace PollingExpress

variable {n : ℕ} {edges : List (Fin n × Fin n)} {u v w : Fin n} {k l : ℕ}

/-- At most `k` edges lead from one vertex to the other. -/
inductive Within (edges : List (Fin n × Fin n)) : ℕ → Fin n → Fin n → Prop
  | refl {k : ℕ} {u : Fin n} : Within edges k u u
  | step {k : ℕ} {u v w : Fin n} (h : Within edges k u v) (h_edge : (v, w) ∈ edges) :
      Within edges (k + 1) u w

theorem Within.mono (h : Within edges k u v) (h_le : k ≤ l) : Within edges l u v := by
  induction h generalizing l with
  | refl => exact .refl
  | step _ h_edge ih =>
    obtain ⟨l, rfl⟩ := Nat.exists_eq_add_of_le' (Nat.le_of_add_left_le h_le)
    exact .step (ih (Nat.le_of_add_le_add_right h_le)) h_edge

theorem Within.trans (h : Within edges k u v) (h' : Within edges l v w) :
    Within edges (k + l) u w := by
  induction h' with
  | refl => exact h.mono (Nat.le_add_right _ _)
  | step _ h_edge ih => exact .step (ih h) h_edge

theorem Within.head (h_edge : (u, v) ∈ edges) (h : Within edges k v w) :
    Within edges (k + 1) u w := by
  rw [Nat.add_comm]
  exact Within.trans (.step (k := 0) .refl h_edge) h

theorem Within.of_swap (h : Within (edges.map Prod.swap) k u v) : Within edges k v u := by
  induction h with
  | refl => exact .refl
  | @step k u v w _ h_edge ih =>
    obtain ⟨⟨x, y⟩, h_xy, h_eq⟩ := List.mem_map.mp h_edge
    obtain ⟨rfl, rfl⟩ := Prod.mk.inj h_eq
    exact ih.head h_xy

/-- Where one edge leads to from a member of `s`, added to `acc`. -/
def spreadFrom (s : ℕ) (edges : List (Fin n × Fin n)) (acc : ℕ) : ℕ :=
  edges.foldl (fun acc e => if s.testBit e.1 then acc ||| 2 ^ e.2.val else acc) acc

/-- One round. -/
def spread (edges : List (Fin n × Fin n)) (s : ℕ) : ℕ := spreadFrom s edges s

/-- What can be reached from a vertex in so many rounds. -/
def reached (edges : List (Fin n × Fin n)) (k : ℕ) (u : Fin n) : ℕ := (spread edges)^[k] (2 ^ u.val)

theorem testBit_spreadFrom {s acc : ℕ} (h : (spreadFrom s edges acc).testBit v = true) :
    acc.testBit v = true ∨ ∃ u : Fin n, s.testBit u = true ∧ (u, v) ∈ edges := by
  induction edges generalizing acc with
  | nil => exact .inl h
  | cons e edges ih =>
    rw [spreadFrom, List.foldl_cons] at h
    obtain h | ⟨u, h_u, h_edge⟩ := ih h
    · split at h
      · next h_e =>
        rw [Nat.testBit_or, Bool.or_eq_true, Nat.testBit_two_pow, decide_eq_true_eq] at h
        obtain h | h := h
        · exact .inl h
        · exact .inr ⟨e.1, h_e, Fin.ext h ▸ List.mem_cons_self⟩
      · exact .inl h
    · exact .inr ⟨u, h_u, List.mem_cons_of_mem _ h_edge⟩

/-- **What the rounds find** can be reached. The induction is on the rounds: a bit that is set after
one more round was set before, or an edge leads to it from one that was. -/
theorem within_of_reached (h : (reached edges k u).testBit v = true) : Within edges k u v := by
  induction k generalizing v with
  | zero =>
    rw [reached, Function.iterate_zero, id, Nat.testBit_two_pow, decide_eq_true_eq] at h
    exact Fin.ext h ▸ .refl
  | succ k ih =>
    rw [reached, Function.iterate_succ_apply'] at h
    obtain h | ⟨w, h_w, h_edge⟩ := testBit_spreadFrom h
    · exact (ih h).mono (Nat.le_succ k)
    · exact .step (ih h_w) h_edge

end PollingExpress
