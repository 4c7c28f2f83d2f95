import Mathlib.Data.List.Nodup
import Mathlib.Logic.Function.Basic

/-!
# Linked lists through a `next` field

`Chain next p l` says that following `next` from the pointer `p` visits exactly
the cells of `l`, in order, and ends at a null pointer. A chain is finite by
construction, so `Chain.nodup` is acyclicity: no cell occurs on it twice.

The lemmas are the ones a queue over such a list needs: a write outside the list
does not disturb it (`Chain.congr`), the head can be taken off
(`Chain.tail`), and a cell can be hooked on behind the last one
(`Chain.snoc`, `Chain.singleton`). `link` is the place where a pointer of the list is kept,
the first pointer or the field of a cell: a cell is put anywhere into the list by a
write to one link (`Chain.insert`).
-/

namespace PollingExpress

variable {α : Type*} {next next' : α → Option α}

/-- Following `next` from `p` visits `l` and ends at null. -/
def Chain (next : α → Option α) : Option α → List α → Prop
  | p, [] => p = none
  | p, a :: l => p = some a ∧ Chain next (next a) l

@[simp] theorem chain_nil {p : Option α} : Chain next p [] ↔ p = none := Iff.rfl

@[simp] theorem chain_cons {p : Option α} {a : α} {l : List α} :
    Chain next p (a :: l) ↔ p = some a ∧ Chain next (next a) l := Iff.rfl

/-- A chain only looks at the cells it visits. -/
theorem Chain.congr {p : Option α} {l : List α} (h : Chain next p l)
    (h_eq : ∀ a ∈ l, next' a = next a) : Chain next' p l := by
  induction l generalizing p with
  | nil => exact h
  | cons a l ih =>
    refine ⟨h.1, ?_⟩
    rw [h_eq a List.mem_cons_self]
    exact ih h.2 fun b hb => h_eq b (List.mem_cons_of_mem a hb)

/-- The list a chain visits is determined by its first pointer. -/
theorem Chain.unique {p : Option α} {l l' : List α} (h : Chain next p l)
    (h' : Chain next p l') : l = l' := by
  induction l generalizing p l' with
  | nil =>
    cases l' with
    | nil => rfl
    | cons b l' => exact absurd (h.symm.trans h'.1) (by simp)
  | cons a l ih =>
    cases l' with
    | nil => exact absurd (h'.symm.trans h.1) (by simp)
    | cons b l' =>
      obtain rfl : a = b := Option.some.inj (h.1.symm.trans h'.1)
      rw [ih h.2 h'.2]

/-- A chain through an array whose cells are linked in order. -/
theorem chain_of_getElem {l : List α} (h : ∀ i (h_i : i < l.length), next l[i] = l[i + 1]?) :
    Chain next l.head? l := by
  induction l with
  | nil => rfl
  | cons a l ih =>
    refine ⟨rfl, ?_⟩
    have h_head : next a = l.head? := (h 0 (Nat.succ_pos _)).trans List.head?_eq_getElem?.symm
    rw [h_head]
    exact ih fun i h_i => h (i + 1) (Nat.succ_lt_succ h_i)

theorem Chain.eq_nil_iff {p : Option α} {l : List α} (h : Chain next p l) :
    p = none ↔ l = [] := by
  cases l with
  | nil => simpa using h
  | cons a l => simp [h.1]

theorem Chain.head? {p : Option α} {l : List α} (h : Chain next p l) : l.head? = p := by
  cases l with
  | nil => exact h.symm
  | cons a l => exact h.1.symm

/-- The rest of a chain, from any cell on it. -/
theorem Chain.drop {p : Option α} {l₁ l₂ : List α} {a : α}
    (h : Chain next p (l₁ ++ a :: l₂)) : Chain next (some a) (a :: l₂) := by
  induction l₁ generalizing p with
  | nil => exact ⟨rfl, h.2⟩
  | cons b l₁ ih => exact ih h.2

/-- **A chain is acyclic.** Coming back to a cell would give two chains of
different lengths out of it. -/
theorem Chain.nodup {p : Option α} {l : List α} (h : Chain next p l) : l.Nodup := by
  induction l generalizing p with
  | nil => exact List.nodup_nil
  | cons a l ih =>
    refine List.nodup_cons.mpr ⟨fun hmem => ?_, ih h.2⟩
    obtain ⟨l₁, l₂, rfl⟩ := List.append_of_mem hmem
    have h_here : Chain next (some a) (a :: (l₁ ++ a :: l₂)) := ⟨rfl, h.2⟩
    have h_again : Chain next (some a) (a :: l₂) := h.2.drop
    have h_eq : a :: (l₁ ++ a :: l₂) = a :: l₂ :=
      h_here.unique h_again
    have h_len := congrArg List.length h_eq
    simp only [List.length_cons, List.length_append] at h_len
    omega

/-- A list of one cell. -/
theorem Chain.singleton {a : α} (h : next a = none) : Chain next (some a) [a] := ⟨rfl, h⟩

/-- Hooking `b` on behind the last cell `a`. -/
theorem Chain.snoc [DecidableEq α] {p : Option α} {l : List α} (h : Chain next p l)
    {a b : α} (ha : l.getLast? = some a) (hb : b ∉ l) (hnone : next b = none) :
    Chain (Function.update next a (some b)) p (l ++ [b]) := by
  induction l generalizing p with
  | nil => simp at ha
  | cons c l ih =>
    cases l with
    | nil =>
      -- the last cell is the only one
      obtain rfl : c = a := by simpa using ha
      have hne : b ≠ c := by simpa using hb
      exact ⟨h.1, by simp, by rw [Function.update_of_ne hne]; exact hnone⟩
    | cons d l =>
      -- this cell is not the last one, since no cell comes twice
      have hne : c ≠ a := by
        rintro rfl
        have h_last : c ∈ d :: l := List.mem_of_getLast? (by simpa using ha)
        exact (List.nodup_cons.mp h.nodup).1 h_last
      refine ⟨h.1, ?_⟩
      rw [Function.update_of_ne hne]
      exact ih h.2 (by simpa using ha) fun hm => hb (List.mem_cons_of_mem c hm)

/-! ### Links -/

/-- What the link of a cell holds, or the first pointer, which belongs to no cell. -/
def link (next : α → Option α) (p : Option α) : Option α → Option α
  | none => p
  | some a => next a

@[simp] theorem link_none (next : α → Option α) (p : Option α) : link next p none = p := rfl

@[simp] theorem link_some (next : α → Option α) (p : Option α) (a : α) :
    link next p (some a) = next a := rfl

/-- Behind the cells of `l₁` comes the first of `l₂`. -/
theorem Chain.link_eq {p : Option α} {l₁ l₂ : List α} (h : Chain next p (l₁ ++ l₂)) :
    link next p l₁.getLast? = l₂.head? := by
  rcases List.eq_nil_or_concat l₁ with rfl | ⟨l, a, rfl⟩
  · exact h.head?.symm
  · rw [List.concat_eq_append, List.append_assoc] at h
    have h_last : Chain next (some a) (a :: l₂) := h.drop
    rw [List.concat_eq_append, List.getLast?_concat, link_some]
    exact h_last.2.head?.symm

/-- Putting `a` behind the cells of `l₁`: of the links of the list, only theirs changes. With no
cell in front it is the head that changes, and with one or more it is the link of the last of
them. -/
theorem Chain.insert {p p' : Option α} {l₁ l₂ : List α} {a : α} (h : Chain next p (l₁ ++ l₂))
    (h_a : next' a = l₂.head?) (h_link : link next' p' l₁.getLast? = some a)
    (h_head : l₁ ≠ [] → p' = p)
    (h_same : ∀ b ∈ l₁ ++ l₂, l₁.getLast? ≠ some b → next' b = next b) :
    Chain next' p' (l₁ ++ a :: l₂) := by
  induction l₁ generalizing p p' with
  | nil =>
    refine ⟨h_link, ?_⟩
    have h_p : l₂.head? = p := Chain.head? h
    rw [h_a, h_p]
    exact Chain.congr h fun b h_b => h_same b h_b (by simp)
  | cons c l₁ ih =>
    have h_c : c ∉ l₁ ++ l₂ := (List.nodup_cons.mp h.nodup).1
    refine ⟨(h_head (List.cons_ne_nil _ _)).trans h.1, ih h.2 ?_ ?_ ?_⟩
    · cases l₁ with
      | nil => exact h_link
      | cons d l₁ => exact h_link
    · -- `c` is not the last of the cells, and keeps its link
      intro h_ne
      refine h_same c List.mem_cons_self ?_
      intro h_last
      obtain ⟨d, l, rfl⟩ := List.exists_cons_of_ne_nil h_ne
      rw [List.getLast?_cons_cons] at h_last
      exact h_c (List.mem_append_left _ (List.mem_of_getLast? h_last))
    · intro b h_b h_last
      refine h_same b (List.mem_cons_of_mem c h_b) ?_
      cases l₁ with
      | nil =>
        rintro ⟨⟩
        exact h_c h_b
      | cons d l₁ => exact h_last

end PollingExpress
