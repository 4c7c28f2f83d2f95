import Mathlib.Data.List.Basic
import Mathlib.Data.List.Induction

/-!
# Properties of a history

A run leaves a history, the list of its events, latest last. `AtEach P l` says
that every event of `l` is in order, where `P past e` says that `e` is in order
after `past`. `atEach_snoc` is the step rule: a history is in order if what came
before its last event is, and that event is.

`Rises on l` says that `on` begins to hold somewhere along the history: it does not
hold of an entry, and holds of the next one.
-/

namespace PollingExpress

variable {α : Type*} {P Q : List α → α → Prop}

/-- Every event is in order after what came before it. -/
def AtEach (P : List α → α → Prop) (l : List α) : Prop :=
  ∀ l₁ e l₂, l = l₁ ++ e :: l₂ → P l₁ e

@[simp] theorem atEach_nil : AtEach P [] := fun l₁ e l₂ h => by simp at h

theorem atEach_snoc {l : List α} {e : α} : AtEach P (l ++ [e]) ↔ AtEach P l ∧ P l e := by
  constructor
  · intro h
    exact ⟨fun l₁ e' l₂ h_eq => h l₁ e' (l₂ ++ [e]) (by simp [h_eq]), h l e [] rfl⟩
  · rintro ⟨h_past, h_last⟩ l₁ e' l₂ h_eq
    rcases List.eq_nil_or_concat l₂ with rfl | ⟨l₂', e₂, rfl⟩
    · obtain ⟨rfl, h_e⟩ := List.append_inj' h_eq rfl
      obtain rfl : e = e' := by simpa using h_e
      exact h_last
    · rw [List.concat_eq_append, ← List.cons_append, ← List.append_assoc] at h_eq
      exact h_past l₁ e' l₂' (List.append_inj' h_eq rfl).1

/-- An index for each event; this is how `AtEach` is decided. -/
theorem atEach_iff_getElem {l : List α} : AtEach P l ↔ ∀ i : Fin l.length, P (l.take i) l[i] := by
  constructor
  · intro h i
    refine h _ _ (l.drop (i + 1)) ?_
    change l = l.take i ++ l[i.val] :: l.drop (i + 1)
    rw [← List.drop_eq_getElem_cons, List.take_append_drop]
  · rintro h l₁ e l₂ rfl
    simpa using h ⟨l₁.length, by simp⟩

instance [∀ past e, Decidable (P past e)] (l : List α) : Decidable (AtEach P l) :=
  decidable_of_iff _ atEach_iff_getElem.symm

theorem AtEach.mono {l : List α} (h : AtEach P l) (h' : ∀ past e, P past e → Q past e) :
    AtEach Q l :=
  fun l₁ e l₂ h_eq => h' l₁ e (h l₁ e l₂ h_eq)

theorem AtEach.of_append {l l' : List α} (h : AtEach P (l ++ l')) : AtEach P l :=
  fun l₁ e l₂ h_eq => h l₁ e (l₂ ++ l') (by simp [h_eq])

theorem atEach_map {β : Type*} {f : β → α} {l : List β} :
    AtEach P (l.map f) ↔ AtEach (fun past e => P (past.map f) (f e)) l := by
  induction l using List.reverseRecOn with
  | nil => simp
  | append_singleton l e ih =>
    rw [List.map_append, List.map_singleton, atEach_snoc, atEach_snoc, ih]

/-- Two properties that agree on a history whose events all have a third. -/
theorem AtEach.iff_of {R : List α → α → Prop} {l : List α} (h : AtEach R l)
    (h_iff : ∀ past e, R past e → (P past e ↔ Q past e)) : AtEach P l ↔ AtEach Q l :=
  ⟨fun h_P l₁ e l₂ h_eq => (h_iff l₁ e (h l₁ e l₂ h_eq)).mp (h_P l₁ e l₂ h_eq),
    fun h_Q l₁ e l₂ h_eq => (h_iff l₁ e (h l₁ e l₂ h_eq)).mpr (h_Q l₁ e l₂ h_eq)⟩

/-- Events that are always in order. -/
theorem AtEach.append {l l' : List α} (h : AtEach P l) (h' : ∀ past, ∀ e ∈ l', P past e) :
    AtEach P (l ++ l') := by
  induction l' generalizing l with
  | nil => simpa using h
  | cons e l' ih =>
    rw [show l ++ e :: l' = l ++ [e] ++ l' by simp]
    exact ih (atEach_snoc.mpr ⟨h, h' l e List.mem_cons_self⟩)
      fun past e' he' => h' past e' (List.mem_cons_of_mem e he')

/-! ### Edges -/

/-- `on` does not hold of an entry, and holds of the next one. -/
def Rises (on : α → Prop) (l : List α) : Prop := ∃ l₁ a b l₂, l = l₁ ++ a :: b :: l₂ ∧ ¬on a ∧ on b

theorem not_rises_singleton (on : α → Prop) (a : α) : ¬Rises on [a] := by
  rintro ⟨l₁, b, c, l₂, h_eq, -, -⟩
  have h_length := congrArg List.length h_eq
  simp only [List.length_append, List.length_cons, List.length_nil] at h_length
  omega

/-- An entry behind `a` is an edge, or the history had one. -/
theorem rises_snoc {on : α → Prop} {l : List α} {a b : α} (h_last : l.getLast? = some a) :
    Rises on (l ++ [b]) ↔ Rises on l ∨ ¬on a ∧ on b := by
  obtain ⟨init, rfl⟩ := List.getLast?_eq_some_iff.mp h_last
  constructor
  · rintro ⟨l₁, c, d, l₂, h_eq, h_c, h_d⟩
    obtain rfl | ⟨l₂, e, rfl⟩ := List.eq_nil_or_concat l₂
    · -- the edge is at the end
      rw [List.append_assoc] at h_eq
      have h_pair : [a, b] = [c, d] := (List.append_inj' h_eq rfl).2
      obtain ⟨h_ac, h_rest⟩ := List.cons.inj h_pair
      obtain ⟨h_bd, -⟩ := List.cons.inj h_rest
      rw [h_ac, h_bd]
      exact .inr ⟨h_c, h_d⟩
    · rw [List.concat_eq_append, ← List.cons_append, ← List.cons_append, ← List.append_assoc]
        at h_eq
      exact .inl ⟨l₁, c, d, l₂, (List.append_inj' h_eq rfl).1, h_c, h_d⟩
  · rintro (⟨l₁, c, d, l₂, h_eq, h_c, h_d⟩ | ⟨h_a, h_b⟩)
    · refine ⟨l₁, c, d, l₂ ++ [b], ?_, h_c, h_d⟩
      rw [h_eq, List.append_assoc]
      rfl
    · exact ⟨init, a, b, [], by rw [List.append_assoc]; rfl, h_a, h_b⟩

end PollingExpress
