import Mathlib.Data.Finset.Basic
import Mathlib.Data.Fintype.Basic
import Mathlib.Data.Multiset.Range
import Mathlib.Logic.Equiv.Basic
import Mathlib.Order.Basic

/-!
# Binary heaps in an array

A C array is a function `Nat → α`, of which a heap of `n` items uses the slots
below `n`. `swap` exchanges two slots; `slots q n` is the multiset of the items.

`Ordered key q n` says that no item has a larger key than its parent. A sift
breaks the order around one slot only, its *hole*:

* `UpOrder` — every pair but the hole and its parent is in order, and the
  hole's children are not above its parent. Swapping the hole with a parent of
  smaller key keeps it (`UpOrder.swap_parent`), and it is `Ordered` once the
  hole is not above its parent (`UpOrder.ordered`).
* `DownOrder` — every pair but the hole and its children is in order, and again
  the hole's children are not above its parent. Swapping the hole with a child
  that no child is above keeps it (`DownOrder.swap_child`), and it is `Ordered`
  once no child is above the hole (`DownOrder.ordered`).

Which child a program picks on a tie, and how it decides to stop, is left to the
program; these lemmas only ask for what the order needs.
-/

namespace PollingExpress

/-- The parent of a slot. -/
def heapParent (i : ℕ) : ℕ := (i - 1) / 2

theorem heapParent_lt {i : ℕ} (h : 0 < i) : heapParent i < i := by
  unfold heapParent; omega

/-- The slots below `i` in the tree are `2 * i + 1` and `2 * i + 2`. -/
theorem heapParent_eq_iff {i j : ℕ} (h : 0 < j) :
    heapParent j = i ↔ j = 2 * i + 1 ∨ j = 2 * i + 2 := by
  unfold heapParent; omega

variable {α : Type*}

/-- Exchange two slots. -/
def swap (q : ℕ → α) (a b : ℕ) : ℕ → α :=
  fun i => if i = a then q b else if i = b then q a else q i

@[simp] theorem swap_left (q : ℕ → α) (a b : ℕ) : swap q a b a = q b := by simp [swap]

@[simp] theorem swap_right (q : ℕ → α) (a b : ℕ) : swap q a b b = q a := by
  unfold swap; split <;> simp_all

theorem swap_of_ne (q : ℕ → α) {a b i : ℕ} (ha : i ≠ a) (hb : i ≠ b) : swap q a b i = q i := by
  simp [swap, ha, hb]

theorem swap_eq_comp (q : ℕ → α) (a b : ℕ) : swap q a b = q ∘ Equiv.swap a b := by
  funext i
  simp only [swap, Function.comp_apply, Equiv.swap_apply_def]
  split_ifs <;> rfl

/-! ### The items of a heap -/

/-- The items in the slots below `n`. -/
def slots (q : ℕ → α) (n : ℕ) : Multiset α := (Multiset.range n).map q

@[simp] theorem slots_zero (q : ℕ → α) : slots q 0 = 0 := rfl

theorem slots_succ (q : ℕ → α) (n : ℕ) : slots q (n + 1) = q n ::ₘ slots q n := by
  simp [slots, Multiset.range_succ]

theorem mem_slots {q : ℕ → α} {n : ℕ} {a : α} : a ∈ slots q n ↔ ∃ i < n, q i = a := by
  simp [slots]

@[simp] theorem card_slots (q : ℕ → α) (n : ℕ) : (slots q n).card = n := by simp [slots]

/-- Only the slots below `n` matter. -/
theorem slots_congr {q q' : ℕ → α} {n : ℕ} (h : ∀ i < n, q' i = q i) : slots q' n = slots q n :=
  Multiset.map_congr rfl fun i hi => h i (Multiset.mem_range.mp hi)

/-- Exchanging two slots below `n` keeps the items. -/
theorem slots_swap (q : ℕ → α) {a b n : ℕ} (ha : a < n) (hb : b < n) :
    slots (swap q a b) n = slots q n := by
  have h_perm : (Multiset.range n).map (Equiv.swap a b) = Multiset.range n := by
    refine (Multiset.Nodup.ext ((Multiset.nodup_range n).map (Equiv.injective _))
      (Multiset.nodup_range n)).mpr fun i => ?_
    have h_lt : ∀ j < n, Equiv.swap a b j < n := by
      intro j hj
      rw [Equiv.swap_apply_def]
      split_ifs <;> assumption
    simp only [Multiset.mem_map, Multiset.mem_range]
    exact ⟨fun ⟨j, hj, hji⟩ => hji ▸ h_lt j hj,
      fun hi => ⟨Equiv.swap a b i, h_lt i hi, Equiv.swap_apply_self a b i⟩⟩
  rw [swap_eq_comp, slots, ← Multiset.map_map, h_perm, slots]

/-- Moving the last item into the root slot takes the root item away. -/
theorem slots_replace_root (q : ℕ → α) (n : ℕ) :
    slots q (n + 2) = q 0 ::ₘ slots (Function.update q 0 (q (n + 1))) (n + 1) := by
  have h_mem : 0 ∈ Multiset.range (n + 1) := Multiset.mem_range.mpr (Nat.succ_pos n)
  have h_root : slots (Function.update q 0 (q (n + 1))) (n + 1) =
      q (n + 1) ::ₘ ((Multiset.range (n + 1)).erase 0).map q := by
    conv_lhs => rw [slots, ← Multiset.cons_erase h_mem, Multiset.map_cons]
    refine congrArg₂ _ (Function.update_self _ _ _) (Multiset.map_congr rfl fun i hi => ?_)
    exact Function.update_of_ne ((Multiset.nodup_range (n + 1)).mem_erase_iff.mp hi).1 _ _
  have h_erase : slots q (n + 1) = q 0 ::ₘ ((Multiset.range (n + 1)).erase 0).map q := by
    rw [slots, ← Multiset.map_cons, Multiset.cons_erase h_mem]
  rw [h_root, slots_succ, h_erase, Multiset.cons_swap]

/-! ### Heap order -/

variable {κ : Type*} [LinearOrder κ] {key : α → κ} {q : ℕ → α} {n : ℕ}

/-- No item has a larger key than its parent. -/
def Ordered (key : α → κ) (q : ℕ → α) (n : ℕ) : Prop :=
  ∀ i, 0 < i → i < n → key (q i) ≤ key (q (heapParent i))

/-- The root of an ordered heap has the largest key. -/
theorem Ordered.le_root (h : Ordered key q n) (i : ℕ) (hi : i < n) : key (q i) ≤ key (q 0) := by
  induction i using Nat.strong_induction_on with
  | h i ih =>
    rcases Nat.eq_zero_or_pos i with rfl | h_pos
    · exact le_rfl
    · have h_lt := heapParent_lt h_pos
      exact (h i h_pos hi).trans (ih _ h_lt (h_lt.trans hi))

theorem Ordered.mono (h : Ordered key q n) {m : ℕ} (hm : m ≤ n) : Ordered key q m :=
  fun i h_pos hi => h i h_pos (hi.trans_le hm)

/-- In order but for the pair of `hole` and its parent: what is in the hole may have to go up. The
children of the hole are below its parent (`grand`), so that it can be exchanged with that one. -/
structure UpOrder (key : α → κ) (q : ℕ → α) (n hole : ℕ) : Prop where
  except : ∀ i, 0 < i → i < n → i ≠ hole → key (q i) ≤ key (q (heapParent i))
  grand : 0 < hole → ∀ i, 0 < i → i < n → heapParent i = hole →
    key (q i) ≤ key (q (heapParent hole))

/-- In order but for the pairs of `hole` and its children: what is in the hole may have to go down.
The children are below the parent of the hole (`grand`), so that the larger of them can come up. -/
structure DownOrder (key : α → κ) (q : ℕ → α) (n hole : ℕ) : Prop where
  except : ∀ i, 0 < i → i < n → heapParent i ≠ hole → key (q i) ≤ key (q (heapParent i))
  grand : 0 < hole → ∀ i, 0 < i → i < n → heapParent i = hole →
    key (q i) ≤ key (q (heapParent hole))

theorem UpOrder.ordered {hole : ℕ} (h : UpOrder key q n hole)
    (h_stop : 0 < hole → hole < n → key (q hole) ≤ key (q (heapParent hole))) :
    Ordered key q n := by
  intro i h_pos hi
  by_cases h_eq : i = hole
  · subst h_eq; exact h_stop h_pos hi
  · exact h.except i h_pos hi h_eq

/-- What is in the hole changes places with its parent, which it is above. The hole is then one
level up, and everything but its new pair is in order. -/
theorem UpOrder.swap_parent {hole : ℕ} (h : UpOrder key q n hole) (h_pos : 0 < hole)
    (h_lt : hole < n) (h_gt : key (q (heapParent hole)) < key (q hole)) :
    UpOrder key (swap q hole (heapParent hole)) n (heapParent hole) := by
  have h_par := heapParent_lt h_pos
  constructor
  · -- every pair but the one at the parent is in order
    intro i hi_pos hi hi_ne
    by_cases h_eq : i = hole
    · -- the pair that was out of order, now exchanged
      subst h_eq
      rw [swap_left, swap_right]
      exact h_gt.le
    · -- the pair of a child of the hole, of its sibling, or of neither
      rw [swap_of_ne q h_eq hi_ne]
      by_cases h_child : heapParent i = hole
      · rw [h_child, swap_left]
        exact h.grand h_pos i hi_pos hi h_child
      · by_cases h_sib : heapParent i = heapParent hole
        · rw [h_sib, swap_right]
          exact ((h_sib ▸ h.except i hi_pos hi h_eq)).trans h_gt.le
        · rw [swap_of_ne q h_child h_sib]
          exact h.except i hi_pos hi h_eq
  · -- a child of the parent is below the parent's parent
    intro hp_pos i hi_pos hi h_par_i
    have h_grand := heapParent_lt hp_pos
    have h_up := h.except (heapParent hole) hp_pos (by omega) (by omega)
    rw [swap_of_ne q (show heapParent (heapParent hole) ≠ hole by omega) h_grand.ne]
    by_cases h_eq : i = hole
    · subst h_eq
      rw [swap_left]
      exact h_up
    · have hi_par : i ≠ heapParent hole := by
        have := heapParent_lt hi_pos
        omega
      rw [swap_of_ne q h_eq hi_par]
      exact (h_par_i ▸ h.except i hi_pos hi h_eq).trans h_up

theorem DownOrder.ordered {hole : ℕ} (h : DownOrder key q n hole)
    (h_stop : ∀ i, 0 < i → i < n → heapParent i = hole → key (q i) ≤ key (q hole)) :
    Ordered key q n := by
  intro i h_pos hi
  by_cases h_eq : heapParent i = hole
  · rw [h_eq]; exact h_stop i h_pos hi h_eq
  · exact h.except i h_pos hi h_eq

/-- What is in the hole changes places with the larger of its children. The hole is then one level
down, and everything but its new pairs is in order. -/
theorem DownOrder.swap_child {hole c : ℕ} (h : DownOrder key q n hole) (hc_pos : 0 < c)
    (hc : c < n) (hc_par : heapParent c = hole) (h_le : key (q hole) ≤ key (q c))
    (h_max : ∀ i, 0 < i → i < n → heapParent i = hole → key (q i) ≤ key (q c)) :
    DownOrder key (swap q hole c) n c := by
  have h_lt : hole < c := hc_par ▸ heapParent_lt hc_pos
  constructor
  · -- every pair but those at the child is in order
    intro i hi_pos hi hi_ne
    by_cases h_eq : i = hole
    · -- the child that rose is not above the hole's old parent
      subst h_eq
      have h_par := heapParent_lt hi_pos
      rw [swap_left, swap_of_ne q h_par.ne (by omega)]
      exact h.grand hi_pos c hc_pos hc hc_par
    · -- a pair below the hole: the child that rose is the larger one
      by_cases h_child : heapParent i = hole
      · rw [h_child, swap_left]
        by_cases h_ic : i = c
        · subst h_ic; rw [swap_right]; exact h_le
        · rw [swap_of_ne q h_eq h_ic]
          exact h_max i hi_pos hi h_child
      · have h_ic : i ≠ c := fun h_ic => h_child (h_ic ▸ hc_par)
        rw [swap_of_ne q h_eq h_ic, swap_of_ne q h_child hi_ne]
        exact h.except i hi_pos hi h_child
  · -- a child of `c` is below what is now in the hole
    intro _ i hi_pos hi h_par_i
    have h_ci : c < i := h_par_i ▸ heapParent_lt hi_pos
    rw [hc_par, swap_left, swap_of_ne q (by omega) (by omega)]
    exact h_par_i ▸ h.except i hi_pos hi (by omega)

/-- A new item in the last slot is the hole of a sift up. -/
theorem Ordered.snoc (h : Ordered key q n) : UpOrder key q (n + 1) n where
  except i h_pos hi h_ne := h i h_pos (by omega)
  grand _ i h_pos hi h_par := by
    have := heapParent_lt h_pos
    omega

/-- A new item in the root slot is the hole of a sift down. -/
theorem Ordered.replace_root (h : Ordered key q n) {q' : ℕ → α}
    (h_eq : ∀ i, 0 < i → i < n → q' i = q i) : DownOrder key q' n 0 where
  except i h_pos hi h_ne := by
    have := heapParent_lt h_pos
    rw [h_eq i h_pos hi, h_eq _ (by omega) (by omega)]
    exact h i h_pos hi
  grand h_pos := absurd h_pos (lt_irrefl 0)

end PollingExpress
