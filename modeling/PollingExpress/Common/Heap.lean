import Mathlib.Data.Int.Order.Basic
import Mathlib.Order.OrderDual
import PollingExpress.Framework.Heap

/-!
# The schedule heap

`heap.c`: a min heap of pointers, ordered by the `int` that each of them points to. The
array is a function of the slot, and `key` reads the `int`.

`heap_pop` takes a slot without an item for one with the key `0x00FFFFFF`. As long as the
key of the item that sinks is smaller, or it comes to rest above two items (`PopInside`), no
such slot is ever picked, and the heap is one over the reversed order of the keys:
`contents_heapAdd`, `heapAdd_ordered`, `contents_heapPop` and `heapPop_ordered` are what
callers need. Of two children with equal keys the right one rises.
-/

namespace PollingExpress

structure Heap (α : Type*) where
  items : ℕ → α
  len : ℕ

namespace Heap

variable {α : Type*} {key : α → Int}

/-- What an empty slot counts as. -/
def noKey : Int := 0x00FFFFFF

/-- The loop of `heap_add`, from slot `i` on. -/
def siftUp (key : α → Int) : ℕ → (ℕ → α) → ℕ → ℕ → α
  | 0, q, _ => q
  | fuel + 1, q, i =>
    if i ≠ 0 ∧ key (q i) < key (q (heapParent i)) then
      siftUp key fuel (swap q i (heapParent i)) (heapParent i)
    else q

/-- `heap_add`. -/
def heapAdd (key : α → Int) (h : Heap α) (item : α) : Heap α where
  items := siftUp key h.len (Function.update h.items h.len item) h.len
  len := h.len + 1

/-- `heap_peek`. -/
def heapPeek (h : Heap α) : Option α := if h.len ≠ 0 then some (h.items 0) else none

/-- The key of slot `i` of a heap of `n` items. -/
def keyAt (key : α → Int) (n : ℕ) (q : ℕ → α) (i : ℕ) : Int :=
  if i < n then key (q i) else noKey

/-- The loop of `heap_pop`, from slot `i` on. -/
def siftDown (key : α → Int) (n : ℕ) : ℕ → (ℕ → α) → ℕ → ℕ → α
  | 0, q, _ => q
  | fuel + 1, q, i =>
    if i < n then
      let a := keyAt key n q (2 * i + 1)
      let b := keyAt key n q (2 * i + 2)
      let c := key (q i)
      if c < a ∧ c < b then q
      else
        let j := if a < b then 2 * i + 1 else 2 * i + 2
        siftDown key n fuel (swap q i j) j
    else q

/-- `heap_pop`. -/
def heapPop (key : α → Int) (h : Heap α) : Heap α :=
  if h.len < 2 then { h with len := 0 }
  else {
    items := siftDown key (h.len - 1) (h.len - 1)
      (Function.update h.items 0 (h.items (h.len - 1))) 0
    len := h.len - 1 }

/-- No item has a smaller key than the one above it. -/
def MinOrdered (key : α → Int) (q : ℕ → α) (n : ℕ) : Prop :=
  Ordered (fun x => OrderDual.toDual (key x)) q n

/-- The items of the heap. -/
def contents (h : Heap α) : Multiset α := slots h.items h.len

variable {q : ℕ → α} {n : ℕ} {h : Heap α}

/-- `heap_peek` finds an item with the least key. -/
theorem le_of_heapPeek {x : α} (h_ord : MinOrdered key h.items h.len) (h_x : h.heapPeek = some x) :
    ∀ y ∈ h.contents, key x ≤ key y := by
  unfold heapPeek at h_x
  split at h_x
  · obtain rfl := Option.some.inj h_x
    intro y h_y
    obtain ⟨i, h_i, rfl⟩ := mem_slots.mp h_y
    exact Ordered.le_root h_ord i h_i
  · cases h_x

theorem MinOrdered.congr {key' : α → Int} (h : MinOrdered key q n)
    (h_eq : ∀ i < n, key' (q i) = key (q i)) :
    MinOrdered key' q n := by
  intro i h_pos h_i
  dsimp only
  rw [h_eq i h_i, h_eq _ ((heapParent_lt h_pos).trans h_i)]
  exact h i h_pos h_i

theorem heapPeek_eq_none_iff : h.heapPeek = none ↔ h.contents = 0 := by
  rw [heapPeek, contents, ← Multiset.card_eq_zero, card_slots]
  split <;> simp_all

/-! ### The two sifts -/

theorem slots_siftUp (fuel : ℕ) {i : ℕ} (h_i : i < n) :
    slots (siftUp key fuel q i) n = slots q n := by
  induction fuel generalizing q i with
  | zero => rfl
  | succ fuel ih =>
    unfold siftUp
    split
    · next h =>
      -- both slots that are exchanged are slots of items
      have h_par := heapParent_lt (Nat.pos_of_ne_zero h.1)
      rw [ih (h_par.trans h_i), slots_swap q h_i (h_par.trans h_i)]
    · rfl

/-- The loop of `heap_add`: an item that may be above its parent goes up until it is not. The fuel
is the slot that it starts from, since each turn comes to a smaller one. -/
theorem siftUp_ordered {fuel i : ℕ} (h_fuel : i ≤ fuel) (h_i : i < n)
    (h : UpOrder (fun x => OrderDual.toDual (key x)) q n i) :
    MinOrdered key (siftUp key fuel q i) n := by
  induction fuel generalizing q i with
  | zero =>
    obtain rfl := Nat.le_zero.mp h_fuel
    exact h.ordered fun h_pos => absurd h_pos (lt_irrefl 0)
  | succ fuel ih =>
    unfold siftUp
    split
    · next h_go =>
      have h_pos := Nat.pos_of_ne_zero h_go.1
      have h_par := heapParent_lt h_pos
      exact ih (by omega) (h_par.trans h_i)
        (h.swap_parent h_pos h_i (OrderDual.toDual_lt_toDual.mpr h_go.2))
    · next h_stop =>
      -- the loop ends where the item is not below its parent
      refine h.ordered fun h_pos _ => OrderDual.toDual_le_toDual.mpr ?_
      by_contra h_lt
      exact h_stop ⟨h_pos.ne', not_le.mp h_lt⟩

/-! ### Where an item comes to rest -/

/-- The way down from slot `i`, over the smaller children, comes to a slot whose children are both
above `c`. -/
inductive Lodges (key : α → Int) (q : ℕ → α) (n : ℕ) (c : Int) : ℕ → Prop
  | here {i : ℕ} (h_two : 2 * i + 2 < n) (h_left : c < key (q (2 * i + 1)))
      (h_right : c < key (q (2 * i + 2))) :
      Lodges key q n c i
  | left {i : ℕ} (h_two : 2 * i + 2 < n) (h_lt : key (q (2 * i + 1)) < key (q (2 * i + 2)))
      (h : Lodges key q n c (2 * i + 1)) : Lodges key q n c i
  | right {i : ℕ} (h_two : 2 * i + 2 < n) (h_le : key (q (2 * i + 2)) ≤ key (q (2 * i + 1)))
      (h : Lodges key q n c (2 * i + 2)) : Lodges key q n c i

/-- An item with the key `c` that sinks from slot `i` on stays among the items. -/
def Inside (key : α → Int) (q : ℕ → α) (n : ℕ) (c : Int) (i : ℕ) : Prop :=
  c < noKey ∨ Lodges key q n c i

/-- The last item, which takes the place of the first one and sinks from there, stays among the
items. -/
def PopInside (key : α → Int) (h : Heap α) : Prop :=
  2 ≤ h.len → Inside key h.items (h.len - 1) (key (h.items (h.len - 1))) 0

variable {c : Int}

/-- Only the slots below matter. -/
theorem Lodges.congr {q' : ℕ → α} {i : ℕ} (h : Lodges key q n c i)
    (h_eq : ∀ k, i < k → k < n → q' k = q k) :
    Lodges key q' n c i := by
  induction h with
  | here h_two h_left h_right =>
    refine .here h_two ?_ ?_
    · rwa [h_eq _ (by omega) (by omega)]
    · rwa [h_eq _ (by omega) h_two]
  | left h_two h_lt h ih =>
    refine .left h_two ?_ (ih fun k h_k => h_eq k (by omega))
    rwa [h_eq _ (by omega) (by omega), h_eq _ (by omega) h_two]
  | right h_two h_le h ih =>
    refine .right h_two ?_ (ih fun k h_k => h_eq k (by omega))
    rwa [h_eq _ (by omega) h_two, h_eq _ (by omega) (by omega)]

theorem Inside.congr {q' : ℕ → α} {i : ℕ} (h : Inside key q n c i)
    (h_eq : ∀ k, i < k → k < n → q' k = q k) :
    Inside key q' n c i :=
  h.imp_right fun h => h.congr h_eq

/-- Where there are not two children, the key is below that of an empty slot. -/
theorem Inside.lt_noKey {i : ℕ} (h : Inside key q n c i) (h_two : ¬2 * i + 2 < n) : c < noKey := by
  rcases h with h | h
  · exact h
  · cases h <;> exact absurd ‹2 * i + 2 < n› h_two

/-- The child that the loop of `heap_pop` goes to from slot `i`, where it does not stop. It is the
least child of `i`, no larger than what is at `i`, and from there on the way down stays inside the
heap. -/
structure Rises (key : α → Int) (q : ℕ → α) (n i j : ℕ) : Prop where
  lt : i < j
  inside : j < n
  parent : heapParent j = i
  le : key (q j) ≤ key (q i)
  least : ∀ k, 0 < k → k < n → heapParent k = i → key (q j) ≤ key (q k)
  next : Inside key q n (key (q i)) j

/-- Where the loop of `heap_pop` does not stop, it goes to a child with the least key. The keys that
it compares are those of the children, or `noKey` for an empty slot; that the item stays inside is
what rules the empty slots out. -/
theorem rises_of_inside {i : ℕ} (h_in : Inside key q n (key (q i)) i)
    (h_go : ¬(key (q i) < keyAt key n q (2 * i + 1) ∧ key (q i) < keyAt key n q (2 * i + 2))) :
    Rises key q n i
      (if keyAt key n q (2 * i + 1) < keyAt key n q (2 * i + 2) then 2 * i + 1 else 2 * i + 2) := by
  have h_left : keyAt key n q (2 * i + 1) = if 2 * i + 1 < n then key (q (2 * i + 1)) else noKey :=
    rfl
  have h_right : keyAt key n q (2 * i + 2) = if 2 * i + 2 < n then key (q (2 * i + 2)) else noKey :=
    rfl
  have h_parent : ∀ j, j = 2 * i + 1 ∨ j = 2 * i + 2 → heapParent j = i := by
    intro j h_j
    unfold heapParent
    omega
  have h_child : ∀ {k}, 0 < k → heapParent k = i → k = 2 * i + 1 ∨ k = 2 * i + 2 := fun h_pos =>
    (heapParent_eq_iff h_pos).mp
  by_cases h_two : 2 * i + 2 < n
  · -- two children: the smaller one rises, the right one if they have the same key
    rw [if_pos (by omega)] at h_left
    rw [if_pos h_two] at h_right
    rw [h_left, h_right] at h_go ⊢
    by_cases h_lt : key (q (2 * i + 1)) < key (q (2 * i + 2))
    · rw [if_pos h_lt]
      refine ⟨by omega, by omega, h_parent _ (.inl rfl), by omega, fun k h_pos _ h_par => ?_, ?_⟩
      · rcases h_child h_pos h_par with rfl | rfl
        · exact le_rfl
        · exact h_lt.le
      · refine h_in.imp_right fun h => ?_
        cases h with
        | here _ h_l h_r => exact absurd ⟨h_l, h_r⟩ h_go
        | left _ _ h => exact h
        | right _ h_le _ => exact absurd h_lt (not_lt.mpr h_le)
    · rw [if_neg h_lt]
      refine ⟨by omega, h_two, h_parent _ (.inr rfl), by omega, fun k h_pos _ h_par => ?_, ?_⟩
      · rcases h_child h_pos h_par with rfl | rfl
        · exact not_lt.mp h_lt
        · exact le_rfl
      · refine h_in.imp_right fun h => ?_
        cases h with
        | here _ h_l h_r => exact absurd ⟨h_l, h_r⟩ h_go
        | left _ h_l _ => exact absurd h_l h_lt
        | right _ _ h => exact h
  · -- an empty slot does not rise, for its key is larger than that of the item
    have h_lt := h_in.lt_noKey h_two
    rw [if_neg h_two] at h_right
    rw [h_right] at h_go ⊢
    -- so there is a left child, or the loop would have stopped
    have h_one : 2 * i + 1 < n := by
      by_contra h_none
      rw [if_neg h_none] at h_left
      rw [h_left] at h_go
      exact h_go ⟨h_lt, h_lt⟩
    rw [if_pos h_one] at h_left
    rw [h_left] at h_go ⊢
    have h_le : key (q (2 * i + 1)) ≤ key (q i) := by
      by_contra h_gt
      exact h_go ⟨not_le.mp h_gt, h_lt⟩
    rw [if_pos (h_le.trans_lt h_lt)]
    refine ⟨by omega, h_one, h_parent _ (.inl rfl), h_le, fun k h_pos h_k h_par => ?_, .inl h_lt⟩
    rcases h_child h_pos h_par with rfl | rfl
    · exact le_rfl
    · exact absurd h_k h_two

/-- The item is inside at the child, too. -/
theorem Rises.inside_swap {i j : ℕ} (h : Rises key q n i j) :
    Inside key (swap q i j) n (key (swap q i j j)) j := by
  rw [swap_right]
  have h_lt := h.lt
  exact h.next.congr fun k h_k _ => swap_of_ne q (by omega) (by omega)

theorem slots_siftDown (fuel : ℕ) {i : ℕ} (h_in : Inside key q n (key (q i)) i) :
    slots (siftDown key n fuel q i) n = slots q n := by
  induction fuel generalizing q i with
  | zero => rfl
  | succ fuel ih =>
    unfold siftDown
    dsimp only
    split
    · next h_i =>
      split
      · rfl
      · next h_go =>
        have h_rises := rises_of_inside h_in h_go
        rw [ih h_rises.inside_swap, slots_swap q h_i h_rises.inside]
    · rfl

/-- The loop of `heap_pop`: an item that may be below its children goes down until it is above both
of them, as long as its way stays inside. -/
theorem siftDown_ordered {fuel i : ℕ} (h_fuel : n ≤ fuel + i) (h_in : Inside key q n (key (q i)) i)
    (h : DownOrder (fun x => OrderDual.toDual (key x)) q n i) :
    MinOrdered key (siftDown key n fuel q i) n := by
  -- below a slot that is not below its children, everything is in order
  have h_leaf : n ≤ i → MinOrdered key q n := fun h_n => h.ordered fun k h_pos h_k h_par => by
    have := heapParent_lt h_pos
    omega
  induction fuel generalizing q i with
  | zero => exact h_leaf (by omega)
  | succ fuel ih =>
    unfold siftDown
    dsimp only
    split
    · next h_i =>
      split
      · -- the slot is below both children: nothing is left to do
        next h_stop =>
        refine h.ordered fun k h_pos h_k h_par => OrderDual.toDual_le_toDual.mpr ?_
        obtain rfl | rfl := (heapParent_eq_iff h_pos).mp h_par
        · have h_left := h_stop.1
          rw [keyAt, if_pos h_k] at h_left
          exact h_left.le
        · have h_right := h_stop.2
          rw [keyAt, if_pos h_k] at h_right
          exact h_right.le
      · next h_go =>
        have h_rises := rises_of_inside h_in h_go
        have h_lt := h_rises.lt
        refine ih (by omega) h_rises.inside_swap
          (h.swap_child (by omega) h_rises.inside h_rises.parent h_rises.le h_rises.least)
            fun h_n => ?_
        exact absurd h_rises.inside (Nat.not_lt_of_le h_n)
    · next h_out => exact h_leaf (by omega)

/-! ### The two operations -/

/-- `heap_add` adds the item. -/
theorem contents_heapAdd (x : α) : (heapAdd key h x).contents = x ::ₘ h.contents := by
  refine (slots_siftUp h.len (Nat.lt_succ_self h.len)).trans ?_
  rw [slots_succ, Function.update_self]
  exact congrArg _ (slots_congr fun i h_i => Function.update_of_ne h_i.ne _ _)

theorem heapAdd_ordered {x : α} (h_ord : MinOrdered key h.items h.len) :
    MinOrdered key (heapAdd key h x).items (heapAdd key h x).len := by
  refine siftUp_ordered le_rfl (Nat.lt_succ_self h.len) (Ordered.snoc fun i h_pos h_i => ?_)
  have h_par := (heapParent_lt h_pos).trans h_i
  rw [Function.update_of_ne h_i.ne, Function.update_of_ne h_par.ne]
  exact h_ord i h_pos h_i

theorem popInside_of_lt (h_key : ∀ y ∈ h.contents, key y < noKey) : PopInside key h :=
  fun h_two => .inl (h_key _ (mem_slots.mpr ⟨h.len - 1, by omega, rfl⟩))

/-- In the array that `heap_pop` sifts. -/
theorem PopInside.replace_root (h_in : PopInside key h) (h_two : 2 ≤ h.len) :
    Inside key (Function.update h.items 0 (h.items (h.len - 1))) (h.len - 1)
      (key (Function.update h.items 0 (h.items (h.len - 1)) 0)) 0 := by
  rw [Function.update_self]
  exact (h_in h_two).congr fun k h_k _ => Function.update_of_ne h_k.ne' _ _

/-- `heap_pop` takes away the item that `heap_peek` finds. -/
theorem contents_heapPop {x : α} (h_x : h.heapPeek = some x) (h_in : PopInside key h) :
    h.contents = x ::ₘ (heapPop key h).contents := by
  unfold heapPeek at h_x
  split at h_x
  · next h_len =>
    obtain rfl := Option.some.inj h_x
    unfold heapPop
    split
    · next h_less =>
      -- one item, and nothing sinks
      have h_one : h.len = 1 := by omega
      rw [contents, contents, h_one, slots_succ]
    · next h_two =>
      obtain ⟨m, h_m⟩ : ∃ m, h.len = m + 2 := ⟨h.len - 2, by omega⟩
      -- the last item takes the place of the first one, and sinking only exchanges items
      have h_sift := slots_siftDown (h.len - 1) (h_in.replace_root (by omega))
      rw [contents, contents, h_sift, h_m]
      exact slots_replace_root h.items m
  · cases h_x

theorem heapPop_ordered (h_ord : MinOrdered key h.items h.len) (h_in : PopInside key h) :
    MinOrdered key (heapPop key h).items (heapPop key h).len := by
  unfold heapPop
  split
  · exact fun i _ h_i => absurd h_i (Nat.not_lt_zero i)
  · next h_two =>
    refine siftDown_ordered (Nat.le_refl _) (h_in.replace_root (by omega)) ?_
    exact (h_ord.mono (Nat.sub_le _ _)).replace_root fun i h_pos _ =>
      Function.update_of_ne h_pos.ne' _ _

end Heap
end PollingExpress
