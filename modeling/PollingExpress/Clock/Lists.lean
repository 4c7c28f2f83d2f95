import Mathlib.Data.List.Sort
import PollingExpress.Clock.Server
import PollingExpress.Framework.Fallible

/-!
# The lists of the clock server

Every node is on the pending list or on the free list, once (`Lists`). A node without its link
is a `Delay`, and `Represents s w` says that the pending list holds the delays `w`. In these
terms `insertNode` is an ordered insertion (`insertNode_spec`) and `wake` takes off those whose
time has come and answers them in order (`wake_spec`); neither runs out of nodes to look at.
-/

namespace PollingExpress
namespace Clock

/-- What a task waits for. -/
structure Delay where
  client : ℕ
  time : Int
  request : ℕ
  deriving DecidableEq

/-- Whether the time has come. -/
def Delay.due (ticks : Int) (d : Delay) : Bool := decide (d.time ≤ ticks)

/-- The answer when the time has come. -/
def Delay.answer (ticks : Int) (d : Delay) : Answer := ⟨d.request, d.client, some ticks⟩

@[simp] theorem Delay.request_answer (ticks : Int) (d : Delay) :
    (d.answer ticks).request = d.request := rfl

/-- The order of the pending list. -/
abbrev Delay.Le : Delay → Delay → Prop := Order.Preimage Delay.time (· ≤ ·)

namespace ClockServer

variable {s : ClockServer}

/-- A node without its link. -/
def delay (s : ClockServer) (i : Slot) : Delay :=
  ⟨(s.backing i).client, (s.backing i).time, (s.backing i).request⟩

@[simp] theorem time_delay (s : ClockServer) (i : Slot) : (s.delay i).time = s.time i := rfl

/-! ### What the writes change -/

theorem setNode_next (i : Slot) (node : DelayNode) :
    (s.setNode i node).next = Function.update s.next i node.next := by
  ext1 j
  by_cases h : j = i <;> simp [setNode, next, h]

theorem setNode_delay (i : Slot) (node : DelayNode) :
    (s.setNode i node).delay =
      Function.update s.delay i ⟨node.client, node.time, node.request⟩ := by
  ext1 j
  by_cases h : j = i <;> simp [setNode, delay, h]

theorem setNext_next (i : Slot) (p : Option Slot) :
    (s.setNext i p).next = Function.update s.next i p := setNode_next i _

theorem setNext_delay (i : Slot) (p : Option Slot) : (s.setNext i p).delay = s.delay :=
  (setNode_delay i _).trans (Function.update_eq_self i s.delay)

theorem store_link (prev : Option Slot) (cur : Slot) :
    link (s.store prev cur).next (s.store prev cur).head prev = some cur := by
  cases prev with
  | none => rfl
  | some i =>
    rw [link_some, store, setNext_next]
    exact Function.update_self i _ _

theorem store_next_of_ne {prev : Option Slot} {cur b : Slot} (h : prev ≠ some b) :
    (s.store prev cur).next b = s.next b := by
  cases prev with
  | none => rfl
  | some i =>
    rw [store, setNext_next]
    exact Function.update_of_ne (fun h_b => h (congrArg some h_b.symm)) _ _

theorem store_head {prev : Option Slot} {cur : Slot} (h : prev ≠ none) :
    (s.store prev cur).head = s.head := by
  cases prev with
  | none => exact absurd rfl h
  | some i => rfl

theorem store_free (prev : Option Slot) (cur : Slot) : (s.store prev cur).free = s.free := by
  cases prev with
  | none => rfl
  | some i => rfl

theorem store_delay (prev : Option Slot) (cur : Slot) : (s.store prev cur).delay = s.delay := by
  cases prev with
  | none => rfl
  | some i => exact setNext_delay i _

/-- `s'` is `s` but for its lists: what the operations on the nodes leave alone. A new delay neither
counts the ticks on nor answers anybody. -/
structure SameButLists (s s' : ClockServer) : Prop where
  ticks : s'.ticks = s.ticks
  replies : s'.replies = s.replies
  log : s'.log = s.log

theorem store_same (prev : Option Slot) (cur : Slot) : s.SameButLists (s.store prev cur) := by
  cases prev with
  | none => exact ⟨rfl, rfl, rfl⟩
  | some i => exact ⟨rfl, rfl, rfl⟩

end ClockServer

open ClockServer

/-! ### The two lists -/

/-- Every node is on one of the lists, once: those of `pending` on the list from `head`, and those
of `unused` on the free list. Both are threaded through the one field `next`, so a node that is put
on one list has to come off the other. -/
structure Lists (s : ClockServer) (pending unused : List Slot) : Prop where
  head : Chain s.next s.head pending
  free : Chain s.next s.free unused
  perm : (pending ++ unused).Perm (List.finRange maxDelays)

/-- The pending list holds the delays `w`. -/
def Represents (s : ClockServer) (w : List Delay) : Prop :=
  ∃ pending unused, Lists s pending unused ∧ pending.map s.delay = w

section
variable {s : ClockServer} {pending unused : List Slot} {w : List Delay} {d : Delay}

theorem Lists.nodup (h : Lists s pending unused) : (pending ++ unused).Nodup :=
  h.perm.nodup_iff.mpr (List.nodup_finRange _)

theorem Lists.length (h : Lists s pending unused) : pending.length + unused.length = maxDelays := by
  rw [← List.length_append, h.perm.length_eq, List.length_finRange]

theorem lists_start : Lists .start [] (List.finRange maxDelays) where
  head := rfl
  free := by
    have h_free : ClockServer.start.free = (List.finRange maxDelays).head? := by decide
    rw [h_free]
    refine chain_of_getElem fun i h_i => ?_
    rw [List.length_finRange] at h_i
    by_cases h_next : i + 1 < maxDelays
    · rw [List.getElem?_eq_getElem (by rwa [List.length_finRange])]
      simp [ClockServer.next, ClockServer.start, h_next]
    · rw [List.getElem?_eq_none (by rw [List.length_finRange]; omega)]
      simp [ClockServer.next, ClockServer.start, h_next]
  perm := .refl _

theorem represents_start : Represents .start [] := ⟨[], _, lists_start, rfl⟩

/-! ### `insertNode` -/

/-- The search stops behind the nodes of `l₁`, which it has passed, and those that follow with
an earlier time. -/
theorem findPrev_spec {t : Int} {l₁ l : List Slot} (h : Chain s.next s.head (l₁ ++ l)) {fuel : ℕ}
    (h_fuel : l.length < fuel) : s.findPrev t fuel l₁.getLast? =
      .ok (l₁ ++ l.takeWhile fun i => s.time i < t).getLast? := by
  obtain ⟨fuel, rfl⟩ := Nat.exists_eq_succ_of_ne_zero (Nat.ne_zero_of_lt h_fuel)
  induction l generalizing l₁ fuel with
  | nil =>
    -- the end of the list
    have h_link : s.deref l₁.getLast? = none := h.link_eq
    simp only [findPrev, h_link, List.takeWhile_nil, List.append_nil]
  | cons i l ih =>
    have h_link : s.deref l₁.getLast? = some i := h.link_eq
    simp only [findPrev, h_link]
    -- the pointer is to the link behind `l₁`, and goes on behind node `i` if that one is earlier
    by_cases h_time : s.time i < t
    · rw [if_pos h_time, List.takeWhile_cons_of_pos (by simpa using h_time), List.append_cons]
      have h_last : some i = (l₁ ++ [i]).getLast? := List.getLast?_concat.symm
      rw [h_last]
      rw [List.append_cons] at h
      have h_fuel : l.length < fuel := Nat.lt_of_succ_lt_succ h_fuel
      obtain ⟨fuel, rfl⟩ := Nat.exists_eq_succ_of_ne_zero (Nat.ne_zero_of_lt h_fuel)
      exact ih h fuel h_fuel
    · rw [if_neg h_time, List.takeWhile_cons_of_neg (by simpa using h_time), List.append_nil]

/-- A node that is on neither list is put between `l₁` and `l₂`. -/
theorem lists_store {l₁ l₂ : List Slot} {cur : Slot} (h_head : Chain s.next s.head (l₁ ++ l₂))
    (h_free : Chain s.next s.free unused)
    (h_perm : (l₁ ++ l₂ ++ cur :: unused).Perm (List.finRange maxDelays)) :
    Lists ((s.setNext cur l₂.head?).store l₁.getLast? cur) (l₁ ++ cur :: l₂) unused := by
  obtain ⟨-, h_rest, h_disj⟩ := List.nodup_append.mp (h_perm.nodup_iff.mpr (List.nodup_finRange _))
  -- the new node is on neither list, so what is written leaves the other links alone
  have h_cur : ∀ b ∈ l₁ ++ l₂, b ≠ cur := fun b h_b => h_disj b h_b cur List.mem_cons_self
  have h_last : ∀ b, b ∉ l₁ ++ l₂ → l₁.getLast? ≠ some b :=
    fun b h_b h_last => h_b (List.mem_append_left _ (List.mem_of_getLast? h_last))
  -- the link behind `l₁` leads to the new node, and that one to the head of `l₂`
  refine ⟨h_head.insert ?_ (store_link _ _) ?_ ?_, (store_free _ _).symm ▸ h_free.congr ?_, ?_⟩
  · rw [store_next_of_ne (h_last cur fun h_mem => h_cur cur h_mem rfl), setNext_next,
      Function.update_self]
  · intro h_ne
    exact store_head (by simpa using h_ne)
  · intro b h_b h_b_last
    rw [store_next_of_ne h_b_last, setNext_next, Function.update_of_ne (h_cur b h_b)]
  · intro b h_b
    have h_b_cur : b ≠ cur := fun h_eq => (List.nodup_cons.mp h_rest).1 (h_eq ▸ h_b)
    rw [store_next_of_ne (h_last b fun h_mem => h_disj b h_mem b (List.mem_cons_of_mem _ h_b) rfl),
      setNext_next, Function.update_of_ne h_b_cur]
  · refine List.Perm.trans ?_ h_perm
    rw [List.append_assoc, List.append_assoc, List.cons_append]
    exact List.perm_middle.symm.append_left l₁

/-- **`insertNode` is an ordered insertion**, if a node is free.

The node comes off the free list, and the walk stops in front of the first one whose time is not
below the new one (`findPrev_spec`), so among delays until one time the newest is the first. Then
only `head`, or the link of the node in front, is written (`lists_store`). -/
theorem insertNode_spec (h : Represents s w) (h_room : w.length < maxDelays)
    (client : ℕ) (t : Int) :
    ∃ s', s.insertNode client t = .ok s' ∧ s.SameButLists s' ∧
      Represents s' (w.orderedInsert Delay.Le ⟨client, t, s.log.length⟩) := by
  obtain ⟨pending, unused, h, rfl⟩ := h
  rw [List.length_map] at h_room
  -- there is a free node
  obtain ⟨cur, unused, rfl⟩ : ∃ cur rest, unused = cur :: rest := by
    refine List.exists_cons_of_ne_nil ?_
    rintro rfl
    have h_len := h.length
    rw [List.length_nil] at h_len
    omega
  have h_cur : ∀ i ∈ pending, i ≠ cur :=
    fun i h_i => (List.nodup_append.mp h.nodup).2.2 i h_i cur List.mem_cons_self
  -- the node is taken off the free list and filled in
  let d : Delay := ⟨client, t, s.log.length⟩
  let node : DelayNode := { s.backing cur with client, time := t, request := s.log.length }
  let s₁ := { s with free := s.next cur }.setNode cur node
  have h_next : s₁.next = s.next :=
    (setNode_next cur node).trans (Function.update_eq_self cur s.next)
  have h_delay : s₁.delay = Function.update s.delay cur d := setNode_delay cur node
  have h_delay_cur : s₁.delay cur = d := by rw [h_delay, Function.update_self]
  have h_same : pending.map s₁.delay = pending.map s.delay := by
    refine List.map_congr_left fun i h_i => ?_
    rw [h_delay, Function.update_of_ne (h_cur i h_i)]
  -- `l₁` are the nodes that stay before it
  let l₁ := pending.takeWhile fun i => s₁.time i < t
  let l₂ := pending.dropWhile fun i => s₁.time i < t
  have h_split : l₁ ++ l₂ = pending := List.takeWhile_append_dropWhile
  have h_head : Chain s₁.next s₁.head (l₁ ++ l₂) := by
    rw [h_next, h_split]
    exact h.head
  have h_free : Chain s₁.next s₁.free unused := by
    rw [h_next]
    exact h.free.2
  have h_find : s₁.findPrev t (maxDelays + 1) none = .ok l₁.getLast? := by
    rw [h_split] at h_head
    change s₁.findPrev t (maxDelays + 1) (List.getLast? []) = _
    exact findPrev_spec h_head (h_room.trans (Nat.lt_succ_self _))
  have h_ok : s.insertNode client t = .ok ((s₁.setNext cur l₂.head?).store l₁.getLast? cur) := by
    simp only [insertNode, h.free.1]
    refine (bind_of_ok h_find).trans ?_
    rw [ClockServer.deref, h_head.link_eq]
  -- the node is linked in between `l₁` and `l₂`
  obtain ⟨h_ticks, h_replies, h_log⟩ :=
    store_same (s := s₁.setNext cur l₂.head?) l₁.getLast? cur
  refine ⟨_, h_ok, ⟨h_ticks, h_replies, h_log⟩, l₁ ++ cur :: l₂, unused,
    lists_store h_head h_free (h_split ▸ h.perm), ?_⟩
  have h_le : (fun b : Delay => decide ¬d.Le b) = fun b : Delay => decide (b.time < t) :=
    funext fun b => decide_eq_decide.mpr not_le
  rw [store_delay, setNext_delay, List.map_append, List.map_cons, List.orderedInsert_eq_take_drop,
    h_le, ← h_same, List.takeWhile_map, List.dropWhile_map, h_delay_cur]
  rfl

/-! ### `wake` -/

/-- The node at the head is put on the free list. -/
theorem lists_release {cur : Slot} (h : Lists s (cur :: pending) unused) :
    Lists { { s with head := s.next cur }.setNext cur s.free with free := some cur }
      pending (cur :: unused) := by
  obtain ⟨h_cur, -⟩ := List.nodup_cons.mp h.nodup
  obtain ⟨h_pending, h_unused⟩ : cur ∉ pending ∧ cur ∉ unused :=
    not_or.mp fun h_mem => h_cur (List.mem_append.mpr h_mem)
  -- only the link of the released node is written, and it is on neither of the lists that remain
  have h_next : ({ s with head := s.next cur }.setNext cur s.free).next =
      Function.update s.next cur s.free := setNext_next _ _
  have h_same : ∀ l : List Slot, cur ∉ l → ∀ b ∈ l,
      Function.update s.next cur s.free b = s.next b :=
    fun l h_l b h_b => Function.update_of_ne (ne_of_mem_of_not_mem h_b h_l) _ _
  refine ⟨?_, ⟨rfl, ?_⟩, List.perm_middle.trans h.perm⟩
  · change Chain ({ s with head := s.next cur }.setNext cur s.free).next (s.next cur) pending
    rw [h_next]
    exact h.head.2.congr (h_same _ h_pending)
  · change Chain ({ s with head := s.next cur }.setNext cur s.free).next
      (({ s with head := s.next cur }.setNext cur s.free).next cur) unused
    rw [h_next, Function.update_self]
    exact h.free.congr (h_same _ h_unused)

/-- **`wake` answers, in order, the delays whose time has come**, up to the first one whose time has
not, and takes them off the list. The induction is on the nodes of the list; each turn releases one
of them to the free list (`lists_release`), and the fuel is as long as the list. -/
theorem wake_spec (h : Lists s pending unused) {fuel : ℕ} (h_fuel : pending.length < fuel) :
    ∃ s', s.wake fuel = .ok s' ∧ s'.ticks = s.ticks ∧ s'.log = s.log ∧
      s'.replies = s.replies ++
        ((pending.map s.delay).takeWhile (Delay.due s.ticks)).map (Delay.answer s.ticks) ∧
      Represents s' ((pending.map s.delay).dropWhile (Delay.due s.ticks)) := by
  obtain ⟨fuel, rfl⟩ := Nat.exists_eq_succ_of_ne_zero (Nat.ne_zero_of_lt h_fuel)
  induction pending generalizing s unused fuel with
  | nil =>
    have h_head : s.head = none := h.head
    exact ⟨s, by simp only [wake, h_head], rfl, rfl, by simp, [], unused, h, rfl⟩
  | cons cur pending ih =>
    have h_head : s.head = some cur := h.head.1
    by_cases h_time : s.time cur ≤ s.ticks
    · -- the first is due: it is answered, and its cell is released
      have h_due : Delay.due s.ticks (s.delay cur) = true := decide_eq_true h_time
      have h_fuel : pending.length < fuel := Nat.lt_of_succ_lt_succ h_fuel
      obtain ⟨fuel, rfl⟩ := Nat.exists_eq_succ_of_ne_zero (Nat.ne_zero_of_lt h_fuel)
      let s₁ := s.reply (s.backing cur).request (s.backing cur).client (some s.ticks)
      have h₁ : Lists s₁ (cur :: pending) unused := ⟨h.head, h.free, h.perm⟩
      obtain ⟨s', h_ok, h_ticks, h_log, h_replies, h_repr⟩ := ih (lists_release h₁) fuel h_fuel
      have h_delay : ({ { s₁ with head := s₁.next cur }.setNext cur s₁.free with
          free := some cur } : ClockServer).delay = s.delay := setNext_delay (s := s₁) cur s₁.free
      rw [h_delay] at h_replies h_repr
      refine ⟨s', ?_, h_ticks, h_log, ?_, ?_⟩
      · rw [wake, h_head]
        exact (if_pos h_time).trans h_ok
      · rw [h_replies, List.map_cons, List.takeWhile_cons_of_pos h_due, List.map_cons]
        exact List.append_assoc _ [_] _
      · rw [List.map_cons, List.dropWhile_cons_of_pos h_due]
        exact h_repr
    · -- the first is not due, and none behind it is
      have h_due : ¬Delay.due s.ticks (s.delay cur) = true :=
        fun h_due => h_time (of_decide_eq_true h_due)
      refine ⟨s, ?_, rfl, rfl, ?_, ?_⟩
      · rw [wake, h_head]
        exact if_neg h_time
      · rw [List.map_cons, List.takeWhile_cons_of_neg h_due, List.map_nil, List.append_nil]
      · rw [List.map_cons, List.dropWhile_cons_of_neg h_due]
        exact ⟨_, unused, h, rfl⟩

end
end Clock
end PollingExpress
