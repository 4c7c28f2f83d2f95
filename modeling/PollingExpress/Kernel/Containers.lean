import Mathlib.Data.Fintype.Card
import PollingExpress.Kernel.ReadyHeap

/-!
# Where the task descriptors are

The containers of the kernel, and the places a descriptor can be in. A `View` is
the part of the kernel the containers are made of: one shared `next` field, the
two ends of each send queue, the head of the free list, the items of the ready
heap and the event slots.

A `Layout` assigns every descriptor *one* place and lists the free list and the
send queues. `Partition v L` says that the containers of `v` hold exactly what
`L` puts there. Since `L.place` is a function, a descriptor is in one place
only; that it is there once is `Partition.nodup_ready` for the heap and
`Chain.nodup` for the lists.

The rest is one lemma for each way a descriptor moves:

* between two places without a container (`Partition.setState`);
* into and out of the ready heap (`Partition.ready`, `Partition.pop`);
* into and out of an event slot (`Partition.await`, `Partition.wake`);
* off the free list (`Partition.allocate`);
* onto the end and off the head of a send queue (`Partition.enqueue_nil`,
  `Partition.enqueue_snoc`, `Partition.dequeue`).
-/

namespace PollingExpress
namespace Kernel

/-- Where a descriptor is. `running` is between two containers, while the kernel
serves a trap. -/
inductive Place
  | free | ready | sendQueue (receiver : TaskTid) | receive | reply | event (e : Event)
  | exited | running
  deriving DecidableEq

/-- The state that goes with a place. -/
def Place.state : Place → TcbState
  | .free | .exited => .zombie
  | .ready | .event _ | .running => .ready
  | .sendQueue _ => .send
  | .receive => .receive
  | .reply => .reply

/-- A place that no container stands for. -/
def Place.Unlisted (p : Place) : Prop := p = .receive ∨ p = .reply ∨ p = .exited ∨ p = .running

theorem Place.Unlisted.ne {p : Place} (h : p.Unlisted) :
    p ≠ .free ∧ p ≠ .ready ∧ (∀ r, p ≠ .sendQueue r) ∧ ∀ e, p ≠ .event e := by
  obtain rfl | rfl | rfl | rfl := h <;> simp

/-- What the containers are made of. -/
@[ext] structure View where
  next : TaskTid → Option TaskTid
  state : TaskTid → TcbState
  wantSend : TaskTid → Option TaskTid
  wantSendEnd : TaskTid → Option TaskTid
  freeTcb : Option TaskTid
  ready : Multiset TaskTid
  event : Event → Option TaskTid

/-- The containers of a kernel state. -/
def view (k : Kernel) : View where
  next t := (k.backing t).next
  state t := (k.backing t).state
  wantSend t := (k.backing t).wantSend
  wantSendEnd t := (k.backing t).wantSendEnd
  freeTcb := k.freeTcb
  ready := k.readyTasks
  event := k.eventMapping

/-- A place for every descriptor, and the order of the two kinds of list. -/
structure Layout where
  free : List TaskTid
  queue : TaskTid → List TaskTid
  place : TaskTid → Place

/-- `t` goes to `p`. -/
def Layout.move (L : Layout) (t : TaskTid) (p : Place) : Layout :=
  { L with place := Function.update L.place t p }

@[simp] theorem Layout.move_free (L : Layout) (t : TaskTid) (p : Place) :
    (L.move t p).free = L.free := rfl

@[simp] theorem Layout.move_queue (L : Layout) (t : TaskTid) (p : Place) :
    (L.move t p).queue = L.queue := rfl

theorem Layout.move_place (L : Layout) (t s : TaskTid) (p : Place) :
    (L.move t p).place s = if s = t then p else L.place s := by
  simp [Layout.move, Function.update_apply]

@[simp] theorem Layout.move_place_self (L : Layout) (t : TaskTid) (p : Place) :
    (L.move t p).place t = p := by simp [Layout.move_place]

/-- A move touches only the two places it is between. -/
theorem Layout.move_place_iff {L : Layout} {t : TaskTid} {p p' : Place} (h_old : L.place t ≠ p')
    (h_new : p ≠ p') (s : TaskTid) : (L.move t p).place s = p' ↔ L.place s = p' := by
  rw [Layout.move_place]
  split
  · next h_eq => subst h_eq; exact ⟨fun h => absurd h h_new, fun h => absurd h h_old⟩
  · rfl

/-- The containers of `v` hold what `L` puts there.

The lists are chains through the one field `next`, so that two of them can have no task in common;
that each container holds just the tasks whose place it is makes the places a partition. The states
of the tasks agree with their places, and a task that waits in `Receive` has nobody in its queue, or
it would have been answered. -/
structure Partition (v : View) (L : Layout) : Prop where
  free_chain : Chain v.next v.freeTcb L.free
  queue_chain : ∀ r, Chain v.next (v.wantSend r) (L.queue r)
  queue_end : ∀ r, v.wantSendEnd r = (L.queue r).getLast?
  mem_free : ∀ t, t ∈ L.free ↔ L.place t = .free
  mem_queue : ∀ r t, t ∈ L.queue r ↔ L.place t = .sendQueue r
  nodup_ready : v.ready.Nodup
  mem_ready : ∀ t, t ∈ v.ready ↔ L.place t = .ready
  mem_event : ∀ e t, v.event e = some t ↔ L.place t = .event e
  state_eq : ∀ t, v.state t = (L.place t).state
  receive_empty : ∀ t, L.place t = .receive → L.queue t = []

namespace Partition

variable {v : View} {L : Layout} {t : TaskTid}

/-- There is room in the heap for a task outside it. -/
theorem room (h : Partition v L) (ht : L.place t ≠ .ready) : v.ready.card < maxNumTasks := by
  have h_nodup : (t ::ₘ v.ready).Nodup :=
    Multiset.nodup_cons.mpr ⟨fun hm => ht ((h.mem_ready t).mp hm), h.nodup_ready⟩
  have h_card := Finset.card_le_univ (⟨t ::ₘ v.ready, h_nodup⟩ : Finset TaskTid)
  simp only [Finset.card_mk, Multiset.card_cons, Fintype.card_fin] at h_card
  omega

/-- The list of a queue is empty exactly if its end pointer is null. -/
theorem wantSendEnd_eq_none (h : Partition v L) (r : TaskTid) :
    v.wantSendEnd r = none ↔ L.queue r = [] := by
  rw [h.queue_end r, List.getLast?_eq_none_iff]

theorem wantSend_eq_none (h : Partition v L) (r : TaskTid) :
    v.wantSend r = none ↔ L.queue r = [] := (h.queue_chain r).eq_nil_iff

theorem move_state (h : Partition v L) (t : TaskTid) (p : Place) (s : TaskTid) :
    Function.update v.state t p.state s = ((L.move t p).place s).state := by
  rw [Layout.move_place, Function.update_apply]
  split
  · rfl
  · exact h.state_eq s

/-- Moves that no list takes part in. The task comes from a container that is no list and goes into
one; what is left to be shown is that the heap, the slots and the states follow. -/
theorem move (h : Partition v L) {p : Place} {v' : View}
    (h_lists : v'.next = v.next ∧ v'.wantSend = v.wantSend ∧ v'.wantSendEnd = v.wantSendEnd ∧
      v'.freeTcb = v.freeTcb)
    (h_old : L.place t ≠ .free ∧ ∀ r, L.place t ≠ .sendQueue r)
    (h_new : p ≠ .free ∧ (∀ r, p ≠ .sendQueue r) ∧ (p = .receive → L.queue t = []))
    (h_nodup : v'.ready.Nodup)
    (h_ready : ∀ s, s ∈ v'.ready ↔ (L.move t p).place s = .ready)
    (h_event : ∀ e s, v'.event e = some s ↔ (L.move t p).place s = .event e)
    (h_state : v'.state = Function.update v.state t p.state) :
    Partition v' (L.move t p) := by
  obtain ⟨h_next, h_ws, h_wse, h_free⟩ := h_lists
  refine ⟨?_, ?_, ?_, ?_, ?_, h_nodup, h_ready, h_event, ?_, ?_⟩
  · -- the chains do not change, and `t` was and is in none of them
    rw [h_next, h_free]; exact h.free_chain
  · rw [h_next, h_ws]; exact h.queue_chain
  · rw [h_wse]; exact h.queue_end
  · exact fun s => (h.mem_free s).trans (Layout.move_place_iff h_old.1 h_new.1 s).symm
  · exact fun r s => (h.mem_queue r s).trans
      (Layout.move_place_iff (h_old.2 r) (h_new.2.1 r) s).symm
  · rw [h_state]; exact h.move_state t p
  · intro s hs
    rw [Layout.move_place] at hs
    split at hs
    · next h_eq => rw [h_eq]; exact h_new.2.2 hs
    · exact h.receive_empty s hs

/-- The state of a descriptor that goes to a place with the same state. -/
theorem state_keep (h : Partition v L) {p : Place} (h_eq : (L.place t).state = p.state) :
    v.state = Function.update v.state t p.state := by
  rw [← h_eq, ← h.state_eq t, Function.update_eq_self]

/-- A move between two places without a container. -/
theorem setState (h : Partition v L) (p : Place) (h_old : (L.place t).Unlisted)
    (h_new : p.Unlisted) (h_receive : p = .receive → L.queue t = []) :
    Partition { v with state := Function.update v.state t p.state } (L.move t p) := by
  obtain ⟨h_free, h_ready, h_queue, h_event⟩ := h_old.ne
  obtain ⟨h_free', h_ready', h_queue', h_event'⟩ := h_new.ne
  exact h.move ⟨rfl, rfl, rfl, rfl⟩ ⟨h_free, h_queue⟩ ⟨h_free', h_queue', h_receive⟩ h.nodup_ready
    (fun s => (h.mem_ready s).trans (Layout.move_place_iff h_ready h_ready' s).symm)
    (fun e s => (h.mem_event e s).trans
      (Layout.move_place_iff (h_event e) (h_event' e) s).symm) rfl

/-- `add_to_ready_queue`. -/
theorem ready (h : Partition v L) (ht : L.place t = .running) :
    Partition { v with ready := t ::ₘ v.ready } (L.move t .ready) := by
  refine h.move ⟨rfl, rfl, rfl, rfl⟩ (by simp [ht]) (by simp) ?_ ?_ ?_ ?_
  · refine Multiset.nodup_cons.mpr ⟨fun hm => ?_, h.nodup_ready⟩
    exact absurd ((h.mem_ready t).mp hm) (by simp [ht])
  · intro s
    rw [Layout.move_place, Multiset.mem_cons, h.mem_ready]
    split <;> simp_all
  · exact fun e s => (h.mem_event e s).trans
      (Layout.move_place_iff (by simp [ht]) (by simp) s).symm
  · exact h.state_keep (by rw [ht]; rfl)

/-- `pop_ready_queue`. -/
theorem pop (h : Partition v L) {rest : Multiset TaskTid} (h_eq : v.ready = t ::ₘ rest) :
    Partition { v with ready := rest } (L.move t .running) := by
  have ht : L.place t = .ready := (h.mem_ready t).mp (h_eq ▸ Multiset.mem_cons_self t rest)
  obtain ⟨h_notin, h_nodup⟩ := Multiset.nodup_cons.mp (h_eq ▸ h.nodup_ready)
  refine h.move ⟨rfl, rfl, rfl, rfl⟩ (by simp [ht]) (by simp) h_nodup ?_ ?_ ?_
  · intro s
    have h_mem := h.mem_ready s
    rw [h_eq, Multiset.mem_cons] at h_mem
    rw [Layout.move_place]
    split
    · next h_st => simp [h_st, h_notin]
    · next h_st => simpa [h_st] using h_mem
  · exact fun e s => (h.mem_event e s).trans
      (Layout.move_place_iff (by simp [ht]) (by simp) s).symm
  · exact h.state_keep (by rw [ht]; rfl)

/-- The running task goes into a free event slot. -/
theorem await (h : Partition v L) (ht : L.place t = .running) {e : Event}
    (h_free : v.event e = none) :
    Partition { v with event := Function.update v.event e (some t) } (L.move t (.event e)) := by
  refine h.move ⟨rfl, rfl, rfl, rfl⟩ (by simp [ht]) (by simp) h.nodup_ready ?_ ?_ ?_
  · exact fun s => (h.mem_ready s).trans
      (Layout.move_place_iff (by simp [ht]) (by simp) s).symm
  · -- the slot of `e` held nobody and now holds `t`; the other slots are the same
    intro e' s
    have h_none : ∀ s, L.place s ≠ .event e := fun s hs => by
      simp [(h.mem_event e s).mpr hs] at h_free
    have h_mem := h.mem_event e' s
    change Function.update v.event e (some t) e' = some s ↔ _
    rw [Layout.move_place, Function.update_apply]
    split_ifs with h_ev h_st h_st
    · simp [h_ev, h_st]
    · subst h_ev
      simp [Ne.symm h_st, h_none]
    · subst h_st
      simp [h_mem, ht, Ne.symm h_ev]
    · exact h_mem
  · exact h.state_keep (by rw [ht]; rfl)

/-- The task in an event slot is taken out. -/
theorem wake (h : Partition v L) {e : Event} (h_slot : v.event e = some t) :
    Partition { v with event := Function.update v.event e none } (L.move t .running) := by
  have ht : L.place t = .event e := (h.mem_event e t).mp h_slot
  refine h.move ⟨rfl, rfl, rfl, rfl⟩ (by simp [ht]) (by simp) h.nodup_ready ?_ ?_ ?_
  · exact fun s => (h.mem_ready s).trans
      (Layout.move_place_iff (by simp [ht]) (by simp) s).symm
  · intro e' s
    have h_mem := h.mem_event e' s
    have h_slot' := h.mem_event e s
    -- only the slot of `e` is emptied, and only `t` moves
    change Function.update v.event e none e' = some s ↔ _
    rw [Layout.move_place, Function.update_apply]
    split_ifs with h_ev h_st h_st
    · simp
    · subst h_ev
      simpa [h_slot, Ne.symm h_st] using h_slot'
    · subst h_st
      simp [h_mem, ht, Ne.symm h_ev]
    · exact h_mem
  · exact h.state_keep (by rw [ht]; rfl)

/-- A write to a descriptor outside a list does not disturb the list. -/
theorem chain_update (t : TaskTid) (x : Option TaskTid) {next : TaskTid → Option TaskTid}
    {p : Option TaskTid} {l : List TaskTid} (h : Chain next p l) (ht : t ∉ l) :
    Chain (Function.update next t x) p l :=
  h.congr fun a ha => Function.update_of_ne (by rintro rfl; exact ht ha) _ _

/-- `scheduler_add` takes `t` off the free list. Its link is cleared, and it is in no container
until it is added to the heap. -/
theorem allocate (h : Partition v L) (h_head : v.freeTcb = some t) :
    Partition { v with
      freeTcb := v.next t
      next := Function.update v.next t none
      state := Function.update v.state t .ready }
      { L.move t .running with free := L.free.tail } := by
  obtain ⟨rest, h_free⟩ : ∃ rest, L.free = t :: rest :=
    List.head?_eq_some_iff.mp (h.free_chain.head?.trans h_head)
  have h_chain := h.free_chain
  have ht : L.place t = .free := (h.mem_free t).mp (h_free ▸ List.mem_cons_self)
  have h_notin : t ∉ rest := by
    have h_nodup := h_chain.nodup
    rw [h_free] at h_nodup
    exact (List.nodup_cons.mp h_nodup).1
  rw [h_free] at h_chain
  refine ⟨?_, fun r => ?_, h.queue_end, ?_, ?_, h.nodup_ready, ?_, ?_, ?_, ?_⟩
  · -- the head of the free chain goes out, and no queue contains it
    rw [h_free]
    exact chain_update t none h_chain.2 h_notin
  · refine chain_update t none (h.queue_chain r) fun hm => ?_
    simp [(h.mem_queue r t).mp hm] at ht
  · -- `t` is in no container until it is added to the heap
    intro s
    have h_mem := h.mem_free s
    rw [h_free, List.mem_cons] at h_mem
    change s ∈ L.free.tail ↔ (L.move t .running).place s = .free
    rw [Layout.move_place, h_free]
    split
    · next h_st => simp [h_st, h_notin]
    · next h_st => simpa [h_st] using h_mem
  · exact fun r s => (h.mem_queue r s).trans
      (Layout.move_place_iff (by simp [ht]) (by simp) s).symm
  · exact fun s => (h.mem_ready s).trans
      (Layout.move_place_iff (by simp [ht]) (by simp) s).symm
  · exact fun e s => (h.mem_event e s).trans
      (Layout.move_place_iff (by simp [ht]) (by simp) s).symm
  · exact h.move_state t .running
  · intro s hs
    change (L.move t .running).place s = .receive at hs
    rw [Layout.move_place] at hs
    split at hs
    · cases hs
    · exact h.receive_empty s hs

/-- What does not depend on how the lists are linked, when the running task `t`
goes onto the end of the send queue of `r`. -/
theorem enqueue_links (h : Partition v L) (ht : L.place t = .running) {r : TaskTid}
    (hr : v.state r ≠ .receive) {next wantSend : TaskTid → Option TaskTid}
    (h_free : Chain next v.freeTcb L.free)
    (h_queue : ∀ q, Chain next (wantSend q) (Function.update L.queue r (L.queue r ++ [t]) q)) :
    Partition { v with
      next
      wantSend
      wantSendEnd := Function.update v.wantSendEnd r (some t)
      state := Function.update v.state t .send }
      { L.move t (.sendQueue r) with queue := Function.update L.queue r (L.queue r ++ [t]) } := by
  have h_notin : ∀ q, t ∉ L.queue q := fun q hm => by simp [(h.mem_queue q t).mp hm] at ht
  refine ⟨h_free, h_queue, fun q => ?_, ?_, ?_, h.nodup_ready, ?_, ?_, ?_, ?_⟩
  · -- the end of the queue of `r` is `t`, and the other ends stay
    by_cases h_qr : q = r
    · subst h_qr
      simp
    · simpa [h_qr] using h.queue_end q
  · exact fun s => (h.mem_free s).trans
      (Layout.move_place_iff (by simp [ht]) (by simp) s).symm
  · -- `t` was in no queue and is now in the one of `r`
    intro q s
    change s ∈ Function.update L.queue r (L.queue r ++ [t]) q ↔
      (L.move t (.sendQueue r)).place s = .sendQueue q
    have h_mem := h.mem_queue q s
    rw [Layout.move_place, Function.update_apply]
    split_ifs with h_qr h_st h_st
    · simp [h_qr, h_st]
    · subst h_qr
      simp [h_mem, h_st]
    · subst h_st
      simp [h_notin, Ne.symm h_qr]
    · exact h_mem
  · exact fun s => (h.mem_ready s).trans
      (Layout.move_place_iff (by simp [ht]) (by simp) s).symm
  · exact fun e s => (h.mem_event e s).trans
      (Layout.move_place_iff (by simp [ht]) (by simp) s).symm
  · exact h.move_state t (.sendQueue r)
  · intro s hs
    change (L.move t (.sendQueue r)).place s = .receive at hs
    rw [Layout.move_place] at hs
    split at hs
    · cases hs
    · -- a task in `Receive` has an empty queue; `r` is not one of these
      have h_sr : s ≠ r := by
        rintro rfl
        exact hr (by rw [h.state_eq, hs]; rfl)
      change Function.update L.queue r (L.queue r ++ [t]) s = []
      rw [Function.update_of_ne h_sr]
      exact h.receive_empty s hs

/-- The running task becomes the only one in the send queue of `r`. -/
theorem enqueue_nil (h : Partition v L) (ht : L.place t = .running) {r : TaskTid}
    (hr : v.state r ≠ .receive) (h_end : v.wantSendEnd r = none) :
    Partition { v with
      next := Function.update v.next t none
      wantSend := Function.update v.wantSend r (some t)
      wantSendEnd := Function.update v.wantSendEnd r (some t)
      state := Function.update v.state t .send }
      { L.move t (.sendQueue r) with queue := Function.update L.queue r (L.queue r ++ [t]) } := by
  -- the running task is in no queue
  have h_notin : ∀ q, t ∉ L.queue q := fun q hm => by simp [(h.mem_queue q t).mp hm] at ht
  refine h.enqueue_links ht hr (chain_update t none h.free_chain fun hm => ?_) fun q => ?_
  · simp [(h.mem_free t).mp hm] at ht
  · -- the queue of `r` was empty, so its chain is `t` alone; the others keep their links
    by_cases h_qr : q = r
    · subst h_qr
      rw [Function.update_self, Function.update_self, (h.wantSendEnd_eq_none q).mp h_end]
      exact Chain.singleton (Function.update_self _ _ _)
    · rw [Function.update_of_ne h_qr, Function.update_of_ne h_qr]
      exact chain_update t none (h.queue_chain q) (h_notin q)

/-- The running task goes behind `last` in the send queue of `r`. Two links are written, that of the
task and that of `last`, and neither is seen from the free list or from another queue. -/
theorem enqueue_snoc (h : Partition v L) (ht : L.place t = .running) {r last : TaskTid}
    (hr : v.state r ≠ .receive) (h_end : v.wantSendEnd r = some last) :
    Partition { v with
      next := Function.update (Function.update v.next t none) last (some t)
      wantSendEnd := Function.update v.wantSendEnd r (some t)
      state := Function.update v.state t .send }
      { L.move t (.sendQueue r) with queue := Function.update L.queue r (L.queue r ++ [t]) } := by
  have h_notin : ∀ q, t ∉ L.queue q := fun q hm => by simp [(h.mem_queue q t).mp hm] at ht
  -- the last of the queue of `r` is in that queue only, so no other chain sees the write
  have h_last : L.place last = .sendQueue r := by
    rw [h.queue_end r] at h_end
    exact (h.mem_queue r last).mp (List.mem_of_getLast? h_end)
  have h_free := chain_update t none h.free_chain fun hm => by simp [(h.mem_free t).mp hm] at ht
  have h_queue := fun q => chain_update t none (h.queue_chain q) (h_notin q)
  refine h.enqueue_links ht hr (chain_update last (some t) h_free fun hm => ?_) fun q => ?_
  · simp [(h.mem_free last).mp hm] at h_last
  · by_cases h_qr : q = r
    · subst h_qr
      rw [Function.update_self]
      exact (h_queue q).snoc ((h.queue_end q).symm.trans h_end) (h_notin q)
        (Function.update_self _ _ _)
    · rw [Function.update_of_ne h_qr]
      refine chain_update last (some t) (h_queue q) fun hm => ?_
      rw [(h.mem_queue q last).mp hm] at h_last
      exact h_qr (Place.sendQueue.inj h_last)

/-- The head `src` of the send queue of `r` leaves it, and waits for a reply. The end of the queue
is reset only if nobody is left in it, so that the two pointers stay together. -/
theorem dequeue (h : Partition v L) {r src : TaskTid} (h_head : v.wantSend r = some src) :
    Partition { v with
      next := Function.update v.next src none
      wantSend := Function.update v.wantSend r (v.next src)
      wantSendEnd := if v.next src = none then Function.update v.wantSendEnd r none
        else v.wantSendEnd
      state := Function.update v.state src .reply }
      { L.move src .reply with queue := Function.update L.queue r (L.queue r).tail } := by
  obtain ⟨rest, h_queue⟩ : ∃ rest, L.queue r = src :: rest :=
    List.head?_eq_some_iff.mp ((h.queue_chain r).head?.trans h_head)
  have h_chain := h.queue_chain r
  have h_src : L.place src = .sendQueue r := (h.mem_queue r src).mp (h_queue ▸ List.mem_cons_self)
  have h_notin : src ∉ rest := by
    have h_nodup := h_chain.nodup
    rw [h_queue] at h_nodup
    exact (List.nodup_cons.mp h_nodup).1
  rw [h_queue] at h_chain
  refine ⟨?_, fun q => ?_, fun q => ?_, ?_, ?_, h.nodup_ready, ?_, ?_, ?_, ?_⟩
  · refine chain_update src none h.free_chain fun hm => ?_
    simp [(h.mem_free src).mp hm] at h_src
  · dsimp only
    -- the queue of `r` starts one further, and `src` is in no other
    by_cases h_qr : q = r
    · subst h_qr
      rw [Function.update_self, Function.update_self, h_queue]
      exact chain_update src none h_chain.2 h_notin
    · rw [Function.update_of_ne h_qr, Function.update_of_ne h_qr]
      refine chain_update src none (h.queue_chain q) fun hm => ?_
      rw [(h.mem_queue q src).mp hm] at h_src
      exact h_qr (Place.sendQueue.inj h_src)
  · -- the end is reset if and only if nobody is left
    have h_end := h.queue_end q
    dsimp only
    by_cases h_qr : q = r
    · subst h_qr
      rw [Function.update_self, h_queue, List.tail_cons]
      split
      · next h_none => rw [Function.update_self, h_chain.2.eq_nil_iff.mp h_none]; rfl
      · next h_some =>
        rw [h_end, h_queue]
        have h_ne : rest ≠ [] := fun h_nil => h_some (h_chain.2.eq_nil_iff.mpr h_nil)
        rw [List.getLast?_cons, List.getLast?_eq_some_getLast h_ne]
        simp
    · rw [Function.update_of_ne h_qr]
      split
      · rw [Function.update_of_ne h_qr]; exact h_end
      · exact h_end
  · exact fun s => (h.mem_free s).trans
      (Layout.move_place_iff (by simp [h_src]) (by simp) s).symm
  · -- `src` was in the queue of `r` alone
    intro q s
    change s ∈ Function.update L.queue r (L.queue r).tail q ↔
      (L.move src .reply).place s = .sendQueue q
    have h_mem := h.mem_queue q s
    rw [Layout.move_place, Function.update_apply]
    split_ifs with h_qr h_st h_st
    · simp [h_queue, h_st, h_notin]
    · subst h_qr
      simpa [h_queue, h_st] using h_mem
    · subst h_st
      simp [h_mem, h_src, Ne.symm h_qr]
    · exact h_mem
  · exact fun s => (h.mem_ready s).trans
      (Layout.move_place_iff (by simp [h_src]) (by simp) s).symm
  · exact fun e s => (h.mem_event e s).trans
      (Layout.move_place_iff (by simp [h_src]) (by simp) s).symm
  · exact h.move_state src .reply
  · intro s hs
    change (L.move src .reply).place s = .receive at hs
    rw [Layout.move_place] at hs
    split at hs
    · cases hs
    · have h_empty := h.receive_empty s hs
      change Function.update L.queue r (L.queue r).tail s = []
      rw [Function.update_apply]
      split
      · next h_sr => rw [← h_sr, h_empty]; rfl
      · exact h_empty

end Partition
end Kernel
end PollingExpress
