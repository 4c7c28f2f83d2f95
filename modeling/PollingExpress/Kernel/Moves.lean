import PollingExpress.Kernel.Containers
import PollingExpress.Kernel.Main

/-!
# What one operation does

Three relations between kernel states, with the primitive operations that are
instances of them.

* `HeapSteps k k'` — `k'` comes from `k` by pops and adds of the ready heap and
  changes that leave the heap and its keys alone (`Quiet`).
* `Aside k L k' L'` — tasks that wait in a message exchange are left alone, and
  so is memory.
* `Moves k L k' L'` — the containers of `k'` hold what `L'` puts there, and the
  two above.

Every operation but the three of message passing is a `Moves`. Message passing
is a `HeapSteps` that keeps the partition, and has its own account elsewhere.
-/

namespace PollingExpress
namespace Kernel

/-! ### The containers after a write -/

theorem view_modify (k : Kernel) (t : TaskTid) (f : TCB → TCB) :
    (k.modify t f).view = { k.view with
      next := Function.update k.view.next t (f (k.backing t)).next
      state := Function.update k.view.state t (f (k.backing t)).state
      wantSend := Function.update k.view.wantSend t (f (k.backing t)).wantSend
      wantSendEnd := Function.update k.view.wantSendEnd t (f (k.backing t)).wantSendEnd } := by
  refine View.ext ?_ ?_ ?_ ?_ rfl rfl rfl <;>
  · funext s
    simp only [view, modify, Function.update_apply]
    split <;> rfl

/-- A write that no container field takes part in. -/
theorem view_modify_eq (k : Kernel) (t : TaskTid) {f : TCB → TCB}
    (h : ∀ c, (f c).next = c.next ∧ (f c).state = c.state ∧ (f c).wantSend = c.wantSend ∧
      (f c).wantSendEnd = c.wantSendEnd) : (k.modify t f).view = k.view := by
  obtain ⟨h_next, h_state, h_ws, h_wse⟩ := h (k.backing t)
  rw [view_modify, h_next, h_state, h_ws, h_wse]
  refine View.ext ?_ ?_ ?_ ?_ rfl rfl rfl <;> exact Function.update_eq_self _ _

@[simp] theorem view_setReturn (k : Kernel) (t : TaskTid) (d : Int) :
    (k.setReturn t d).view = k.view :=
  k.view_modify_eq t fun _ => ⟨rfl, rfl, rfl, rfl⟩

@[simp] theorem view_setState (k : Kernel) (t : TaskTid) (s : TcbState) :
    (k.setState t s).view = { k.view with state := Function.update k.view.state t s } := by
  rw [setState, view_modify]
  refine View.ext ?_ rfl ?_ ?_ rfl rfl rfl <;> exact Function.update_eq_self _ _

@[simp] theorem view_record (k : Kernel) (e : KernelEvent) : (k.record e).view = k.view := rfl

theorem Added.view {k k' : Kernel} {t : TaskTid} (h : Added k t k') :
    k'.view = { k.view with ready := t ::ₘ k.view.ready } := by
  have h_modify : (k.modify t fun c => { c with addedTime := k.timer3 k.reads }).view = k.view :=
    k.view_modify_eq t fun _ => ⟨rfl, rfl, rfl, rfl⟩
  rw [← h_modify]
  refine View.ext ?_ ?_ ?_ ?_ h.same.1 h.tasks h.same.2.1 <;>
  · simp only [Kernel.view, h.backing]

theorem Popped.view {k k' : Kernel} {t : TaskTid} (h : Popped k t k') :
    k'.view = { k.view with ready := k'.readyTasks } := by
  refine View.ext ?_ ?_ ?_ ?_ h.same.1 rfl h.same.2.1 <;>
  · simp only [Kernel.view, h.backing]

/-! ### Steps of the ready heap -/

/-- The heap and the keys of its tasks stay as they are, and what the step has noted is about
messages. This is what the parts of a trap do that only write to descriptors and memory. -/
structure Quiet (k k' : Kernel) : Prop where
  heap : k'.readyQueue = k.readyQueue ∧ k'.count = k.count
  keys : ∀ t ∈ k.readyTasks, (k'.backing t).priority = (k.backing t).priority ∧
    (k'.backing t).addedTime = (k.backing t).addedTime
  tid : ∀ t, (k'.backing t).tid = (k.backing t).tid
  log : ∃ es, k'.log = k.log ++ es ∧ ∀ e ∈ es, e.IsMessage

/-- Pops, adds and quiet changes, one after the other. -/
inductive HeapSteps : Kernel → Kernel → Prop
  | refl (k : Kernel) : HeapSteps k k
  | pop {k k₁ k₂ : Kernel} {t : TaskTid} (h : HeapSteps k k₁) (h_pop : Popped k₁ t k₂) :
      HeapSteps k k₂
  | add {k k₁ k₂ : Kernel} {t : TaskTid} (h : HeapSteps k k₁) (ht : t ∉ k₁.readyTasks)
      (h_add : Added k₁ t k₂) : HeapSteps k k₂
  | quiet {k k₁ k₂ : Kernel} (h : HeapSteps k k₁) (h_quiet : Quiet k₁ k₂) : HeapSteps k k₂

theorem HeapSteps.trans {k₁ k₂ k₃ : Kernel} (h : HeapSteps k₁ k₂) (h' : HeapSteps k₂ k₃) :
    HeapSteps k₁ k₃ := by
  induction h' with
  | refl => exact h
  | pop _ h_pop ih => exact ih.pop h_pop
  | add _ ht h_add ih => exact ih.add ht h_add
  | quiet _ h_quiet ih => exact ih.quiet h_quiet

theorem HeapSteps.of_quiet {k k' : Kernel} (h : Quiet k k') : HeapSteps k k' :=
  (HeapSteps.refl k).quiet h

/-- No step changes a `tid`. -/
theorem HeapSteps.tid {k k' : Kernel} (h : HeapSteps k k') (t : TaskTid) :
    (k'.backing t).tid = (k.backing t).tid := by
  induction h with
  | refl => rfl
  | pop _ h_pop ih => rw [h_pop.backing, ih]
  | add _ _ h_add ih =>
    rw [h_add.backing, ← ih]
    exact modify_keep TCB.tid (by intro c; rfl) _ _ t
  | quiet _ h_quiet ih => rw [h_quiet.tid, ih]

/-- The log only grows. -/
theorem HeapSteps.log {k k' : Kernel} (h : HeapSteps k k') : ∃ es, k'.log = k.log ++ es := by
  induction h with
  | refl => exact ⟨[], by simp⟩
  | pop _ h_pop ih =>
    obtain ⟨es, h_es⟩ := ih
    exact ⟨es ++ [_], by rw [h_pop.log, h_es, List.append_assoc]⟩
  | add _ _ h_add ih =>
    obtain ⟨es, h_es⟩ := ih
    exact ⟨es ++ [_], by rw [h_add.log, h_es, List.append_assoc]⟩
  | quiet _ h_quiet ih =>
    obtain ⟨es, h_es⟩ := ih
    obtain ⟨es', h_es', -⟩ := h_quiet.log
    exact ⟨es ++ es', by rw [h_es', h_es, List.append_assoc]⟩

/-- A write that leaves the keys and the `tid` alone. -/
theorem quiet_modify (k : Kernel) (t : TaskTid) {f : TCB → TCB}
    (h : ∀ c, (f c).priority = c.priority ∧ (f c).addedTime = c.addedTime ∧ (f c).tid = c.tid) :
    Quiet k (k.modify t f) := by
  exact ⟨⟨rfl, rfl⟩,
    fun s _ => ⟨modify_keep TCB.priority (fun c => (h c).1) k t s,
      modify_keep TCB.addedTime (fun c => (h c).2.1) k t s⟩,
    modify_keep TCB.tid (fun c => (h c).2.2) k t, [], by simp [modify], by simp⟩

/-! ### Leaving message passing alone -/

/-- A place in a message exchange. -/
def Place.Waiting (p : Place) : Prop := (∃ r, p = .sendQueue r) ∨ p = .receive ∨ p = .reply

/-- Memory and the tasks in a message exchange stay as they are: the queues are the same, and so are
the places and the saved registers of those who wait in `Send`, `Receive` or for a reply. -/
structure Aside (k : Kernel) (L : Layout) (k' : Kernel) (L' : Layout) : Prop where
  mem : k'.mem = k.mem
  queue : L'.queue = L.queue
  place : ∀ t, (L.place t).Waiting ∨ (L'.place t).Waiting → L'.place t = L.place t
  context : ∀ t, (L.place t).Waiting → (k'.backing t).context = (k.backing t).context
  log : ∃ es, k'.log = k.log ++ es ∧ ∀ e ∈ es, ¬e.IsMessage

theorem Aside.refl (k : Kernel) (L : Layout) : Aside k L k L :=
  ⟨rfl, rfl, fun _ _ => rfl, fun _ _ => rfl, [], by simp, by simp⟩

theorem Aside.trans {k₁ k₂ k₃ : Kernel} {L₁ L₂ L₃ : Layout} (h : Aside k₁ L₁ k₂ L₂)
    (h' : Aside k₂ L₂ k₃ L₃) : Aside k₁ L₁ k₃ L₃ := by
  obtain ⟨es, h_log, h_es⟩ := h.log
  obtain ⟨es', h_log', h_es'⟩ := h'.log
  refine ⟨h'.mem.trans h.mem, h'.queue.trans h.queue, fun t ht => ?_, fun t ht => ?_,
    es ++ es', by rw [h_log', h_log, List.append_assoc], ?_⟩
  · obtain ht | ht := ht
    · -- a task that waits at one end waits in the middle, at the same place
      have h_eq := h.place t (Or.inl ht)
      exact (h'.place t (Or.inl (h_eq ▸ ht))).trans h_eq
    · have h_eq := h'.place t (Or.inr ht)
      exact h_eq.trans (h.place t (Or.inr (h_eq ▸ ht)))
  · have h_eq := h.place t (Or.inl ht)
    exact (h'.context t (h_eq ▸ ht)).trans (h.context t ht)
  · intro e he
    obtain he | he := List.mem_append.mp he
    · exact h_es e he
    · exact h_es' e he

/-- A move between two places outside message exchanges. -/
theorem Aside.move {k k' : Kernel} {L : Layout} {t : TaskTid} {p : Place}
    (h_old : ¬(L.place t).Waiting) (h_new : ¬p.Waiting) (h_mem : k'.mem = k.mem)
    (h_context : ∀ s, s ≠ t → (k'.backing s).context = (k.backing s).context)
    (h_log : ∃ es, k'.log = k.log ++ es ∧ ∀ e ∈ es, ¬e.IsMessage) :
    Aside k L k' (L.move t p) := by
  refine ⟨h_mem, rfl, fun s hs => ?_, fun s hs => h_context s ?_, h_log⟩
  · rw [Layout.move_place] at hs ⊢
    split at hs
    · next h_eq => exact absurd (h_eq ▸ hs) (by simp [h_old, h_new])
    · next h_ne => rw [if_neg h_ne]
  · rintro rfl
    exact h_old hs

/-! ### Moves -/

/-- The containers go from `L` to `L'`, and message passing is left alone. Steps of this kind can be
put one behind the other (`Moves.trans`), which is how the traps are taken apart. -/
structure Moves (k : Kernel) (L : Layout) (k' : Kernel) (L' : Layout) : Prop where
  partition : Partition k'.view L'
  heap : HeapSteps k k'
  aside : Aside k L k' L'

variable {k k' : Kernel} {L : Layout} {t : TaskTid}

theorem Moves.refl (h : Partition k.view L) : Moves k L k L := ⟨h, .refl k, .refl k L⟩

theorem Moves.trans {k₁ k₂ k₃ : Kernel} {L₁ L₂ L₃ : Layout} (h : Moves k₁ L₁ k₂ L₂)
    (h' : Moves k₂ L₂ k₃ L₃) : Moves k₁ L₁ k₃ L₃ :=
  ⟨h'.partition, h.heap.trans h'.heap, h.aside.trans h'.aside⟩

/-- A task outside the heap can be added to it. -/
theorem moves_add (h : Partition k.view L) (ht : L.place t = .running) :
    ∃ k', k.addToReadyQueue t = .ok k' ∧ Added k t k' ∧ Moves k L k' (L.move t .ready) := by
  have h_room : k.count < maxNumTasks := by
    have h_card := h.room (show L.place t ≠ .ready by simp [ht])
    rwa [show k.view.ready.card = k.count from card_slots _ _] at h_card
  obtain ⟨k', h_ok⟩ := addToReadyQueue_room h_room t
  have h_add := addToReadyQueue_ok h_ok
  have h_notin : t ∉ k.readyTasks := fun hm => by simp [(h.mem_ready t).mp hm] at ht
  refine ⟨k', h_ok, h_add, h_add.view ▸ h.ready ht, (HeapSteps.refl k).add h_notin h_add, ?_⟩
  refine Aside.move (by simp [ht, Place.Waiting]) (by simp [Place.Waiting]) h_add.same.2.2
    (fun s hs => ?_) ⟨_, h_add.log, by simp [KernelEvent.IsMessage]⟩
  rw [h_add.backing, modify_of_ne k _ hs]

/-- The task at the root of the heap starts to run. -/
theorem moves_pop (h : Partition k.view L) (h_pop : Popped k t k') :
    Moves k L k' (L.move t .running) := by
  have ht : L.place t = .ready :=
    (h.mem_ready t).mp (by
      change t ∈ k.readyTasks
      rw [h_pop.tasks]
      exact Multiset.mem_cons_self t _)
  refine ⟨h_pop.view ▸ h.pop h_pop.tasks, (HeapSteps.refl k).pop h_pop, ?_⟩
  exact Aside.move (by simp [ht, Place.Waiting]) (by simp [Place.Waiting]) h_pop.same.2.2
    (fun s _ => by rw [h_pop.backing]) ⟨_, h_pop.log, by simp [KernelEvent.IsMessage]⟩

theorem moves_setReturn (h : Partition k.view L) (ht : ¬(L.place t).Waiting) (d : Int) :
    Moves k L (k.setReturn t d) L := by
  refine ⟨by rwa [view_setReturn], .of_quiet (k.quiet_modify t fun _ => ⟨rfl, rfl, rfl⟩),
    rfl, rfl, fun _ _ => rfl, fun s hs => ?_, [], by simp [setReturn, modify], by simp⟩
  rw [setReturn, modify_of_ne k _ (by rintro rfl; exact ht hs)]

/-- The running task goes to a place without a container. -/
theorem moves_setState (h : Partition k.view L) (ht : L.place t = .running) {p : Place}
    (h_p : p.Unlisted ∧ ¬p.Waiting) :
    Moves k L (k.setState t p.state) (L.move t p) := by
  refine ⟨?_, .of_quiet (k.quiet_modify t fun _ => ⟨rfl, rfl, rfl⟩), ?_⟩
  · rw [view_setState]
    refine h.setState p (Or.inr (Or.inr (Or.inr ht))) h_p.1 ?_
    rintro rfl
    exact absurd (Or.inr (Or.inl rfl)) h_p.2
  · exact Aside.move (by simp [ht, Place.Waiting]) h_p.2 rfl
      (fun s hs => by rw [setState, modify_of_ne k _ hs])
      ⟨[], by simp [setState, modify], by simp⟩

/-- The first free descriptor is taken and filled in. A task in the heap is not free, so the keys of
the heap are not written. -/
theorem moves_takeFree (h : Partition k.view L) (h_head : k.freeTcb = some t)
    (priority parentTid : Int) (name : TaskName) :
    Moves k L (k.takeFree t priority parentTid name)
      { L.move t .running with free := L.free.tail } := by
  have h_free : L.place t = .free :=
    (h.mem_free t).mp (List.mem_of_mem_head? (h.free_chain.head?.trans h_head))
  have h_view : (k.takeFree t priority parentTid name).view = { k.view with
      freeTcb := k.view.next t
      next := Function.update k.view.next t none
      state := Function.update k.view.state t .ready } := by
    rw [takeFree, view_modify]
    refine View.ext rfl rfl ?_ ?_ rfl rfl rfl <;> exact Function.update_eq_self _ _
  refine ⟨h_view ▸ h.allocate h_head, .of_quiet ⟨⟨rfl, rfl⟩, fun s hs => ?_, fun s => ?_,
    [], by simp [takeFree, modify], by simp⟩, ?_⟩
  · -- a task in the heap is not free, so its descriptor is not the one that is filled
    have h_ne : s ≠ t := by
      rintro rfl
      exact absurd ((h.mem_ready s).mp hs) (by simp [h_free])
    rw [takeFree, modify_of_ne _ _ h_ne]
    exact ⟨rfl, rfl⟩
  · unfold takeFree
    exact modify_keep TCB.tid (by intro c; rfl) _ t s
  · have h_aside : Aside k L (k.takeFree t priority parentTid name) (L.move t .running) :=
      Aside.move (by simp [h_free, Place.Waiting]) (by simp [Place.Waiting]) rfl
        (fun s hs => by rw [takeFree, modify_of_ne _ _ hs])
        ⟨[], by simp [takeFree, modify], by simp⟩
    exact ⟨h_aside.mem, h_aside.queue, h_aside.place, h_aside.context, h_aside.log⟩

/-- A change to the registers of the hardware and what the kernel keeps of them. -/
theorem moves_io (h : Partition k.view L) (interruptTasks : Int) (uart1TxFlag reads : ℕ)
    (uart1Ctrl uart2Ctrl : UartCtrl) :
    Moves k L { k with interruptTasks, uart1TxFlag, reads, uart1Ctrl, uart2Ctrl } L :=
  ⟨h, .of_quiet ⟨⟨rfl, rfl⟩, fun _ _ => ⟨rfl, rfl⟩, fun _ => rfl, [], by simp, by simp⟩,
    rfl, rfl, fun _ _ => rfl, fun _ _ => rfl, [], by simp, by simp⟩

theorem moves_setInterrupt (h : Partition k.view L) (i : InterruptType) (on : Bool) :
    Moves k L (k.setInterrupt i on) L := by
  cases i <;> exact moves_io h _ _ _ _ _

end Kernel
end PollingExpress
