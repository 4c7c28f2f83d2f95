import Mathlib.Algebra.Order.Monoid.Defs
import Mathlib.Data.List.Nodup
import Mathlib.Tactic.Common

/-!
# Searching for a shortest path

Rules for a search that settles one node after the other, each time one with the least label among
those that may be settled, and relabels the nodes one hop further. They are about the labels of the
nodes (`Labels`), whatever the search keeps them in.

* `Explored` says what such labels are worth: they have been lowered along every hop out of a
  settled node, and each label that was lowered is the cost of a route whose other nodes are
  settled.
* `Explored.expand` is the step: one more node is settled, and the labels are lowered along its hops
  (`Relaxes`).
* `Explored.le_of_walk` bounds every walk from below, and `Explored.traced_of_lt` is the route that
  is found by following `prev`.

`limit` is the label of a node that has not been reached; a walk that costs as much does not count.
-/

namespace PollingExpress

section
variable {V α : Type*} [AddCommMonoid α] [LinearOrder α] [IsOrderedAddMonoid α]

/-- Hops with what they cost, and the nodes that may be passed. -/
structure SearchGraph (V α : Type*) [AddCommMonoid α] [LinearOrder α] where
  hop : V → V → α → Prop
  nonneg : ∀ {u v c}, hop u v c → 0 ≤ c
  allowed : V → Prop
  src : V

/-- A walk from the source through nodes that may be passed. -/
inductive Walk (G : SearchGraph V α) : V → α → Prop
  | start (h_src : G.allowed G.src) : Walk G G.src 0
  | hop {u v : V} {d c : α} (h : Walk G u d) (h_hop : G.hop u v c) (h_v : G.allowed v) :
      Walk G v (d + c)

/-- A list of nodes as a route, with what it costs. -/
inductive Route (hop : V → V → α → Prop) : List V → α → Prop
  | single (v : V) : Route hop [v] 0
  | cons {u v : V} {l : List V} {c d : α} (h_hop : hop u v c) (h : Route hop (v :: l) d) :
      Route hop (u :: v :: l) (c + d)

/-- The nodes that are met when `prev` is followed from a node back. -/
inductive Traced (prev : V → Option V) : V → List V → Prop
  | start {v : V} (h : prev v = none) : Traced prev v [v]
  | step {u v : V} {l : List V} (h_prev : prev v = some u) (h : Traced prev u l) :
      Traced prev v (l ++ [v])

structure Labels (V α : Type*) where
  dist : V → α
  prev : V → Option V
  settled : V → Prop

/-! ### Routes -/

omit [LinearOrder α] [IsOrderedAddMonoid α] in
theorem Route.snoc {hop : V → V → α → Prop} {l : List V} {u v : V} {d c : α} (h : Route hop l d)
    (h_last : l.getLast? = some u) (h_hop : hop u v c) : Route hop (l ++ [v]) (d + c) := by
  induction h with
  | single w =>
    obtain rfl : w = u := Option.some.inj h_last
    rw [zero_add, ← add_zero c]
    exact .cons h_hop (.single v)
  | cons h_first _ ih =>
    rw [add_assoc]
    exact .cons h_first (ih (by rwa [List.getLast?_cons_cons] at h_last))

omit [LinearOrder α] [IsOrderedAddMonoid α] in
theorem Route.ne_nil {hop : V → V → α → Prop} {l : List V} {d : α} (h : Route hop l d) :
    l ≠ [] := by
  cases h <;> simp

omit [LinearOrder α] [IsOrderedAddMonoid α] in
theorem Route.isChain {hop : V → V → α → Prop} {l : List V} {d : α} (h : Route hop l d) :
    l.IsChain fun u v => ∃ c, hop u v c := by
  induction h with
  | single v => exact .singleton v
  | cons h_hop _ ih => exact .cons_cons ⟨_, h_hop⟩ ih

theorem Traced.getLast? {prev : V → Option V} {v : V} {l : List V} (h : Traced prev v l) :
    l.getLast? = some v := by
  cases h with
  | start _ => rfl
  | step _ _ => exact List.getLast?_concat

theorem Traced.mem {prev : V → Option V} {v : V} {l : List V} (h : Traced prev v l) : v ∈ l :=
  List.mem_of_getLast? h.getLast?

theorem Traced.unique {prev : V → Option V} {v : V} {l l' : List V} (h : Traced prev v l)
    (h' : Traced prev v l') : l = l' := by
  induction h generalizing l' with
  | start h_none =>
    cases h' with
    | start _ => rfl
    | step h_some _ => cases h_none.symm.trans h_some
  | step h_prev h ih =>
    cases h' with
    | start h_none => cases h_none.symm.trans h_prev
    | step h_prev' h' =>
      obtain rfl := Option.some.inj (h_prev.symm.trans h_prev')
      rw [ih h']

/-- Only what `prev` says of the nodes that are met counts. -/
theorem Traced.congr {prev prev' : V → Option V} {v : V} {l : List V} (h : Traced prev v l)
    (h_eq : ∀ w ∈ l, prev' w = prev w) : Traced prev' v l := by
  induction h with
  | @start v h_none => exact .start ((h_eq v List.mem_cons_self).trans h_none)
  | @step u v l h_prev h ih =>
    refine .step ((h_eq v (List.mem_append_right _ List.mem_cons_self)).trans h_prev) (ih ?_)
    exact fun w h_w => h_eq w (List.mem_append_left _ h_w)

/-- The part up to a node that is met. -/
theorem Traced.upTo {prev : V → Option V} {v y : V} {before behind : List V}
    (h : Traced prev v (before ++ y :: behind)) : Traced prev y (before ++ [y]) := by
  generalize h_l : before ++ y :: behind = l at h
  induction h generalizing behind with
  | start h_none =>
    -- the trace is the source alone
    obtain ⟨rfl, h_y⟩ | ⟨-, h_nil⟩ := List.append_eq_singleton_iff.mp h_l
    · obtain ⟨rfl, -⟩ := List.cons.inj h_y
      exact .start h_none
    · cases h_nil
  | @step u v l h_prev h ih =>
    rcases List.eq_nil_or_concat behind with rfl | ⟨behind, z, rfl⟩
    · -- `y` is the last node, and the trace is whole; else it is in the shorter one
      obtain ⟨rfl, h_y⟩ := List.append_inj' h_l rfl
      obtain ⟨rfl, -⟩ := List.cons.inj h_y
      exact .step h_prev h
    · rw [List.concat_eq_append, ← List.cons_append, ← List.append_assoc] at h_l
      exact ih (List.append_inj' h_l rfl).1

/-- Nodes that are met one after the other. -/
theorem Traced.prev_eq {prev : V → Option V} {v x y : V} {before behind : List V}
    (h : Traced prev v (before ++ x :: y :: behind)) : prev y = some x := by
  rw [List.append_cons] at h
  have h_y : Traced prev y (before ++ [x] ++ [y]) := h.upTo
  generalize h_l : before ++ [x] ++ [y] = l at h_y
  cases h_y with
  | start _ => exact absurd (congrArg List.length h_l) (by simp)
  | @step u _ l h_prev h_u =>
    obtain ⟨rfl, -⟩ := List.append_inj' h_l rfl
    rw [h_prev, ← h_u.getLast?, List.getLast?_concat]

omit [IsOrderedAddMonoid α] in
/-- A route from a node that can be walked to. -/
theorem Walk.append_route {G : SearchGraph V α} {l : List V} {u v : V} {d c : α} (h : Walk G u d)
    (h_route : Route G.hop (u :: l) c) (h_last : (u :: l).getLast? = some v)
    (h_allowed : ∀ w ∈ l, G.allowed w) :
    Walk G v (d + c) := by
  induction l generalizing u d c with
  | nil =>
    obtain rfl : u = v := Option.some.inj h_last
    cases h_route
    rwa [add_zero]
  | cons w l ih =>
    cases h_route with
    | cons h_hop h_rest =>
      -- a hop of the route lengthens the walk, and the induction takes the rest
      rw [← add_assoc]
      refine ih (h.hop h_hop (h_allowed w List.mem_cons_self)) h_rest ?_ ?_
      · rwa [List.getLast?_cons_cons] at h_last
      · exact fun x h_x => h_allowed x (List.mem_cons_of_mem _ h_x)

/-! ### What the labels are worth -/

/-- The route that is found by following `prev` from `v`. It begins at the source, comes to no node
twice, and costs what the label of `v` says. -/
structure Found (G : SearchGraph V α) (L : Labels V α) (v : V) (l : List V) : Prop where
  traced : Traced L.prev v l
  nodup : l.Nodup
  head : l.head? = some G.src
  route : Route G.hop l (L.dist v)

structure Explored (G : SearchGraph V α) (limit : α) (L : Labels V α) : Prop where
  src_zero : L.dist G.src = 0
  src_first : L.prev G.src = none
  nonneg : ∀ v, 0 ≤ L.dist v
  le_limit : ∀ v, L.dist v ≤ limit
  allowed : ∀ v, L.settled v → G.allowed v
  lt_limit : ∀ v, L.settled v → L.dist v < limit
  /-- Along every hop out of a settled node the label has been lowered. -/
  relaxed : ∀ u v c, L.settled u → G.hop u v c → L.dist v ≤ L.dist u + c
  ordered : ∀ u v, L.settled u → ¬L.settled v → G.allowed v → L.dist u ≤ L.dist v
  /-- Where a label comes from. -/
  via : ∀ v, L.dist v < limit → v = G.src ∨
    ∃ u c, L.prev v = some u ∧ L.settled u ∧ G.hop u v c ∧ L.dist v = L.dist u + c
  prev_settled : ∀ v u, L.prev v = some u → L.settled u
  found : ∀ v, L.settled v → ∃ l, Found G L v l ∧ ∀ w ∈ l, L.settled w
  /-- A node that was settled before the one that the label comes from gave no label as low. -/
  strict : ∀ v u l, L.prev v = some u → Traced L.prev u l →
    ∀ w ∈ l, w ≠ u → ∀ c, G.hop w v c → L.dist v < L.dist w + c

/-- One more node is settled, and the labels are lowered along its hops. A label changes only if it
comes down (`each`), and it does come down where the new way is shorter (`lowered`); the labels of
settled nodes stay as they are. -/
structure Relaxes (G : SearchGraph V α) (L L' : Labels V α) (u : V) : Prop where
  settled : ∀ v, L'.settled v ↔ v = u ∨ L.settled v
  each : ∀ v, (L'.dist v = L.dist v ∧ L'.prev v = L.prev v) ∨
    (¬L.settled v ∧ v ≠ u ∧ L'.prev v = some u ∧ L'.dist v < L.dist v ∧
      ∃ c, G.hop u v c ∧ L'.dist v = L.dist u + c)
  lowered : ∀ v c, G.hop u v c → ¬L.settled v → v ≠ u → L'.dist v ≤ L.dist u + c

variable {G : SearchGraph V α} {limit m : α} {L L' : Labels V α} {u v : V} {d : α}

omit [IsOrderedAddMonoid α] in
/-- Nothing is settled, and the source is all that has been reached. The invariant holds before the
first node is settled. -/
theorem Explored.start (h_limit : 0 < limit) (h_src : L.dist G.src = 0)
    (h_dist : ∀ v, v ≠ G.src → L.dist v = limit) (h_prev : ∀ v, L.prev v = none)
    (h_settled : ∀ v, ¬L.settled v) : Explored G limit L where
  src_zero := h_src
  src_first := h_prev G.src
  nonneg v := by
    by_cases h_v : v = G.src
    · rw [h_v, h_src]
    · rw [h_dist v h_v]
      exact h_limit.le
  le_limit v := by
    by_cases h_v : v = G.src
    · rw [h_v, h_src]
      exact h_limit.le
    · rw [h_dist v h_v]
  allowed v h_v := absurd h_v (h_settled v)
  lt_limit v h_v := absurd h_v (h_settled v)
  relaxed u v c h_u := absurd h_u (h_settled u)
  ordered u v h_u := absurd h_u (h_settled u)
  via v h_v := by
    -- a label below the limit is that of the source
    by_contra h_not
    rw [h_dist v fun h_eq => h_not (.inl h_eq)] at h_v
    exact lt_irrefl _ h_v
  prev_settled v u h_some := by cases (h_prev v).symm.trans h_some
  found v h_v := absurd h_v (h_settled v)
  strict v u l h_some := by cases (h_prev v).symm.trans h_some

omit [IsOrderedAddMonoid α] in
/-- **The route to a node that has been reached**, settled or not: its other nodes are settled. A
label below the limit has been set from a settled node, whose own route is continued by one hop. -/
theorem Explored.found_of_lt (h : Explored G limit L) (h_v : ¬L.settled v)
    (h_lt : L.dist v < limit) :
    ∃ l, Found G L v l ∧ ∀ w ∈ l, w = v ∨ L.settled w := by
  -- the source itself, or a node that a settled one has led to
  rcases h.via v h_lt with rfl | ⟨u, c, h_prev, h_u, h_hop, h_dist⟩
  · refine ⟨[G.src], ⟨.start h.src_first, List.nodup_singleton _, rfl, ?_⟩, ?_⟩
    · rw [h.src_zero]
      exact .single _
    · exact fun w h_w => .inl (List.mem_singleton.mp h_w)
  · -- the route to the settled node, and one hop more
    obtain ⟨l, h_found, h_settled⟩ := h.found u h_u
    refine ⟨l ++ [v], ⟨.step h_prev h_found.traced, ?_, ?_, ?_⟩, ?_⟩
    · refine h_found.nodup.append (List.nodup_singleton v) (List.disjoint_singleton.mpr ?_)
      exact fun h_mem => h_v (h_settled v h_mem)
    · rw [List.head?_append_of_ne_nil _ h_found.route.ne_nil]
      exact h_found.head
    · rw [h_dist]
      exact h_found.route.snoc h_found.traced.getLast? h_hop
    · intro w h_w
      rcases List.mem_append.mp h_w with h_w | h_w
      · exact .inr (h_settled w h_w)
      · exact .inl (List.mem_singleton.mp h_w)

omit [IsOrderedAddMonoid α] in
/-- Where the label of a node comes from. -/
theorem Explored.hop_of_prev (h : Explored G limit L) (h_v : L.dist v < limit)
    (h_prev : L.prev v = some u) :
    ∃ c, G.hop u v c ∧ L.dist v = L.dist u + c := by
  rcases h.via v h_v with rfl | ⟨w, c, h_w, -, h_hop, h_dist⟩
  · cases h.src_first.symm.trans h_prev
  · obtain rfl := Option.some.inj (h_w.symm.trans h_prev)
    exact ⟨c, h_hop, h_dist⟩

/-- **No walk is shorter**: a node that can be walked to is settled with a label that is no larger,
or the walk costs at least the least label of a node that may still be settled. The induction is on
the walk: as long as it stays among settled nodes each hop has been relaxed, and where it leaves
them it costs `m` already, which the rest of it can only add to. -/
theorem Explored.le_of_walk (h : Explored G limit L)
    (h_min : ∀ v, G.allowed v → ¬L.settled v → m ≤ L.dist v) (h_walk : Walk G v d) :
    (L.settled v ∧ L.dist v ≤ d) ∨ m ≤ d := by
  induction h_walk with
  | start h_src =>
    by_cases h_settled : L.settled G.src
    · exact .inl ⟨h_settled, h.src_zero.le⟩
    · exact .inr (h.src_zero ▸ h_min _ h_src h_settled)
  | @hop u v d c h_walk h_hop h_v ih =>
    rcases ih with ⟨h_u, h_le⟩ | h_le
    · have h_label : L.dist v ≤ d + c := (h.relaxed u v c h_u h_hop).trans (add_le_add_left h_le c)
      by_cases h_settled : L.settled v
      · exact .inl ⟨h_settled, h_label⟩
      · exact .inr ((h_min v h_v h_settled).trans h_label)
    · exact .inr (h_le.trans (le_add_of_nonneg_right (G.nonneg h_hop)))

omit [IsOrderedAddMonoid α] in
/-- A settled node can be walked to at the cost of its label. -/
theorem Explored.walk (h : Explored G limit L) (h_v : L.settled v) : Walk G v (L.dist v) := by
  obtain ⟨l, h_found, h_settled⟩ := h.found v h_v
  obtain ⟨rest, rfl⟩ := List.head?_eq_some_iff.mp h_found.head
  rw [← zero_add (L.dist v)]
  refine Walk.append_route (.start (h.allowed _ (h_settled _ List.mem_cons_self))) h_found.route
    h_found.traced.getLast? ?_
  exact fun w h_w => h.allowed w (h_settled w (List.mem_cons_of_mem _ h_w))

/-! ### The step -/

omit [IsOrderedAddMonoid α] in
/-- What is settled stays as it is. -/
theorem Relaxes.same (h : Relaxes G L L' u) (h_v : v = u ∨ L.settled v) :
    L'.dist v = L.dist v ∧ L'.prev v = L.prev v := by
  rcases h.each v with h_same | ⟨h_not, h_ne, -⟩
  · exact h_same
  · exact (h_v.elim h_ne h_not).elim

omit [IsOrderedAddMonoid α] in
theorem Relaxes.le (h : Relaxes G L L' u) (v : V) : L'.dist v ≤ L.dist v := by
  rcases h.each v with h_same | ⟨-, -, -, h_lt, -⟩
  · exact h_same.1.le
  · exact h_lt.le

omit [IsOrderedAddMonoid α] in
theorem Found.relax (h_relax : Relaxes G L L' u) {l : List V} (h : Found G L v l)
    (h_l : ∀ w ∈ l, w = u ∨ L.settled w) : Found G L' v l where
  traced := h.traced.congr fun w h_w => (h_relax.same (h_l w h_w)).2
  nodup := h.nodup
  head := h.head
  route := by
    rw [(h_relax.same (h_l v h.traced.mem)).1]
    exact h.route

/-- A label that is lowered is at least the one of `u`. -/
theorem Relaxes.above (h : Relaxes G L L' u) (h_le : L.dist u ≤ L.dist v) :
    L.dist u ≤ L'.dist v := by
  rcases h.each v with h_same | ⟨-, -, -, -, c, h_hop, h_eq⟩
  · rwa [h_same.1]
  · rw [h_eq]
    exact le_add_of_nonneg_right (G.nonneg h_hop)

theorem Explored.nonneg_relax (h : Explored G limit L) (h_relax : Relaxes G L L' u) (v : V) :
    0 ≤ L'.dist v := by
  rcases h_relax.each v with h_same | ⟨-, -, -, -, c, h_hop, h_eq⟩
  · rw [h_same.1]
    exact h.nonneg v
  · rw [h_eq]
    exact add_nonneg (h.nonneg u) (G.nonneg h_hop)

/-- The label of the source is not lowered. -/
theorem Explored.src_relax (h : Explored G limit L) (h_relax : Relaxes G L L' u) :
    L'.dist G.src = L.dist G.src ∧ L'.prev G.src = L.prev G.src := by
  refine (h_relax.each G.src).resolve_right ?_
  rintro ⟨-, -, -, h_lower, -⟩
  rw [h.src_zero] at h_lower
  exact absurd (h.nonneg_relax h_relax G.src) (not_le.mpr h_lower)

theorem Explored.relaxed_relax (h : Explored G limit L) (h_allowed : G.allowed u)
    (h_new : ¬L.settled u) (h_relax : Relaxes G L L' u) {w v : V} {c : α} (h_w : L'.settled w)
    (h_hop : G.hop w v c) :
    L'.dist v ≤ L'.dist w + c := by
  have h_w := (h_relax.settled w).mp h_w
  rw [(h_relax.same h_w).1]
  rcases h_w with rfl | h_w
  · by_cases h_v : v = w ∨ L.settled v
    · -- a hop back to a node that is settled
      rw [(h_relax.same h_v).1]
      refine le_trans ?_ (le_add_of_nonneg_right (G.nonneg h_hop))
      rcases h_v with rfl | h_v
      · exact le_rfl
      · exact h.ordered v w h_v h_new h_allowed
    · obtain ⟨h_ne, h_not⟩ := not_or.mp h_v
      exact h_relax.lowered v c h_hop h_not h_ne
  · exact (h_relax.le v).trans (h.relaxed w v c h_w h_hop)

theorem Explored.ordered_relax (h : Explored G limit L) (h_allowed : G.allowed u)
    (h_new : ¬L.settled u) (h_min : ∀ v, G.allowed v → ¬L.settled v → L.dist u ≤ L.dist v)
    (h_relax : Relaxes G L L' u) {w v : V} (h_w : L'.settled w) (h_v : ¬L'.settled v)
    (h_v_allowed : G.allowed v) : L'.dist w ≤ L'.dist v := by
  have h_w := (h_relax.settled w).mp h_w
  rw [(h_relax.same h_w).1]
  have h_v : ¬L.settled v := fun h_old => h_v ((h_relax.settled v).mpr (.inr h_old))
  have h_le := h_relax.above (h_min v h_v_allowed h_v)
  rcases h_w with rfl | h_w
  · exact h_le
  · exact (h.ordered w u h_w h_new h_allowed).trans h_le

omit [IsOrderedAddMonoid α] in
theorem Explored.via_relax (h : Explored G limit L) (h_relax : Relaxes G L L' u)
    (h_v : L'.dist v < limit) :
    v = G.src ∨ ∃ w c, L'.prev v = some w ∧ L'.settled w ∧ G.hop w v c ∧
      L'.dist v = L'.dist w + c := by
  rcases h_relax.each v with h_same | ⟨-, -, h_prev, -, c, h_hop, h_eq⟩
  · rw [h_same.1] at h_v ⊢
    refine (h.via v h_v).imp_right fun ⟨w, c, h_prev, h_w, h_hop, h_eq⟩ => ?_
    refine ⟨w, c, h_same.2.trans h_prev, (h_relax.settled w).mpr (.inr h_w), h_hop, ?_⟩
    rw [(h_relax.same (.inr h_w)).1]
    exact h_eq
  · have h_u := h_relax.same (v := u) (.inl rfl)
    exact .inr ⟨u, c, h_prev, (h_relax.settled u).mpr (.inl rfl), h_hop, by rw [h_u.1, h_eq]⟩

omit [IsOrderedAddMonoid α] in
theorem Explored.prev_settled_relax (h : Explored G limit L) (h_relax : Relaxes G L L' u) {v w : V}
    (h_w : L'.prev v = some w) : L'.settled w := by
  rw [h_relax.settled]
  rcases h_relax.each v with h_same | ⟨-, -, h_prev, -⟩
  · exact .inr (h.prev_settled v w (h_same.2.symm.trans h_w))
  · exact .inl (Option.some.inj (h_w.symm.trans h_prev))

omit [IsOrderedAddMonoid α] in
/-- `l` is the route to the node that is settled. -/
theorem Explored.strict_relax (h : Explored G limit L) (h_relax : Relaxes G L L' u) {l : List V}
    (h_found : Found G L u l) (h_l : ∀ w ∈ l, w = u ∨ L.settled w) {v w x : V} {l' : List V} {c : α}
    (h_prev : L'.prev v = some w) (h_traced : Traced L'.prev w l') (h_x : x ∈ l') (h_ne : x ≠ w)
    (h_hop : G.hop x v c) : L'.dist v < L'.dist x + c := by
  rcases h_relax.each v with h_same | ⟨h_v, h_v_ne, h_prev', h_lower, -⟩
  · -- the label of `v` is an old one, and so are those of the nodes it comes from
    have h_old : L.prev v = some w := h_same.2.symm.trans h_prev
    obtain ⟨l₀, h_l₀, h_settled⟩ := h.found w (h.prev_settled v w h_old)
    obtain rfl :=
      h_traced.unique (h_l₀.traced.congr fun y h_y => (h_relax.same (.inr (h_settled y h_y))).2)
    rw [h_same.1, (h_relax.same (.inr (h_settled x h_x))).1]
    exact h.strict v w _ h_old h_l₀.traced x h_x h_ne c h_hop
  · -- the new label is below what the settled nodes gave
    obtain rfl : w = u := Option.some.inj (h_prev.symm.trans h_prev')
    obtain rfl := h_traced.unique (h_found.relax h_relax h_l).traced
    have h_settled : L.settled x := (h_l x h_x).resolve_left h_ne
    rw [(h_relax.same (.inr h_settled)).1]
    exact h_lower.trans_le (h.relaxed x v c h_settled h_hop)

/-- **One more node** with the least label among those that may be settled. This is the step of the
search: every field of the invariant is kept, and only the route to the new node is new
(`found_of_lt`). -/
theorem Explored.expand (h : Explored G limit L) (h_allowed : G.allowed u) (h_new : ¬L.settled u)
    (h_lt : L.dist u < limit) (h_min : ∀ v, G.allowed v → ¬L.settled v → L.dist u ≤ L.dist v)
    (h_relax : Relaxes G L L' u) : Explored G limit L' := by
  have h_src := h.src_relax h_relax
  -- `u` has been reached, so there is a route to it; it is the one new route to a settled node
  obtain ⟨l, h_found, h_l⟩ := h.found_of_lt h_new h_lt
  exact {
    src_zero := h_src.1.trans h.src_zero
    src_first := h_src.2.trans h.src_first
    nonneg := h.nonneg_relax h_relax
    le_limit := fun v => (h_relax.le v).trans (h.le_limit v)
    allowed := by
      intro v h_v
      rcases (h_relax.settled v).mp h_v with rfl | h_v
      · exact h_allowed
      · exact h.allowed v h_v
    lt_limit := by
      intro v h_v
      have h_v := (h_relax.settled v).mp h_v
      rw [(h_relax.same h_v).1]
      rcases h_v with rfl | h_v
      · exact h_lt
      · exact h.lt_limit v h_v
    relaxed := fun w v c h_w h_hop => h.relaxed_relax h_allowed h_new h_relax h_w h_hop
    ordered := fun w v h_w h_v h_v_allowed =>
      h.ordered_relax h_allowed h_new h_min h_relax h_w h_v h_v_allowed
    via := fun v h_v => h.via_relax h_relax h_v
    prev_settled := fun v w h_w => h.prev_settled_relax h_relax h_w
    found := by
      intro v h_v
      rcases (h_relax.settled v).mp h_v with rfl | h_v
      · exact ⟨l, h_found.relax h_relax h_l, fun w h_w => (h_relax.settled w).mpr (h_l w h_w)⟩
      · obtain ⟨l, h_found, h_l⟩ := h.found v h_v
        have h_l : ∀ w ∈ l, w = u ∨ L.settled w := fun w h_w => .inr (h_l w h_w)
        exact ⟨l, h_found.relax h_relax h_l, fun w h_w => (h_relax.settled w).mpr (h_l w h_w)⟩
    strict := fun v w l' h_prev h_traced x h_x h_ne c h_hop =>
      h.strict_relax h_relax h_found h_l h_prev h_traced h_x h_ne h_hop }

end
end PollingExpress
