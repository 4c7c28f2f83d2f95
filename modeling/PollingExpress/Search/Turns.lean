import PollingExpress.Search.Settling
import PollingExpress.Track.Mirror

/-!
# Reversals in the middle of a route

A route that the search finds takes no way around: a hop that skips some of its nodes costs more
(`Finds.threeHops`). On a mirror-symmetric track the way up to a node `x` is also a way back from
its reverse node, so a train that turns around at `x` and could not go anywhere else from there
would better have turned around earlier. What is left are the merges, where the way back branches,
and the nodes that an edge leads from to their own reverse node (`Track.Detour`).
-/

namespace PollingExpress
namespace Search

section
variable {T : RawTrack} {src dest : NodeNum} {avoid : NodeNum → Bool} {route : List NodeNum}

/-- `pathfind_worker` finds the route in what `dijkstra` leaves in `prev`. -/
def Finds (T : RawTrack) (src dest : NodeNum) (avoid : NodeNum → Bool) (route : List NodeNum) :
    Prop :=
  ∃ d prev, dijkstra T src dest avoid = .ok (d, prev) ∧ 0 ≤ d ∧
    followPrev prev trackMax dest = some route

instance (T : RawTrack) (src dest : NodeNum) (avoid : NodeNum → Bool) (route : List NodeNum) :
    Decidable (Finds T src dest avoid route) :=
  match h : dijkstra T src dest avoid with
  | .error fault => .isFalse fun ⟨_, _, h_ok, _⟩ => nomatch h.symm.trans h_ok
  | .ok (d, prev) => decidable_of_iff (0 ≤ d ∧ followPrev prev trackMax dest = some route)
      ⟨fun h_found => ⟨d, prev, h, h_found⟩, fun ⟨_, _, h_ok, h_found⟩ => by
        obtain ⟨rfl, rfl⟩ := Prod.mk.inj (Except.ok.inj (h.symm.trans h_ok))
        exact h_found⟩

/-- No walk to the node that is found is shorter. -/
theorem Searching.le_of_walkTo {h : T.WellFormed} {s : Dijkstra} {c : Int}
    (h_s : Searching h src dest avoid s)
    (h_min : ∀ n, avoid n = false → s.inShortestPath n = false → s.dist dest ≤ s.dist n)
    (h_walk : T.WalkTo h src avoid dest c) : s.dist dest ≤ c := by
  have h_free : ∀ n, avoid n = false → ¬s.inShortestPath n = true → s.dist dest ≤ s.dist n :=
    fun n h_n h_open => h_min n h_n (Bool.eq_false_iff.mpr h_open)
  rcases h_s.explored.le_of_walk h_free h_walk with ⟨h_settled, -⟩ | h_le
  · cases h_s.dest_open.symm.trans h_settled
  · exact h_le

theorem Finds.routeTo (h : T.WellFormed) (h_find : Finds T src dest avoid route) :
    ∃ d prev, RouteTo T src dest avoid d prev route ∧
      IsLeast { c | T.WalkTo h src avoid dest c } d := by
  obtain ⟨d, prev, h_ok, h_d, h_followed⟩ := h_find
  have h_ends := dijkstra_ends h src dest avoid
  rw [h_ok] at h_ends
  cases h_ends with
  | unreached _ _ _ _ => exact absurd h_d (by decide)
  | @found s h_s h_dest h_lt h_min =>
    obtain ⟨route', h_route⟩ := h_s.routeTo h_s.dest_open h_dest h_lt
    obtain rfl : route' = route := Option.some.inj (h_route.followed.symm.trans h_followed)
    exact ⟨_, _, h_route, h_route.walk, fun c h_walk => h_s.le_of_walkTo h_min h_walk⟩

/-- If there is a way, the search finds one. The search always ends, and an end without a route
means that no walk reaches the destination for less than `inf`. -/
theorem finds_of_walk (h : T.WellFormed) (h_zeroed : T.Zeroed) {c : Int}
    (h_src : (T src).type ≠ .none) (h_walk : T.WalkTo h src avoid dest c) (h_c : c < inf) :
    ∃ route, Finds T src dest avoid route := by
  have h_dest : avoid dest = false := by
    cases h_walk with
    | start h_open => exact h_open
    | hop _ _ h_open => exact h_open
  have h_ends := dijkstra_ends h src dest avoid
  generalize h_ok : dijkstra T src dest avoid = r at h_ends
  cases h_ends with
  | @found s h_s _ h_lt _ =>
    obtain ⟨route, h_route⟩ := h_s.routeTo h_s.dest_open h_dest h_lt
    exact ⟨route, s.dist dest, s.prev, h_ok, h_s.explored.nonneg dest, h_route.followed⟩
  | unreached h_s _ _ h_min =>
    cases h_s.dest_open.symm.trans (h_s.settled_of_reached h_min ⟨c, h_c, h_walk⟩)
  | exhausted h_s h_all => cases h_s.dest_open.symm.trans (h_all dest h_dest)
  | @noNode s u h_s h_u h_open h_lt _ h_none =>
    -- a node that was reached is typed, and its edges lead somewhere
    obtain ⟨e, h_e, h_none⟩ := h_none
    obtain ⟨route, h_route⟩ := h_s.routeTo h_open h_u h_lt
    have h_typed : (T u).type ≠ .none := by
      rcases typed_of_walk h_zeroed (@RouteTo.walk T src u avoid h _ _ _ h_route) with rfl | h_typed
      · exact h_src
      · exact h_typed
    obtain ⟨m, h_m, -⟩ := h.dest u h_typed e h_e
    cases h_none.symm.trans h_m

/-- **The labels along a route**: each is the one before and the hop, and no earlier node has a hop
to it that costs as little. An earlier node was settled before, so its hop was compared; and an
equal label does not replace the one that is there. -/
theorem Finds.labels (h : T.WellFormed) (h_find : Finds T src dest avoid route) : ∃ dist :
    NodeNum → Int,
    ∀ before x y behind, route = before ++ x :: y :: behind →
      (∃ c, T.Hop x y c ∧ dist y = dist x + c) ∧ ∀ w ∈ before, ∀ c, T.Hop w y c →
      dist y < dist w + c := by
  obtain ⟨d, prev, h_ok, h_d, h_followed⟩ := h_find
  have h_ends := dijkstra_ends h src dest avoid
  rw [h_ok] at h_ends
  cases h_ends with
  | unreached _ _ _ _ => exact absurd h_d (by decide)
  | @found s h_s h_dest h_lt _ =>
    obtain ⟨l, h_found, h_l⟩ := h_s.explored.found_of_lt (v := dest)
      (by simp [Dijkstra.labels, h_s.dest_open]) h_lt
    have h_length : l.length ≤ trackMax := by
      rw [← Fintype.card_fin trackMax]
      exact h_found.nodup.length_le_card
    obtain rfl : l = route :=
      Option.some.inj ((followPrev_of_traced h_found.traced h_length).symm.trans h_followed)
    refine ⟨s.dist, ?_⟩
    rintro before x y behind rfl
    have h_prev : s.prev y = some x := h_found.traced.prev_eq
    have h_y : s.dist y < inf := by
      rcases h_l y (by simp) with rfl | h_settled
      · exact h_lt
      · exact h_s.explored.lt_limit y h_settled
    refine ⟨h_s.explored.hop_of_prev h_y h_prev, fun w h_w c h_hop => ?_⟩
    -- `w` is one of the nodes that the label of `x` comes from
    refine h_s.explored.strict y x _ h_prev h_found.traced.upTo w
      (List.mem_append_left _ h_w) ?_ c h_hop
    rintro rfl
    have h_nodup := h_found.nodup
    rw [List.nodup_append] at h_nodup
    exact h_nodup.2.2 w h_w w List.mem_cons_self rfl

end

/-- Three hops one behind the other, with what they cost, that no hop which skips a node replaces.
What a hop that skips would cost is compared with the hops that it skips. -/
structure ThreeHops (T : RawTrack) (p x y q : NodeNum) (c₁ c₂ c₃ : Int) : Prop where
  first : T.Hop p x c₁
  second : T.Hop x y c₂
  third : T.Hop y q c₃
  skip_first : ∀ c, T.Hop p y c → c₁ + c₂ < c
  skip_last : ∀ c, T.Hop x q c → c₂ + c₃ < c
  skip_both : ∀ c, T.Hop p q c → c₁ + c₂ + c₃ < c

section
variable {T : RawTrack} {src dest p x y q : NodeNum} {avoid : NodeNum → Bool}
  {before behind : List NodeNum} {c₁ c₂ c₃ : Int}

/-- **A route takes no way around.** Any three hops in the middle of it are cheaper than a shortcut,
by the labels of the nodes that they lead to. -/
theorem Finds.threeHops (h : T.WellFormed)
    (h_find : Finds T src dest avoid (before ++ p :: x :: y :: q :: behind)) :
    ∃ c₁ c₂ c₃, ThreeHops T p x y q c₁ c₂ c₃ := by
  obtain ⟨dist, h_labels⟩ := h_find.labels h
  obtain ⟨⟨c₁, h_first, h_x⟩, -⟩ := h_labels before p x (y :: q :: behind) rfl
  obtain ⟨⟨c₂, h_second, h_y⟩, h_lt_y⟩ := h_labels (before ++ [p]) x y (q :: behind) (by simp)
  obtain ⟨⟨c₃, h_third, h_q⟩, h_lt_q⟩ := h_labels (before ++ [p, x]) y q behind (by simp)
  refine ⟨c₁, c₂, c₃, h_first, h_second, h_third, fun c h_c => ?_, fun c h_c => ?_, fun c h_c => ?_⟩
  · have h_lt := h_lt_y p (by simp) c h_c
    omega
  · have h_lt := h_lt_q x (by simp) c h_c
    omega
  · have h_lt := h_lt_q p (by simp) c h_c
    omega

/-- The nodes that are left to pass if only some may be. -/
def allBut (nodes : List NodeNum) (n : NodeNum) : Bool := n ∉ nodes

theorem allBut_eq_false {nodes : List NodeNum} {n : NodeNum} : allBut nodes n = false ↔
      n ∈ nodes := by
  simp [allBut]

theorem eq_nil_of_getLast {n : NodeNum} {l : List NodeNum} (h_nodup : (n :: l).Nodup)
    (h_last : (n :: l).getLast? = some n) : l = [] := by
  cases l with
  | nil => rfl
  | cons m l =>
    rw [List.getLast?_cons_cons] at h_last
    exact absurd (List.mem_of_getLast? h_last) (List.nodup_cons.mp h_nodup).1

/-- A list without repetitions that does not end yet goes on. -/
theorem exists_next {n : NodeNum} {l : List NodeNum} (h_once : (n :: l).Nodup)
    (h_last : (n :: l).getLast? = some q) (h_ne : n ≠ q) :
    ∃ m l', l = m :: l' ∧ n ∉ m :: l' ∧ (m :: l').Nodup ∧ (m :: l').getLast? = some q := by
  cases l with
  | nil => exact absurd (Option.some.inj h_last) h_ne
  | cons m l =>
    rw [List.getLast?_cons_cons] at h_last
    exact ⟨m, l, rfl, (List.nodup_cons.mp h_once).1, (List.nodup_cons.mp h_once).2, h_last⟩

/-- From `x` there are two ways to `q` if only `y` may be passed. -/
theorem ways_from {l : List NodeNum} (h_once : (x :: l).Nodup) (h_last : (x :: l).getLast? = some q)
    (h_xq : x ≠ q) (h_yq : y ≠ q) (h_mem : ∀ n ∈ l, n = x ∨ n = y ∨ n = q) :
    l = [q] ∨ l = [y, q] := by
  obtain ⟨m, l, rfl, h_x, h_once, h_last⟩ := exists_next h_once h_last h_xq
  rcases h_mem m List.mem_cons_self with rfl | rfl | rfl
  · exact absurd List.mem_cons_self h_x
  · obtain ⟨k, l, rfl, h_y, h_once, h_last⟩ := exists_next h_once h_last h_yq
    rcases h_mem k (by simp) with rfl | rfl | rfl
    · simp at h_x
    · simp at h_y
    · rw [eq_nil_of_getLast h_once h_last]
      exact .inr rfl
  · rw [eq_nil_of_getLast h_once h_last]
    exact .inl rfl

/-- From `p` there are five ways to `q` if only `x` and `y` may be passed. -/
theorem ways_between {l : List NodeNum} (h_nodup : [p, x, y, q].Nodup) (h_once : (p :: l).Nodup)
    (h_last : (p :: l).getLast? = some q) (h_mem : ∀ n ∈ l, n = p ∨ n = x ∨ n = y ∨ n = q) :
    l = [q] ∨ (l = [x, q] ∨ l = [x, y, q]) ∨ l = [y, q] ∨ l = [y, x, q] := by
  simp only [List.nodup_cons, List.mem_cons, List.not_mem_nil, not_or, or_false] at h_nodup
  obtain ⟨⟨-, -, h_pq⟩, ⟨-, h_xq⟩, h_yq, -⟩ := h_nodup
  obtain ⟨m, l, rfl, h_p, h_once, h_last⟩ := exists_next h_once h_last h_pq
  -- the way does not come back to `p`
  have h_mem' : ∀ n ∈ l, n = x ∨ n = y ∨ n = q := by
    intro n h_n
    refine (h_mem n (List.mem_cons_of_mem _ h_n)).resolve_left ?_
    rintro rfl
    exact h_p (List.mem_cons_of_mem _ h_n)
  -- the node behind `p`: one of the two, or the end already
  rcases h_mem m List.mem_cons_self with rfl | rfl | rfl | rfl
  · exact absurd List.mem_cons_self h_p
  · exact .inr (.inl ((ways_from h_once h_last h_xq h_yq h_mem').imp (congrArg _) (congrArg _)))
  · have h_swap : ∀ n ∈ l, n = m ∨ n = x ∨ n = q := fun n h_n => or_left_comm.mp (h_mem' n h_n)
    exact .inr (.inr ((ways_from h_once h_last h_yq h_xq h_swap).imp (congrArg _) (congrArg _)))
  · rw [eq_nil_of_getLast h_once h_last]
    exact .inl rfl

/-- Where only these four nodes may be passed, they are the route. Each of the other ways between
them has a hop that is dearer than the hops it replaces, and the search has taken a least way. -/
theorem ThreeHops.finds (h_hops : ThreeHops T p x y q c₁ c₂ c₃) (h : T.WellFormed)
    (h_zeroed : T.Zeroed) (h_p : (T p).type ≠ .none) (h_nodup : [p, x, y, q].Nodup)
    (h_lt : c₁ + c₂ + c₃ < inf) :
    Finds T p q (allBut [p, x, y, q]) [p, x, y, q] := by
  have h_open : ∀ n ∈ [p, x, y, q], (RawTrack.graph h p (allBut [p, x, y, q])).allowed n :=
    fun n h_n => allBut_eq_false.mpr h_n
  have h_nonneg : ∀ {u v c}, T.Hop u v c → 0 ≤ c :=
    (RawTrack.graph h p (allBut [p, x, y, q])).nonneg
  have h_walk_p : T.WalkTo h p (allBut [p, x, y, q]) p 0 := .start (h_open p (by simp))
  have h_walk_x : ∀ {c}, T.Hop p x c → T.WalkTo h p (allBut [p, x, y, q]) x (0 + c) :=
    fun h_c => h_walk_p.hop h_c (h_open x (by simp))
  have h_walk_y : ∀ {c c'}, T.Hop p x c → T.Hop x y c' →
      T.WalkTo h p (allBut [p, x, y, q]) y (0 + c + c') :=
    fun h_c h_c' => (h_walk_x h_c).hop h_c' (h_open y (by simp))
  have h_walk_q := (h_walk_y h_hops.first h_hops.second).hop h_hops.third (h_open q (by simp))
  obtain ⟨route, h_find⟩ := finds_of_walk h h_zeroed h_p h_walk_q (by omega)
  obtain ⟨d, prev, h_route, -, h_least⟩ := h_find.routeTo h
  suffices h_eq : route = [p, x, y, q] by
    rw [h_eq] at h_find
    exact h_find
  have h_least : ∀ {c}, T.WalkTo h p (allBut [p, x, y, q]) q c → d ≤ c := fun h_c => h_least h_c
  obtain ⟨l, rfl⟩ := List.head?_eq_some_iff.mp h_route.head
  have h_mem : ∀ n ∈ l, n = p ∨ n = x ∨ n = y ∨ n = q := fun n h_n => by
    simpa using allBut_eq_false.mp (h_route.allowed n (List.mem_cons_of_mem _ h_n))
  -- each of the other ways costs more than a walk that is there
  have h_cost := h_route.route
  rcases ways_between h_nodup h_route.nodup h_route.last h_mem with rfl | (rfl | rfl) | rfl | rfl
  · -- past both
    obtain _ | ⟨h_hop, _ | _⟩ := h_cost
    have h_skip := h_hops.skip_both _ h_hop
    have h_le := h_least h_walk_q
    omega
  · -- past `y`
    obtain _ | ⟨h_hop, _ | ⟨h_hop', _ | _⟩⟩ := h_cost
    have h_skip := h_hops.skip_last _ h_hop'
    have h_le := h_least ((h_walk_y h_hop h_hops.second).hop h_hops.third (h_open _ (by simp)))
    omega
  · rfl
  · -- past `x`
    obtain _ | ⟨h_hop, _ | ⟨h_hop', _ | _⟩⟩ := h_cost
    have h_skip := h_hops.skip_first _ h_hop
    have h_le := h_least ((h_walk_y h_hops.first h_hops.second).hop h_hop' (h_open _ (by simp)))
    omega
  · -- past `x`, and back to it
    obtain _ | ⟨h_hop, _ | ⟨h_hop', _ | ⟨h_hop'', _ | _⟩⟩⟩ := h_cost
    have h_skip := h_hops.skip_first _ h_hop
    have h_le := h_least ((h_walk_x h_hops.first).hop h_hop'' (h_open _ (by simp)))
    have h_second := h_nonneg h_hops.second
    have h_back := h_nonneg h_hop'
    omega

/-- One hop is a route of its own. -/
theorem finds_hop {c : Int} (h : T.WellFormed) (h_zeroed : T.Zeroed) (h_p : (T p).type ≠ .none)
    (h_ne : p ≠ q) (h_hop : T.Hop p q c) : Finds T p q (allBut [p, q]) [p, q] := by
  have h_open : ∀ n ∈ [p, q], (RawTrack.graph h p (allBut [p, q])).allowed n :=
    fun n h_n => allBut_eq_false.mpr h_n
  have h_walk : T.WalkTo h p (allBut [p, q]) q (0 + c) :=
    Walk.hop (.start (h_open p (by simp))) h_hop (h_open q (by simp))
  obtain ⟨e, -, -, -, h_lt⟩ := h_hop
  obtain ⟨route, h_find⟩ := finds_of_walk h h_zeroed h_p h_walk (by omega)
  obtain ⟨d, prev, h_route, -⟩ := h_find.routeTo h
  -- the search finds a route, and there are only two nodes for it
  have h_mem : ∀ n ∈ route, n = p ∨ n = q := fun n h_n => by
    simpa using allBut_eq_false.mp (h_route.allowed n h_n)
  obtain ⟨rest, rfl⟩ := List.head?_eq_some_iff.mp h_route.head
  have h_once := h_route.nodup
  have h_last := h_route.last
  cases rest with
  | nil => exact absurd (Option.some.inj h_last) h_ne
  | cons n rest =>
    rw [List.getLast?_cons_cons] at h_last
    rcases h_mem n (by simp) with rfl | rfl
    · simp at h_once
    · obtain rfl := eq_nil_of_getLast (List.nodup_cons.mp h_once).2 h_last
      exact h_find

end
end Search

/-! ### Turning around -/

namespace Track

open Search

variable {T : Track} {src dest p x q : NodeNum} {avoid : NodeNum → Bool}
  {before behind : List NodeNum} {c₁ c₂ c₃ : Int}

/-- A way around from `p` to its reverse node, over an edge from `x` to the reverse node of `x`, at
which no train turns around. No hop that skips a node of it costs as little (`ThreeHops`), turning
around at `p` included. -/
structure Detour (T : Track) (p x : NodeNum) (c₁ c₂ c₃ : Int) : Prop where
  not_merge : (T.node x).type ≠ .merge
  ne : p ≠ x
  ne_reverse : p ≠ T.reverse x
  edge : T.Open x (T.reverse x) c₂
  hops : ThreeHops T.raw p x (T.reverse x) (T.reverse p) c₁ c₂ c₃

theorem raw_zeroed : T.raw.Zeroed := fun _ h_type => if_pos h_type

/-- **A turn in the middle of a route** is at a merge, or on a way around. If it is at no merge, the
way on from there is the mirror edge of the way to it, back to the reverse of `p`. Then it is no
reversal, since a reversal at `p` would have cost no more; so an edge leads around. -/
theorem Mirrored.detour_of_turn (h : T.Mirrored)
    (h_find : Finds T.raw src dest avoid (before ++ p :: x :: T.reverse x :: q :: behind))
    (h_type : (T.node x).type ≠ .merge) : ∃ c₁ c₂ c₃, T.Detour p x c₁ c₂ c₃ := by
  obtain ⟨d, prev, h_route, -⟩ := h_find.routeTo h.wellFormed
  have h_once := (List.nodup_append.mp h_route.nodup).2.1
  simp only [List.nodup_cons, List.mem_cons, not_or] at h_once
  obtain ⟨⟨h_ne, h_ne_reverse, -⟩, ⟨-, h_xq, -⟩, -⟩ := h_once
  obtain ⟨c₁, c₂, c₃, h_hops⟩ := h_find.threeHops h.wellFormed
  -- the way to `x` is an edge, and its mirror edge is the only way back
  have h_first : T.Open p x c₁ :=
    open_of_hop h_hops.first fun h_eq => h_ne_reverse (reverse_eq_iff.mp h_eq.symm)
  have h_third : T.Open (T.reverse x) q c₃ := by
    refine open_of_hop h_hops.third ?_
    rw [T.reverse_reverse']
    exact fun h_eq => h_xq h_eq.symm
  have h_branch : (T.node (T.reverse x)).type ≠ .branch := by
    rw [h.type_reverse]
    cases h_x : (T.node x).type with
    | merge => exact absurd h_x h_type
    | none | sensor | branch | enter | exit => simp [NodeType.mirror]
  obtain rfl := (h.leads_reverse p x h_first.leads).unique h_third.leads h_branch
  refine ⟨c₁, c₂, c₃, h_type, h_ne, h_ne_reverse, ?_, h_hops⟩
  rcases hop_iff.mp h_hops.second with h_edge | ⟨-, -, rfl⟩
  · exact h_edge
  · -- turning around at `p` costs no more
    have h_lt := h_hops.skip_both _ (hop_iff.mpr (.inr ⟨h_first.leads.type_ne, rfl, rfl⟩))
    have h_nonneg : ∀ {u v c}, T.raw.Hop u v c → 0 ≤ c :=
      (RawTrack.graph h.wellFormed src avoid).nonneg
    have h_c₁ := h_nonneg h_hops.first
    have h_c₃ := h_nonneg h_hops.third
    omega

/-- A way around is taken. -/
theorem Detour.finds (h : T.Mirrored) (h_detour : T.Detour p x c₁ c₂ c₃) :
    Finds T.raw p (T.reverse p) (allBut [p, x, T.reverse x, T.reverse p])
      [p, x, T.reverse x, T.reverse p] := by
  have h_first : T.Open p x c₁ :=
    open_of_hop h_detour.hops.first fun h_eq => h_detour.ne_reverse (reverse_eq_iff.mp h_eq.symm)
  have h_p := h_first.leads.type_ne
  -- the four nodes are different ones, and turning around at once costs less than `INF`
  refine h_detour.hops.finds h.wellFormed raw_zeroed h_p ?_ ?_
  · have h_xp : x ≠ T.reverse p := fun h_eq => h_detour.ne_reverse (reverse_eq_iff.mp h_eq.symm)
    have h_reverse : T.reverse x ≠ T.reverse p := by
      intro h_eq
      rw [reverse_eq_iff, T.reverse_reverse'] at h_eq
      exact h_detour.ne h_eq.symm
    simp [h_detour.ne, h_detour.ne_reverse, (h.reverse_ne p).symm, (h.reverse_ne x).symm,
      h_xp, h_reverse]
  · have h_lt := h_detour.hops.skip_both _ (hop_iff.mpr (.inr ⟨h_p, rfl, rfl⟩))
    exact h_lt.trans (by decide)

end Track
end PollingExpress
