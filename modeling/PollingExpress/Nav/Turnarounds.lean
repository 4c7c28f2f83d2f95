import PollingExpress.Nav.Paths
import PollingExpress.Search.Turns
import PollingExpress.Track.BufferNodes

/-!
# Turning around at merges

`add_buffer_nodes` takes any node for a switch. On the routes that the search finds it is asked for
merges only (`turnsAtMerges_iff`), unless the track has a way around over an edge from a node to its
own reverse node that is shorter than turning around, or a route ends over an edge at the reverse of
node 0: the last node is compared with the entry behind it, which is zero.
-/

namespace PollingExpress
namespace Nav

open Search (Finds allBut)

/-- The train turns around at merges on the route, and `add_buffer_nodes` reads the rows of merges:
`mid` is about the route, `asks` about the nodes whose rows are read, and `rows` says that each of
them has one. -/
structure TurnsAtMerges (T : Track) (path : RoutePath) : Prop where
  mid : ∀ front x q behind, path.nodes = front ++ x :: T.reverse x :: q :: behind → front ≠ [] →
    (T.node x).type = .merge
  asks : ∀ n ∈ bufferAsks T path.padding.head? false none path.nodes, (T.node n).type = .merge
  rows : ∀ tasks train destOffset, segmentsFillNavigationTasks T path tasks train destOffset ≠
    .error .bufferRow

section
variable {T : Track} {src dest : NodeNum} {avoid : NodeNum → Bool} {route : List NodeNum}

/-- No row is read that there is not, if all nodes that are asked for have one. -/
theorem fill_ne_bufferRow {path : RoutePath}
    (h : ∀ n ∈ bufferAsks T path.padding.head? false none path.nodes, (T.bufferRow n).isSome)
    (tasks : Fifo NavigationTask) (train : TrainNum) (destOffset : Int32) :
    segmentsFillNavigationTasks T path tasks train destOffset ≠ .error .bufferRow := by
  have h_some : (straightPaths T path.padding.head? [] [] path.nodes).isSome := by
    refine (straightPaths_isSome_iff (by simp) fun n h_none => ?_).mpr h
    cases h_none
  obtain ⟨ps, h_ps⟩ := Option.isSome_iff_exists.mp h_some
  obtain ⟨h_ok, h_over⟩ := segmentsFillNavigationTasks_spec path tasks train destOffset h_ps
  intro h_error
  by_cases h_fits : ∀ p ∈ ps, p.length ≤ maxTaskPath
  · obtain ⟨new, h_run, -⟩ := h_ok h_fits
    cases h_error.symm.trans h_run
  · push Not at h_fits
    cases h_error.symm.trans (h_over h_fits)

theorem nodup_of_finds (h : T.raw.WellFormed) (h_find : Finds T.raw src dest avoid route) :
    route.Nodup := by
  obtain ⟨d, prev, h_route, -⟩ := h_find.routeTo h
  exact h_route.nodup

/-- The last hop of a route that does not end right is an edge to the reverse of node 0. It is no
reversal, or the route would end in a turn. -/
theorem unbroken_of_not_endsRight (h : T.raw.WellFormed) (h_find : Finds T.raw src dest avoid route)
    (h_once : route.Nodup) (h_two : 2 ≤ route.length)
    (h_ends : ¬EndsRight T (RoutePath.found route h_once).padding.head? route) :
    dest = T.reverse 0 ∧ ∃ p, p ≠ 0 ∧ p ≠ T.reverse 0 ∧ T.Unbroken p (T.reverse 0) := by
  obtain ⟨d, prev, h_route, -⟩ := h_find.routeTo h
  obtain ⟨n, rest, rfl⟩ :=
    List.exists_cons_of_ne_nil (List.ne_nil_of_length_pos (Nat.zero_lt_of_lt h_two))
  rw [endsRight_found] at h_ends
  obtain ⟨h_turn, h_ends⟩ := not_or.mp h_ends
  obtain ⟨-, h_last⟩ := not_or.mp h_ends
  have h_last := not_not.mp h_last
  obtain rfl : dest = T.reverse 0 := Option.some.inj (h_route.last.symm.trans h_last)
  refine ⟨rfl, ?_⟩
  -- the node in front of the last one
  obtain ⟨init, h_init⟩ := List.getLast?_eq_some_iff.mp h_last
  obtain rfl | ⟨init, p, rfl⟩ := List.eq_nil_or_concat init
  · rw [h_init] at h_two
    simp at h_two
  rw [List.concat_eq_append, List.append_assoc] at h_init
  change n :: rest = init ++ [p, T.reverse 0] at h_init
  have h_pair := h_once
  rw [h_init, List.nodup_append] at h_pair
  rw [h_init] at h_turn h_find
  obtain ⟨dist, h_labels⟩ := h_find.labels h
  obtain ⟨⟨c, h_hop, -⟩, -⟩ := h_labels init p (T.reverse 0) [] rfl
  have h_p : T.reverse 0 ≠ T.reverse p := by
    intro h_eq
    exact h_turn ⟨init, p, by rw [h_eq]⟩
  refine ⟨p, fun h_zero => h_p (by rw [h_zero]), fun h_eq => ?_, c, Track.open_of_hop h_hop h_p⟩
  rw [h_eq] at h_pair
  simp at h_pair

/-- A route on which the train turns around at merges: there is no way around on the track, and no
edge leads to the reverse of node 0, or that is a merge itself. -/
theorem TurnsAtMerges.of_finds (h : T.Mirrored) (h_find : Finds T.raw src dest avoid route)
    (h_detour : ∀ p x c₁ c₂ c₃, ¬T.Detour p x c₁ c₂ c₃)
    (h_zero : (T.node (T.reverse 0)).type = .merge ∨ ∀ p, p ≠ 0 → p ≠ T.reverse 0 →
      ¬T.Unbroken p (T.reverse 0))
    (h_once : route.Nodup) : TurnsAtMerges T (.found route h_once) := by
  have h_mid : ∀ front x q behind, route = front ++ x :: T.reverse x :: q :: behind → front ≠ [] →
      (T.node x).type = .merge := by
    rintro front x q behind rfl h_front
    obtain ⟨front, p, rfl⟩ := (List.eq_nil_or_concat front).resolve_left h_front
    rw [List.concat_eq_append, List.append_assoc] at h_find
    by_contra h_type
    obtain ⟨c₁, c₂, c₃, h⟩ := h.detour_of_turn h_find h_type
    exact h_detour p x c₁ c₂ c₃ h
  have h_asks : ∀ n ∈ bufferAsks T (RoutePath.found route h_once).padding.head? false none route,
      (T.node n).type = .merge := by
    intro n h_n
    rcases bufferAsks_cases h_n with h_none | ⟨front, q, behind, h_eq, h_front⟩ |
      ⟨h_last, h_ends, h_two⟩
    · cases h_none
    · exact h_mid front n q behind h_eq (h_front.resolve_left (by simp))
    · -- the reversal at the end that the route does not have
      obtain ⟨rfl, p, h_p, h_ne, h_open⟩ :=
        unbroken_of_not_endsRight h.wellFormed h_find h_once (h_two.resolve_left (by simp)) h_ends
      obtain ⟨d, prev, h_route, -⟩ := h_find.routeTo h.wellFormed
      obtain rfl := Option.some.inj (h_last.symm.trans h_route.last)
      exact h_zero.resolve_right fun h_all => h_all p h_p h_ne h_open
  exact ⟨h_mid, h_asks, fill_ne_bufferRow fun n h_n => h.bufferRow_isSome (h_asks n h_n)⟩

end

/-- **The train turns around at merges** on every route, exactly if the track has no way around that
is shorter than turning around, and the reverse of node 0 is a merge or no edge leads to it from
another node.

In the middle of a shortest route a train turns around where the way back branches, or over an edge
that leads from a node to its own reverse (`Track.Detour`). At its end the padding comes in: a route
that ends at the reverse of node 0 seems to turn around there. -/
theorem turnsAtMerges_iff {T : Track} (h : T.Mirrored) :
    (∀ src dest avoid route, Finds T.raw src dest avoid route →
      ∃ h_once : route.Nodup, TurnsAtMerges T (.found route h_once)) ↔
    (∀ p x c₁ c₂ c₃, ¬T.Detour p x c₁ c₂ c₃) ∧
      ((T.node (T.reverse 0)).type = .merge ∨ ∀ p, p ≠ 0 → p ≠ T.reverse 0 →
        ¬T.Unbroken p (T.reverse 0)) := by
  constructor
  · intro h_all
    refine ⟨fun p x c₁ c₂ c₃ h_detour => ?_, ?_⟩
    · -- the way around is itself a route, which turns at its second node
      obtain ⟨h_once, h_turns⟩ := h_all _ _ _ _ (h_detour.finds h)
      exact h_detour.not_merge (h_turns.mid [p] x (T.reverse p) [] rfl (List.cons_ne_nil _ _))
    · by_contra h_not
      obtain ⟨h_type, h_some⟩ := not_or.mp h_not
      push Not at h_some
      obtain ⟨p, h_p, h_ne, c, h_open⟩ := h_some
      -- the route over this edge, which `add_buffer_nodes` is asked for the last node of
      obtain ⟨h_once, h_turns⟩ := h_all _ _ _ _
        (Search.finds_hop h.wellFormed Track.raw_zeroed h_open.leads.type_ne h_ne h_open.hop)
      refine h_type (h_turns.asks _ (mem_bufferAsks_of_last rfl ?_ (.inr le_rfl)))
      change ¬EndsRight T (RoutePath.found [p, T.reverse 0] h_once).padding.head? [p, T.reverse 0]
      rw [endsRight_found]
      -- it does not end with a reversal, has two nodes, and ends at the reverse of node 0
      rintro (⟨init, n, h_eq⟩ | h_full | h_last)
      · obtain ⟨-, h_eq⟩ :=
          List.append_inj' (show [] ++ [p, T.reverse 0] = init ++ [n, T.reverse n] from h_eq) rfl
        obtain ⟨rfl, h_eq⟩ := List.cons.inj h_eq
        have h_zero : T.reverse 0 = T.reverse p := (List.cons.inj h_eq).1
        rw [Track.reverse_eq_iff, T.reverse_reverse'] at h_zero
        exact h_p h_zero.symm
      · exact absurd h_full (show 2 ≠ trackMax by decide)
      · exact h_last rfl
  · rintro ⟨h_detour, h_zero⟩ src dest avoid route h_find
    have h_once := nodup_of_finds h.wellFormed h_find
    exact ⟨h_once, .of_finds h h_find h_detour h_zero h_once⟩

/-- A track where no edge leads to the reverse of node 0 any more. -/
theorem turnsAtMerges_broken :
    Finds (switchTrack.markSwitchBroken 3 dirCurved).raw 4 17 (allBut [4, 10, 11, 17])
      [4, 10, 11, 17] ∧
      ∃ h_once : [4, 10, 11, 17].Nodup,
        TurnsAtMerges (switchTrack.markSwitchBroken 3 dirCurved)
          (.found [4, 10, 11, 17] h_once) := by
  have h_find : Finds (switchTrack.markSwitchBroken 3 dirCurved).raw 4 17 (allBut [4, 10, 11, 17])
      [4, 10, 11, 17] := by
    decide +kernel
  refine ⟨h_find, (turnsAtMerges_iff (switchTrack_mirrored.markSwitchBroken 3 dirCurved)).mpr
    ⟨fun p x c₁ c₂ c₃ h_detour => ?_, .inr fun p _ _ ⟨c, e, h_e, h_dest, h_dist, h_lt⟩ => ?_⟩ _
      _ _ _ h_find⟩
  · have h_none : ∀ n, ∀ e ∈ (switchTrack.raw n).trackEdges,
        e.dest ≠ some (switchTrack.reverse n) := by
      decide +kernel
    obtain ⟨e, h_e, h_dest⟩ := Track.leads_markSwitchBroken.mp h_detour.edge.leads
    rw [Track.reverse_markSwitchBroken] at h_dest
    exact h_none x e h_e h_dest
  · have h_none : ∀ n, ∀ e ∈ ((switchTrack.markSwitchBroken 3 dirCurved).raw n).trackEdges,
        e.dest = some 1 → Search.inf ≤ e.dist := by decide +kernel
    exact absurd (h_dist ▸ h_lt) (not_lt.mpr (h_none p e h_e h_dest))

/-- **A route that ends at the reverse of node 0**: the last node, a branch, is taken for a merge
that the train turns around at. Behind the last node the code reads the padding of the path, which
is 0. -/
theorem not_turnsAtMerges_last : switchTrack.Mirrored ∧
      Finds switchTrack.raw 3 1 (fun _ => false) [3, 1] ∧
    ¬∃ h_once : [3, 1].Nodup, TurnsAtMerges switchTrack (.found [3, 1] h_once) := by
  refine ⟨switchTrack_mirrored, by decide +kernel, ?_⟩
  rintro ⟨h_once, h_turns⟩
  have h_ask : 1 ∈ bufferAsks switchTrack (some 0) false none [3, 1] := by decide
  exact absurd (h_turns.asks 1 h_ask) (by decide)

end Nav
end PollingExpress
