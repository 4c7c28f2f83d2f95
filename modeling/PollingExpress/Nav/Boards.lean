import PollingExpress.Nav.PathWorker
import PollingExpress.Search.Spurs
import PollingExpress.Track.Boards

/-!
# The routes on the boards

What the search, the pathfind worker and the tasks come to on the two tracks, with the switches
marked that `task_k4_init` marks.

Both tracks have a main part that can be reached from everywhere, and spurs that trains can leave
but not get into. So there is no path at all exactly into a spur from outside of it
(`no_path_into_spurs`).

No edge leads to the node in the other direction, so a train turns around at merges only, and the
buffer nodes are the only part of a straight path that may be broken. The row of one merge of track
`a` cannot be driven over on the way back (`drivable_a_iff`); on track `b` all can
(`drivable_b_iff`).
-/

namespace PollingExpress
namespace Nav

open Search

section
variable {B : Board} {marks : List (NodeNum × Fin 2)} {T : Track} {src dest : NodeNum}
  {avoid reserved : NodeNum → Bool} {route : List NodeNum} {rounds : ℕ} {homes : List NodeNum}
    {home : NodeNum → NodeNum}

/-! ### What can be reached -/

theorem mirrored_of_configured (h : B.Configured marks T) : T.Mirrored := h.prepared.spec.1

theorem raw_of_configured (h : B.Configured marks T) :
    T.raw = (B.track.markSwitchesBroken marks).raw := by
  rw [Track.eq_of_node h.node_eq]
  rfl

/-- The search on the bare track, on a board with spurs. -/
theorem reached_iff_home (h : B.Configured marks T) (h_spurs : Spurs T.raw rounds homes home)
    (h_rounds : (rounds + rounds : ℕ) * longestEdge < inf) (h_src : (T.node src).type ≠ .none) :
    T.raw.Reached (mirrored_of_configured h).wellFormed src (fun _ => false) dest ↔
      home dest = 0 ∨ home dest = home src := by
  refine h_spurs.reached_iff _ (by decide) (fun n m c h_hop => ?_) h_rounds h_src
  rcases Track.hop_iff.mp h_hop with h_open | ⟨-, -, rfl⟩
  · exact h.open_le n m c h_open
  · decide

/-- There is no path at all to a node that cannot be reached. -/
theorem noPathAtAll_iff_home (h : B.Configured marks T) (h_spurs : Spurs T.raw rounds homes home)
    (h_rounds : (rounds + rounds : ℕ) * longestEdge < inf) (h_src : (T.node src).type ≠ .none) :
    (∃ path, pathfindWork T.raw src dest reserved = .ok (.noPathAtAll, path)) ↔
      home dest ≠ 0 ∧ home dest ≠ home src := by
  rw [← not_or, ← reached_iff_home h h_spurs h_rounds h_src]
  have h_verdict :=
    pathfind_verdict (mirrored_of_configured h).wellFormed Track.raw_zeroed src dest reserved
  generalize pathfindWork T.raw src dest reserved = result at h_verdict ⊢
  cases h_verdict with
  | noPathAtAll h_none => exact ⟨fun _ => h_none, fun _ => ⟨[], rfl⟩⟩
  | noPathWithReserve h_bare | foundPath h_bare => exact ⟨nofun, fun h_none => absurd h_bare h_none⟩
  | lost h_bare => exact ⟨nofun, fun h_none => absurd h_bare h_none⟩
  | nowhere h_none => exact absurd h_none h_src

end

/-- The sensors A5, A6, B9 and B10 of track `a`, with the end of the track behind them, and all
other nodes. -/
def homeA (n : NodeNum) : NodeNum := if n ∈ ([4, 5, 24, 25, 140, 141] : List NodeNum) then 4 else 0

/-- The three ends of track `b` that are cut off, and all other nodes. -/
def homeB (n : NodeNum) : NodeNum :=
  if n ∈ ([12, 13, 130, 131] : List NodeNum) then 12
  else if n ∈ ([34, 35, 128, 129] : List NodeNum) then 34
  else if n ∈ ([126, 127] : List NodeNum) then 126
  else if 140 ≤ n then n
  else 0

theorem spurs_a : Spurs trackA.raw 20 [0, 4] homeA := by
  rw [raw_of_configured configured_a]
  exact ⟨closed_of_all (by decide +kernel), by decide +kernel, by decide +kernel, by decide +kernel,
    by decide +kernel⟩

theorem spurs_b : Spurs trackB.raw 17 [0, 12, 34, 126] homeB := by
  rw [raw_of_configured configured_b]
  exact ⟨closed_of_all (by decide +kernel), by decide +kernel, by decide +kernel, by decide +kernel,
    by decide +kernel⟩

/-- **No path at all**: only into a part of the board that is cut off, from outside of it, whatever
is reserved.

`homeA` and `homeB` number the parts: 0 is the one that every node leads to, and a node leads to no
other part than that and its own. On board `b` the nodes are those that `init_trackb` writes. -/
theorem no_path_into_spurs :
    (∀ src dest reserved,
      (∃ path, pathfindWork trackA.raw src dest reserved = .ok (.noPathAtAll, path)) ↔
      homeA dest ≠ 0 ∧ homeA dest ≠ homeA src) ∧
    ∀ src dest reserved, src < 140 →
      ((∃ path, pathfindWork trackB.raw src dest reserved = .ok (.noPathAtAll, path)) ↔
        homeB dest ≠ 0 ∧ homeB dest ≠ homeB src) := by
  constructor
  · intro src dest reserved
    -- the rows of the table are looked at one by one; the reservations play no part
    have h_typed : ∀ n, ((boardA.track.markSwitchesBroken marksA).node n).type ≠ .none := by
      decide +kernel
    exact noPathAtAll_iff_home configured_a spurs_a (by decide) (configured_a.node_eq ▸ h_typed src)
  · intro src dest reserved h_src
    have h_typed : ∀ n < 140, ((boardB.track.markSwitchesBroken marksB).node n).type ≠ .none := by
      decide +kernel
    exact noPathAtAll_iff_home configured_b spurs_b (by decide)
      (configured_b.node_eq ▸ h_typed src h_src)

/-! ### What is handed out -/

section
variable {B : Board} {marks : List (NodeNum × Fin 2)} {T : Track} {src dest x : NodeNum}
  {avoid : NodeNum → Bool} {route : List NodeNum}

/-- A train turns around at merges. -/
theorem merge_of_turn (h : B.Configured marks T) (h_find : Finds T.raw src dest avoid route)
    {front behind : List NodeNum} {q : NodeNum}
    (h_eq : route = front ++ x :: T.reverse x :: q :: behind) (h_front : front ≠ []) :
    (T.node x).type = .merge := by
  subst h_eq
  obtain ⟨front, p, rfl⟩ := (List.eq_nil_or_concat front).resolve_left h_front
  rw [List.concat_eq_append, List.append_assoc] at h_find
  by_contra h_type
  obtain ⟨c₁, c₂, c₃, h_detour⟩ := (mirrored_of_configured h).detour_of_turn h_find h_type
  exact h.not_open x c₂ h_detour.edge

/-- The row of `x` can be driven over on the way back. -/
def OpenBack (T : Track) (x : NodeNum) : Prop :=
  ∀ row, T.bufferRow x = some row → (x :: row).IsChain fun n m =>
    T.Unbroken (T.reverse m) (T.reverse n)

/-- **What is handed out can be driven** if the segments fit and the rows are open on the way back.
On a board that has been configured only merges have rows, and a route turns around at merges only,
so of the condition for any track these two parts are left. -/
theorem handsOutDrivable_board_iff (h : B.Configured marks T)
    (h_find : Finds T.raw src dest avoid route) (h_once : route.Nodup) (h_dest : dest ≠ T.reverse 0)
    (train : TrainNum) (destOffset : Int32) :
    HandsOutDrivable T (.found route h_once) train destOffset ↔
      Fits T (RoutePath.found route h_once).padding.head? false 0 route ∧
        ∀ front x q behind, route = front ++ x :: T.reverse x :: q :: behind → front ≠ [] →
        OpenBack T x := by
  obtain ⟨h_mirrored, h_rows⟩ := h.prepared.spec
  have h_fits_iff : Fits T (RoutePath.found route h_once).padding.head? false 0 route ↔
      ∃ ps, straightPaths T (RoutePath.found route h_once).padding.head? [] [] route = some ps ∧
        ∀ p ∈ ps, p.length ≤ maxTaskPath :=
    @fits_iff T (RoutePath.found route h_once).padding.head? [] [] route false (by simp) (by simp)
  -- a segment ends at a merge, or at the end of a route to the reverse of node 0
  have h_ends : ∀ x, SegmentEnd T (RoutePath.found route h_once).padding.head? false route x →
      (T.node x).type = .merge := by
    rintro x (⟨front, q, behind, h_eq, h_front⟩ | ⟨-, h_ends, h_two⟩)
    · exact merge_of_turn h h_find h_eq (h_front.resolve_left (by simp))
    · have h_reverse := (unbroken_of_not_endsRight h_mirrored.wellFormed h_find h_once
        (h_two.resolve_left (by simp)) h_ends).1
      exact absurd h_reverse h_dest
  rw [h_fits_iff, handsOutDrivable_iff h_mirrored.wellFormed]
  constructor
  · rintro ⟨ps, h_ps, h_all⟩
    refine ⟨⟨ps, h_ps, fun p h_p => (h_all p h_p).1⟩,
      fun front x q behind h_eq h_front row h_row => ?_⟩
    -- the row comes back in front of the next straight path
    subst h_eq
    obtain ⟨row', h_row', l, h_l⟩ :=
      (paths_of_straightPaths h_ps).exists_flipped h_once (.inr h_front)
    obtain rfl := Option.some.inj (h_row.symm.trans h_row')
    exact drivable_flip.mp (List.isChain_split.mp (h_all _ h_l).2).1
  · rintro ⟨⟨ps, h_ps, h_fits⟩, h_open⟩
    refine ⟨ps, h_ps, fun p h_p => ⟨h_fits p h_p, ?_⟩⟩
    refine (paths_of_straightPaths h_ps).drivable h_once
      (isChain_of_finds h_mirrored.wellFormed h_find)
      (fun h_nil => absurd rfl h_nil) (fun n _ => .singleton n) (fun x h_end row h_row => ?_)
      (fun front x q behind h_eq h_front row h_row => ?_) p h_p
    · obtain ⟨row', h_row', h_drivable⟩ := h_rows x (h_ends x h_end)
      obtain rfl := Option.some.inj (h_row.symm.trans h_row')
      exact h_drivable
    · exact drivable_flip.mpr
        (h_open front x q behind h_eq (h_front.resolve_left (by simp)) row h_row)

/-- What `generate_buffer_node` finds from `x` is open on the way back. -/
def RowOpenBack (T : Track) (x : NodeNum) : Prop :=
  (T.bufferNodesFrom 5 x).toOption.any (fun row => decide ((x :: row).IsChain fun n m =>
    ∃ e ∈ (T.raw (T.reverse m)).trackEdges, e.dest = some (T.reverse n) ∧ e.dist < inf)) = true

instance (T : Track) (x : NodeNum) : Decidable (RowOpenBack T x) :=
  inferInstanceAs (Decidable (_ = true))

/-- The row of a merge can be looked up on the track as it was marked. -/
theorem openBack_iff (h : B.Configured marks T) (h_x : (T.node x).type = .merge) :
    OpenBack T x ↔ RowOpenBack (B.track.markSwitchesBroken marks) x := by
  obtain ⟨row, h_row, h_from⟩ := h.prepared.generated_spec.2 x h_x
  -- marking switches again changes no node of a configured track
  have h_marked : RowOpenBack (B.track.markSwitchesBroken marks) x ↔ RowOpenBack T x := by
    rw [Track.eq_of_node h.node_eq]
    rfl
  have h_open : ∀ n m, T.Unbroken (T.reverse m) (T.reverse n) ↔
      ∃ e ∈ (T.raw (T.reverse m)).trackEdges, e.dest = some (T.reverse n) ∧ e.dist < inf := by
    intro n m
    constructor
    · rintro ⟨c, e, h_e, h_dest, rfl, h_lt⟩
      exact ⟨e, h_e, h_dest, h_lt⟩
    · rintro ⟨e, h_e, h_dest, h_lt⟩
      exact ⟨e.dist, e, h_e, h_dest, rfl, h_lt⟩
  rw [h_marked, RowOpenBack, h_from]
  simp only [Except.toOption, Option.any_some, decide_eq_true_eq, ← h_open]
  -- a merge has one row
  exact ⟨fun h_back => h_back row h_row, fun h_chain row' h_row' =>
    Option.some.inj (h_row.symm.trans h_row') ▸ h_chain⟩

end

/-- **What is handed out on track `a`** can be driven if the segments fit, and the train does not
turn around at MR155 on the way: this is the only merge whose row is broken on the way back.

At the first node of a route nothing has been driven yet, and the row is not used on the way back
there. The destination is not the reverse of node 0, at which the padding of the route would be
taken for a reversal. -/
theorem drivable_a_iff {src dest : NodeNum} {avoid : NodeNum → Bool} {route : List NodeNum}
    (h_find : Finds trackA.raw src dest avoid route) (h_once : route.Nodup) (h_dest : dest ≠ 1)
    (train : TrainNum) (destOffset : Int32) :
    HandsOutDrivable trackA (.found route h_once) train destOffset ↔
      Fits trackA (RoutePath.found route h_once).padding.head? false 0 route ∧
        ∀ front q behind, route = front ++ 121 :: 120 :: q :: behind → front = [] := by
  -- MR155 is node 121, and BR155 node 120
  have h_rows : ∀ x, ((boardA.track.markSwitchesBroken marksA).node x).type = .merge →
      (RowOpenBack (boardA.track.markSwitchesBroken marksA) x ↔ x ≠ 121) := by decide +kernel
  have h_facts : (boardA.track.markSwitchesBroken marksA).reverse 0 = 1 ∧
      (boardA.track.markSwitchesBroken marksA).reverse 121 = 120 ∧
      ((boardA.track.markSwitchesBroken marksA).node 121).type = .merge := by decide +kernel
  simp only [Track.reverse, ← configured_a.node_eq] at h_rows h_facts
  obtain ⟨h_zero, h_back, h_type⟩ := h_facts
  rw [handsOutDrivable_board_iff configured_a h_find h_once
    (fun h_eq => h_dest (h_eq.trans h_zero))]
  refine and_congr_right fun _ =>
    ⟨fun h_open front q behind h_eq => ?_, fun h_turns front x q behind h_eq h_front => ?_⟩
  · -- a route that turns around at MR155 needs its row on the way back
    by_contra h_front
    have h_121 := h_open front 121 q behind (h_eq.trans (by rw [Track.reverse, h_back])) h_front
    rw [openBack_iff configured_a h_type, h_rows 121 h_type] at h_121
    exact h_121 rfl
  · -- any other place where the route turns around is a merge with an open row
    have h_x := merge_of_turn configured_a h_find h_eq h_front
    rw [openBack_iff configured_a h_x, h_rows x h_x]
    rintro rfl
    exact h_front (h_turns front q behind (h_eq.trans (by rw [Track.reverse, h_back])))

/-- From D1 over MR155 to EX2: the train comes back over a leg that is broken. -/
theorem not_drivable_a : Finds trackA.raw 48 127 (allBut [48, 121, 120, 127]) [48, 121, 120, 127] ∧
    ¬HandsOutDrivable trackA (.found [48, 121, 120, 127] (by decide)) 0 0 := by
  have h_find : Finds trackA.raw 48 127 (allBut [48, 121, 120, 127]) [48, 121, 120, 127] := by
    rw [raw_of_configured configured_a]
    decide +kernel
  refine ⟨h_find, fun h_drivable => ?_⟩
  have h_turns := ((drivable_a_iff h_find (by decide) (by decide) 0 0).mp h_drivable).2
  cases h_turns [48] 127 [] rfl

/-- **What is handed out on track `b`** can be driven if the segments fit: all rows are open on the
way back. As on track `a`, the destination is not the reverse of node 0, where the padding behind
the route would be taken for a turn. That the rows are open is looked up, merge by merge. -/
theorem drivable_b_iff {src dest : NodeNum} {avoid : NodeNum → Bool} {route : List NodeNum}
    (h_find : Finds trackB.raw src dest avoid route) (h_once : route.Nodup) (h_dest : dest ≠ 1)
    (train : TrainNum) (destOffset : Int32) :
    HandsOutDrivable trackB (.found route h_once) train destOffset ↔
      Fits trackB (RoutePath.found route h_once).padding.head? false 0 route := by
  have h_rows : ∀ x, ((boardB.track.markSwitchesBroken marksB).node x).type = .merge →
      RowOpenBack (boardB.track.markSwitchesBroken marksB) x := by decide +kernel
  have h_zero : (boardB.track.markSwitchesBroken marksB).reverse 0 = 1 := by decide +kernel
  simp only [Track.reverse, ← configured_b.node_eq] at h_rows h_zero
  rw [handsOutDrivable_board_iff configured_b h_find h_once
    (fun h_eq => h_dest (h_eq.trans h_zero))]
  refine and_iff_left fun front x q behind h_eq h_front => ?_
  -- the train turns around at a merge, and all their rows are open
  have h_x := merge_of_turn configured_b h_find h_eq h_front
  exact (openBack_iff configured_b h_x).mpr (h_rows x h_x)

/-- From B13 over MR154 to BR153. -/
theorem drivable_b_turn : Finds trackB.raw 28 116 (allBut [28, 119, 118, 116]) [28, 119, 118, 116] ∧
    HandsOutDrivable trackB (.found [28, 119, 118, 116] (by decide)) 0 0 := by
  have h_find : Finds trackB.raw 28 116 (allBut [28, 119, 118, 116]) [28, 119, 118, 116] := by
    rw [raw_of_configured configured_b]
    decide +kernel
  have h_paths : (straightPaths trackB (some 0) [] [] [28, 119, 118, 116]).any
      (fun ps => decide (∀ p ∈ ps, p.length ≤ maxTaskPath)) = true := by decide +kernel
  obtain ⟨ps, h_ps, h_fits⟩ := (Option.any_eq_true _ _).mp h_paths
  refine ⟨h_find, (drivable_b_iff h_find (by decide) (by decide) 0 0).mpr ?_⟩
  exact (@fits_iff trackB (some 0) [] [] _ false (by simp) (by simp)).mpr
    ⟨ps, h_ps, of_decide_eq_true h_fits⟩

end Nav
end PollingExpress
