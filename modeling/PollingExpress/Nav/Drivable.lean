import Mathlib.Data.List.Chain
import PollingExpress.Nav.Turnarounds

/-!
# Driving over what is handed out

A straight path is driven over edges, and an edge may be broken in the direction in which the path
takes it. The nodes of a route are joined by edges that are not, and the buffer nodes behind a merge
have been found over such edges; but on the way back they are met in the other direction, over other
nodes' edges, at which nobody looks. `drivable_iff` says when this goes well.
-/

namespace PollingExpress
namespace Nav

open Search (inf Finds allBut)

/-! ### The straight paths along the route -/

/-- The straight paths for the rest of a route, with `segment` collected so far, or with the buffer
nodes `before` to come first. -/
inductive Paths (T : Track) (pad : Option NodeNum) :
    List NodeNum → List NodeNum → List NodeNum → List (List NodeNum) → Prop
  | nil {segment before : List NodeNum} : Paths T pad segment before [] []
  /-- The route ends with a reversal. -/
  | endTurn {segment before : List NodeNum} {n : NodeNum} (h_segment : segment ≠ []) :
      Paths T pad segment before [n, T.reverse n] [segment ++ [n]]
  | endReverse {before : List NodeNum} {n : NodeNum} : Paths T pad [] before [n, T.reverse n] []
  | turn {segment before rest row : List NodeNum} {n : NodeNum} {ps : List (List NodeNum)}
      (h_segment : segment ≠ []) (h_turn : rest.head?.or pad = some (T.reverse n))
      (h_more : rest.length ≠ 1) (h_row : T.bufferRow n = some row)
      (h : Paths T pad [] (flip T row) rest ps) :
      Paths T pad segment before (n :: rest) ((segment ++ n :: row) :: ps)
  /-- The train turns around on the spot. -/
  | reverse {before rest : List NodeNum} {n : NodeNum} {ps : List (List NodeNum)}
      (h_turn : rest.head?.or pad = some (T.reverse n)) (h_more : rest.length ≠ 1)
      (h : Paths T pad [] before rest ps) : Paths T pad [] before (n :: rest) ps
  | last {segment before : List NodeNum} {n : NodeNum} (h_go : pad ≠ some (T.reverse n)) :
      Paths T pad segment before [n] [before ++ segment ++ [n]]
  | go {segment before rest : List NodeNum} {n m : NodeNum} {ps : List (List NodeNum)}
      (h_go : m ≠ T.reverse n) (h : Paths T pad (before ++ segment ++ [n]) [] (m :: rest) ps) :
      Paths T pad segment before (n :: m :: rest) ps

section
variable {T : Track} {pad : Option NodeNum} {segment before nodes : List NodeNum} {inSegment : Bool}
  {ps : List (List NodeNum)} {n x : NodeNum} {rest : List NodeNum}

/-- The straight paths, as the cases in which they come about. What is computed by recursion is read
as a relation from here on, so that the inductions have named cases. -/
theorem paths_of_straightPaths (h : straightPaths T pad segment before nodes = some ps) :
    Paths T pad segment before nodes ps := by
  induction nodes generalizing segment before ps with
  | nil =>
    obtain rfl := Option.some.inj h
    exact .nil
  | cons n rest ih =>
    rw [straightPaths] at h
    by_cases h_turn : rest.head?.or pad = some (T.reverse n)
    · -- a turn, at the end of the route or before it, with a segment in hand or none
      rw [if_pos h_turn] at h
      by_cases h_last : rest.length = 1
      · obtain ⟨m, rfl⟩ := List.length_eq_one_iff.mp h_last
        obtain rfl : m = T.reverse n := Option.some.inj h_turn
        rw [if_pos h_last, if_pos h_last] at h
        by_cases h_segment : segment = []
        · rw [if_neg (not_not.mpr h_segment)] at h
          obtain rfl := Option.some.inj h
          rw [h_segment]
          exact .endReverse
        · rw [if_pos h_segment] at h
          obtain rfl := Option.some.inj h
          exact .endTurn h_segment
      · rw [if_neg h_last, if_neg h_last] at h
        by_cases h_segment : segment = []
        · rw [if_neg (not_not.mpr h_segment)] at h
          rw [h_segment]
          exact .reverse h_turn h_last (ih h)
        · rw [if_pos h_segment] at h
          obtain ⟨row, h_row, h⟩ := Option.bind_eq_some_iff.mp h
          obtain ⟨ps, h_ps, rfl⟩ := Option.map_eq_some_iff.mp h
          rw [List.append_assoc]
          exact .turn h_segment h_turn h_last h_row (ih h_ps)
    · -- no turn: the route ends here, or the segment goes on
      rw [if_neg h_turn] at h
      cases rest with
      | nil =>
        rw [if_pos rfl] at h
        obtain rfl := Option.some.inj h
        exact .last h_turn
      | cons m rest =>
        rw [if_neg (List.cons_ne_nil m rest)] at h
        exact .go (fun h_eq => h_turn (congrArg some h_eq)) (ih h)

/-- The first path begins with what is in hand, and the first node of the route behind it, unless
the train turns around there at once. -/
theorem Paths.exists_first (h : Paths T pad segment before (n :: rest) ps)
    (h_before : before ≠ [] → segment = [])
    (h_go : segment = [] → rest.head?.or pad ≠ some (T.reverse n)) :
    ∃ l, before ++ segment ++ n :: l ∈ ps := by
  generalize h_nodes : n :: rest = nodes at h
  -- nothing comes first where there is a segment already
  have h_none : ∀ {before segment : List NodeNum}, (before ≠ [] → segment = []) → segment ≠ [] →
      before = [] :=
    fun h h_segment => by_contra fun h_ne => h_segment (h h_ne)
  induction h generalizing n rest with
  | nil => cases h_nodes
  | endTurn h_segment =>
    obtain ⟨rfl, -⟩ := List.cons.inj h_nodes
    obtain rfl := h_none h_before h_segment
    exact ⟨[], List.mem_singleton_self _⟩
  | endReverse =>
    obtain ⟨rfl, rfl⟩ := List.cons.inj h_nodes
    exact absurd rfl (h_go rfl)
  | turn h_segment h_turn h_more h_row h ih =>
    obtain ⟨rfl, -⟩ := List.cons.inj h_nodes
    obtain rfl := h_none h_before h_segment
    exact ⟨_, List.mem_cons_self⟩
  | reverse h_turn h_more h ih =>
    obtain ⟨rfl, rfl⟩ := List.cons.inj h_nodes
    exact absurd h_turn (h_go rfl)
  | last h_go =>
    obtain ⟨rfl, -⟩ := List.cons.inj h_nodes
    exact ⟨[], List.mem_singleton_self _⟩
  | @go _ _ _ n' m _ h_go h ih =>
    obtain ⟨rfl, -⟩ := List.cons.inj h_nodes
    obtain ⟨l, h_l⟩ := ih (fun h_nil => absurd rfl h_nil) (fun h_nil => absurd h_nil (by simp)) rfl
    refine ⟨m :: l, ?_⟩
    rwa [List.nil_append, List.append_assoc] at h_l

/-- A path goes on with the buffer nodes where a segment ends, at whichever node of the route that
is. The induction is on the cases of the paths. -/
theorem Paths.exists_end (h : Paths T pad segment before nodes ps)
    (h_in : inSegment = true ↔ segment ≠ []) (h_once : nodes.Nodup)
    (h_end : SegmentEnd T pad inSegment nodes x) :
    ∃ row, T.bufferRow x = some row ∧ ∃ l, l ++ x :: row ∈ ps := by
  -- a segment ends at this node, or at one of the rest of the route
  induction h generalizing inSegment with
  | nil =>
    rcases h_end with ⟨front, q, behind, h_eq, -⟩ | ⟨h_last, -⟩
    · simp at h_eq
    · cases h_last
  -- the route ends with a turn, behind which no segment ends
  | endTurn | endReverse =>
    rcases h_end.of_cons h_once with ⟨-, -, -, h_more⟩ | ⟨h_more, -⟩
    · exact absurd rfl h_more
    · exact absurd rfl (h_more rfl)
  | turn h_segment h_turn h_more h_row h ih =>
    rcases h_end.of_cons h_once with ⟨rfl, -⟩ | ⟨-, h_end⟩
    · exact ⟨_, h_row, _, List.mem_cons_self⟩
    · rw [decide_eq_false (not_not.mpr h_turn)] at h_end
      obtain ⟨row, h_row, l, h_l⟩ := ih (by simp) h_once.of_cons h_end
      exact ⟨row, h_row, l, List.mem_cons_of_mem _ h_l⟩
  | reverse h_turn h_more h ih =>
    rcases h_end.of_cons h_once with ⟨-, h_true, -⟩ | ⟨-, h_end⟩
    · exact absurd rfl (h_in.mp h_true)
    · rw [decide_eq_false (not_not.mpr h_turn)] at h_end
      exact ih (by simp) h_once.of_cons h_end
  -- the last node is no turn, so no buffer nodes belong to it
  | last h_go =>
    rcases h_end.of_cons h_once
      with ⟨-, -, h_turn, -⟩ | ⟨-, ⟨front, q, behind, h_eq, -⟩ | ⟨h_last, -⟩⟩
    · exact absurd h_turn h_go
    · simp at h_eq
    · cases h_last
  | go h_go h ih =>
    have h_go : ∀ {l : List NodeNum}, ¬(_ :: l).head?.or pad = some (T.reverse _) :=
      fun {l} h_turn => h_go (Option.some.inj h_turn)
    rcases h_end.of_cons h_once with ⟨-, -, h_turn, -⟩ | ⟨-, h_end⟩
    · exact absurd h_turn h_go
    · rw [decide_eq_true h_go] at h_end
      exact ih (by simp) h_once.of_cons h_end

/-- Behind a reversal there is a node in between before the next one. -/
theorem front_ne_nil {front behind : List NodeNum} {q : NodeNum}
    (h_once : (n :: (front ++ x :: T.reverse x :: q :: behind)).Nodup)
    (h_turn : (front ++ x :: T.reverse x :: q :: behind).head?.or pad = some (T.reverse n)) :
    front ≠ [] := by
  rintro rfl
  obtain rfl : x = T.reverse n := Option.some.inj h_turn
  simp at h_once

/-- A path begins with the buffer nodes, flipped, behind a reversal in the middle of the route. The
route comes to no node twice, so the reversal is the one at `x` and at no node before it. -/
theorem Paths.exists_flipped {front behind : List NodeNum} {q : NodeNum}
    (h : Paths T pad segment before (front ++ x :: T.reverse x :: q :: behind) ps)
    (h_once : (front ++ x :: T.reverse x :: q :: behind).Nodup) (h_in : segment ≠ [] ∨ front ≠ []) :
    ∃ row, T.bufferRow x = some row ∧ ∃ l, flip T row ++ T.reverse x :: l ∈ ps := by
  generalize h_nodes : front ++ x :: T.reverse x :: q :: behind = nodes at h
  induction h generalizing front with
  | nil => simp at h_nodes
  | endTurn | endReverse =>
    have h_length := congrArg List.length h_nodes
    simp at h_length
    omega
  | @turn _ _ rest row n ps h_segment h_turn h_more h_row h ih =>
    cases front with
    -- the turn is this one
    | nil =>
      obtain ⟨rfl, rfl⟩ := List.cons.inj h_nodes
      -- the next hop does not lead back to `x`
      have h_q : (q :: behind).head?.or pad ≠ some (T.reverse (T.reverse x)) := by
        intro h_q
        rw [T.reverse_reverse'] at h_q
        obtain rfl : q = x := Option.some.inj h_q
        simp at h_once
      obtain ⟨l, h_l⟩ := h.exists_first (fun _ => rfl) fun _ => h_q
      rw [List.append_nil] at h_l
      exact ⟨row, h_row, l, List.mem_cons_of_mem _ h_l⟩
    -- the turn is farther along the route
    | cons y front =>
      obtain ⟨rfl, rfl⟩ := List.cons.inj h_nodes
      obtain ⟨row', h_row', l, h_l⟩ := ih h_once.of_cons (.inr (front_ne_nil h_once h_turn)) rfl
      exact ⟨row', h_row', l, List.mem_cons_of_mem _ h_l⟩
  -- a reversal on the spot is no turn at `x`, which comes behind something
  | reverse h_turn h_more h ih =>
    cases front with
    | nil => exact absurd rfl (h_in.resolve_right (by simp))
    | cons y front =>
      obtain ⟨rfl, rfl⟩ := List.cons.inj h_nodes
      exact ih h_once.of_cons (.inr (front_ne_nil h_once h_turn)) rfl
  | last h_go =>
    have h_length := congrArg List.length h_nodes
    simp at h_length
    omega
  | go h_go h ih =>
    cases front with
    | nil =>
      obtain ⟨rfl, h_tail⟩ := List.cons.inj h_nodes
      exact absurd (List.cons.inj h_tail).1.symm h_go
    | cons y front =>
      obtain ⟨rfl, h_tail⟩ := List.cons.inj h_nodes
      exact ih h_once.of_cons (.inl (by simp)) h_tail

/-- The route does not turn around twice on the spot. -/
theorem second_ne_reverse {n' m' : NodeNum} {l : List NodeNum} (h_once : (n :: rest).Nodup)
    (h_turn : rest.head?.or pad = some (T.reverse n)) (h_rest : rest = n' :: m' :: l) :
    m' ≠ T.reverse n' := by
  rintro rfl
  subst h_rest
  obtain rfl : n' = T.reverse n := Option.some.inj h_turn
  simp at h_once

/-! ### Driving -/

/-- **The straight paths are drivable**, if the route is, and the buffer nodes on from where a
segment ends, and those that are met on the way back from there. A path is made of these pieces: the
way in over the buffer nodes, the nodes of the route, and the way out; each joint between two of
them is one of the hypotheses. -/
theorem Paths.drivable (h : Paths T pad segment before nodes ps) (h_once : nodes.Nodup)
    (h_hops : nodes.IsChain fun n m => m = T.reverse n ∨ T.Unbroken n m)
    (h_before : before ≠ [] → segment = [] ∧ ∀ n m l, nodes = n :: m :: l → m ≠ T.reverse n)
    (h_start : ∀ n, nodes.head? = some n → T.Drivable (before ++ segment ++ [n]))
    (h_ends : ∀ x, SegmentEnd T pad (decide (segment ≠ [])) nodes x → ∀ row,
      T.bufferRow x = some row →
      T.Drivable (x :: row))
    (h_flips : ∀ front x q behind, nodes = front ++ x :: T.reverse x :: q :: behind →
      segment ≠ [] ∨ front ≠ [] →
      ∀ row, T.bufferRow x = some row → T.Drivable (flip T row ++ [T.reverse x])) :
    ∀ p ∈ ps, T.Drivable p := by
  induction h with
  | nil => exact fun p h_p => by cases h_p
  -- the last segment ends in front of the reversal
  | endTurn h_segment =>
    intro p h_p
    obtain rfl := List.mem_singleton.mp h_p
    have h_path := h_start _ rfl
    rw [List.append_assoc] at h_path
    exact h_path.right_of_append
  | endReverse => exact fun p h_p => by cases h_p
  | @turn segment before rest row n ps h_segment h_turn h_more h_row h ih =>
    intro p h_p
    rcases List.mem_cons.mp h_p with rfl | h_p
    · -- the segment goes on into the buffer nodes behind its merge
      have h_path := h_start _ rfl
      rw [List.append_assoc] at h_path
      refine List.isChain_split.mpr ⟨h_path.right_of_append, h_ends n ?_ row h_row⟩
      rw [decide_eq_true h_segment]
      exact segmentEnd_of_turn h_turn h_more
    · refine ih h_once.of_cons h_hops.tail (fun _ => ⟨rfl, fun n' m' l h_rest => ?_⟩)
        (fun n' h_n' => ?_)
        (fun y h_end => h_ends y (h_end.cons fun _ => h_more))
          (fun front y q behind h_rest _ => ?_) p h_p
      · exact second_ne_reverse h_once h_turn h_rest
      · -- the train comes back over the buffer nodes
        match rest, h_n', h_more with
        | [_], _, h_more => exact absurd rfl h_more
        | m :: q :: behind, h_n', _ =>
          obtain rfl : m = n' := Option.some.inj h_n'
          obtain rfl : m = T.reverse n := Option.some.inj h_turn
          rw [List.append_nil]
          exact h_flips [] n q behind rfl (.inl h_segment) row h_row
      · exact h_flips (n :: front) y q behind (congrArg (n :: ·) h_rest) (.inr (by simp))
  | @reverse before rest n ps h_turn h_more h ih =>
    refine ih h_once.of_cons h_hops.tail (fun _ => ⟨rfl, fun n' m' l h_rest => ?_⟩)
      (fun n' h_n' => ?_)
      (fun y h_end => h_ends y (h_end.cons fun _ => h_more)) (fun front y q behind h_rest _ => ?_)
    · exact second_ne_reverse h_once h_turn h_rest
    · -- no buffer nodes come first
      obtain ⟨l, rfl⟩ := List.head?_eq_some_iff.mp h_n'
      obtain rfl : before = [] := by
        by_contra h_ne
        exact (h_before h_ne).2 n n' l rfl (Option.some.inj h_turn)
      exact .singleton n'
    · exact h_flips (n :: front) y q behind (congrArg (n :: ·) h_rest) (.inr (by simp))
  | last h_go =>
    intro p h_p
    obtain rfl := List.mem_singleton.mp h_p
    exact h_start _ rfl
  | @go segment before rest n m ps h_go h ih =>
    -- the hop is no turn, so it is along an edge
    have h_open : T.Unbroken n m := (List.isChain_cons_cons.mp h_hops).1.resolve_left h_go
    refine ih h_once.of_cons h_hops.tail (fun h_nil => absurd rfl h_nil) (fun n' h_n' => ?_)
      (fun y h_end => h_ends y (h_end.cons fun h_turn => absurd (Option.some.inj h_turn) h_go))
      (fun front y q behind h_rest _ => ?_)
    · obtain rfl : m = n' := Option.some.inj h_n'
      rw [List.nil_append, List.append_assoc]
      exact List.isChain_split.mpr ⟨h_start n rfl, .cons_cons h_open (.singleton m)⟩
    · exact h_flips (n :: front) y q behind (congrArg (n :: ·) h_rest) (.inr (by simp))

/-! ### What has to fit -/

/-- With `k` nodes in the segment, or to come first, what is left of the route is cut into segments
that fit, at nodes that have buffer nodes.

`pad` is what is behind the route in the array, which the loop looks at when it is at the last node.
A segment has the buffer nodes of both of its ends in it. -/
def Fits (T : Track) (pad : Option NodeNum) : Bool → ℕ → List NodeNum → Prop
  | _, _, [] => True
  | inSegment, k, n :: rest =>
    if rest.head?.or pad = some (T.reverse n) then
      if inSegment then
        if rest.length = 1 then k + 1 ≤ maxTaskPath
        else ∃ row, T.bufferRow n = some row ∧ k + 1 + row.length ≤ maxTaskPath ∧
        Fits T pad false row.length rest
      else if rest.length = 1 then True
      else Fits T pad false k rest
    else if rest = [] then k + 1 ≤ maxTaskPath
    else Fits T pad true (k + 1) rest

/-- **What fits** are the straight paths. `Fits` goes along the route and counts, and does not build
the paths; that it says the same is an induction on the nodes, with one case for each branch of the
loop. -/
theorem fits_iff (h_in : inSegment = true ↔ segment ≠ []) (h_before : segment ≠ [] → before = []) :
    Fits T pad inSegment (before.length + segment.length) nodes ↔
      ∃ ps, straightPaths T pad segment before nodes = some ps ∧ ∀ p ∈ ps,
        p.length ≤ maxTaskPath := by
  induction nodes generalizing inSegment segment before with
  | nil => simp [Fits, straightPaths]
  | cons n rest ih =>
    rw [Fits, straightPaths]
    by_cases h_turn : rest.head?.or pad = some (T.reverse n)
    · rw [if_pos h_turn, if_pos h_turn]
      by_cases h_segment : segment = []
      · -- only a reversal, which has no path
        have h_false : ¬inSegment = true := fun h_true => h_in.mp h_true h_segment
        rw [if_neg h_false, if_neg (not_not.mpr h_segment)]
        subst h_segment
        split
        · simp
        · exact ih (by simp) (by simp)
      · obtain rfl := h_before h_segment
        rw [if_pos (h_in.mpr h_segment), if_pos h_segment]
        split
        · simp
        · -- the buffer nodes come behind this segment, and in front of the next one
          cases h_row : T.bufferRow n with
          | none => simp
          | some row =>
            have h_length : row.length = (flip T row).length + ([] : List NodeNum).length := by
              simp [flip]
            have h_path : ∀ row : List NodeNum, (segment ++ [n] ++ row).length =
                ([] : List NodeNum).length + segment.length + 1 + row.length := fun row => by
              simp only [List.length_append, List.length_singleton, List.length_nil, Nat.zero_add]
            constructor
            · rintro ⟨row', h_row', h_le, h_fits⟩
              obtain rfl := Option.some.inj h_row'
              rw [h_length, ih (by simp) (by simp)] at h_fits
              obtain ⟨ps, h_ps, h_all⟩ := h_fits
              refine ⟨_, ?_, List.forall_mem_cons.mpr ⟨(h_path row).trans_le h_le, h_all⟩⟩
              rw [Option.bind_some, h_ps]
              rfl
            · rintro ⟨qs, h_qs, h_all⟩
              obtain ⟨ps, h_ps, rfl⟩ := Option.map_eq_some_iff.mp h_qs
              obtain ⟨h_le, h_all⟩ := List.forall_mem_cons.mp h_all
              refine ⟨row, rfl, (h_path row).ge.trans h_le, ?_⟩
              rw [h_length, ih (by simp) (by simp)]
              exact ⟨ps, h_ps, h_all⟩
    · rw [if_neg h_turn, if_neg h_turn]
      split
      · simp [Nat.add_assoc]
      · -- the node makes the segment longer by one, and so it is counted
        have h_length : before.length + segment.length + 1 =
            ([] : List NodeNum).length + (before ++ segment ++ [n]).length := by
          simp only [List.length_append, List.length_singleton, List.length_nil, Nat.zero_add]
        rw [h_length]
        exact ih (by simp) (by simp)

end

/-! ### Lengths -/

/-- The legs of a branch lead to different nodes, and the lengths of the edges of a straight path do
not add up to `INF`. -/
structure LengthsFit (T : Track) : Prop where
  legs : ∀ n, (T.node n).type = .branch → ((T.node n).edge dirStraight).dest ≠
    ((T.node n).edge dirCurved).dest
  short : ∀ n m c, T.Open n m c → c * maxTaskPath < inf

section
variable {T : Track} {n m : NodeNum} {c : Int} {path : List NodeNum}

/-- `get_path_dist` finds the edge that is driven over. -/
theorem LengthsFit.edgeDist_eq (h : LengthsFit T) (h_open : T.Open n m c) :
    T.edgeDist n m = some c := by
  obtain ⟨e, h_e, h_dest, rfl, -⟩ := h_open
  obtain ⟨i, rfl, h_i⟩ := Track.mem_trackEdges.mp h_e
  have h_two : ∀ i : Fin 2, i = dirStraight ∨ i = dirCurved := by decide
  rw [Track.edgeDist]
  by_cases h_type : (T.node n).type = .branch
  · rw [if_pos h_type]
    rcases h_two i with rfl | rfl
    · rw [if_neg fun h_curved => h.legs n h_type (h_dest.trans h_curved.symm), if_pos h_dest]
    · rw [if_pos h_dest]
  · obtain ⟨-, rfl⟩ := h_i.resolve_left h_type
    rw [if_neg h_type, if_pos h_dest]

/-- `get_path_dist` finds an edge wherever there is one. It looks at the curved leg of a branch and
then at the straight one, and at the one edge of any other node. -/
theorem exists_edgeDist (h_wf : T.raw.WellFormed) (h_open : T.Unbroken n m) :
    ∃ d, T.edgeDist n m = some d ∧ 0 ≤ d := by
  obtain ⟨c, e, h_e, h_dest, -⟩ := h_open
  obtain ⟨i, rfl, h_i⟩ := Track.mem_trackEdges.mp h_e
  have h_two : ∀ i : Fin 2, i = dirStraight ∨ i = dirCurved := by decide
  -- an edge that is followed has a length
  have h_nonneg : ∀ i, ((T.node n).type = .branch ∨ i = dirAhead) →
      0 ≤ ((T.node n).edge i).dist := by
    intro j h_j
    refine (h_wf.dist n _ (List.mem_append_left _ (Track.mem_trackEdges.mpr ⟨j, rfl, ?_⟩))).1
    rcases h_i with h_type | ⟨h_type, -⟩
    · exact .inl h_type
    · refine h_j.imp_right fun h_ahead => ⟨h_type, h_ahead⟩
  rw [Track.edgeDist]
  by_cases h_type : (T.node n).type = .branch
  · rw [if_pos h_type]
    split
    · exact ⟨_, rfl, h_nonneg _ (.inl h_type)⟩
    · next h_curved =>
      rcases h_two i with rfl | rfl
      · rw [if_pos h_dest]
        exact ⟨_, rfl, h_nonneg _ (.inl h_type)⟩
      · exact absurd h_dest h_curved
  · obtain ⟨-, rfl⟩ := h_i.resolve_left h_type
    rw [if_neg h_type, if_pos h_dest]
    exact ⟨_, rfl, h_nonneg _ (.inr rfl)⟩

/-- **The length of a path that can be driven** is one: no hop fails, and none is negative, so the
sum does not come to -1. -/
theorem getPathDistFrom_ge (h_wf : T.raw.WellFormed) (h_path : T.Drivable path) (dist : Int) :
    dist ≤ T.getPathDistFrom dist path := by
  induction h_path generalizing dist with
  | nil | singleton _ => simp [Track.getPathDistFrom]
  | cons_cons h_open h ih =>
    obtain ⟨d, h_d, h_nonneg⟩ := exists_edgeDist h_wf h_open
    rw [Track.getPathDistFrom, h_d]
    have h_le := ih (dist + d)
    dsimp only
    omega

/-- Each edge of a path that can be driven adds at most the 28th part of `INF`. It is stated as a
product, so that nothing has to be divided. -/
theorem LengthsFit.getPathDistFrom_le (h : LengthsFit T) (h_path : T.Drivable (n :: path))
    (dist : Int) :
    T.getPathDistFrom dist (n :: path) * maxTaskPath ≤ dist * maxTaskPath + path.length * inf := by
  -- by induction on the path, with what has been added up so far
  induction path generalizing n dist with
  | nil => simp [Track.getPathDistFrom]
  | cons m path ih =>
    obtain ⟨⟨c, h_open⟩, h_rest⟩ := List.isChain_cons_cons.mp h_path
    have h_short := h.short n m c h_open
    have h_bound := ih h_rest (dist + c)
    have h_eq : T.getPathDistFrom dist (n :: m :: path) =
        T.getPathDistFrom (dist + c) (m :: path) := by
      rw [Track.getPathDistFrom, h.edgeDist_eq h_open]
    rw [h_eq, List.length_cons]
    rw [Int.add_mul] at h_bound
    calc T.getPathDistFrom (dist + c) (m :: path) * maxTaskPath
        ≤ dist * maxTaskPath + c * maxTaskPath + path.length * inf := h_bound
      _ ≤ dist * maxTaskPath + inf + path.length * inf := by omega
      _ = dist * maxTaskPath + ↑(path.length + 1) * inf := by
        rw [Int.natCast_succ, Int.add_mul, Int.one_mul]
        omega

/-- **The length of a path that fits** is below `INF`: a task has at most 28 nodes, with 27 edges
between them, and no edge that is open is longer than the 28th part of `INF`. -/
theorem LengthsFit.getPathDist_lt (h : LengthsFit T) (h_path : T.Drivable path)
    (h_fits : path.length ≤ maxTaskPath) :
    T.getPathDist path < inf := by
  cases path with
  | nil =>
    change (0 : Int) < inf
    decide
  | cons n path =>
    have h_bound := h.getPathDistFrom_le h_path 0
    -- 28 nodes have 27 edges between them
    have h_max : (maxTaskPath : Int) = 28 := rfl
    have h_inf : inf = 100000000 := rfl
    rw [List.length_cons] at h_fits
    have h_length : (path.length : Int) ≤ 27 := by
      have h_nat : maxTaskPath = 28 := rfl
      omega
    rw [Track.getPathDist]
    rw [h_max, h_inf] at h_bound
    rw [h_inf]
    omega

end

/-! ### The tasks of a route -/

/-- A path that a train can drive: its hops are edges that are not marked broken, and
`get_path_dist` finds them, and comes to a length below `INF` if the lengths of the track fit. -/
structure DrivablePath (T : Track) (path : List NodeNum) : Prop where
  drivable : T.Drivable path
  found : T.getPathDist path ≠ -1
  lt_inf : LengthsFit T → T.getPathDist path < inf

/-- The tasks for a route are queued, behind whatever is in the queue, and each straight path among
them can be driven: its nodes fit into a task, and its edges are not broken. -/
def HandsOutDrivable (T : Track) (path : RoutePath) (train : TrainNum) (destOffset : Int32) :
    Prop :=
  ∀ tasks, ∃ new, segmentsFillNavigationTasks T path tasks train destOffset =
    .ok (tasks.pushAll new) ∧
    ∀ p ∈ straights new, DrivablePath T p

/-- What the buffer nodes are driven over is not broken: where a segment ends, and for each edge its
mirror edge where the train comes back.

`mark_switch_broken` marks a leg of the branch. The mirror edge, over which a train would come to
the switch on this leg, is not marked, so that a row may be open in one direction and not in the
other. -/
structure BuffersOpen (T : Track) (path : RoutePath) : Prop where
  ends : ∀ x, SegmentEnd T path.padding.head? false path.nodes x → (T.node x).type ≠ .merge →
    ∀ row, T.bufferRow x = some row → T.Drivable (x :: row)
  mirrors : ∀ front x q behind, path.nodes = front ++ x :: T.reverse x :: q :: behind → front ≠ [] →
    ∀ row, T.bufferRow x = some row → (x :: row).IsChain fun n m =>
      T.Unbroken (T.reverse m) (T.reverse n)

/-- The buffer nodes on the way back. -/
theorem drivable_flip {T : Track} {x : NodeNum} {row : List NodeNum} :
    T.Drivable (flip T row ++ [T.reverse x]) ↔
      (x :: row).IsChain fun n m => T.Unbroken (T.reverse m) (T.reverse n) := by
  have h_eq : flip T row ++ [T.reverse x] = ((x :: row).map T.reverse).reverse := by
    simp [flip]
  rw [h_eq, Track.Drivable, List.isChain_reverse, List.isChain_map]

section
variable {T₀ T : Track} {names : TrackNames} {marks : List (NodeNum × Fin 2)} {src dest : NodeNum}
  {avoid : NodeNum → Bool} {route : List NodeNum}

/-- The nodes of a route are joined by reversals and edges that are not broken. -/
theorem isChain_of_finds (h : T.raw.WellFormed) (h_find : Finds T.raw src dest avoid route) :
    route.IsChain fun n m => m = T.reverse n ∨ T.Unbroken n m := by
  obtain ⟨d, prev, h_route, -⟩ := h_find.routeTo h
  have h_hops := h_route.route
  clear h_route h_find
  induction h_hops with
  | single n => exact .singleton n
  | @cons n m l c d h_hop h ih =>
    refine .cons_cons ?_ ih
    rcases Track.hop_iff.mp h_hop with h_open | ⟨-, h_eq, -⟩
    · exact .inr ⟨c, h_open⟩
    · exact .inl h_eq

/-- What is handed out are the straight paths: the queue gets a task for each of them, whatever it
holds, and nothing else that is driven. -/
theorem handsOutDrivable_iff (h : T.raw.WellFormed) {path : RoutePath} {train : TrainNum}
    {destOffset : Int32} :
    HandsOutDrivable T path train destOffset ↔
      ∃ ps, straightPaths T path.padding.head? [] [] path.nodes = some ps ∧
        ∀ p ∈ ps, p.length ≤ maxTaskPath ∧ T.Drivable p := by
  constructor
  · intro h_all
    obtain ⟨new, h_run, h_drivable⟩ := h_all (.empty none)
    cases h_ps : straightPaths T path.padding.head? [] [] path.nodes with
    | none =>
      obtain ⟨fault, h_error⟩ := segmentsFillNavigationTasks_fails path _ train destOffset h_ps
      cases h_error.symm.trans h_run
    | some ps =>
      obtain ⟨h_ok, h_over⟩ := segmentsFillNavigationTasks_spec path _ train destOffset h_ps
      have h_fits : ∀ p ∈ ps, p.length ≤ maxTaskPath := by
        by_contra h_long
        push Not at h_long
        cases (h_over h_long).symm.trans h_run
      -- without a bound, the queue shows which tasks have been queued
      obtain ⟨new', h_run', rfl⟩ := h_ok h_fits
      have h_items := congrArg Fifo.items (Except.ok.inj (h_run'.symm.trans h_run))
      rw [Fifo.items_pushAll_of_unbounded rfl, Fifo.items_pushAll_of_unbounded rfl] at h_items
      obtain rfl : new' = new := List.append_cancel_left h_items
      exact ⟨_, rfl, fun p h_p => ⟨h_fits p h_p, (h_drivable p h_p).drivable⟩⟩
  · rintro ⟨ps, h_ps, h_all⟩ tasks
    obtain ⟨new, h_run, rfl⟩ :=
      (segmentsFillNavigationTasks_spec path tasks train destOffset h_ps).1
      fun p h_p => (h_all p h_p).1
    refine ⟨new, h_run, fun p h_p => ⟨(h_all p h_p).2, fun h_none => ?_, fun h_fit => ?_⟩⟩
    · have h_ge : 0 ≤ T.getPathDist p := getPathDistFrom_ge h (h_all p h_p).2 0
      rw [h_none] at h_ge
      exact absurd h_ge (by decide)
    · exact h_fit.getPathDist_lt (h_all p h_p).2 (h_all p h_p).1

/-- **Every straight path can be driven** exactly if the segments fit, and the buffer nodes at which
a segment ends are not broken on the way there, and not on the way back either.

The track is the one that `init_task` prepares: mirrored, and with the buffer rows of the merges
computed after the switches were marked. The nodes of the route itself are joined by unbroken edges,
since the search goes over no other, and the rows of the merges are unbroken away from the merge.
What is left are the rows of the nodes at which a segment ends that are no merges, and the rows on
the way back, which go over the reverses of the edges that were looked at. -/
theorem drivable_iff (h : Track.Prepared T₀ names marks T)
    (h_find : Finds T.raw src dest avoid route) (h_once : route.Nodup) (train : TrainNum)
    (destOffset : Int32) :
    HandsOutDrivable T (.found route h_once) train destOffset ↔
      Fits T (RoutePath.found route h_once).padding.head? false 0 route ∧
        BuffersOpen T (.found route h_once) := by
  obtain ⟨h_mirrored, h_rows⟩ := h.spec
  have h_fits_iff : Fits T (RoutePath.found route h_once).padding.head? false 0 route ↔
      ∃ ps, straightPaths T (RoutePath.found route h_once).padding.head? [] [] route = some ps ∧
        ∀ p ∈ ps, p.length ≤ maxTaskPath :=
    @fits_iff T (RoutePath.found route h_once).padding.head? [] [] route false (by simp) (by simp)
  rw [h_fits_iff, handsOutDrivable_iff h_mirrored.wellFormed]
  constructor
  · rintro ⟨ps, h_ps, h_all⟩
    -- each buffer row is at the end of a straight path, or flipped at the beginning of one
    have h_paths := paths_of_straightPaths h_ps
    refine ⟨⟨ps, h_ps, fun p h_p => (h_all p h_p).1⟩, fun x h_end _ row h_row => ?_,
      fun front x q behind h_eq h_front row h_row => ?_⟩
    · obtain ⟨row', h_row', l, h_l⟩ := h_paths.exists_end (by simp) h_once h_end
      obtain rfl := Option.some.inj (h_row.symm.trans h_row')
      exact (h_all _ h_l).2.right_of_append
    · obtain rfl : route = _ := h_eq
      obtain ⟨row', h_row', l, h_l⟩ := h_paths.exists_flipped h_once (.inr h_front)
      obtain rfl := Option.some.inj (h_row.symm.trans h_row')
      exact drivable_flip.mp (List.isChain_split.mp (h_all _ h_l).2).1
  · rintro ⟨⟨ps, h_ps, h_fits⟩, h_open⟩
    refine ⟨ps, h_ps, fun p h_p => ⟨h_fits p h_p, ?_⟩⟩
    -- the route itself has no broken edge, so only the buffer nodes have to be looked at
    refine (paths_of_straightPaths h_ps).drivable h_once
      (isChain_of_finds h_mirrored.wellFormed h_find)
      (fun h_nil => absurd rfl h_nil) (fun n _ => .singleton n) (fun x h_end row h_row => ?_)
      (fun front x q behind h_eq h_front row h_row => ?_) p h_p
    · -- the buffer nodes of a merge have been found over edges that are not broken
      by_cases h_type : (T.node x).type = .merge
      · obtain ⟨row', h_row', h_drivable⟩ := h_rows x h_type
        obtain rfl := Option.some.inj (h_row.symm.trans h_row')
        exact h_drivable
      · exact h_open.ends x h_end h_type row h_row
    · exact drivable_flip.mpr
        (h_open.mirrors front x q behind h_eq (h_front.resolve_left (by simp)) row h_row)

end

/-! ### Two routes -/

/-- Names for the nodes of `switchTrack`. -/
def switchNames : TrackNames := fun n =>
  if (switchTrack.node n).type = .merge then mergeName (switchTrack.node n).num.toNat
  else [83, UInt8.ofNat n.val]

theorem switchTrack_named : switchTrack.Named switchNames where
  name := by decide +kernel
  unique n m h_n h_m h_num := by
    have h_all : ∀ n, (switchTrack.node n).type = .merge → ∀ m, (switchTrack.node m).type = .merge →
        (switchTrack.node n).num = (switchTrack.node m).num → n = m := by decide +kernel
    exact h_all n h_n m h_m h_num

/-- `switchTrack` with marks can be prepared, and what holds of the result. -/
theorem exists_prepared (marks : List (NodeNum × Fin 2)) (P : Track → Prop) [DecidablePred P]
    (h_marks : ∀ mark ∈ marks, (switchTrack.node mark.1).type = .branch)
    (h :
      (((switchTrack.markSwitchesBroken marks).generateBufferNodes switchNames).toOption.any
        fun T => P T) = true) :
    ∃ T, Track.Prepared switchTrack switchNames marks T ∧ P T := by
  obtain ⟨T, h_ok, h_T⟩ := (Option.any_eq_true _ _).mp h
  refine ⟨T, ⟨switchTrack_mirrored, by decide +kernel, switchTrack_named, h_marks, ?_⟩,
    of_decide_eq_true h_T⟩
  exact of_toOption h_ok

/-- The only turn in the middle of a route of four nodes. -/
theorem eq_second {T : Track} {a b c d x q : NodeNum} {front behind : List NodeNum}
    (h_eq : [a, b, c, d] = front ++ x :: T.reverse x :: q :: behind) (h_front : front ≠ []) :
    x = b := by
  cases front with
  | nil => exact absurd rfl h_front
  | cons _ front =>
    cases front with
    | nil => exact (List.cons.inj (List.cons.inj h_eq).2).1.symm
    | cons _ front =>
      have h_length := congrArg List.length h_eq
      simp only [List.length_cons, List.length_nil, List.length_append] at h_length
      omega

/-- The train turns around at a merge, and comes back over the switch behind it, which is broken on
its other leg. -/
theorem drivable_turn : ∃ T, Track.Prepared switchTrack switchNames [(13, dirStraight)] T ∧
    Finds T.raw 4 17 (allBut [4, 10, 11, 17]) [4, 10, 11, 17] ∧ ∃ h_once : [4, 10, 11, 17].Nodup,
      HandsOutDrivable T (.found [4, 10, 11, 17] h_once) 0 0 := by
  obtain ⟨T, h_T, h_find, h_paths, h_row, h_merge, h_zero, h_back, h_on⟩ :=
    exists_prepared [(13, dirStraight)]
    (fun T => Finds T.raw 4 17 (allBut [4, 10, 11, 17]) [4, 10, 11, 17] ∧
      straightPaths T (some 0) [] [] [4, 10, 11, 17] = some [[4, 10, 12, 14], [15, 13, 11, 17]] ∧
      T.bufferRow 10 = some [12, 14] ∧ (T.node 10).type = .merge ∧ T.reverse 17 ≠ 0 ∧
      (∃ e ∈ (T.raw (T.reverse 12)).trackEdges, e.dest = some (T.reverse 10) ∧ e.dist < inf) ∧
      ∃ e ∈ (T.raw (T.reverse 14)).trackEdges, e.dest = some (T.reverse 12) ∧ e.dist < inf)
    (by decide +kernel) (by decide +kernel)
  have h_once : ([4, 10, 11, 17] : List NodeNum).Nodup := by decide
  refine ⟨T, h_T, h_find, h_once, (drivable_iff h_T h_find h_once 0 0).mpr ⟨?_, ⟨?_, ?_⟩⟩⟩
  · exact (@fits_iff T (some 0) [] [] [4, 10, 11, 17] false (by simp) (by simp)).mpr
      ⟨_, h_paths, by decide⟩
  · rintro x (⟨front, q, behind, h_eq, h_in⟩ | ⟨h_last, h_ends, -⟩) h_type
    · obtain rfl := eq_second h_eq (h_in.resolve_left (by simp))
      exact absurd h_merge h_type
    · refine absurd (.inr fun n h_n h_pad => ?_) h_ends
      obtain rfl : 17 = n := Option.some.inj h_n
      exact h_zero (Option.some.inj h_pad).symm
  · intro front x q behind h_eq h_front row h_x
    obtain rfl := eq_second h_eq h_front
    obtain rfl := Option.some.inj (h_row.symm.trans h_x)
    obtain ⟨e, h_e, h_dest, h_lt⟩ := h_back
    obtain ⟨e', h_e', h_dest', h_lt'⟩ := h_on
    exact .cons_cons ⟨_, e, h_e, h_dest, rfl, h_lt⟩
      (.cons_cons ⟨_, e', h_e', h_dest', rfl, h_lt'⟩ (.singleton _))

/-- **A switch that is broken on the way back**: the leg of the branch at node 13 that is taken when
the train comes back over the buffer nodes is marked broken, and nothing has looked at it. -/
theorem not_drivable_flipped : ∃ T, Track.Prepared switchTrack switchNames [(13, dirCurved)] T ∧
    Finds T.raw 4 17 (allBut [4, 10, 11, 17]) [4, 10, 11, 17] ∧ ¬∃ h_once : [4, 10, 11, 17].Nodup,
      HandsOutDrivable T (.found [4, 10, 11, 17] h_once) 0 0 := by
  obtain ⟨T, h_T, h_find, h_paths, h_broken⟩ := exists_prepared [(13, dirCurved)]
    (fun T => Finds T.raw 4 17 (allBut [4, 10, 11, 17]) [4, 10, 11, 17] ∧
      straightPaths T (some 0) [] [] [4, 10, 11, 17] = some [[4, 10, 12, 14], [15, 13, 11, 17]] ∧
      ∀ e ∈ (T.raw 13).trackEdges, e.dest = some 11 → inf ≤ e.dist) (by decide +kernel)
        (by decide +kernel)
  refine ⟨T, h_T, h_find, ?_⟩
  rintro ⟨h_once, h_drivable⟩
  obtain ⟨ps, h_ps, h_all⟩ := (handsOutDrivable_iff h_T.spec.1.wellFormed).mp h_drivable
  obtain rfl := Option.some.inj (h_paths.symm.trans h_ps)
  have h_path := (h_all [15, 13, 11, 17] (by simp)).2
  obtain ⟨c, e, h_e, h_dest, rfl, h_lt⟩ := (List.isChain_cons_cons.mp h_path.tail).1
  exact absurd h_lt (not_lt.mpr (h_broken e h_e h_dest))

end Nav
end PollingExpress
