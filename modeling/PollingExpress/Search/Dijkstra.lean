import Mathlib.Data.List.FinRange
import PollingExpress.Framework.Fallible
import PollingExpress.Track.Basic

/-!
# The search

`dijkstra` of `algorithms.c`, on the track as it is in memory: a pointer to a node is the number of
the node, or `none` for NULL, and a node that is not typed has whatever pointers it has.
`pathfind_worker` follows `prev` from the destination back (`followPrev`).

The search stops at the first node that it would look for outside the arrays: the reverse of a node
that has none, or `track[-1]` when no node is left to settle.
-/

namespace PollingExpress
namespace Search

/-- `INF`. -/
def inf : Int := 100000000

/-- A node of the track. -/
structure RawNode where
  type : NodeType
  reverse : Option NodeNum
  edge : Fin 2 → TrackEdge

/-- `track`. -/
abbrev RawTrack := NodeNum → RawNode

inductive Fault
  /-- A NULL pointer was taken for a node. -/
  | noNode
  /-- `track[-1]`. -/
  | noCandidate
  /-- The turns of the loop in the model are used up. -/
  | outOfTurns
  deriving DecidableEq

/-- The variables of `dijkstra`. -/
structure Dijkstra where
  dist : NodeNum → Int
  prev : NodeNum → Option NodeNum
  inShortestPath : NodeNum → Bool

/-- The cost of a reversal. -/
def mockReverseDist : Int := 300

namespace RawNode

/-- The edges that are followed from a node, in their order. -/
def trackEdges (u : RawNode) : List TrackEdge :=
  (if u.type = .merge ∨ u.type = .sensor ∨ u.type = .enter then [u.edge dirAhead] else []) ++
    if u.type = .branch then [u.edge dirStraight, u.edge dirCurved] else []

/-- The edges that are followed, with the mock reverse edge. -/
def outEdges (u : RawNode) : List TrackEdge :=
  u.trackEdges ++ [{ dest := u.reverse, dist := mockReverseDist }]

end RawNode

namespace Dijkstra

/-- The variables in front of the loop. -/
def start (src : NodeNum) : Dijkstra where
  dist := Function.update (fun _ => inf) src 0
  prev _ := none
  inShortestPath _ := false

/-- `update_dist`. -/
def updateDist (s : Dijkstra) (u v : NodeNum) (uv : TrackEdge) : Dijkstra :=
  if s.inShortestPath v = false then
    let alt := s.dist u + uv.dist
    if alt < s.dist v ∧ s.dist u ≠ inf then
      { s with dist := Function.update s.dist v alt, prev := Function.update s.prev v (some u) }
    else s
  else s

/-- The calls of `update_dist` for the edges of `u`. -/
def relax (u : NodeNum) : Dijkstra → List TrackEdge → Except Fault Dijkstra
  | s, [] => .ok s
  | s, uv :: rest =>
    match uv.dest with
    | none => .error .noNode
    | some v => relax u (s.updateDist u v uv) rest

/-- One turn of the loop of `min_distance`. -/
def minStep (s : Dijkstra) (avoid : NodeNum → Bool) (minIndex : Option NodeNum) (i : NodeNum) :
    Option NodeNum :=
  match minIndex with
  | none => if s.inShortestPath i = false ∧ avoid i = false then some i else none
  | some m => if s.dist i < s.dist m ∧ s.inShortestPath i = false ∧
    avoid i = false then some i else some m

/-- `min_distance`, or `none` for -1. -/
def minDistance (s : Dijkstra) (avoid : NodeNum → Bool) : Option NodeNum :=
  (List.finRange trackMax).foldl (s.minStep avoid) none

/-- What a turn of the loop does with the node it settles. -/
def settle (T : RawTrack) (s : Dijkstra) (u : NodeNum) : Except Fault Dijkstra :=
  relax u { s with inShortestPath := Function.update s.inShortestPath u true } (T u).outEdges

/-- One turn of the loop of `dijkstra`, with the node that was found and what the other turns come
to: what is returned, and `prev`. -/
def turn (T : RawTrack) (dest : NodeNum) (s : Dijkstra)
    (next : Dijkstra → Except Fault (Int × (NodeNum → Option NodeNum))) :
    Option NodeNum → Except Fault (Int × (NodeNum → Option NodeNum))
  | none => .error .noCandidate
  | some u =>
    if s.dist u = inf then .ok (-1, s.prev)
    else if u = dest then .ok (s.dist u, s.prev)
    else (s.settle T u).bind next

/-- The loop of `dijkstra`. -/
def loop (T : RawTrack) (dest : NodeNum) (avoid : NodeNum → Bool) :
    ℕ → Dijkstra → Except Fault (Int × (NodeNum → Option NodeNum))
  | 0, _ => .error .outOfTurns
  | turns + 1, s => s.turn T dest (loop T dest avoid turns) (s.minDistance avoid)

end Dijkstra

/-- `dijkstra`. A turn settles a node, so there are at most `TRACK_MAX` turns and one more. -/
def dijkstra (T : RawTrack) (src dest : NodeNum) (avoid : NodeNum → Bool) :
    Except Fault (Int × (NodeNum → Option NodeNum)) :=
  Dijkstra.loop T dest avoid (trackMax + 1) (.start src)

/-- The nodes that `pathfind_worker` meets when it follows `prev`, from the source on; `none` if it
does not come to a NULL within so many nodes. -/
def followPrev (prev : NodeNum → Option NodeNum) : ℕ → NodeNum → Option (List NodeNum)
  | 0, _ => none
  | nodes + 1, n =>
    match prev n with
    | none => some [n]
    | some u => (followPrev prev nodes u).map fun path => path ++ [n]

namespace RawTrack

variable (T : RawTrack)

/-- The edges and the reverse pointers of typed nodes point to typed nodes, and an edge has a
length, or is marked broken. Nodes without a type are in the array, but no edge of a typed one leads
there. -/
structure WellFormed : Prop where
  dest : ∀ n, (T n).type ≠ .none → ∀ e ∈ (T n).outEdges, ∃ m, e.dest = some m ∧ (T m).type ≠ .none
  dist : ∀ n, ∀ e ∈ (T n).outEdges, 0 ≤ e.dist ∧ e.dist ≤ inf

/-- A node that is not typed is as `memset` left it. -/
def Zeroed : Prop := ∀ n, (T n).type = .none → (T n).reverse = none

/-- A hop from one node to the next: an edge that is not broken, or a reversal. -/
def Hop (u v : NodeNum) (c : Int) : Prop := ∃ e ∈ (T u).outEdges, e.dest = some v ∧
      e.dist = c ∧ c < inf

end RawTrack
end Search

/-- The track in memory; a node that is not typed has no reverse node there. -/
def Track.raw (T : Track) : Search.RawTrack := fun n => {
  type := (T.node n).type
  reverse := if (T.node n).type = .none then none else some (T.reverse n)
  edge := (T.node n).edge }

end PollingExpress
