import Mathlib.Algebra.Order.Ring.Int
import Mathlib.Data.Fin.Basic
import Mathlib.Data.Set.Lattice
import Mathlib.Order.CompletePartialOrder

/-!
# The track

`track_node.h` and the part of `track_data.c` that the servers read: a graph of
`TRACK_MAX` nodes. A pointer into `track` is the number of the node. Each node has
a reverse node, the same place in the other direction; both tracks pair their nodes
this way, and `Track` carries it as a field.

`buffer_nodes` has a row for each switch, filled by `generate_buffer_nodes`: the
nodes from the merge to the next sensor.
-/

namespace PollingExpress

/-- `TRACK_MAX`. -/
def trackMax : ℕ := 144

/-- A node of the track, by its position in `track`. -/
abbrev NodeNum := Fin trackMax

instance : NeZero trackMax := ⟨by decide⟩

instance lawfulBEq_nodeNum : LawfulBEq NodeNum := inferInstance

inductive NodeType
  | none | sensor | branch | merge | enter | exit
  deriving DecidableEq

structure TrackEdge where
  dest : Option NodeNum
  /-- In millimetres. -/
  dist : Int

structure TrackNode where
  type : NodeType
  /-- Sensor or switch number. -/
  num : Int
  reverse : NodeNum
  edge : Fin 2 → TrackEdge

instance neZero_two : NeZero 2 := ⟨by decide⟩

def dirAhead : Fin 2 := 0

def dirStraight : Fin 2 := 0

def dirCurved : Fin 2 := 1

/-- A row of `buffer_nodes`: its first entry is the number of the others in use, of
which there are five. -/
structure BufferRow where
  nodes : List NodeNum
  fits : nodes.length ≤ 5

def BufferRow.empty : BufferRow := ⟨[], by decide⟩

/-- `struct track_node track[TRACK_MAX]`, with the buffer nodes of the merges. A pointer to a node
is its index; the reverse of the reverse of a node is the node itself. -/
structure Track where
  node : NodeNum → TrackNode
  reverse_reverse : ∀ n, (node (node n).reverse).reverse = n
  bufferNodes : Fin 22 → BufferRow

namespace Track

variable (T : Track)

/-- `track[n].reverse - track`. -/
def reverse (n : NodeNum) : NodeNum := (T.node n).reverse

@[simp] theorem reverse_reverse' (n : NodeNum) : T.reverse (T.reverse n) = n := T.reverse_reverse n

/-- The row of `buffer_nodes` for the switch at node `n`, if there is one. -/
def bufferRow (n : NodeNum) : Option (List NodeNum) :=
  let switchIndex := if (T.node n).num < 153 then (T.node n).num - 1
    else (T.node n).num - 153 + 18
  if h : 0 ≤ switchIndex ∧ switchIndex < 22 then
    some (T.bufferNodes ⟨switchIndex.toNat, by omega⟩).nodes
  else none

/-- The length of the edge from `n` to `m`, as `get_path_dist` looks for it. -/
def edgeDist (n m : NodeNum) : Option Int :=
  let e := (T.node n).edge
  if (T.node n).type = .branch then
    if (e dirCurved).dest = some m then some (e dirCurved).dist
    else if (e dirStraight).dest = some m then some (e dirStraight).dist
    else none
  else if (e dirAhead).dest = some m then some (e dirAhead).dist
  else none

/-- The loop of `get_path_dist`, with what has been added up so far. -/
def getPathDistFrom (dist : Int) : List NodeNum → Int
  | n :: m :: rest =>
    match T.edgeDist n m with
    | some d => getPathDistFrom (dist + d) (m :: rest)
    | none => -1
  | _ => dist

/-- `get_path_dist`. -/
def getPathDist (path : List NodeNum) : Int := T.getPathDistFrom 0 path

/-- `m` comes behind `n` on a route. -/
def Joined (n m : NodeNum) : Prop := m = T.reverse n ∨ (T.edgeDist n m).isSome

instance (n m : NodeNum) : Decidable (T.Joined n m) := inferInstanceAs (Decidable (_ ∨ _))

end Track

/-! ### A track to run on -/

/-- A ring of 72 sensors. A train that drives forward is at the even nodes, and a node's
reverse is its neighbour. -/
def ringTrack : Track where
  node n := {
    type := .sensor
    num := n
    reverse := if n.val % 2 = 0 then n + 1 else n - 1
    edge := fun _ => { dest := some (if n.val % 2 = 0 then n + 2 else n - 2), dist := 1 } }
  reverse_reverse := by decide
  bufferNodes _ := .empty

end PollingExpress
