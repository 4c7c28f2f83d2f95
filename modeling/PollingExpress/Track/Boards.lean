import PollingExpress.Track.BufferNodes

/-!
# The two boards

The tables of `init_tracka` and `init_trackb`, and what `task_k4_init` does with them before it
creates the servers: some switches of each board are marked broken, and the buffer nodes are found.

A line of a table has what the source assigns to the node, from the name on; the rest is as `memset`
left it. `Board.Sound` is looked up line by line. It is enough for the preparation of a track
(`Board.Sound.prepared`), which succeeds on both boards.
-/

namespace PollingExpress

open Search (inf)

namespace Track

section
variable {T₀ T T' : Track} {names : TrackNames} {node n m : NodeNum}
  {stuckDirection : Fin 2} {c : Int} {marks : List (NodeNum × Fin 2)}

/-- An edge that is not broken is as long as it was. -/
theorem Open.of_markSwitchBroken (h : (T.markSwitchBroken node stuckDirection).Open n m c) :
    T.Open n m c := by
  obtain ⟨e, h_e, h_dest, h_dist, h_lt⟩ := h
  obtain ⟨i, rfl, h_i⟩ := mem_trackEdges.mp h_e
  obtain ⟨dist, h_old, h_eq⟩ := edge_markSwitchBroken (T := T) (n := n) (i := i)
  rw [h_eq] at h_dest h_dist
  rw [type_markSwitchBroken] at h_i
  refine ⟨_, mem_trackEdges.mpr ⟨i, rfl, h_i⟩, h_dest, ?_, h_lt⟩
  obtain rfl | ⟨-, rfl⟩ := h_old
  · exact h_dist
  · exact absurd h_lt (h_dist ▸ lt_irrefl _)

theorem Open.of_markSwitchesBroken (h : (T.markSwitchesBroken marks).Open n m c) :
    T.Open n m c := by
  induction marks generalizing T with
  | nil => exact h
  | cons mark marks ih => exact (ih h).of_markSwitchBroken

theorem reverse_markSwitchesBroken : (T.markSwitchesBroken marks).reverse n = T.reverse n := by
  induction marks generalizing T with
  | nil => rfl
  | cons mark marks ih => exact ih.trans reverse_markSwitchBroken

theorem Open.of_node (h : T'.Open n m c) (h_node : T'.node = T.node) : T.Open n m c := by
  rw [eq_of_node h_node] at h
  exact h

/-- The nodes are as the marks left them, and each merge has its row. -/
theorem Prepared.generated_spec (h : Prepared T₀ names marks T) :
    T.node = (T₀.markSwitchesBroken marks).node ∧
    ∀ n, (T.node n).type = .merge → T.RowRight n := by
  have h_open : T₀.MergesOpen := fun n h_n =>
    h.unmarked n _ (mem_trackEdges.mpr ⟨dirAhead, rfl, .inr ⟨.inl h_n, rfl⟩⟩)
  obtain ⟨h_mirrored, h_named, -⟩ := markSwitchesBroken_spec h.mirrored h.named h_open h.switches
  obtain ⟨h_node, h_rows⟩ := generateBufferNodes_spec h_mirrored h_named h.generated
  exact ⟨h_node, h_node ▸ h_rows⟩

end

end Track

/-- A line of a table. -/
structure BoardNode where
  name : List Byte
  node : TrackNode

namespace BoardNode

/-- "A1", "BR1", .. -/
def nodeName (kind : List Char) (k : ℕ) : List Byte :=
  (kind ++ Nat.toDigits 10 k).map fun c => UInt8.ofNat c.toNat

/-- The edges of a node that has only one. -/
def oneEdge (dest : NodeNum) (dist : Int) : Fin 2 → TrackEdge :=
  Function.update (fun _ => ⟨none, 0⟩) dirAhead ⟨some dest, dist⟩

def sensor (group : Char) (k : ℕ) (num : Int) (reverse dest : NodeNum) (dist : Int) : BoardNode :=
  ⟨nodeName [group] k, ⟨.sensor, num, reverse, oneEdge dest dist⟩⟩

def branch (k : ℕ) (reverse straight : NodeNum) (straightDist : Int) (curved : NodeNum)
    (curvedDist : Int) : BoardNode :=
  ⟨nodeName ['B', 'R'] k, ⟨.branch, k, reverse,
    fun i => if i = dirStraight then ⟨some straight, straightDist⟩ else ⟨some curved, curvedDist⟩⟩⟩

def merge (k : ℕ) (reverse dest : NodeNum) (dist : Int) : BoardNode :=
  ⟨nodeName ['M', 'R'] k, ⟨.merge, k, reverse, oneEdge dest dist⟩⟩

/-- An enter node has no number. -/
def enter (k : ℕ) (reverse dest : NodeNum) (dist : Int) : BoardNode :=
  ⟨nodeName ['E', 'N'] k, ⟨.enter, 0, reverse, oneEdge dest dist⟩⟩

def exit (k : ℕ) (reverse : NodeNum) : BoardNode :=
  ⟨nodeName ['E', 'X'] k, ⟨.exit, 0, reverse, fun _ => ⟨none, 0⟩⟩⟩

/-- A node that the table leaves out. Its reverse is NULL, and `Track.raw` says so; here it has to
have one. -/
def untyped (reverse : NodeNum) : BoardNode := ⟨[], ⟨.none, 0, reverse, fun _ => ⟨none, 0⟩⟩⟩

end BoardNode

/-- A table, and the switches that `task_k4_init` marks, with the directions in which they are
stuck. -/
structure Board where
  node : NodeNum → BoardNode
  reverse_reverse : ∀ n, (node (node n).node.reverse).node.reverse = n
  broken : List (ℕ × Fin 2)

/-- No edge of a board is longer, in millimetres. -/
def longestEdge : Int := 875

namespace Board

def track (B : Board) : Track where
  node n := (B.node n).node
  reverse_reverse := B.reverse_reverse
  bufferNodes _ := .empty

def names (B : Board) : TrackNames := fun n => (B.node n).name

/-- The switches, found by their names. -/
def marks (B : Board) : Option (List (NodeNum × Fin 2)) :=
  B.broken.mapM fun (k, stuckDirection) =>
    (trackNameToNum B.names (BoardNode.nodeName ['B', 'R'] k)).map fun n => (n, stuckDirection)

/-- `task_k4_init` up to the servers. -/
def taskK4Init (B : Board) : Except GenerateFault Track :=
  match B.marks with
  -- the assertion that the node is valid
  | none => .error .noName
  | some marks => (B.track.markSwitchesBroken marks).generateBufferNodes B.names

/-- The track that the servers work on. -/
def configured (B : Board) : Track := B.taskK4Init.toOption.getD B.track

/-! ### Sound tables -/

instance (T : Track) (n m : NodeNum) : Decidable (T.Leads n m) :=
  inferInstanceAs (Decidable (∃ e ∈ (T.raw n).trackEdges, e.dest = some m))

/-- What is looked up for one line: the reverse node, the edges and their mirror edges, and the
name. The tables of the boards have a line for each node, so that a property of all edges comes down
to one that can be decided line by line. -/
structure SoundAt (B : Board) (n : NodeNum) : Prop where
  reverse_ne : B.track.reverse n ≠ n
  type_reverse : (B.track.node (B.track.reverse n)).type = (B.track.node n).type.mirror
  edges : ∀ e ∈ (B.track.raw n).trackEdges, 0 ≤ e.dist ∧ e.dist ≤ longestEdge ∧
    (e.dest.any fun m => decide (m ≠ B.track.reverse n ∧
      B.track.Leads (B.track.reverse m) (B.track.reverse n))) = true
  merge_num : (B.track.node n).type = .merge → (B.track.node n).num.toNat ∈ switchNums ∧
    0 ≤ (B.track.node n).num ∧ trackNameToNum B.names (mergeName (B.track.node n).num.toNat) =
      some n
  name : ∀ k ∈ switchNums, B.names n = mergeName k →
    (B.track.node n).type = .merge ∧ (B.track.node n).num = k

instance (B : Board) (n : NodeNum) : Decidable (B.SoundAt n) :=
  decidable_of_iff (_ ∧ _ ∧ _ ∧ _ ∧ _) ⟨fun ⟨h₁, h₂, h₃, h₄, h₅⟩ => ⟨h₁, h₂, h₃, h₄, h₅⟩,
    fun ⟨h₁, h₂, h₃, h₄, h₅⟩ => ⟨h₁, h₂, h₃, h₄, h₅⟩⟩

section
variable {B : Board} {n m : NodeNum}

theorem SoundAt.edge (h : B.SoundAt n) {e : TrackEdge} (h_e : e ∈ (B.track.raw n).trackEdges) :
    ∃ m, e.dest = some m ∧ m ≠ B.track.reverse n ∧
      B.track.Leads (B.track.reverse m) (B.track.reverse n) := by
  obtain ⟨m, h_m, h_back⟩ := (Option.any_eq_true _ _).mp (h.edges e h_e).2.2
  exact ⟨m, h_m, of_decide_eq_true h_back⟩

/-- **A sound table is mirror-symmetric.** A node without a type has a reverse without one, so the
edges of typed nodes stay among them; the rest is what `SoundAt` says of each line. -/
theorem mirrored (h : ∀ n, B.SoundAt n) : B.track.Mirrored where
  wellFormed := {
    dest := by
      intro n h_n e h_e
      rcases List.mem_append.mp h_e with h_e | h_e
      · -- the mirror edge starts at a typed node
        obtain ⟨m, h_m, -, h_back⟩ := (h n).edge h_e
        refine ⟨m, h_m, fun h_none => h_back.type_ne ?_⟩
        rw [(h m).type_reverse, show (B.track.node m).type = .none from h_none]
        rfl
      · obtain rfl := List.mem_singleton.mp h_e
        refine ⟨B.track.reverse n, if_neg h_n, fun h_none => h_n ?_⟩
        have h_type := (h (B.track.reverse n)).type_reverse
        rw [B.track.reverse_reverse', show (B.track.node (B.track.reverse n)).type = .none
          from h_none] at h_type
        exact h_type
    dist := by
      intro n e h_e
      rcases List.mem_append.mp h_e with h_e | h_e
      · obtain ⟨h_nonneg, h_le, -⟩ := (h n).edges e h_e
        exact ⟨h_nonneg, h_le.trans (by decide)⟩
      · obtain rfl := List.mem_singleton.mp h_e
        exact show 0 ≤ Search.mockReverseDist ∧ Search.mockReverseDist ≤ inf by decide }
  reverse_ne n := (h n).reverse_ne
  type_reverse n := (h n).type_reverse
  leads_reverse := by
    rintro n m ⟨e, h_e, h_dest⟩
    obtain ⟨m', h_m', -, h_back⟩ := (h n).edge h_e
    obtain rfl := Option.some.inj (h_dest.symm.trans h_m')
    exact h_back
  merge_num n h_n := by
    obtain ⟨h_mem, h_nonneg, -⟩ := (h n).merge_num h_n
    rw [switchNums, List.mem_append, List.mem_range'_1, List.mem_range'_1] at h_mem
    omega

theorem named (h : ∀ n, B.SoundAt n) : B.track.Named B.names where
  name n k h_k := by
    refine ⟨(h n).name k h_k, ?_⟩
    rintro ⟨h_type, h_num⟩
    obtain ⟨-, -, h_found⟩ := (h n).merge_num h_type
    rw [h_num, Int.toNat_natCast] at h_found
    exact trackNameToNum_spec h_found (List.cons_ne_nil _ _)
  unique n m h_n h_m h_num := by
    have h_found := ((h n).merge_num h_n).2.2
    rw [h_num, ((h m).merge_num h_m).2.2] at h_found
    exact (Option.some.inj h_found).symm

/-- What the servers may rely on when `task_k4_init` has come to its end: the nodes are those of the
table with the marks, the rows are those that `generate_buffer_nodes` makes, and no edge is longer
than the longest of the tables. -/
structure Configured (B : Board) (marks : List (NodeNum × Fin 2)) (T : Track) : Prop where
  prepared : Track.Prepared B.track B.names marks T
  node_eq : T.node = (B.track.markSwitchesBroken marks).node
  /-- No edge leads to the node in the other direction. -/
  not_open : ∀ n c, ¬T.Open n (T.reverse n) c
  open_le : ∀ n m c, T.Open n m c → c ≤ longestEdge

/-- **A sound board is configured** by `task_k4_init`, if that comes to its end. The marks and the
rows change lengths and rows only, so what was sound before stays sound; that it comes to its end is
computed for each board. -/
theorem configured_spec (h : ∀ n, B.SoundAt n) {marks : List (NodeNum × Fin 2)}
    (h_marks : B.marks = some marks)
    (h_switches : ∀ mark ∈ marks, (B.track.node mark.1).type = .branch)
    (h_ok : B.taskK4Init.toOption.isSome) :
    B.Configured marks B.configured := by
  -- `configured` is what `task_k4_init` comes to, and a default where it fails
  have h_init : B.taskK4Init = .ok B.configured := by
    rw [configured]
    cases h_run : B.taskK4Init with
    | error fault => simp [h_run, Except.toOption] at h_ok
    | ok T => rfl
  rw [taskK4Init, h_marks] at h_init
  have h_prepared : Track.Prepared B.track B.names marks B.configured := {
    mirrored := mirrored h
    unmarked := fun n e h_e => ((h n).edges e h_e).2.1.trans_lt (by decide)
    named := named h
    switches := h_switches
    generated := h_init }
  have h_node := h_prepared.generated_spec.1
  -- marking and looking rows up leave the reverses alone
  have h_reverse : ∀ n, B.configured.reverse n = B.track.reverse n := by
    intro n
    rw [Track.reverse, h_node]
    exact Track.reverse_markSwitchesBroken
  refine ⟨h_prepared, h_node, fun n c h_open => ?_, fun n m c h_open => ?_⟩
  · obtain ⟨e, h_e, h_dest, -⟩ := (h_open.of_node h_node).of_markSwitchesBroken
    obtain ⟨m, h_m, h_ne, -⟩ := (h n).edge h_e
    rw [h_reverse] at h_dest
    exact h_ne (Option.some.inj (h_m.symm.trans h_dest))
  · obtain ⟨e, h_e, -, rfl, -⟩ := (h_open.of_node h_node).of_markSwitchesBroken
    exact ((h n).edges e h_e).2.1

end

end Board

/-! ### The tables -/

open BoardNode in
/-- `init_tracka`. -/
def rowsA : List BoardNode := [
  sensor 'A' 1 0 1 103 231, sensor 'A' 2 1 0 133 504, sensor 'A' 3 2 3 106 43,
      sensor 'A' 4 3 2 31 437,
  sensor 'A' 5 4 5 85 231, sensor 'A' 6 5 4 25 642, sensor 'A' 7 6 7 27 470,
      sensor 'A' 8 7 6 83 229,
  sensor 'A' 9 8 9 23 289, sensor 'A' 10 9 8 81 229, sensor 'A' 11 10 11 81 518,
      sensor 'A' 12 11 10 139 43,
  sensor 'A' 13 12 13 87 236, sensor 'A' 14 13 12 131 325, sensor 'A' 15 14 15 135 144,
  sensor 'A' 16 15 14 87 417, sensor 'B' 1 16 17 61 404, sensor 'B' 2 17 16 111 231,
      sensor 'B' 3 18 19 33 201,
  sensor 'B' 4 19 18 111 239, sensor 'B' 5 20 21 50 404, sensor 'B' 6 21 20 105 231,
      sensor 'B' 7 22 23 9 289,
  sensor 'B' 8 23 22 137 43, sensor 'B' 9 24 25 4 642, sensor 'B' 10 25 24 141 50,
      sensor 'B' 11 26 27 7 470,
  sensor 'B' 12 27 26 143 50, sensor 'B' 13 28 29 119 239, sensor 'B' 14 29 28 63 201,
  sensor 'B' 15 30 31 2 437, sensor 'B' 16 31 30 108 50, sensor 'C' 1 32 33 19 201,
      sensor 'C' 2 33 32 117 246,
  sensor 'C' 3 34 35 129 514, sensor 'C' 4 35 34 89 239, sensor 'C' 5 36 37 90 61,
      sensor 'C' 6 37 36 109 433,
  sensor 'C' 7 38 39 115 231, sensor 'C' 8 39 38 84 128, sensor 'C' 9 40 41 109 326,
  sensor 'C' 10 41 40 110 128, sensor 'C' 11 42 43 104 120, sensor 'C' 12 43 42 107 333,
  sensor 'C' 13 44 45 70 875, sensor 'C' 14 45 44 100 43, sensor 'C' 15 46 47 59 404,
  sensor 'C' 16 47 46 91 239, sensor 'D' 1 48 49 121 246, sensor 'D' 2 49 48 67 201,
      sensor 'D' 3 50 51 99 239,
  sensor 'D' 4 51 50 21 404, sensor 'D' 5 52 53 69 376, sensor 'D' 6 53 52 97 239,
      sensor 'D' 7 54 55 97 309,
  sensor 'D' 8 55 54 71 384, sensor 'D' 9 56 57 75 369, sensor 'D' 10 57 56 95 316,
      sensor 'D' 11 58 59 47 404,
  sensor 'D' 12 59 58 93 231, sensor 'D' 13 60 61 17 404, sensor 'D' 14 61 60 113 239,
  sensor 'D' 15 62 63 28 201, sensor 'D' 16 63 62 113 246, sensor 'E' 1 64 65 123 239,
  sensor 'E' 2 65 64 78 201, sensor 'E' 3 66 67 48 201, sensor 'E' 4 67 66 99 239,
      sensor 'E' 5 68 69 53 376,
  sensor 'E' 6 69 68 98 50, sensor 'E' 7 70 71 54 384, sensor 'E' 8 71 70 45 875,
      sensor 'E' 9 72 73 95 239,
  sensor 'E' 10 73 72 76 376, sensor 'E' 11 74 75 57 369, sensor 'E' 12 75 74 92 50,
  sensor 'E' 13 76 77 112 43, sensor 'E' 14 77 76 72 376, sensor 'E' 15 78 79 105 246,
  sensor 'E' 16 79 78 64 201, branch 1 81 11 518 8 229, merge 1 80 83 188, branch 2 83 80 188 6 229,
  merge 2 82 85 185, branch 3 85 5 231 82 185, merge 3 84 38 128, branch 4 87 14 417 13 236,
  merge 4 86 103 185, branch 5 89 34 239 93 371, merge 5 88 114 155, branch 6 91 46 239 115 371,
  merge 6 90 37 61, branch 7 93 58 231 89 371, merge 7 92 74 50, branch 8 95 56 316 73 239,
      merge 8 94 96 155,
  branch 9 97 55 309 52 239, merge 9 96 94 155, branch 10 99 51 239 66 239, merge 10 98 68 50,
  branch 11 101 102 188 107 495, merge 11 100 44 43, branch 12 103 1 231 86 185,
      merge 12 102 101 188,
  branch 13 105 20 231 79 246, merge 13 104 43 120, branch 14 107 101 495 42 333, merge 14 106 3 43,
  branch 15 109 36 433 41 326, merge 15 108 30 50, branch 16 111 16 231 18 239, merge 16 110 40 128,
  branch 17 113 60 239 62 246, merge 17 112 77 43, branch 18 115 39 231 91 371, merge 18 114 88 155,
  branch 153 117 125 253 32 246, merge 153 116 119 0, branch 154 119 116 0 29 239,
      merge 154 118 122 0,
  branch 155 121 127 282 49 246, merge 155 120 123 0, branch 156 123 120 0 65 239,
      merge 156 122 118 0,
  enter 1 125 117 253, exit 1 124, enter 2 127 121 282, exit 2 126, enter 3 129 35 514, exit 3 128,
  enter 4 131 12 325, exit 4 130, enter 5 133 0 504, exit 5 132, enter 6 135 15 144, exit 6 134,
  enter 7 137 22 43, exit 7 136, enter 8 139 10 43, exit 8 138, enter 9 141 24 50, exit 9 140,
  enter 10 143 26 50, exit 10 142]

open BoardNode in
/-- `init_trackb`. -/
def rowsB : List BoardNode := [
  sensor 'A' 1 0 1 103 231, sensor 'A' 2 1 0 133 504, sensor 'A' 3 2 3 106 43,
      sensor 'A' 4 3 2 31 437,
  sensor 'A' 5 4 5 85 231, sensor 'A' 6 5 4 25 642, sensor 'A' 7 6 7 27 470,
      sensor 'A' 8 7 6 83 229,
  sensor 'A' 9 8 9 23 289, sensor 'A' 10 9 8 81 229, sensor 'A' 11 10 11 81 282,
      sensor 'A' 12 11 10 15 814,
  sensor 'A' 13 12 13 87 236, sensor 'A' 14 13 12 131 325, sensor 'A' 15 14 15 10 814,
  sensor 'A' 16 15 14 87 275, sensor 'B' 1 16 17 61 404, sensor 'B' 2 17 16 111 231,
      sensor 'B' 3 18 19 33 201,
  sensor 'B' 4 19 18 111 239, sensor 'B' 5 20 21 50 404, sensor 'B' 6 21 20 105 231,
      sensor 'B' 7 22 23 9 289,
  sensor 'B' 8 23 22 135 43, sensor 'B' 9 24 25 4 642, sensor 'B' 10 25 24 137 50,
      sensor 'B' 11 26 27 7 470,
  sensor 'B' 12 27 26 139 50, sensor 'B' 13 28 29 119 239, sensor 'B' 14 29 28 63 201,
  sensor 'B' 15 30 31 2 437, sensor 'B' 16 31 30 108 50, sensor 'C' 1 32 33 19 201,
      sensor 'C' 2 33 32 117 246,
  sensor 'C' 3 34 35 129 514, sensor 'C' 4 35 34 89 239, sensor 'C' 5 36 37 90 61,
      sensor 'C' 6 37 36 109 433,
  sensor 'C' 7 38 39 115 231, sensor 'C' 8 39 38 84 128, sensor 'C' 9 40 41 109 326,
  sensor 'C' 10 41 40 110 128, sensor 'C' 11 42 43 104 120, sensor 'C' 12 43 42 107 333,
  sensor 'C' 13 44 45 70 780, sensor 'C' 14 45 44 100 50, sensor 'C' 15 46 47 59 404,
  sensor 'C' 16 47 46 91 239, sensor 'D' 1 48 49 121 246, sensor 'D' 2 49 48 67 201,
      sensor 'D' 3 50 51 99 239,
  sensor 'D' 4 51 50 21 404, sensor 'D' 5 52 53 69 282, sensor 'D' 6 53 52 97 229,
      sensor 'D' 7 54 55 97 309,
  sensor 'D' 8 55 54 71 376, sensor 'D' 9 56 57 75 282, sensor 'D' 10 57 56 95 316,
      sensor 'D' 11 58 59 47 404,
  sensor 'D' 12 59 58 93 231, sensor 'D' 13 60 61 17 404, sensor 'D' 14 61 60 113 239,
  sensor 'D' 15 62 63 28 201, sensor 'D' 16 63 62 113 246, sensor 'E' 1 64 65 123 239,
  sensor 'E' 2 65 64 78 201, sensor 'E' 3 66 67 48 201, sensor 'E' 4 67 66 99 239,
      sensor 'E' 5 68 69 53 282,
  sensor 'E' 6 69 68 98 50, sensor 'E' 7 70 71 54 376, sensor 'E' 8 71 70 45 780,
      sensor 'E' 9 72 73 95 239,
  sensor 'E' 10 73 72 76 282, sensor 'E' 11 74 75 57 282, sensor 'E' 12 75 74 92 43,
  sensor 'E' 13 76 77 112 43, sensor 'E' 14 77 76 72 282, sensor 'E' 15 78 79 105 246,
  sensor 'E' 16 79 78 64 201, branch 1 81 11 282 8 229, merge 1 80 83 188, branch 2 83 80 188 6 229,
  merge 2 82 85 185, branch 3 85 5 231 82 185, merge 3 84 38 128, branch 4 87 14 275 13 236,
  merge 4 86 103 185, branch 5 89 34 239 93 371, merge 5 88 114 155, branch 6 91 46 239 115 371,
  merge 6 90 37 61, branch 7 93 58 231 89 371, merge 7 92 74 43, branch 8 95 56 316 73 239,
      merge 8 94 96 155,
  branch 9 97 55 309 52 229, merge 9 96 94 155, branch 10 99 51 239 66 239, merge 10 98 68 50,
  branch 11 101 102 188 107 495, merge 11 100 44 50, branch 12 103 1 231 86 185,
      merge 12 102 101 188,
  branch 13 105 20 231 79 246, merge 13 104 43 120, branch 14 107 101 495 42 333, merge 14 106 3 43,
  branch 15 109 36 433 41 326, merge 15 108 30 50, branch 16 111 16 231 18 239, merge 16 110 40 128,
  branch 17 113 60 239 62 246, merge 17 112 77 43, branch 18 115 39 231 91 371, merge 18 114 88 155,
  branch 153 117 125 253 32 246, merge 153 116 119 0, branch 154 119 116 0 29 239,
      merge 154 118 122 0,
  branch 155 121 127 282 49 246, merge 155 120 123 0, branch 156 123 120 0 65 239,
      merge 156 122 118 0,
  enter 1 125 117 253, exit 1 124, enter 2 127 121 282, exit 2 126, enter 3 129 35 514, exit 3 128,
  enter 4 131 12 325, exit 4 130, enter 5 133 0 504, exit 5 132, enter 7 135 22 43, exit 7 134,
  enter 9 137 24 50, exit 9 136, enter 10 139 26 50, exit 10 138, untyped 141, untyped 140,
      untyped 143,
  untyped 142]

def boardA : Board where
  node n := rowsA.getD n (.untyped 0)
  reverse_reverse := by decide +kernel
  broken :=
    [(7, dirCurved), (156, dirCurved), (155, dirStraight), (16, dirStraight), (3, dirCurved),
    (15, dirStraight)]

def boardB : Board where
  node n := rowsB.getD n (.untyped 0)
  reverse_reverse := by decide +kernel
  broken := [(156, dirStraight), (155, dirCurved), (5, dirCurved), (4, dirStraight)]

theorem soundAt_a : ∀ n, boardA.SoundAt n := by decide +kernel

theorem soundAt_b : ∀ n, boardB.SoundAt n := by decide +kernel

/-- The track `a`. -/
def trackA : Track := boardA.configured

/-- The track `b`. -/
def trackB : Track := boardB.configured

def marksA : List (NodeNum × Fin 2) :=
  [(92, dirCurved), (122, dirCurved), (120, dirStraight), (110, dirStraight), (84, dirCurved),
    (108, dirStraight)]

def marksB : List (NodeNum × Fin 2) :=
  [(122, dirStraight), (120, dirCurved), (88, dirCurved), (86, dirStraight)]

theorem configured_a : boardA.Configured marksA trackA :=
  Board.configured_spec soundAt_a (by decide +kernel) (by decide +kernel) (by decide +kernel)

theorem configured_b : boardB.Configured marksB trackB :=
  Board.configured_spec soundAt_b (by decide +kernel) (by decide +kernel) (by decide +kernel)

end PollingExpress
