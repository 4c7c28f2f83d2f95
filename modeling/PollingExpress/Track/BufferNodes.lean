import PollingExpress.Track.Mirror
import PollingExpress.Track.Names

/-!
# Broken switches and buffer nodes

`mark_switch_broken` and `generate_buffer_nodes`, which `task_k4_init` runs before it creates the
servers. The buffer nodes of a merge are found once, by following the edges that are not broken up
to the next sensor (`bufferNodesFrom`), so a train can drive over them in this direction
(`drivable_bufferNodesFrom`).

The merges are looked up by their names. `Track.Named` says that the names are those of the merges,
and `generateBufferNodes_row` that each merge then has its own row.
-/

namespace PollingExpress

open Search (inf RawNode)

/-- Where `generate_buffer_node` does not come to an end. -/
inductive GenerateFault
  /-- `track[-1]`, for a name that no node has. -/
  | noName
  /-- A NULL pointer was taken for a node. -/
  | noNode
  /-- `edge[-1]`, at a node that is no sensor, merge or branch. -/
  | noDirection
  /-- The assertion on a branch that no leg leads on from. -/
  | noLeg
  /-- More nodes than a row has room for. -/
  | rowOverrun
  /-- A row outside `buffer_nodes`. -/
  | noRow
  deriving DecidableEq

/-- The numbers of the switches that `generate_buffer_nodes` lists. -/
def switchNums : List ℕ := List.range' 1 18 ++ List.range' 153 4

/-- "MR1", "MR2", .. -/
def mergeName (k : ℕ) : List Byte :=
  ('M' :: 'R' :: Nat.toDigits 10 k).map fun c => UInt8.ofNat c.toNat

/-- The row of a switch in `buffer_nodes`. -/
def switchIndex (num : Int) : Option (Fin 22) :=
  let switchIndex := if num < 153 then num - 1 else num - 153 + 18
  if h : 0 ≤ switchIndex ∧ switchIndex < 22 then some ⟨switchIndex.toNat, by omega⟩ else none

/-- The node with the leg broken that its switch is not stuck in. -/
def TrackNode.markSwitchBroken (broken : TrackNode) (stuckDirection : Fin 2) : TrackNode :=
  let unreachableDirection := if stuckDirection = dirStraight then dirCurved else dirStraight
  { broken with
    edge := Function.update broken.edge unreachableDirection
      { broken.edge unreachableDirection with dist := inf } }

namespace Track

/-- `mark_switch_broken`. -/
def markSwitchBroken (T : Track) (node : NodeNum) (stuckDirection : Fin 2) : Track where
  node n := if n = node then (T.node n).markSwitchBroken stuckDirection else T.node n
  reverse_reverse n := by
    have h_reverse : ∀ m, (if m = node then (T.node m).markSwitchBroken stuckDirection
        else T.node m).reverse = T.reverse m := by
      intro m
      split <;> rfl
    rw [h_reverse, h_reverse, T.reverse_reverse']
  bufferNodes := T.bufferNodes

/-- The calls of `mark_switch_broken`. -/
def markSwitchesBroken (T : Track) (marks : List (NodeNum × Fin 2)) : Track :=
  marks.foldl (fun T mark => T.markSwitchBroken mark.1 mark.2) T

variable (T : Track)

/-- The leg is not broken, and does not lead to an exit. -/
def leadsOn (e : TrackEdge) : Except GenerateFault Bool :=
  if e.dist = inf then .ok false
  else match e.dest with
    | none => .error .noNode
    | some m => .ok ((T.node m).type ≠ .exit)

/-- `go_dir`. -/
def goDir (cur : NodeNum) : Except GenerateFault (Fin 2) :=
  match (T.node cur).type with
  | .merge => .ok dirAhead
  | .branch => do
    if ← T.leadsOn ((T.node cur).edge dirStraight) then .ok dirStraight
    else if ← T.leadsOn ((T.node cur).edge dirCurved) then .ok dirCurved
    else .error .noLeg
  | _ => .error .noDirection

/-- The node that comes behind `cur` in a row; `none` at a sensor, which ends it. -/
def nextNode (cur : NodeNum) : Except GenerateFault (Option NodeNum) :=
  if (T.node cur).type = .sensor then .ok none
  else do
    let goDir ← T.goDir cur
    match ((T.node cur).edge goDir).dest with
    | none => .error .noNode
    | some next => .ok (some next)

/-- The loop of `generate_buffer_node`, with room for so many nodes. -/
def bufferNodesFrom : ℕ → NodeNum → Except GenerateFault (List NodeNum)
  | 0, cur => do
    match ← T.nextNode cur with
    | none => .ok []
    | some _ => .error .rowOverrun
  | room + 1, cur => do
    match ← T.nextNode cur with
    | none => .ok []
    | some next =>
      let rest ← bufferNodesFrom room next
      .ok (next :: rest)

variable {T}

/-- What the loop finds: nothing at a sensor, else the next node and what comes behind it. -/
theorem bufferNodesFrom_ok {room : ℕ} {cur : NodeNum} {row : List NodeNum}
    (h : T.bufferNodesFrom room cur = .ok row) : T.nextNode cur = .ok none ∧ row = [] ∨
      ∃ room' next rest, room = room' + 1 ∧ T.nextNode cur = .ok (some next) ∧
        T.bufferNodesFrom room' next = .ok rest ∧ row = next :: rest := by
  -- without room there may be no next node
  cases room with
  | zero =>
    obtain ⟨next, h_next, h⟩ := of_bind_ok h
    cases next with
    | none => exact .inl ⟨h_next, (Except.ok.inj h).symm⟩
    | some next => cases h
  | succ room =>
    obtain ⟨next, h_next, h⟩ := of_bind_ok h
    cases next with
    | none => exact .inl ⟨h_next, (Except.ok.inj h).symm⟩
    | some next =>
      obtain ⟨rest, h_rest, h⟩ := of_bind_ok h
      exact .inr ⟨room, next, rest, rfl, h_next, h_rest, (Except.ok.inj h).symm⟩

theorem length_bufferNodesFrom {room : ℕ} {cur : NodeNum} {row : List NodeNum}
    (h : T.bufferNodesFrom room cur = .ok row) : row.length ≤ room := by
  induction row generalizing room cur with
  | nil => exact Nat.zero_le _
  | cons next rest ih =>
    obtain ⟨-, h_nil⟩ | ⟨room', next', rest', rfl, -, h_rest, h_eq⟩ := bufferNodesFrom_ok h
    · cases h_nil
    · obtain ⟨rfl, rfl⟩ := List.cons.inj h_eq
      exact Nat.succ_le_succ (ih h_rest)

variable (T)

def setRow (i : Fin 22) (row : BufferRow) : Track :=
  { T with bufferNodes := Function.update T.bufferNodes i row }

/-- `generate_buffer_node`, for the node that was found by its name. -/
def generateBufferNode (mergeNodeNum : Option NodeNum) : Except GenerateFault Track :=
  match mergeNodeNum with
  | none => .error .noName
  | some n =>
    match h : T.bufferNodesFrom 5 n with
    | .error fault => .error fault
    | .ok row =>
      match switchIndex (T.node n).num with
      | none => .error .noRow
      | some i => .ok (T.setRow i ⟨row, length_bufferNodesFrom h⟩)

/-- `generate_buffer_nodes`. -/
def generateBufferNodes (names : TrackNames) : Except GenerateFault Track :=
  switchNums.foldlM (fun T k => T.generateBufferNode (trackNameToNum names (mergeName k))) T

/-! ### Marked tracks -/

section
variable {T : Track} {node n m : NodeNum} {stuckDirection i : Fin 2}

@[simp] theorem type_markSwitchBroken :
    ((T.markSwitchBroken node stuckDirection).node n).type = (T.node n).type := by
  unfold markSwitchBroken
  dsimp only
  split <;> rfl

@[simp] theorem num_markSwitchBroken :
    ((T.markSwitchBroken node stuckDirection).node n).num = (T.node n).num := by
  unfold markSwitchBroken
  dsimp only
  split <;> rfl

@[simp] theorem reverse_markSwitchBroken : (T.markSwitchBroken node stuckDirection).reverse n =
      T.reverse n := by
  unfold reverse markSwitchBroken
  dsimp only
  split <;> rfl

/-- The edges lead where they did, with the length they had, or broken. -/
theorem edge_markSwitchBroken : ∃ dist, (dist = ((T.node n).edge i).dist ∨ n = node ∧ dist = inf) ∧
    ((T.markSwitchBroken node stuckDirection).node n).edge i = { (T.node n).edge i with dist } := by
  unfold markSwitchBroken
  dsimp only
  split
  · next h_n =>
    by_cases h_i : i = if stuckDirection = dirStraight then dirCurved else dirStraight
    · refine ⟨inf, .inr ⟨h_n, rfl⟩, ?_⟩
      rw [h_i]
      exact Function.update_self _ _ _
    · exact ⟨_, .inl rfl, Function.update_of_ne h_i _ _⟩
  · exact ⟨_, .inl rfl, rfl⟩

theorem leads_markSwitchBroken : (T.markSwitchBroken node stuckDirection).Leads n m ↔
      T.Leads n m := by
  constructor
  · rintro ⟨e, h_e, h_dest⟩
    obtain ⟨i, rfl, h_i⟩ := mem_trackEdges.mp h_e
    obtain ⟨dist, -, h_eq⟩ := edge_markSwitchBroken (T := T) (n := n) (i := i)
    rw [type_markSwitchBroken] at h_i
    refine ⟨_, mem_trackEdges.mpr ⟨i, rfl, h_i⟩, ?_⟩
    rwa [h_eq] at h_dest
  · rintro ⟨e, h_e, h_dest⟩
    obtain ⟨i, rfl, h_i⟩ := mem_trackEdges.mp h_e
    obtain ⟨dist, -, h_eq⟩ := edge_markSwitchBroken (T := T) (n := n) (i := i)
    refine ⟨_, mem_trackEdges.mpr ⟨i, rfl, ?_⟩, ?_⟩
    · rwa [type_markSwitchBroken]
    · rwa [h_eq]

/-- **The marks leave the track mirror-symmetric.** A mark makes an edge as long as `INF`, and
leaves the node at its end as it is; which edges lead where is all that the symmetry is about. -/
theorem Mirrored.markSwitchBroken (h : T.Mirrored) (node : NodeNum) (stuckDirection : Fin 2) :
    (T.markSwitchBroken node stuckDirection).Mirrored where
  wellFormed := by
    have h_raw : ∀ n, ((T.markSwitchBroken node stuckDirection).raw n).type = (T.raw n).type :=
      fun n =>
      type_markSwitchBroken
    -- each edge has one of the old track with the same node at its end
    have h_old : ∀ n, ∀ e ∈ ((T.markSwitchBroken node stuckDirection).raw n).outEdges,
        ∃ e₀ ∈ (T.raw n).outEdges, e.dest = e₀.dest ∧ (e.dist = e₀.dist ∨ e.dist = inf) := by
      intro n e h_e
      rcases List.mem_append.mp h_e with h_e | h_e
      · obtain ⟨i, rfl, h_i⟩ := mem_trackEdges.mp h_e
        obtain ⟨dist, h_dist, h_eq⟩ := edge_markSwitchBroken (T := T) (n := n) (i := i)
        rw [type_markSwitchBroken] at h_i
        refine ⟨_, List.mem_append_left _ (mem_trackEdges.mpr ⟨i, rfl, h_i⟩), ?_, ?_⟩
        · rw [h_eq]
        · rw [h_eq]
          exact h_dist.imp_right And.right
      · refine ⟨_, List.mem_append_right _ (List.mem_singleton_self _), ?_, .inl ?_⟩
        · rw [List.mem_singleton.mp h_e]
          simp [raw]
        · rw [List.mem_singleton.mp h_e]
    -- the edges still lead to typed nodes, and a length of `inf` is in range too
    refine ⟨fun n h_n e h_e => ?_, fun n e h_e => ?_⟩
    · obtain ⟨e₀, h_e₀, h_dest, -⟩ := h_old n e h_e
      rw [h_raw] at h_n
      obtain ⟨m, h_m, h_typed⟩ := h.wellFormed.dest n h_n e₀ h_e₀
      exact ⟨m, h_dest.trans h_m, by rwa [h_raw]⟩
    · obtain ⟨e₀, h_e₀, -, h_dist | h_dist⟩ := h_old n e h_e
      · rw [h_dist]
        exact h.wellFormed.dist n e₀ h_e₀
      · rw [h_dist]
        decide
  reverse_ne n := by
    rw [reverse_markSwitchBroken]
    exact h.reverse_ne n
  type_reverse n := by
    rw [reverse_markSwitchBroken, type_markSwitchBroken, type_markSwitchBroken]
    exact h.type_reverse n
  leads_reverse n m h_leads := by
    rw [reverse_markSwitchBroken, reverse_markSwitchBroken, leads_markSwitchBroken]
    exact h.leads_reverse n m (leads_markSwitchBroken.mp h_leads)
  merge_num n h_merge := by
    rw [type_markSwitchBroken] at h_merge
    rw [num_markSwitchBroken]
    exact h.merge_num n h_merge

end

/-! ### Generated rows -/

/-- The names of the merges: `generate_buffer_nodes` looks for each merge under its name, "MR" and
its number, and finds it and no other node. -/
structure Named (T : Track) (names : TrackNames) : Prop where
  name : ∀ n, ∀ k ∈ switchNums, names n = mergeName k ↔
    (T.node n).type = .merge ∧ (T.node n).num = k
  unique : ∀ n m, (T.node n).type = .merge → (T.node m).type = .merge →
    (T.node n).num = (T.node m).num → n = m

/-- The row of `n` is what `generate_buffer_node` finds from there. -/
def RowRight (T : Track) (n : NodeNum) : Prop :=
  ∃ row, T.bufferRow n = some row ∧ T.bufferNodesFrom 5 n = .ok row

section
variable {T T' : Track} {n m : NodeNum} {names : TrackNames}

theorem bufferRow_eq : T.bufferRow n = (switchIndex (T.node n).num).map fun i =>
  (T.bufferNodes i).nodes := by
  rw [bufferRow, switchIndex, apply_dite (Option.map _)]
  rfl

/-- Only the nodes count for what is found, not the rows. -/
theorem bufferNodesFrom_congr (h : T'.node = T.node) (room : ℕ) (n : NodeNum) :
    T'.bufferNodesFrom room n = T.bufferNodesFrom room n := by
  have h_next : ∀ n, T'.nextNode n = T.nextNode n := fun n => by
    unfold nextNode goDir leadsOn
    rw [h]
  induction room generalizing n with
  | zero => rw [bufferNodesFrom, bufferNodesFrom, h_next]
  | succ room ih =>
    rw [bufferNodesFrom, bufferNodesFrom, h_next]
    simp only [ih]

/-- Merges with one row have one number. -/
theorem Mirrored.num_eq_of_switchIndex (h : T.Mirrored) {i : Fin 22}
    (h_n : (T.node n).type = .merge) (h_m : (T.node m).type = .merge)
    (h_index : switchIndex (T.node n).num = some i)
    (h_index' : switchIndex (T.node m).num = some i) : (T.node n).num = (T.node m).num := by
  have h_num := h.merge_num n h_n
  have h_num' := h.merge_num m h_m
  -- the numbers from 153 on have their rows behind those below
  have h_val : ∀ num, switchIndex num = some i →
      (i.val : Int) = if num < 153 then num - 1 else num - 153 + 18 := by
    intro num h_k
    rw [switchIndex] at h_k
    obtain ⟨h_range, h_i⟩ := Option.dite_none_right_eq_some.mp h_k
    rw [← Option.some.inj h_i]
    exact Int.toNat_of_nonneg h_range.1
  have h_n := h_val _ h_index
  have h_m := h_val _ h_index'
  split at h_n <;> split at h_m <;> omega

/-- The node that is looked up is the merge with the number. -/
theorem Named.of_trackNameToNum (h : T.Named names) {k : ℕ} (h_k : k ∈ switchNums)
    (h_name : trackNameToNum names (mergeName k) = some n) :
    (T.node n).type = .merge ∧ (T.node n).num = k := by
  have h_ne : mergeName k ≠ [] := by simp [mergeName]
  exact (h.name n k h_k).mp (trackNameToNum_spec h_name h_ne)

/-- **One call**: the row of the merge is right, and no row of a merge gets wrong. The call writes
one place of the array of rows, which is that of the merge's number, and no two merges have one
number. -/
theorem generateBufferNode_spec (h_mirrored : T.Mirrored) (h_named : T.Named names)
    (h_n : (T.node n).type = .merge) (h : T.generateBufferNode (some n) = .ok T') :
    T'.node = T.node ∧ T'.RowRight n ∧
      ∀ m, (T.node m).type = .merge → T.RowRight m → T'.RowRight m := by
  rw [generateBufferNode] at h
  split at h
  · cases h
  · next row h_row =>
    cases h_index : switchIndex (T.node n).num with
    | none =>
      rw [h_index] at h
      cases h
    | some i =>
      rw [h_index] at h
      obtain rfl := Except.ok.inj h
      -- the nodes are the same, so the rows are followed to the same ones
      have h_congr :=
        @bufferNodesFrom_congr T (T.setRow i ⟨row, length_bufferNodesFrom h_row⟩) rfl 5
      -- one row has been written
      have h_rows : ∀ m, (T.setRow i ⟨row, length_bufferNodesFrom h_row⟩).bufferRow m =
          (switchIndex (T.node m).num).map fun j =>
            if j = i then row else (T.bufferNodes j).nodes := by
        intro m
        rw [bufferRow_eq]
        refine congrArg (fun f => Option.map f _) (funext fun j => ?_)
        change (Function.update T.bufferNodes i _ j).nodes = _
        rw [Function.update_apply]
        split <;> rfl
      refine ⟨rfl, ⟨row, ?_, (h_congr n).trans h_row⟩, ?_⟩
      · rw [h_rows, h_index, Option.map_some, if_pos rfl]
      · rintro m h_m ⟨row', h_row', h_from⟩
        refine ⟨row', ?_, (h_congr m).trans h_from⟩
        rw [bufferRow_eq] at h_row'
        obtain ⟨j, h_j, h_old⟩ := Option.map_eq_some_iff.mp h_row'
        rw [h_rows, h_j, Option.map_some]
        split
        · next h_ij =>
          -- the same row, so the same merge
          subst h_ij
          obtain rfl :=
            h_named.unique n m h_n h_m (h_mirrored.num_eq_of_switchIndex h_n h_m h_index h_j)
          rw [Except.ok.inj (h_row.symm.trans h_from)]
        · rw [h_old]

theorem eq_of_node (h : T'.node = T.node) : T' = { T with bufferNodes := T'.bufferNodes } := by
  cases T
  cases T'
  subst h
  rfl

theorem Mirrored.of_node (h : T.Mirrored) (h_node : T'.node = T.node) : T'.Mirrored := by
  rw [eq_of_node h_node]
  exact ⟨h.wellFormed, h.reverse_ne, h.type_reverse, h.leads_reverse, h.merge_num⟩

theorem Named.of_node (h : T.Named names) (h_node : T'.node = T.node) : T'.Named names := by
  rw [eq_of_node h_node]
  exact ⟨h.name, h.unique⟩

/-- The rows of the merges. After the calls for some of the switches the rows of these merges are
right, the rows that were right still are, and the nodes of the track are what they were. -/
theorem generate_foldlM (h_mirrored : T.Mirrored) (h_named : T.Named names) {ks : List ℕ}
    (h_ks : ∀ k ∈ ks, k ∈ switchNums)
    (h : ks.foldlM (fun T k => generateBufferNode T (trackNameToNum names (mergeName k))) T =
      .ok T') :
    T'.node = T.node ∧ ∀ n, (T.node n).type = .merge →
      (T.RowRight n ∨ ∃ k ∈ ks, (T.node n).num = k) → T'.RowRight n := by
  induction ks generalizing T with
  | nil =>
    obtain rfl := Except.ok.inj h
    refine ⟨rfl, fun n _ h_n => h_n.resolve_right ?_⟩
    rintro ⟨k, h_k, -⟩
    cases h_k
  | cons k ks ih =>
    rw [List.foldlM_cons] at h
    have h_k := h_ks k List.mem_cons_self
    cases h_name : trackNameToNum names (mergeName k) with
    | none =>
      rw [h_name] at h
      cases h
    | some m =>
      rw [h_name] at h
      obtain ⟨h_merge, h_num⟩ := h_named.of_trackNameToNum h_k h_name
      obtain ⟨T₁, h_call, h⟩ := of_bind_ok h
      obtain ⟨h_node, h_right, h_keep⟩ := generateBufferNode_spec h_mirrored h_named h_merge h_call
      obtain ⟨h_node', h_rows⟩ := ih (h_mirrored.of_node h_node) (h_named.of_node h_node)
        (fun k h_k => h_ks k (List.mem_cons_of_mem _ h_k)) h
      rw [h_node] at h_node' h_rows
      refine ⟨h_node', fun n h_n h_right' => h_rows n h_n ?_⟩
      rcases h_right' with h_row | ⟨k', h_k', h_num'⟩
      · exact .inl (h_keep n h_n h_row)
      · rcases List.mem_cons.mp h_k' with rfl | h_k'
        · -- the merge of this call
          obtain rfl := h_named.unique n m h_n h_merge (h_num'.trans h_num.symm)
          exact .inl h_right
        · exact .inr ⟨k', h_k', h_num'⟩

/-- **Every merge has its own row** after `generate_buffer_nodes`: the loop goes through all numbers
that a merge may have, and what one call has made right the others leave right. -/
theorem generateBufferNodes_spec (h_mirrored : T.Mirrored) (h_named : T.Named names)
    (h : T.generateBufferNodes names = .ok T') :
    T'.node = T.node ∧ ∀ n, (T.node n).type = .merge → T'.RowRight n := by
  obtain ⟨h_node, h_rows⟩ := generate_foldlM h_mirrored h_named (fun _ h_k => h_k) h
  refine ⟨h_node, fun n h_n => h_rows n h_n (.inr ⟨(T.node n).num.toNat, ?_, ?_⟩)⟩
  · have h_num := h_mirrored.merge_num n h_n
    rw [switchNums, List.mem_append, List.mem_range'_1, List.mem_range'_1]
    omega
  · have h_num := h_mirrored.merge_num n h_n
    omega

end

/-! ### Driving over the buffer nodes -/

section
variable (T : Track)

/-- An edge that is not marked broken leads from `n` to `m`. -/
def Unbroken (n m : NodeNum) : Prop := ∃ c, T.Open n m c

/-- The nodes are joined by edges that are not marked broken. -/
def Drivable (path : List NodeNum) : Prop := path.IsChain T.Unbroken

variable {T} {n m : NodeNum}

theorem open_of_edge {i : Fin 2} (h_i : (T.node n).type = .branch ∨
      ((T.node n).type = .merge ∨ (T.node n).type = .sensor ∨ (T.node n).type = .enter) ∧
      i = dirAhead)
    (h_dest : ((T.node n).edge i).dest = some m) (h_dist : ((T.node n).edge i).dist < inf) :
    T.Unbroken n m :=
  ⟨_, _, mem_trackEdges.mpr ⟨i, rfl, h_i⟩, h_dest, rfl, h_dist⟩

theorem leadsOn_true {e : TrackEdge} (h : T.leadsOn e = .ok true) : e.dist ≠ inf := by
  rintro h_dist
  rw [leadsOn, if_pos h_dist] at h
  cases h

/-- The edge that a row goes on over: at a branch, one of the legs that lead on. -/
theorem goDir_ok {dir : Fin 2} (h : T.goDir n = .ok dir) :
    (T.node n).type = .merge ∧ dir = dirAhead ∨
    (T.node n).type = .branch ∧ T.leadsOn ((T.node n).edge dir) = .ok true := by
  rw [goDir] at h
  -- a merge has one edge; at a branch the straight leg is tried first
  split at h
  · next h_type => exact .inl ⟨h_type, (Except.ok.inj h).symm⟩
  · next h_type =>
    refine .inr ⟨h_type, ?_⟩
    obtain ⟨straight, h_straight, h⟩ := of_bind_ok h
    cases straight with
    | true =>
      obtain rfl := Except.ok.inj h
      exact h_straight
    | false =>
      obtain ⟨curved, h_curved, h⟩ := of_bind_ok h
      cases curved with
      | true =>
        obtain rfl := Except.ok.inj h
        exact h_curved
      | false => cases h
  · cases h

/-- The next node of a row comes over an edge that is not broken. -/
theorem unbroken_of_nextNode (h_wf : T.raw.WellFormed)
    (h_merges : ∀ n, (T.node n).type = .merge → ((T.node n).edge dirAhead).dist < inf)
    (h : T.nextNode n = .ok (some m)) : T.Unbroken n m := by
  rw [nextNode] at h
  split at h
  · cases h
  · obtain ⟨dir, h_dir, h⟩ := of_bind_ok h
    have h_dest : ((T.node n).edge dir).dest = some m := by
      split at h
      · cases h
      · next h_next => rw [h_next, Option.some.inj (Except.ok.inj h)]
    -- the edge ahead of a merge is never marked, and a leg that leads on is not broken
    rcases goDir_ok h_dir with ⟨h_type, rfl⟩ | ⟨h_type, h_leads⟩
    · exact open_of_edge (.inr ⟨.inl h_type, rfl⟩) h_dest (h_merges n h_type)
    · have h_le :=
        (h_wf.dist n _ (List.mem_append_left _ (mem_trackEdges.mpr ⟨dir, rfl, .inl h_type⟩))).2
      exact open_of_edge (.inl h_type) h_dest (lt_of_le_of_ne h_le (leadsOn_true h_leads))

/-- **A row can be driven over** from its merge on: of a branch the row takes a leg that is not
broken, and the edge behind a merge, which it takes unseen, is not broken either (`h_merges`). -/
theorem drivable_bufferNodesFrom (h_wf : T.raw.WellFormed)
    (h_merges : ∀ n, (T.node n).type = .merge → ((T.node n).edge dirAhead).dist < inf) {room : ℕ}
    {row : List NodeNum} (h : T.bufferNodesFrom room n = .ok row) : T.Drivable (n :: row) := by
  induction row generalizing room n with
  | nil => exact .singleton _
  | cons next rest ih =>
    obtain ⟨-, h_nil⟩ | ⟨room', next', rest', rfl, h_next, h_rest, h_eq⟩ := bufferNodesFrom_ok h
    · cases h_nil
    · obtain ⟨rfl, rfl⟩ := List.cons.inj h_eq
      exact .cons_cons (unbroken_of_nextNode h_wf h_merges h_next) (ih h_rest)

end

/-! ### Prepared tracks -/

/-- No merge is marked broken. -/
def MergesOpen (T : Track) : Prop := ∀ n, (T.node n).type = .merge →
      ((T.node n).edge dirAhead).dist < inf

/-- What `task_k4_init` makes of a track `T₀`: the marks of its switches, then the buffer nodes.

The switches that are marked are branches, and before that no edge of the track is marked as broken.
The rows are computed on the marked track, so that they lead around the broken legs. -/
structure Prepared (T₀ : Track) (names : TrackNames) (marks : List (NodeNum × Fin 2)) (T : Track) :
    Prop where
  mirrored : T₀.Mirrored
  unmarked : ∀ n, ∀ e ∈ (T₀.raw n).trackEdges, e.dist < inf
  named : T₀.Named names
  switches : ∀ mark ∈ marks, (T₀.node mark.1).type = .branch
  generated : (T₀.markSwitchesBroken marks).generateBufferNodes names = .ok T

section
variable {T₀ T : Track} {names : TrackNames} {marks : List (NodeNum × Fin 2)} {n : NodeNum}

theorem Named.markSwitchBroken (h : T.Named names) (node : NodeNum) (stuckDirection : Fin 2) :
    (T.markSwitchBroken node stuckDirection).Named names where
  name n k h_k := by
    rw [type_markSwitchBroken, num_markSwitchBroken]
    exact h.name n k h_k
  unique n m h_n h_m h_num := by
    rw [type_markSwitchBroken] at h_n h_m
    rw [num_markSwitchBroken, num_markSwitchBroken] at h_num
    exact h.unique n m h_n h_m h_num

theorem MergesOpen.markSwitchBroken (h : T.MergesOpen) {node : NodeNum}
    (h_node : (T.node node).type = .branch) (stuckDirection : Fin 2) :
    (T.markSwitchBroken node stuckDirection).MergesOpen := by
  intro n h_n
  rw [type_markSwitchBroken] at h_n
  obtain ⟨dist, h_dist | ⟨rfl, -⟩, h_eq⟩ :=
    @edge_markSwitchBroken T node n stuckDirection dirAhead
  · rw [h_eq]
    exact h_dist.trans_lt (h n h_n)
  · cases h_n.symm.trans h_node

/-- What the marks leave alone. -/
theorem markSwitchesBroken_spec (h_mirrored : T.Mirrored) (h_named : T.Named names)
    (h_open : T.MergesOpen) (h_marks : ∀ mark ∈ marks, (T.node mark.1).type = .branch) :
    (T.markSwitchesBroken marks).Mirrored ∧ (T.markSwitchesBroken marks).Named names ∧
      (T.markSwitchesBroken marks).MergesOpen := by
  induction marks generalizing T with
  | nil => exact ⟨h_mirrored, h_named, h_open⟩
  | cons mark marks ih =>
    refine ih (h_mirrored.markSwitchBroken _ _) (h_named.markSwitchBroken _ _)
      (h_open.markSwitchBroken (h_marks mark List.mem_cons_self) _) fun mark' h_mark' => ?_
    rw [type_markSwitchBroken]
    exact h_marks mark' (List.mem_cons_of_mem _ h_mark')

/-- **A prepared track** is mirror-symmetric, and a train can drive over the buffer nodes of each
merge. The marks come first and the rows after them, so that the rows go around what is marked. -/
theorem Prepared.spec (h : Prepared T₀ names marks T) : T.Mirrored ∧
    ∀ n, (T.node n).type = .merge → ∃ row, T.bufferRow n = some row ∧ T.Drivable (n :: row) := by
  have h_open : T₀.MergesOpen := fun n h_n =>
    h.unmarked n _ (mem_trackEdges.mpr ⟨dirAhead, rfl, .inr ⟨.inl h_n, rfl⟩⟩)
  obtain ⟨h_mirrored, h_named, h_open⟩ :=
    markSwitchesBroken_spec h.mirrored h.named h_open h.switches
  obtain ⟨h_node, h_rows⟩ := generateBufferNodes_spec h_mirrored h_named h.generated
  have h_mirrored := h_mirrored.of_node h_node
  refine ⟨h_mirrored, fun n h_n => ?_⟩
  obtain ⟨row, h_row, h_from⟩ := h_rows n (by rwa [← h_node])
  refine ⟨row, h_row, drivable_bufferNodesFrom h_mirrored.wellFormed ?_ h_from⟩
  rw [h_node]
  exact h_open

end

end Track
end PollingExpress
