import PollingExpress.Search.Dijkstra

/-!
# Mirror-symmetric tracks

A track is the same in both directions: what is a branch for the trains in one direction is a merge
for those in the other, and each edge has its mirror edge (`Track.Mirrored`). The two directions of
an edge have lengths of their own, so one of them may be marked broken and the other not.
-/

namespace PollingExpress

open Search (inf mockReverseDist RawNode RawTrack)

/-- The type of the reverse node. -/
def NodeType.mirror : NodeType → NodeType
  | .none => .none
  | .sensor => .sensor
  | .branch => .merge
  | .merge => .branch
  | .enter => .exit
  | .exit => .enter

namespace Track

variable (T : Track)

/-- An edge leads from `n` to `m`, broken or not. -/
def Leads (n m : NodeNum) : Prop := ∃ e ∈ (T.raw n).trackEdges, e.dest = some m

/-- An edge of length `c` that is not marked broken leads from `n` to `m`. -/
def Open (n m : NodeNum) (c : Int) : Prop := ∃ e ∈ (T.raw n).trackEdges, e.dest = some m ∧
      e.dist = c ∧ c < inf

/-- A track on which each edge can be driven back: between the reverse nodes there is one the other
way. A merge is the reverse of a branch, and the numbers of the merges are those of switches. Both
tracks of the repository are such; lengths may differ in the two directions. -/
structure Mirrored : Prop where
  wellFormed : T.raw.WellFormed
  reverse_ne : ∀ n, T.reverse n ≠ n
  type_reverse : ∀ n, (T.node (T.reverse n)).type = (T.node n).type.mirror
  leads_reverse : ∀ n m, T.Leads n m → T.Leads (T.reverse m) (T.reverse n)
  merge_num : ∀ n, (T.node n).type = .merge →
    1 ≤ (T.node n).num ∧ (T.node n).num ≤ 18 ∨ 153 ≤ (T.node n).num ∧ (T.node n).num ≤ 156

variable {T} {n m : NodeNum} {c : Int}

/-- The edges that are followed from a node: two from a branch, the one ahead from a merge, a sensor
or an entry, and none from an exit. -/
theorem mem_trackEdges {e : TrackEdge} : e ∈ (T.raw n).trackEdges ↔
    ∃ i, e = (T.node n).edge i ∧ ((T.node n).type = .branch ∨
      ((T.node n).type = .merge ∨ (T.node n).type = .sensor ∨ (T.node n).type = .enter) ∧
      i = dirAhead) := by
  -- there are two legs, and the edge ahead is the first of them
  have h_two : ∀ i : Fin 2, i = dirStraight ∨ i = dirCurved := by decide
  rw [RawNode.trackEdges, List.mem_append]
  constructor
  · rintro (h_e | h_e)
    · split at h_e
      · next h_type => exact ⟨dirAhead, List.mem_singleton.mp h_e, .inr ⟨h_type, rfl⟩⟩
      · cases h_e
    · split at h_e
      · next h_type =>
        rcases List.mem_cons.mp h_e with rfl | h_e
        · exact ⟨dirStraight, rfl, .inl h_type⟩
        · exact ⟨dirCurved, List.mem_singleton.mp h_e, .inl h_type⟩
      · cases h_e
  · rintro ⟨i, rfl, h_type | ⟨h_type, rfl⟩⟩
    · refine .inr ?_
      rw [if_pos (show (T.raw n).type = .branch from h_type)]
      rcases h_two i with rfl | rfl
      · exact List.mem_cons_self
      · exact List.mem_cons_of_mem _ (List.mem_singleton_self _)
    · refine .inl ?_
      rw [if_pos (show (T.raw n).type = .merge ∨ (T.raw n).type = .sensor ∨
        (T.raw n).type = .enter from h_type)]
      exact List.mem_singleton_self _

theorem Open.leads (h : T.Open n m c) : T.Leads n m := by
  obtain ⟨e, h_e, h_dest, -⟩ := h
  exact ⟨e, h_e, h_dest⟩

theorem Open.hop (h : T.Open n m c) : T.raw.Hop n m c := by
  obtain ⟨e, h_e, h⟩ := h
  exact ⟨e, List.mem_append_left _ h_e, h⟩

/-- **A hop** is an edge or a reversal: `dijkstra` adds a mock edge to the reverse of every node,
which the nodes without a type do not have. -/
theorem hop_iff : T.raw.Hop n m c ↔
    T.Open n m c ∨ (T.node n).type ≠ .none ∧ m = T.reverse n ∧ c = mockReverseDist := by
  constructor
  · rintro ⟨e, h_e, h_dest, h_dist, h_lt⟩
    rcases List.mem_append.mp h_e with h_e | h_e
    · exact .inl ⟨e, h_e, h_dest, h_dist, h_lt⟩
    · -- the mock edge, which a node that is not typed does not have
      obtain rfl := List.mem_singleton.mp h_e
      by_cases h_type : (T.node n).type = .none
      · rw [show (T.raw n).reverse = none from if_pos h_type] at h_dest
        cases h_dest
      · rw [show (T.raw n).reverse = some (T.reverse n) from if_neg h_type] at h_dest
        exact .inr ⟨h_type, (Option.some.inj h_dest).symm, h_dist.symm⟩
  · rintro (h | ⟨h_type, rfl, rfl⟩)
    · exact h.hop
    · refine ⟨_, List.mem_append_right _ (List.mem_singleton_self _), ?_, rfl, by decide⟩
      exact if_neg h_type

/-- A hop to any other node than the reverse node is an edge. -/
theorem open_of_hop (h : T.raw.Hop n m c) (h_ne : m ≠ T.reverse n) : T.Open n m c := by
  rcases hop_iff.mp h with h | ⟨-, h_eq, -⟩
  · exact h
  · exact absurd h_eq h_ne

theorem Leads.type_ne (h : T.Leads n m) : (T.node n).type ≠ .none := by
  intro h_type
  obtain ⟨e, h_e, -⟩ := h
  obtain ⟨i, -, h_edge⟩ := mem_trackEdges.mp h_e
  simp [h_type] at h_edge

/-- A node that is no branch has one edge at most. -/
theorem Leads.unique {m' : NodeNum} (h : T.Leads n m) (h' : T.Leads n m')
    (h_type : (T.node n).type ≠ .branch) :
    m = m' := by
  obtain ⟨e, h_e, h_dest⟩ := h
  obtain ⟨e', h_e', h_dest'⟩ := h'
  obtain ⟨i, rfl, h_i⟩ := mem_trackEdges.mp h_e
  obtain ⟨i', rfl, h_i'⟩ := mem_trackEdges.mp h_e'
  obtain ⟨-, rfl⟩ := h_i.resolve_left h_type
  obtain ⟨-, rfl⟩ := h_i'.resolve_left h_type
  exact Option.some.inj (h_dest.symm.trans h_dest')

theorem reverse_eq_iff : T.reverse n = m ↔ n = T.reverse m := by
  constructor
  · rintro rfl
    rw [T.reverse_reverse']
  · rintro rfl
    rw [T.reverse_reverse']

/-- A merge has a row in `buffer_nodes`. -/
theorem Mirrored.bufferRow_isSome (h : T.Mirrored) (h_merge : (T.node n).type = .merge) :
    (T.bufferRow n).isSome := by
  have h_num := h.merge_num n h_merge
  have h_index :
      0 ≤ (if (T.node n).num < 153 then (T.node n).num - 1 else (T.node n).num - 153 + 18) ∧
      (if (T.node n).num < 153 then (T.node n).num - 1 else (T.node n).num - 153 + 18) < 22 := by
    split <;> omega
  rw [bufferRow, dif_pos h_index]
  rfl

end Track

/-! ### A track with switches -/

/-- A ring of eleven pairs of merges, ten nodes each: a merge, a second one behind it and a sensor,
with their reverse nodes, and an enter and an exit for the other leg of each switch. The nodes from
110 on are not typed. -/
def switchTrack : Track where
  node n :=
    let place := n.val % 10
    let switch : ℕ := n.val / 10 * 2 + if place = 2 ∨ place = 3 then 1 else 0
    let leads (m : NodeNum) : TrackEdge := { dest := some m, dist := 1 }
    let nowhere : TrackEdge := { dest := none, dist := 0 }
    { type :=
        if 110 ≤ n.val then .none
        else if place = 0 ∨ place = 2 then .merge
        else if place = 1 ∨ place = 3 then .branch
        else if place = 4 ∨ place = 5 then .sensor
        else if place = 6 ∨ place = 8 then .enter
        else .exit
      num :=
        if 4 ≤ place then n
        else if switch < 18 then switch + 1
        else switch + 135
      reverse := if n.val % 2 = 0 then n + 1 else n - 1
      edge := fun i =>
        if place = 0 ∨ place = 2 then leads (n + 2)
        else if place = 4 then leads (if n = 104 then 0 else n + 6)
        else if place = 5 then leads (n - 2)
        else if place = 1 then
          if i = dirStraight then leads (if n = 1 then 105 else n - 6) else leads (n + 6)
        else if place = 3 then if i = dirStraight then leads (n - 2) else leads (n + 6)
        else if place = 6 ∨ place = 8 then leads (n - 6)
        else nowhere }
  reverse_reverse := by decide
  bufferNodes _ := .empty

theorem switchTrack_mirrored : switchTrack.Mirrored where
  wellFormed := by
    refine ⟨fun n h_n e h_e => ?_, by decide +kernel⟩
    have h_all : ∀ n, (switchTrack.raw n).type ≠ .none → ∀ e ∈ (switchTrack.raw n).outEdges,
        (e.dest.any fun m => (switchTrack.raw m).type ≠ .none) = true := by decide +kernel
    obtain ⟨m, h_m, h_typed⟩ := (Option.any_eq_true _ _).mp (h_all n h_n e h_e)
    exact ⟨m, h_m, of_decide_eq_true h_typed⟩
  reverse_ne := by decide
  type_reverse := by decide +kernel
  leads_reverse n m := by
    rintro ⟨e, h_e, h_m⟩
    have h_all : ∀ n, ∀ e ∈ (switchTrack.raw n).trackEdges, (e.dest.all fun m =>
        (switchTrack.raw (switchTrack.reverse m)).trackEdges.any fun e' =>
          e'.dest = some (switchTrack.reverse n)) = true := by decide +kernel
    have h_back := h_all n e h_e
    rw [h_m, Option.all_some, List.any_eq_true] at h_back
    obtain ⟨e', h_e', h_dest⟩ := h_back
    exact ⟨e', h_e', of_decide_eq_true h_dest⟩
  merge_num := by decide +kernel

end PollingExpress
