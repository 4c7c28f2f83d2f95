import Mathlib.Algebra.Order.Group.Int
import Mathlib.Data.Fintype.Card
import Mathlib.Order.Bounds.Basic
import PollingExpress.Framework.ShortestPath
import PollingExpress.Search.Dijkstra

/-!
# How the search ends

The labels of the search are those of `Framework.ShortestPath`: `minDistance_spec` says which node a
turn settles, `relax_spec` what it does to the labels, and `Ends` in which four ways the loop can
end, with what is known of the labels then (`loop_ends`).

`dijkstra_optimal` is about the searches that find something. `dijkstra_clean_iff` is about all: a
search runs out of nodes to settle if the destination may not be passed and every other node is
reached.
-/

namespace PollingExpress
namespace Search

open Dijkstra

/-! ### The next node -/

section
variable {s : Dijkstra} {avoid : NodeNum → Bool} {u : NodeNum}

/-- The node may be settled. -/
def Dijkstra.Free (s : Dijkstra) (avoid : NodeNum → Bool) (i : NodeNum) : Prop :=
  s.inShortestPath i = false ∧ avoid i = false

/-- What `min_index` is after the nodes of a list. -/
def BestOf (s : Dijkstra) (avoid : NodeNum → Bool) (l : List NodeNum) : Option NodeNum → Prop
  | none => ∀ i ∈ l, ¬s.Free avoid i
  | some m => s.Free avoid m ∧ ∀ i ∈ l, s.Free avoid i → s.dist m ≤ s.dist i

/-- One turn of `min_index`. The best node of those looked at is kept up to date if the comparison
with the next node decides for the smaller label, and for the first of two equal ones. -/
theorem BestOf.snoc {l : List NodeNum} {m : Option NodeNum} (h : BestOf s avoid l m) (i : NodeNum) :
    BestOf s avoid (l ++ [i]) (s.minStep avoid m i) := by
  have h_mem : ∀ {P : NodeNum → Prop}, (∀ j ∈ l, P j) → P i → ∀ j ∈ l ++ [i], P j := by
    intro P h_l h_i j h_j
    rcases List.mem_append.mp h_j with h_j | h_j
    · exact h_l j h_j
    · exact List.mem_singleton.mp h_j ▸ h_i
  -- nothing has been found so far, or `i` is compared with what has been
  cases m with
  | none =>
    rw [minStep]
    split
    · next h_free => exact ⟨h_free, h_mem (fun j h_j h_f => absurd h_f (h j h_j)) fun _ => le_rfl⟩
    · next h_free => exact h_mem h h_free
  | some m =>
    obtain ⟨h_m, h_least⟩ := h
    rw [minStep]
    split
    · next h_lt =>
      exact ⟨h_lt.2, h_mem (fun j h_j h_f => h_lt.1.le.trans (h_least j h_j h_f)) fun _ => le_rfl⟩
    · next h_not =>
      refine ⟨h_m, h_mem h_least fun h_free => ?_⟩
      exact not_lt.mp fun h_lt => h_not ⟨h_lt, h_free⟩

/-- **The next node** is one with the least label among those that may be settled. The loop goes
through the array from the front, so the induction is on the nodes it has seen, the last one at the
end. -/
theorem minDistance_spec {m : Option NodeNum} (h : s.minDistance avoid = m) :
    BestOf s avoid (List.finRange trackMax) m := by
  rw [← h, minDistance]
  clear h
  generalize List.finRange trackMax = l
  induction l using List.reverseRecOn with
  | nil => exact fun i h_i => by cases h_i
  | append_singleton l i ih =>
    rw [List.foldl_append]
    exact ih.snoc i

/-! ### The labels after a turn -/

/-- What the calls of `update_dist` for some edges of `u` do: a label changes only if an edge leads
to its node at a smaller cost, then `u` comes before that node; and settled nodes are left alone. -/
structure Lowers (u : NodeNum) (es : List TrackEdge) (s s' : Dijkstra) : Prop where
  inShortestPath : s'.inShortestPath = s.inShortestPath
  each : ∀ v, (s'.dist v = s.dist v ∧ s'.prev v = s.prev v) ∨
    (s.inShortestPath v = false ∧ s'.prev v = some u ∧ s'.dist v < s.dist v ∧
      ∃ e ∈ es, e.dest = some v ∧ s'.dist v = s.dist u + e.dist)
  lowered : ∀ e ∈ es, ∀ v, e.dest = some v → s.inShortestPath v = false →
    s'.dist v ≤ s.dist u + e.dist

theorem Lowers.dist_le {es : List TrackEdge} {s' : Dijkstra} (h : Lowers u es s s') (v : NodeNum) :
    s'.dist v ≤ s.dist v := by
  rcases h.each v with h_same | ⟨-, -, h_lt, -⟩
  · exact h_same.1.le
  · exact h_lt.le

theorem Lowers.dist_settled {es : List TrackEdge} {s' : Dijkstra} (h : Lowers u es s s')
    {v : NodeNum} (h_v : s.inShortestPath v = true) : s'.dist v = s.dist v := by
  rcases h.each v with h_same | ⟨h_not, -⟩
  · exact h_same.1
  · cases h_v.symm.trans h_not

/-- An edge that is relaxed. The label of its end goes down to the way over this edge if that is
shorter, with the settled node as its predecessor; no other label changes. -/
theorem updateDist_lowers {v : NodeNum} {uv : TrackEdge} (h_dest : uv.dest = some v)
    (h_u : s.dist u ≠ inf) :
    Lowers u [uv] s (s.updateDist u v uv) := by
  unfold updateDist
  split
  · next h_v =>
    dsimp only
    split
    · -- the label of `v` goes down, and no other changes
      next h_lt =>
      refine ⟨rfl, fun w => ?_, fun e h_e w h_w h_free => ?_⟩
      · by_cases h_eq : w = v
        · subst h_eq
          have h_new : Function.update s.dist w (s.dist u + uv.dist) w = s.dist u + uv.dist :=
            Function.update_self _ _ _
          exact .inr ⟨h_v, Function.update_self _ _ _, h_new.trans_lt h_lt.1, uv,
            List.mem_singleton_self uv,
            h_dest, h_new⟩
        · exact .inl ⟨Function.update_of_ne h_eq _ _, Function.update_of_ne h_eq _ _⟩
      · obtain rfl := List.mem_singleton.mp h_e
        obtain rfl := Option.some.inj (h_dest.symm.trans h_w)
        exact (Function.update_self v (s.dist u + e.dist) s.dist).le
    · next h_not =>
      refine ⟨rfl, fun w => .inl ⟨rfl, rfl⟩, fun e h_e w h_w h_free => ?_⟩
      obtain rfl := List.mem_singleton.mp h_e
      obtain rfl := Option.some.inj (h_dest.symm.trans h_w)
      exact not_lt.mp fun h_lt => h_not ⟨h_lt, h_u⟩
  · next h_v =>
    refine ⟨rfl, fun w => .inl ⟨rfl, rfl⟩, fun e h_e w h_w h_free => ?_⟩
    obtain rfl := List.mem_singleton.mp h_e
    obtain rfl := Option.some.inj (h_dest.symm.trans h_w)
    exact absurd h_free h_v

/-- First one edge, then the others. -/
theorem Lowers.cons {uv : TrackEdge} {es : List TrackEdge} {s₁ s' : Dijkstra}
    (h : Lowers u [uv] s s₁) (h_u : s.inShortestPath u = true) (h_rest : Lowers u es s₁ s') :
    Lowers u (uv :: es) s s' := by
  -- the node itself is settled, so that its label is the same for all of its edges
  have h_same : s₁.dist u = s.dist u := h.dist_settled h_u
  refine ⟨h_rest.inShortestPath.trans h.inShortestPath, fun v => ?_, fun e h_e v h_v h_free => ?_⟩
  · rcases h_rest.each v with h_v | ⟨h_free, h_prev, h_lt, e, h_e, h_dest, h_eq⟩
    · rcases h.each v with h_v' | ⟨h_free, h_prev, h_lt, e, h_e, h_dest, h_eq⟩
      · exact .inl ⟨h_v.1.trans h_v'.1, h_v.2.trans h_v'.2⟩
      · obtain rfl := List.mem_singleton.mp h_e
        refine .inr ⟨h_free, h_v.2.trans h_prev, ?_, e, List.mem_cons_self, h_dest,
          h_v.1.trans h_eq⟩
        rw [h_v.1]
        exact h_lt
    · rw [h.inShortestPath] at h_free
      refine .inr ⟨h_free, h_prev, h_lt.trans_le (h.dist_le v), e,
        List.mem_cons_of_mem _ h_e, h_dest, ?_⟩
      rw [h_eq, h_same]
  · rcases List.mem_cons.mp h_e with rfl | h_e
    · exact (h_rest.dist_le v).trans (h.lowered e (List.mem_singleton_self e) v h_v h_free)
    · rw [← h_same]
      exact h_rest.lowered e h_e v h_v (by rwa [h.inShortestPath])

/-- **The edges of a node**: the labels are lowered along all of them, unless one of them has no
node at its end. The induction is on the edges; in between `u` keeps its label, since it is
settled. -/
theorem relax_spec {es : List TrackEdge} (h_settled : s.inShortestPath u = true)
    (h_u : s.dist u ≠ inf) :
    (∃ s', relax u s es = .ok s' ∧ Lowers u es s s' ∧ ∀ e ∈ es, e.dest ≠ none) ∨
      (relax u s es = .error .noNode ∧ ∃ e ∈ es, e.dest = none) := by
  induction es generalizing s with
  | nil => exact .inl ⟨s, rfl, ⟨rfl, fun v => .inl ⟨rfl, rfl⟩, by simp⟩, by simp⟩
  | cons uv es ih =>
    rw [relax]
    -- an edge without a node is read through a null pointer
    cases h_dest : uv.dest with
    | none => exact .inr ⟨rfl, uv, List.mem_cons_self, h_dest⟩
    | some v =>
      have h_one := updateDist_lowers h_dest h_u
      have h_u' : (s.updateDist u v uv).dist u ≠ inf := by rwa [h_one.dist_settled h_settled]
      have h_settled' : (s.updateDist u v uv).inShortestPath u = true := by
        rw [h_one.inShortestPath]
        exact h_settled
      rcases ih h_settled' h_u' with ⟨s', h_ok, h_lowers, h_all⟩ | ⟨h_error, e, h_e, h_none⟩
      · refine .inl ⟨s', h_ok, h_one.cons h_settled h_lowers, ?_⟩
        intro e h_e
        rcases List.mem_cons.mp h_e with rfl | h_e
        · simp [h_dest]
        · exact h_all e h_e
      · exact .inr ⟨h_error, e, List.mem_cons_of_mem _ h_e, h_none⟩

end

/-! ### The loop -/

section
variable {T : RawTrack} {src dest : NodeNum} {avoid : NodeNum → Bool}

/-- What is searched. -/
def RawTrack.graph (h : T.WellFormed) (src : NodeNum) (avoid : NodeNum → Bool) :
    SearchGraph NodeNum Int where
  hop := T.Hop
  nonneg := by
    rintro u v c ⟨e, h_e, -, rfl, -⟩
    exact (h.dist u e h_e).1
  allowed n := avoid n = false
  src

def Dijkstra.labels (s : Dijkstra) : Labels NodeNum Int where
  dist := s.dist
  prev := s.prev
  settled n := s.inShortestPath n = true

/-- What a turn keeps: the invariant of the search in general (`Explored`), with the arrays as the
labels; and since the destination ends the search, it is not settled as long as the loop runs. -/
structure Searching (h : T.WellFormed) (src dest : NodeNum) (avoid : NodeNum → Bool)
    (s : Dijkstra) : Prop where
  explored : Explored (RawTrack.graph h src avoid) inf s.labels
  dest_open : s.inShortestPath dest = false
  /-- The edges of a settled node have been followed. -/
  followed : ∀ u, s.inShortestPath u = true → ∀ e ∈ (T u).outEdges, e.dest ≠ none

/-- The ways in which the loop ends. -/
inductive Ends (h : T.WellFormed) (src dest : NodeNum) (avoid : NodeNum → Bool) :
    Except Fault (Int × (NodeNum → Option NodeNum)) → Prop
  /-- The destination is next. -/
  | found {s : Dijkstra} (h_s : Searching h src dest avoid s) (h_dest : avoid dest = false)
      (h_lt : s.dist dest < inf)
      (h_min : ∀ n, avoid n = false → s.inShortestPath n = false → s.dist dest ≤ s.dist n) :
      Ends h src dest avoid (.ok (s.dist dest, s.prev))
  /-- No node that can be settled has been reached. -/
  | unreached {s : Dijkstra} {u : NodeNum} (h_s : Searching h src dest avoid s)
      (h_u : avoid u = false) (h_open : s.inShortestPath u = false)
      (h_min : ∀ n, avoid n = false → s.inShortestPath n = false → inf ≤ s.dist n) :
      Ends h src dest avoid (.ok (-1, s.prev))
  /-- There is no node that can be settled. -/
  | exhausted {s : Dijkstra} (h_s : Searching h src dest avoid s)
      (h_all : ∀ n, avoid n = false → s.inShortestPath n = true) :
    Ends h src dest avoid (.error .noCandidate)
  /-- A node that was reached has an edge to nowhere. -/
  | noNode {s : Dijkstra} {u : NodeNum} (h_s : Searching h src dest avoid s) (h_u : avoid u = false)
      (h_open : s.inShortestPath u = false) (h_lt : s.dist u < inf) (h_ne : u ≠ dest)
      (h_none : ∃ e ∈ (T u).outEdges, e.dest = none) : Ends h src dest avoid (.error .noNode)

theorem searching_start (h : T.WellFormed) (src dest : NodeNum) (avoid : NodeNum → Bool) :
    Searching h src dest avoid (.start src) where
  explored := by
    have h_src : Function.update (fun _ : NodeNum => inf) src 0 src = 0 :=
      Function.update_self _ _ _
    have h_other : ∀ v, v ≠ src → Function.update (fun _ : NodeNum => inf) src 0 v = inf :=
      fun v h_v => Function.update_of_ne h_v _ _
    exact .start (by decide) h_src h_other (fun _ => rfl) fun _ h_v => by cases h_v
  dest_open := rfl
  followed u h_u := by cases h_u

/-- The nodes that are not settled. -/
def Dijkstra.unsettled (s : Dijkstra) : Finset NodeNum :=
  Finset.univ.filter fun n => s.inShortestPath n = false

theorem settled_of_lowers {s s' : Dijkstra} {u : NodeNum} {es : List TrackEdge}
    (h_lowers : Lowers u es { s with inShortestPath := Function.update s.inShortestPath u true } s')
    (v : NodeNum) :
    s'.inShortestPath v = true ↔ v = u ∨ s.inShortestPath v = true := by
  rw [h_lowers.inShortestPath]
  by_cases h_v : v = u
  · rw [h_v]
    exact iff_of_true (Function.update_self _ _ _) (.inl rfl)
  · simp [h_v]

/-- What the loop over the edges does to the labels. -/
theorem Searching.relaxes {h : T.WellFormed} {s s' : Dijkstra} {u : NodeNum}
    (h_s : Searching h src dest avoid s) (h_lowers : Lowers u (T u).outEdges
      { s with inShortestPath := Function.update s.inShortestPath u true } s') :
    Relaxes (RawTrack.graph h src avoid) s.labels s'.labels u := by
  refine ⟨settled_of_lowers h_lowers, fun v => ?_, ?_⟩
  · refine (h_lowers.each v).imp_right fun ⟨h_v, h_prev, h_lower, e, h_e, h_dest, h_eq⟩ => ?_
    have h_v_ne : v ≠ u := by
      rintro rfl
      exact absurd ((Function.update_self v true s.inShortestPath).symm.trans h_v) (by simp)
    refine ⟨?_, h_v_ne, h_prev, h_lower, e.dist, ⟨e, h_e, h_dest, rfl, ?_⟩, h_eq⟩
    · rw [Dijkstra.labels, Bool.not_eq_true]
      exact (Function.update_of_ne h_v_ne true s.inShortestPath).symm.trans h_v
    · -- a broken edge lowers no label
      have h_nonneg : 0 ≤ s.dist u := h_s.explored.nonneg u
      have h_le : s.dist v ≤ inf := h_s.explored.le_limit v
      have h_lower : s'.dist v < s.dist v := h_lower
      have h_eq : s'.dist v = s.dist u + e.dist := h_eq
      omega
  · rintro v c ⟨e, h_e, h_dest, rfl, -⟩ h_v h_v_ne
    refine h_lowers.lowered e h_e v h_dest ?_
    exact (Function.update_of_ne h_v_ne true s.inShortestPath).trans (Bool.eq_false_iff.mpr h_v)

/-- **One turn** that settles a node. For the labels it is the step of the search in general
(`Explored.expand`): the node has the least label, and its edges have been followed. -/
theorem Searching.turn {h : T.WellFormed} {s s' : Dijkstra} {u : NodeNum}
    (h_s : Searching h src dest avoid s) (h_u : s.Free avoid u) (h_lt : s.dist u < inf)
    (h_ne : u ≠ dest)
    (h_min : ∀ n, avoid n = false → s.inShortestPath n = false → s.dist u ≤ s.dist n)
    (h_lowers : Lowers u (T u).outEdges
      { s with inShortestPath := Function.update s.inShortestPath u true } s')
    (h_all : ∀ e ∈ (T u).outEdges, e.dest ≠ none) : Searching h src dest avoid s' := by
  have h_settled := settled_of_lowers h_lowers
  refine
    ⟨h_s.explored.expand h_u.2 (by simp [Dijkstra.labels, h_u.1]) h_lt ?_ (h_s.relaxes h_lowers),
    ?_, ?_⟩
  · exact fun v h_v h_open => h_min v h_v (Bool.eq_false_iff.mpr h_open)
  · -- the node that has been settled is not the destination
    rw [Bool.eq_false_iff]
    intro h_dest
    rcases (h_settled dest).mp h_dest with h_eq | h_old
    · exact h_ne h_eq.symm
    · cases h_old.symm.trans h_s.dest_open
  · intro v h_v
    rcases (h_settled v).mp h_v with rfl | h_old
    · exact h_all
    · exact h_s.followed v h_old

/-- A turn that settles a node leaves fewer nodes to settle. The search ends because of this. -/
theorem unsettled_ssubset {s s' : Dijkstra} {u : NodeNum} {es : List TrackEdge}
    (h_u : s.inShortestPath u = false)
    (h_lowers :
      Lowers u es { s with inShortestPath := Function.update s.inShortestPath u true } s') :
    s'.unsettled ⊂ s.unsettled := by
  have h_same := h_lowers.inShortestPath
  refine Finset.ssubset_iff_of_subset ?_ |>.mpr
    ⟨u, Finset.mem_filter.mpr ⟨Finset.mem_univ u, h_u⟩, ?_⟩
  · intro v h_v
    have h_v := (Finset.mem_filter.mp h_v).2
    rw [h_same] at h_v
    refine Finset.mem_filter.mpr ⟨Finset.mem_univ v, ?_⟩
    -- what is open after the turn was open before it
    by_cases h_eq : v = u
    · rwa [h_eq]
    · exact (Function.update_of_ne h_eq true s.inShortestPath).symm.trans h_v
  · -- and the node itself is open no more
    intro h_mem
    have h_open := (Finset.mem_filter.mp h_mem).2
    rw [h_same] at h_open
    exact absurd ((Function.update_self u true s.inShortestPath).symm.trans h_open) (by simp)

/-- **The loop ends**, in one of four ways. The induction is on the turns that are left, of which
there are more than nodes to settle. A turn that finds no candidate, one that cannot be reached, the
destination, or an edge that leads nowhere is the last; any other settles a node. -/
theorem loop_ends (h : T.WellFormed) {turns : ℕ} {s : Dijkstra} (h_s : Searching h src dest avoid s)
    (h_turns : s.unsettled.card < turns) : Ends h src dest avoid (loop T dest avoid turns s) := by
  induction turns generalizing s with
  | zero => exact absurd h_turns (Nat.not_lt_zero _)
  | succ turns ih =>
    cases h_min : s.minDistance avoid with
    | none =>
      -- no node is left that may be settled
      rw [loop, h_min, turn]
      refine .exhausted h_s fun n h_n => ?_
      by_contra h_open
      exact minDistance_spec h_min n (List.mem_finRange n) ⟨Bool.eq_false_iff.mpr h_open, h_n⟩
    | some u =>
      obtain ⟨h_free, h_least⟩ := minDistance_spec h_min
      have h_least : ∀ n, avoid n = false → s.inShortestPath n = false → s.dist u ≤ s.dist n :=
        fun n h_n h_open => h_least n (List.mem_finRange n) ⟨h_open, h_n⟩
      have h_le : s.dist u ≤ inf := h_s.explored.le_limit u
      rw [loop, h_min, turn]
      split
      · next h_inf => exact .unreached h_s h_free.2 h_free.1 fun n h_n h_open =>
          h_inf.ge.trans (h_least n h_n h_open)
      · next h_inf =>
        have h_lt : s.dist u < inf := lt_of_le_of_ne h_le h_inf
        split
        · next h_dest =>
          subst h_dest
          exact .found h_s h_free.2 h_lt h_least
        · next h_dest =>
          rcases @relax_spec { s with inShortestPath := Function.update s.inShortestPath u true } u
              (T u).outEdges (Function.update_self u true s.inShortestPath) h_inf with
            ⟨s', h_ok, h_lowers, h_all⟩ | ⟨h_error, h_none⟩
          · -- the node is settled, and one fewer is left
            rw [settle, h_ok]
            refine ih (h_s.turn h_free h_lt h_dest h_least h_lowers h_all) ?_
            exact (Finset.card_lt_card (unsettled_ssubset h_free.1 h_lowers)).trans_le
              (Nat.lt_succ_iff.mp h_turns)
          · rw [settle, h_error]
            exact .noNode h_s h_free.2 h_free.1 h_lt h_dest h_none

theorem dijkstra_ends (h : T.WellFormed) (src dest : NodeNum) (avoid : NodeNum → Bool) :
    Ends h src dest avoid (dijkstra T src dest avoid) := by
  refine loop_ends h (searching_start h src dest avoid) (Nat.lt_succ_of_le ?_)
  exact (Finset.card_le_univ _).trans (Fintype.card_fin _).le

/-- A walk through nodes that may be passed. -/
abbrev RawTrack.WalkTo (h : T.WellFormed) (src : NodeNum) (avoid : NodeNum → Bool) (n : NodeNum)
    (c : Int) : Prop :=
  Walk (RawTrack.graph h src avoid) n c

/-! ### What is found -/

theorem followPrev_of_traced {prev : NodeNum → Option NodeNum} {n : NodeNum} {l : List NodeNum}
    (h : Traced prev n l) {nodes : ℕ} (h_nodes : l.length ≤ nodes) :
    followPrev prev nodes n = some l := by
  induction h generalizing nodes with
  | start h_none =>
    obtain ⟨nodes, rfl⟩ := Nat.exists_eq_succ_of_ne_zero (Nat.pos_iff_ne_zero.mp h_nodes)
    rw [followPrev, h_none]
  | @step u v l h_prev h ih =>
    rw [List.length_append, List.length_singleton] at h_nodes
    obtain ⟨nodes, rfl⟩ := Nat.exists_eq_succ_of_ne_zero (show nodes ≠ 0 by omega)
    rw [followPrev, h_prev]
    dsimp only
    rw [ih (by omega)]
    rfl

/-- What `pathfind_worker` finds in `prev`: a route that repeats no node and passes none to avoid.
It begins at the source, ends at the destination, has room in the array of the answer, and costs
what the search says. -/
structure RouteTo (T : RawTrack) (src dest : NodeNum) (avoid : NodeNum → Bool) (d : Int)
    (prev : NodeNum → Option NodeNum) (route : List NodeNum) : Prop where
  followed : followPrev prev trackMax dest = some route
  length_le : route.length ≤ trackMax
  nodup : route.Nodup
  head : route.head? = some src
  last : route.getLast? = some dest
  allowed : ∀ n ∈ route, avoid n = false
  route : Route T.Hop route d

theorem RouteTo.walk {h : T.WellFormed} {d : Int} {prev : NodeNum → Option NodeNum}
    {route : List NodeNum} (h_route : RouteTo T src dest avoid d prev route) :
    T.WalkTo h src avoid dest d := by
  obtain ⟨rest, rfl⟩ := List.head?_eq_some_iff.mp h_route.head
  rw [← zero_add d]
  refine Walk.append_route (.start (h_route.allowed src List.mem_cons_self)) h_route.route
    h_route.last ?_
  exact fun n h_n => h_route.allowed n (List.mem_cons_of_mem _ h_n)

/-- The route to a node that has been reached and not settled. -/
theorem Searching.routeTo {h : T.WellFormed} {s : Dijkstra} {u : NodeNum}
    (h_s : Searching h src dest avoid s) (h_open : s.inShortestPath u = false)
    (h_u : avoid u = false) (h_lt : s.dist u < inf) :
    ∃ route, RouteTo T src u avoid (s.dist u) s.prev route := by
  obtain ⟨l, h_found, h_l⟩ :=
    h_s.explored.found_of_lt (v := u) (by simp [Dijkstra.labels, h_open]) h_lt
  have h_length : l.length ≤ trackMax := by
    rw [← Fintype.card_fin trackMax]
    exact h_found.nodup.length_le_card
  refine ⟨l, followPrev_of_traced h_found.traced h_length, h_length, h_found.nodup, h_found.head,
    h_found.traced.getLast?, fun n h_n => ?_, h_found.route⟩
  rcases h_l n h_n with rfl | h_settled
  · exact h_u
  · exact h_s.explored.allowed n h_settled

end

/-- **The search is optimal, and `prev` is a route**: if it finds something, it is the least cost of
a walk from the source to the destination that passes no node to avoid, and following `prev` gives a
route of that cost.

`Searching` holds at the head of the loop: the labels of the settled nodes are least costs, those of
the others are least over the walks through settled nodes, and `prev` leads back to the source along
edges that pay for the difference. Reversing is an edge of the search, of the cost that the code
gives it. -/
theorem dijkstra_optimal {T : RawTrack} (h : T.WellFormed) (src dest : NodeNum)
    (avoid : NodeNum → Bool) {d : Int} {prev : NodeNum → Option NodeNum}
    (h_ok : dijkstra T src dest avoid = .ok (d, prev)) (h_d : 0 ≤ d) :
    IsLeast { c | T.WalkTo h src avoid dest c } d ∧ ∃ route,
      RouteTo T src dest avoid d prev route := by
  have h_ends := dijkstra_ends h src dest avoid
  rw [h_ok] at h_ends
  cases h_ends with
  | unreached _ _ _ _ => exact absurd h_d (by decide)
  | @found s h_s h_dest h_lt h_min =>
    obtain ⟨route, h_route⟩ := h_s.routeTo h_s.dest_open h_dest h_lt
    refine ⟨⟨h_route.walk, fun c h_walk => ?_⟩, route, h_route⟩
    -- the destination has the least label of all that may be settled
    rcases h_s.explored.le_of_walk (m := s.dist dest)
        (fun n h_n h_open => h_min n h_n (Bool.eq_false_iff.mpr h_open)) h_walk
          with ⟨h_settled, -⟩ | h_le
    · cases h_s.dest_open.symm.trans h_settled
    · exact h_le

theorem ringTrack_wellFormed : ringTrack.raw.WellFormed where
  dest n _ e h_e := by
    have h_all : ∀ n, ∀ e ∈ (ringTrack.raw n).outEdges, e.dest ≠ none := by decide +kernel
    obtain ⟨m, h_m⟩ := Option.ne_none_iff_exists'.mp (h_all n e h_e)
    exact ⟨m, h_m, nofun⟩
  dist := by decide +kernel

theorem dijkstra_optimal_ring : ∃ prev,
    IsLeast { c | RawTrack.WalkTo ringTrack_wellFormed 0 (fun _ => false) 6 c } 3 ∧
      ∃ route, RouteTo ringTrack.raw 0 6 (fun _ => false) 3 prev route := by
  have h_run : (dijkstra ringTrack.raw 0 6 fun _ => false).toOption.any (fun p => p.1 = 3) =
      true := by
    decide +kernel
  obtain ⟨⟨d, prev⟩, h_ok, h_d⟩ := (Option.any_eq_true _ _).mp h_run
  obtain rfl : d = 3 := of_decide_eq_true h_d
  exact ⟨prev, dijkstra_optimal ringTrack_wellFormed 0 6 _ (of_toOption h_ok) (by decide)⟩

/-! ### Searches that end -/

section
variable {T : RawTrack} {src dest n : NodeNum} {avoid : NodeNum → Bool} {c : Int} {h : T.WellFormed}

/-- The node can be reached at a cost below `INF`. -/
def RawTrack.Reached (h : T.WellFormed) (src : NodeNum) (avoid : NodeNum → Bool) (n : NodeNum) :
    Prop :=
  ∃ c < inf, RawTrack.WalkTo h src avoid n c

/-- A walk leads to typed nodes, but for its source. -/
theorem typed_of_walk (h_zeroed : T.Zeroed) (h_walk : T.WalkTo h src avoid n c) :
    n = src ∨ (T n).type ≠ .none := by
  induction h_walk with
  | start _ => exact .inl rfl
  | @hop u v d c _ h_hop _ ih =>
    obtain ⟨e, h_e, h_dest, -, -⟩ := h_hop
    by_cases h_u : (T u).type = .none
    · -- such a node has no hop
      have h_edges : (T u).outEdges = [{ dest := none, dist := mockReverseDist }] := by
        simp [RawNode.outEdges, RawNode.trackEdges, h_u, h_zeroed u h_u]
      rw [h_edges, List.mem_singleton] at h_e
      rw [h_e] at h_dest
      cases h_dest
    · obtain ⟨m, h_m, h_typed⟩ := h.dest u h_u e h_e
      obtain rfl := Option.some.inj (h_dest.symm.trans h_m)
      exact .inr h_typed

/-- A source that is not typed leads nowhere. -/
theorem eq_src_of_walk (h_zeroed : T.Zeroed) (h_src : (T src).type = .none)
    (h_walk : T.WalkTo h src avoid n c) :
    n = src := by
  induction h_walk with
  | start _ => rfl
  | @hop u v d c _ h_hop _ ih =>
    obtain rfl : u = src := ih
    obtain ⟨e, h_e, h_dest, -, -⟩ := h_hop
    have h_edges : (T u).outEdges = [{ dest := none, dist := mockReverseDist }] := by
      simp [RawNode.outEdges, RawNode.trackEdges, h_src, h_zeroed u h_src]
    rw [h_edges, List.mem_singleton] at h_e
    rw [h_e] at h_dest
    cases h_dest

theorem Searching.reached {s : Dijkstra} (h_s : Searching h src dest avoid s)
    (h_n : s.inShortestPath n = true) : T.Reached h src avoid n :=
  ⟨s.dist n, h_s.explored.lt_limit n h_n, h_s.explored.walk h_n⟩

/-- If the labels of all nodes that may be settled are `INF`, what can be reached is settled. -/
theorem Searching.settled_of_reached {s : Dijkstra} (h_s : Searching h src dest avoid s)
    (h_min : ∀ n, avoid n = false → s.inShortestPath n = false → inf ≤ s.dist n)
    (h_n : T.Reached h src avoid n) : s.inShortestPath n = true := by
  obtain ⟨c, h_c, h_walk⟩ := h_n
  rcases h_s.explored.le_of_walk (m := inf)
      (fun n h_n h_open => h_min n h_n (Bool.eq_false_iff.mpr h_open)) h_walk
        with ⟨h_settled, -⟩ | h_le
  · exact h_settled
  · exact absurd h_c (not_lt.mpr h_le)

end

/-- **When the search ends cleanly**: it stays inside its arrays, and returns -1 exactly if the
destination cannot be reached, unless the destination may not be passed and all other nodes that may
be are reached, or it starts at a node that is not typed.

The search can end in four ways (`Ends`). It finds the destination, or nothing that is left can be
reached; or everything that may be passed has been settled, and `min_index` stays at -1 in a read of
the arrays; or it follows the reverse of a node that is not typed, which is a null pointer. The loop
ends, since each turn settles a node. -/
theorem dijkstra_clean_iff {T : RawTrack} (h : T.WellFormed) (h_zeroed : T.Zeroed)
    (src dest : NodeNum) (avoid : NodeNum → Bool) :
    (∃ d prev, dijkstra T src dest avoid = .ok (d, prev) ∧ (d = -1 ↔ ¬T.Reached h src avoid dest)) ↔
      (avoid dest = true → ∃ n, avoid n = false ∧ ¬T.Reached h src avoid n) ∧
        ((T src).type = .none → avoid src = true ∨ src = dest) := by
  have h_ends := dijkstra_ends h src dest avoid
  constructor
  · rintro ⟨d, prev, h_ok, h_iff⟩
    rw [h_ok] at h_ends
    cases h_ends with
    | @found s h_s h_dest h_lt h_min =>
      refine ⟨fun h_avoid => (by cases h_avoid.symm.trans h_dest), fun h_src => .inr ?_⟩
      -- a distance is never -1, so the destination is reached
      have h_nonneg : 0 ≤ s.dist dest := h_s.explored.nonneg dest
      obtain ⟨c, -, h_walk⟩ : T.Reached h src avoid dest := by
        by_contra h_not
        have h_eq := h_iff.mpr h_not
        omega
      exact (eq_src_of_walk h_zeroed h_src h_walk).symm
    | @unreached s u h_s h_u h_open h_min =>
      refine ⟨fun _ => ⟨u, h_u, fun h_reached => ?_⟩, fun h_src => .inl ?_⟩
      · cases h_open.symm.trans (h_s.settled_of_reached h_min h_reached)
      · by_contra h_avoid
        have h_avoid : avoid src = false := Bool.eq_false_iff.mpr h_avoid
        -- the source has been settled, and its reverse followed
        have h_settled : s.inShortestPath src = true :=
          h_s.settled_of_reached h_min ⟨0, by decide, .start h_avoid⟩
        refine h_s.followed src h_settled { dest := none, dist := mockReverseDist } ?_ rfl
        simp [RawNode.outEdges, h_zeroed src h_src]
  · rintro ⟨h_some, h_typed⟩
    generalize dijkstra T src dest avoid = r at h_ends ⊢
    cases h_ends with
    | @found s h_s h_dest h_lt h_min =>
      have h_nonneg : 0 ≤ s.dist dest := h_s.explored.nonneg dest
      obtain ⟨route, h_route⟩ := h_s.routeTo h_s.dest_open h_dest h_lt
      refine
        ⟨s.dist dest, s.prev, rfl, iff_of_false (by omega) (not_not.mpr ⟨s.dist dest, h_lt, ?_⟩)⟩
      exact h_route.walk
    | @unreached s u h_s h_u h_open h_min =>
      refine ⟨-1, s.prev, rfl, iff_of_true rfl fun h_reached => ?_⟩
      cases h_s.dest_open.symm.trans (h_s.settled_of_reached h_min h_reached)
    | @exhausted s h_s h_all =>
      have h_dest : avoid dest = true := by
        by_contra h_open
        cases h_s.dest_open.symm.trans (h_all dest (Bool.eq_false_iff.mpr h_open))
      -- all that may be passed is settled, which the condition excludes
      obtain ⟨n, h_n, h_not⟩ := h_some h_dest
      exact absurd (h_s.reached (h_all n h_n)) h_not
    | @noNode s u h_s h_u h_open h_lt h_ne h_none =>
      obtain ⟨e, h_e, h_none⟩ := h_none
      obtain ⟨route, h_route⟩ := h_s.routeTo h_open h_u h_lt
      -- only a node that is not typed has an edge without a node, and only the source can be one
      by_cases h_type : (T u).type = .none
      · rcases typed_of_walk h_zeroed (@RouteTo.walk T src u avoid h _ _ _ h_route) with rfl | h_not
        · rcases h_typed h_type with h_avoid | h_eq
          · cases h_avoid.symm.trans h_u
          · exact absurd h_eq h_ne
        · exact absurd h_type h_not
      · obtain ⟨m, h_m, -⟩ := h.dest u h_type e h_e
        cases h_none.symm.trans h_m

theorem ringTrack_zeroed : ringTrack.raw.Zeroed := nofun

theorem dijkstra_clean_ring : ∃ d prev, dijkstra ringTrack.raw 0 6 (fun _ => false) =
      .ok (d, prev) ∧
    (d = -1 ↔ ¬RawTrack.Reached ringTrack_wellFormed 0 (fun _ => false) 6) :=
  (dijkstra_clean_iff ringTrack_wellFormed ringTrack_zeroed 0 6 fun _ => false).mpr ⟨nofun, nofun⟩

/-- **A destination that is reserved**: only the source may be passed, and when it is settled there
is no candidate left; the search goes on with `track[-1]`. -/
theorem dijkstra_exhausted :
    dijkstra ringTrack.raw 0 2 (fun n => n ≠ 0) = .error .noCandidate ∧
      ¬∃ d prev, dijkstra ringTrack.raw 0 2 (fun n => n ≠ 0) = .ok (d, prev) ∧
        (d = -1 ↔ ¬RawTrack.Reached ringTrack_wellFormed 0 (fun n => n ≠ 0) 2) := by
  have h_error : dijkstra ringTrack.raw 0 2 (fun n => n ≠ 0) = .error .noCandidate := by
    have h_run : (match dijkstra ringTrack.raw 0 2 (fun n => n ≠ 0) with
        | .error f => some f
        | .ok _ => none) = some .noCandidate := by decide +kernel
    split at h_run
    · next f h_f => rw [h_f, Option.some.inj h_run]
    · cases h_run
  refine ⟨h_error, ?_⟩
  rintro ⟨d, prev, h_ok, -⟩
  cases h_error.symm.trans h_ok

end Search
end PollingExpress
