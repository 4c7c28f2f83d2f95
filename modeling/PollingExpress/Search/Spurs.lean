import PollingExpress.Framework.Closure
import PollingExpress.Search.Settling

/-!
# Tracks with spurs

Where some switches are broken a train may get away from a part of the track and not back into it.
`Spurs` says that a track is a main part, which can be reached from everywhere, and spurs, which can
be left but not entered; `home` is a node of the part. It can be looked up. Whether the search finds
a node at all is then read off the parts (`Spurs.reached_iff`).
-/

namespace PollingExpress
namespace Search

variable {T : RawTrack} {src dest n m : NodeNum} {k : ℕ}

/-- The hops of a track. -/
def hops (T : RawTrack) : List (NodeNum × NodeNum) :=
  (List.finRange trackMax).flatMap fun n => (T n).outEdges.filterMap fun e =>
    if e.dist < inf then e.dest.map fun m => (n, m) else none

theorem mem_hops : (n, m) ∈ hops T ↔ ∃ c, T.Hop n m c := by
  rw [hops, List.mem_flatMap]
  constructor
  · rintro ⟨n', -, h_mem⟩
    obtain ⟨e, h_e, h_mem⟩ := List.mem_filterMap.mp h_mem
    split at h_mem
    · next h_lt =>
      obtain ⟨m', h_dest, h_eq⟩ := Option.map_eq_some_iff.mp h_mem
      obtain ⟨rfl, rfl⟩ := Prod.mk.inj h_eq
      exact ⟨e.dist, e, h_e, h_dest, rfl, h_lt⟩
    · cases h_mem
  · rintro ⟨c, e, h_e, h_dest, rfl, h_lt⟩
    refine ⟨n, List.mem_finRange n, List.mem_filterMap.mpr ⟨e, h_e, ?_⟩⟩
    rw [if_pos h_lt, h_dest]
    rfl

/-- So many hops cost so much at most. -/
theorem walkTo_of_within (h : T.WellFormed) {longest : Int} (h_nonneg : 0 ≤ longest)
    (h_longest : ∀ n m c, T.Hop n m c → c ≤ longest) (h_within : Within (hops T) k n m) :
    ∃ c ≤ k * longest, T.WalkTo h n (fun _ => false) m c := by
  induction h_within with
  | refl => exact ⟨0, mul_nonneg (Int.natCast_nonneg _) h_nonneg, .start rfl⟩
  | @step k n m m' _ h_edge ih =>
    obtain ⟨c, h_c, h_walk⟩ := ih
    obtain ⟨d, h_hop⟩ := mem_hops.mp h_edge
    refine ⟨c + d, ?_, .hop h_walk h_hop rfl⟩
    have h_d := h_longest m m' d h_hop
    rw [Nat.cast_add, add_mul, Nat.cast_one, one_mul]
    exact add_le_add h_c h_d

/-- The parts of a track, each with the node that it is called after. -/
structure Spurs (T : RawTrack) (rounds : ℕ) (homes : List NodeNum) (home : NodeNum → NodeNum) :
    Prop where
  /-- A spur cannot be entered. -/
  closed : ∀ e ∈ hops T, home e.2 = 0 ∨ home e.2 = home e.1
  from_home : ∀ c ∈ homes, ∀ n, home n = c → (reached (hops T) rounds c).testBit n = true
  to_home : ∀ c ∈ homes, ∀ n, home n = c →
    (reached ((hops T).map Prod.swap) rounds c).testBit n = true
  to_main : ∀ n, (T n).type ≠ .none → (reached ((hops T).map Prod.swap) rounds 0).testBit n = true
  mem : 0 ∈ homes ∧ ∀ n, (T n).type ≠ .none → home n ∈ homes

/-- Which edges lead into a spur is read off the list of the hops. -/
theorem closed_of_all {home : NodeNum → NodeNum}
    (h : (hops T).all (fun e => decide (home e.2 = 0 ∨ home e.2 = home e.1)) = true) :
    ∀ e ∈ hops T, home e.2 = 0 ∨ home e.2 = home e.1 :=
  fun e h_e => of_decide_eq_true (List.all_eq_true.mp h e h_e)

/-- **What can be reached**: the main part, and the spur in which the search begins. A way from a
node to its home, and one from there to the destination, were found by rounds of spreading; that
nothing else can be reached is an induction on the walk, whose hops never lead from the main part
into a spur. -/
theorem Spurs.reached_iff {rounds : ℕ} {homes : List NodeNum} {home : NodeNum → NodeNum}
    (h_spurs : Spurs T rounds homes home) (h : T.WellFormed) {longest : Int}
    (h_nonneg : 0 ≤ longest) (h_longest : ∀ n m c, T.Hop n m c → c ≤ longest)
    (h_lt : (rounds + rounds : ℕ) * longest < inf) (h_src : (T src).type ≠ .none) :
    T.Reached h src (fun _ => false) dest ↔ home dest = 0 ∨ home dest = home src := by
  -- two ways that meet at a home
  have h_meet : ∀ c, (reached ((hops T).map Prod.swap) rounds c).testBit src = true →
      (reached (hops T) rounds c).testBit dest = true → T.Reached h src (fun _ => false) dest := by
    intro c h_to h_from
    obtain ⟨d, h_d, h_walk⟩ := walkTo_of_within h h_nonneg h_longest
      ((within_of_reached h_to).of_swap.trans (within_of_reached h_from))
    exact ⟨d, h_d.trans_lt h_lt, h_walk⟩
  constructor
  · rintro ⟨c, -, h_walk⟩
    clear h_meet
    induction h_walk with
    | start => exact .inr rfl
    | hop h_walk h_hop _ ih =>
      obtain h_main | h_same := h_spurs.closed _ (mem_hops.mpr ⟨_, h_hop⟩)
      · exact .inl h_main
      · exact ih.imp h_same.trans h_same.trans
  · rintro (h_main | h_same)
    · exact h_meet 0 (h_spurs.to_main src h_src) (h_spurs.from_home 0 h_spurs.mem.1 dest h_main)
    · have h_mem := h_spurs.mem.2 src h_src
      exact h_meet (home src) (h_spurs.to_home _ h_mem src rfl)
        (h_spurs.from_home _ h_mem dest h_same)

end Search
end PollingExpress
