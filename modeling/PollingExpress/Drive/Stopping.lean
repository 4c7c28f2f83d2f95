import PollingExpress.Drive.Switching

/-!
# Planning the stop

Before the train starts, the worker looks for the last sensor before the braking point, and finds
out how long after that sensor the train is to be stopped. `dist_a + dist_b` is a word without a
sign, and the lengths that are compared with it are numbers with one; none of them wraps around, so
the comparison means what it should (`markLoop_spec`).

`find_time` is asked about the way to that sensor. It is shorter than the way to the braking point,
so the answer is exact and no later than the braking point, and later for a sensor that is farther
away (`stop_plan`).
-/

namespace PollingExpress
namespace Drive

open Nav (TrainNum)

/-! ### Numbers with a sign -/

section
variable {x y : Int32}

theorem toNat_toUInt32 (h : 0 ≤ x.toInt) : (x.toUInt32.toNat : Int) = x.toInt := by
  rw [Int32.toNat_toUInt32_of_le (Int32.le_iff_toInt_le.mpr h)]
  exact Int.toNat_of_nonneg h

theorem toInt_add_of_lt (h_x : 0 ≤ x.toInt) (h_y : 0 ≤ y.toInt) (h : x.toInt + y.toInt < 2 ^ 31) :
    (x + y).toInt = x.toInt + y.toInt := by
  rw [Int32.toInt_add]
  exact Int.bmod_eq_of_le (by omega) (by omega)

/-- Without the sign, a sum does not wrap around. -/
theorem toNat_toUInt32_add (h_x : 0 ≤ x.toInt) (h_y : 0 ≤ y.toInt) :
    ((x + y).toUInt32.toNat : Int) = x.toInt + y.toInt := by
  have h_max := Int32.toInt_lt x
  have h_max' := Int32.toInt_lt y
  have h_x' := toNat_toUInt32 h_x
  have h_y' := toNat_toUInt32 h_y
  rw [Int32.toUInt32_add, toNat_add_of_lt (by omega)]
  omega

theorem toInt_toInt32 {u : UInt32} (h : u.toNat < 2 ^ 31) : u.toInt32.toInt = u.toNat :=
  BitVec.toInt_eq_toNat_of_lt (by change 2 * u.toNat < 2 ^ 32; omega)

end

/-! ### The last sensor before the braking point -/

section
variable {r : TrainRecord} {bound : ℕ}

theorem travelled_succ (distance : ℕ → Int32) (c : ℕ) :
    travelled distance (c + 1) = travelled distance c + (distance c).toInt :=
  Finset.sum_range_succ _ _

/-- Where the loop stops, if it is at sensor `i` and those before are closer than the braking point:
`k` of the sensors are. -/
theorem markLoop_spec (h_bound : (r.n.distA + r.n.distB).toNat = bound) (h_max : bound < 2 ^ 31)
    (h_distance : ∀ i < r.len, 0 ≤ (r.distance i).toInt) {more i : ℕ} {dist : Int32}
    (h_len : i + more = r.len) (h_dist : dist.toInt = travelled r.distance i)
    (h_nonneg : 0 ≤ dist.toInt) (h_before : ∀ m ≤ i, travelled r.distance m < bound) :
    ∃ k ≤ r.len, r.markLoop more i dist (i - 1) =
      ((r.markLoop more i dist (i - 1)).1, (k : Int) - 1) ∧
      (r.markLoop more i dist (i - 1)).1.toInt = travelled r.distance k ∧
      0 ≤ travelled r.distance k ∧
      (∀ m ≤ k, travelled r.distance m < bound) ∧
      (k < r.len → bound ≤ travelled r.distance (k + 1)) := by
  induction more generalizing i dist with
  | zero =>
    refine ⟨i, by omega, rfl, h_dist, h_dist ▸ h_nonneg, h_before, fun h_lt => ?_⟩
    omega
  | succ more ih =>
    have h_i := h_distance i (by omega)
    have h_sum := toNat_toUInt32_add h_nonneg h_i
    have h_next := travelled_succ r.distance i
    rw [TrainRecord.markLoop]
    by_cases h_lt : (dist + r.distance i).toUInt32 < r.n.distA + r.n.distB
    · -- the sensor is closer than the braking point, and the loop goes on
      rw [if_pos h_lt]
      rw [UInt32.lt_iff_toNat_lt, h_bound] at h_lt
      have h_add := toInt_add_of_lt h_nonneg h_i (by omega)
      have h_marker : (i : Int) = (i + 1 : ℕ) - 1 := by omega
      have h_rest :=
        @ih (i + 1) (dist + r.distance i) (by omega) (by omega) (by omega) fun m h_m => by
        rcases Nat.lt_or_eq_of_le h_m with h_m | rfl
        · exact h_before m (by omega)
        · omega
      rwa [← h_marker] at h_rest
    · rw [if_neg h_lt]
      rw [UInt32.lt_iff_toNat_lt, h_bound] at h_lt
      exact ⟨i, by omega, rfl, h_dist, h_dist ▸ h_nonneg, h_before, fun _ => by omega⟩

end

/-! ### The plan -/

/-- The way to the sensor `marker`, or nothing for -1. -/
def wayTo (r : TrainRecord) (marker : Int) : Int := travelled r.distance (marker + 1).toNat

/-- The plan `r'` for a train with the record `r`, which has a profile.

The braking point is where the first two parts of the profile end. The marker is the last sensor up
to which nothing is beyond it, and the offset is the time from there. -/
structure StopPlan (r r' : TrainRecord) : Prop where
  /-- The marker is a sensor on the path, or there is none. -/
  range : -1 ≤ r'.stopMarker ∧ r'.stopMarker < r.len
  /-- The sensors up to the marker are those that are before the braking point with all sensors
  before them. -/
  marker : ∀ i : ℕ, i < r.len → (i ≤ r'.stopMarker ↔
    ∀ m ≤ i, travelled r.distance (m + 1) < r.n.distA.toNat + r.n.distB.toNat)
  /-- `find_time` is asked about the way to the marker. -/
  asked : (r.stopMark.1.toUInt32.toNat : Int) = wayTo r r'.stopMarker
  /-- It is shorter than the way to the braking point. -/
  before : r.stopMark.1.toUInt32.toNat < r.n.distA.toNat + r.n.distB.toNat ∧
    (r.n.distA + r.n.distB).toNat = r.n.distA.toNat + r.n.distB.toNat
  offset : 0 ≤ r'.stopOffset.toInt ∧ r'.stopOffset.toInt ≤ r.n.timeA.toNat + r.n.timeB.toNat

section
variable {train : TrainNum} {pathDist : Int32} {r s : TrainRecord}

/-- The profile for a path of at least a millimetre: what is compared are numbers below `2 ^ 31`.
The loop that looks for the marker compares the signed sum of the distances with the unsigned
braking point. -/
theorem withProfile_spec (h_min : 1 ≤ pathDist.toInt)
    (h_max : pathDist.toInt ≤ (2 ^ 31 - 1) / 1000) :
    (r.withProfile train pathDist).n.Profile ∧ (r.withProfile train pathDist).n.distance.toNat ≠ 0 ∧
      0 < (r.withProfile train pathDist).n.distA.toNat ∧
      (r.withProfile train pathDist).n.distA.toNat + (r.withProfile train pathDist).n.distB.toNat <
        2 ^ 31 := by
  -- the length in thousandths of a millimetre does not wrap around
  have h_dist : (pathDist * 1000).toInt = pathDist.toInt * 1000 := by
    rw [Int32.toInt_mul]
    exact Int.bmod_eq_of_le (by change _ ≤ pathDist.toInt * 1000; omega)
      (by change pathDist.toInt * 1000 < _; omega)
  have h_word : ((pathDist * 1000).toUInt32.toNat : Int) = pathDist.toInt * 1000 :=
    (toNat_toUInt32 (by omega)).trans h_dist
  have h_profile := profile_createNeutron train (pathDist * 1000).toUInt32
  have h_distance : (createNeutron train (pathDist * 1000).toUInt32).distance =
      (pathDist * 1000).toUInt32 :=
    createNeutron_distance
  have h_ne : (createNeutron train (pathDist * 1000).toUInt32).distance.toNat ≠ 0 := by
    rw [h_distance]
    omega
  -- the train brakes for some of the way, so it is short of the whole length where it starts to
  have h_brakes := h_profile.brakes h_ne
  rw [h_distance] at h_brakes
  refine ⟨h_profile, h_ne, (sound_constants train).distA_pos (by omega), ?_⟩
  change (createNeutron train (pathDist * 1000).toUInt32).distA.toNat +
    (createNeutron train (pathDist * 1000).toUInt32).distB.toNat < _
  omega

/-- What the plan is. The loop comes to the last sensor before the braking point, whose way is a sum
that has not wrapped around; the time that is taken off there is exact (`Profile.findTime_eq`), so
the offset is the rest of the time up to that point. -/
theorem exists_planStop (h_min : 1 ≤ pathDist.toInt) (h_max : pathDist.toInt ≤ (2 ^ 31 - 1) / 1000)
    (h_distance : ∀ i < r.len, 0 ≤ (r.distance i).toInt) :
    ∃ r', r.planStop train pathDist = .ok r' ∧ StopPlan (r.withProfile train pathDist) r' ∧
      r'.stopOffset.toInt = (createNeutron train (pathDist * 1000).toUInt32).timeA.toNat +
        (createNeutron train (pathDist * 1000).toUInt32).timeB.toNat -
        (createNeutron train (pathDist * 1000).toUInt32).timeAt (wayTo r r'.stopMarker).toNat := by
  obtain ⟨h_profile, h_ne, h_pos, h_max'⟩ := @withProfile_spec train pathDist r h_min h_max
  -- `p` is the record with the plan of the speed in it
  obtain ⟨p, h_p⟩ : ∃ p, p = r.withProfile train pathDist := ⟨_, rfl⟩
  have h_n : createNeutron train (pathDist * 1000).toUInt32 = p.n := by rw [h_p]; rfl
  have h_len : p.len = r.len := by rw [h_p]; rfl
  have h_way : ∀ marker, wayTo r marker = wayTo p marker := by rw [h_p]; intro marker; rfl
  have h_plan : r.planStop train pathDist = (do
      let time ← findTime p.n p.stopMark.1.toUInt32
      .ok { p with
        stopMarker := p.stopMark.2
        stopOffset := (p.n.timeA + p.n.timeB - time).toInt32 }) := by
    rw [h_p]
    rfl
  have h_distance : ∀ i < p.len, 0 ≤ (p.distance i).toInt := by rw [h_p]; exact h_distance
  rw [← h_p] at h_profile h_ne h_pos h_max' ⊢
  rw [h_n, h_plan]
  have h_sum := h_profile.toNat_distA_add h_ne
  -- the loop has gone over `k` sensors
  obtain ⟨k, h_k, h_mark, h_dist, h_nonneg, h_before, h_last⟩ :=
    @markLoop_spec p _ h_sum h_max' h_distance p.len 0 0
    (Nat.zero_add _) rfl le_rfl (by
      intro m h_m
      obtain rfl := Nat.le_zero.mp h_m
      change (0 : Int) < _
      omega)
  have h_marker : p.stopMark.2 = (k : Int) - 1 := congrArg Prod.snd h_mark
  change p.stopMark.1.toInt = _ at h_dist
  -- the way to the marker
  have h_asked : (p.stopMark.1.toUInt32.toNat : Int) = travelled p.distance k := by
    rw [toNat_toUInt32 (by omega), h_dist]
  have h_wayTo : wayTo p p.stopMark.2 = travelled p.distance k := by
    rw [wayTo, h_marker, Int.sub_add_cancel, Int.toNat_natCast]
  have h_lt := h_before k le_rfl
  obtain ⟨t, h_time, h_t⟩ := h_profile.findTime_eq h_ne (d := p.stopMark.1.toUInt32) (by omega)
  have h_le := h_profile.timeAt_le (d := p.stopMark.1.toUInt32.toNat) (by omega)
  obtain ⟨h_timeA, h_timeB⟩ := h_profile.times_lt
  have h_times : (p.n.timeA + p.n.timeB).toNat = p.n.timeA.toNat + p.n.timeB.toNat :=
    toNat_add_of_lt (by omega)
  -- the subtraction does not wrap, since the marker is passed before the train stops
  have h_offset : (p.n.timeA + p.n.timeB - t).toNat =
      p.n.timeA.toNat + p.n.timeB.toNat - t.toNat := by
    rw [toNat_sub_of_le (by omega), h_times]
  have h_signed := @toInt_toInt32 (p.n.timeA + p.n.timeB - t) (by omega)
  refine ⟨_, by rw [h_time]; rfl, ⟨⟨?_, ?_⟩, fun i h_i => ?_, ?_, ⟨by omega, h_sum⟩, ?_⟩, ?_⟩
  · change -1 ≤ p.stopMark.2
    omega
  · change p.stopMark.2 < p.len
    omega
  · change (i : Int) ≤ p.stopMark.2 ↔ _
    -- the loop goes on exactly while the next sensor is before the braking point
    constructor
    · intro h_le m h_m
      exact_mod_cast h_before (m + 1) (by omega)
    · intro h_all
      by_contra h_gt
      have h_end := h_last (by omega)
      have h_next := h_all k (by omega)
      omega
  · change _ = wayTo p p.stopMark.2
    rw [h_asked, h_wayTo]
  · change 0 ≤ (p.n.timeA + p.n.timeB - t).toInt32.toInt ∧
      (p.n.timeA + p.n.timeB - t).toInt32.toInt ≤ _
    omega
  · change (p.n.timeA + p.n.timeB - t).toInt32.toInt =
      _ - (p.n.timeAt (wayTo r p.stopMark.2).toNat : Int)
    rw [h_way, h_wayTo, ← h_asked, Int.toNat_natCast, ← h_t]
    omega

/-- **The stop is not in the past.** On a path of a millimetre at least, and of no more than fits
into an `int` in thousandths of a millimetre, there is a plan: the marker is the last sensor before
the braking point (`StopPlan`), the stop is counted from there and is not before it, and of two
plans for the same length the one with the marker farther away has the smaller offset. -/
theorem stop_plan (h_min : 1 ≤ pathDist.toInt) (h_max : pathDist.toInt ≤ (2 ^ 31 - 1) / 1000)
    (h_distance : ∀ i < r.len, 0 ≤ (r.distance i).toInt) :
    ∃ r', r.planStop train pathDist = .ok r' ∧ StopPlan (r.withProfile train pathDist) r' ∧
      ∀ s s' : TrainRecord, (∀ i < s.len, 0 ≤ (s.distance i).toInt) →
      s.planStop train pathDist = .ok s' →
        wayTo r r'.stopMarker ≤ wayTo s s'.stopMarker →
        s'.stopOffset.toInt ≤ r'.stopOffset.toInt := by
  obtain ⟨r', h_ok, h_plan, h_offset⟩ := @exists_planStop train pathDist r h_min h_max h_distance
  refine ⟨r', h_ok, h_plan, fun s s' h_distance' h_ok' h_le => ?_⟩
  -- the other record has the same profile, and its own marker
  obtain ⟨s₁, h_ok₁, h_plan₁, h_offset₁⟩ :=
    @exists_planStop train pathDist s h_min h_max h_distance'
  obtain rfl := Except.ok.inj (h_ok₁.symm.trans h_ok')
  -- a sensor farther away is passed later, and the stop is as far behind the start for both
  have h_mono :=
    (profile_createNeutron train (pathDist * 1000).toUInt32).timeAt_mono (Int.toNat_le_toNat h_le)
  omega

/-! ### When there is a plan -/

theorem findTime_ok {n : Neutron} {d : UInt32} (h : d < n.distA + n.distB ∨ d < n.distance) :
    ∃ time, findTime n d = .ok time := by
  unfold findTime
  split_ifs with h_a h_b h_c
  · exact ⟨_, rfl⟩
  · exact ⟨_, rfl⟩
  · exact ⟨_, rfl⟩
  · exact (h.elim h_b h_c).elim

/-- The loop stays before the braking point, or where it begins. -/
theorem markLoop_lt_or_eq (r : TrainRecord) (more i : ℕ) (dist : Int32) (marker : Int) :
    (r.markLoop more i dist marker).1.toUInt32 < r.n.distA + r.n.distB ∨
      (r.markLoop more i dist marker).1 = dist := by
  induction more generalizing i dist marker with
  | zero => exact .inr rfl
  | succ more ih =>
    rw [TrainRecord.markLoop]
    split
    · next h_lt =>
      obtain h | h := ih (i + 1) (dist + r.distance i) i
      · exact .inl h
      · left
        rwa [h]
    · exact .inr rfl

/-- **There is a plan** unless the length of the path, in thousandths of a millimetre, comes out as
0: then `find_time` is asked about a place that is not before the end of the move.

The marker is looked for among the sensors in front of the braking point; where there is none, the
time is asked for at the start of the path, which is before the end of any move with a length. -/
theorem exists_planStop_iff : (∃ r', r.planStop train pathDist = .ok r') ↔ pathDist * 1000 ≠ 0 := by
  have h_distance : (r.withProfile train pathDist).n.distance = (pathDist * 1000).toUInt32 :=
    createNeutron_distance
  have h_mark : (r.withProfile train pathDist).stopMark.1.toUInt32 <
      (r.withProfile train pathDist).n.distA + (r.withProfile train pathDist).n.distB ∨
      (r.withProfile train pathDist).stopMark.1 = 0 :=
    markLoop_lt_or_eq (r.withProfile train pathDist) r.len 0 0 (-1)
  constructor
  · rintro ⟨r', h_plan⟩ h_zero
    obtain ⟨time, h_time, -⟩ := of_bind_ok h_plan
    -- the move has no length, so nothing is before its braking point
    have h_rest : ∀ train : TrainNum, (createNeutron train 0).distA = 0 ∧
        (createNeutron train 0).distB = 0 := by
      decide +kernel
    have h_n : (r.withProfile train pathDist).n = createNeutron train 0 := by
      rw [TrainRecord.withProfile, h_zero]
      rfl
    rw [h_n, (h_rest train).1, (h_rest train).2] at h_mark
    obtain h_lt | h_mark := h_mark
    · exact absurd h_lt UInt32.not_lt_zero
    · rw [h_mark, h_n] at h_time
      unfold findTime at h_time
      rw [(h_rest train).1, (h_rest train).2, createNeutron_distance] at h_time
      cases h_time
  · intro h_ne
    have h_asked : (r.withProfile train pathDist).stopMark.1.toUInt32 <
        (r.withProfile train pathDist).n.distA + (r.withProfile train pathDist).n.distB ∨
        (r.withProfile train pathDist).stopMark.1.toUInt32 <
          (r.withProfile train pathDist).n.distance := by
      refine h_mark.imp_right fun h_zero => ?_
      rw [h_zero, h_distance]
      refine UInt32.pos_iff_ne_zero.mpr fun h_word => h_ne ?_
      exact congrArg UInt32.toInt32 h_word
    obtain ⟨time, h_time⟩ := findTime_ok h_asked
    exact ⟨_, by rw [TrainRecord.planStop, h_time]; rfl⟩

/-- On a path of a metre with a sensor after 30 centimetres, the train is stopped some time after
that sensor. -/
theorem stop_plan_metre :
    ∃ r', { blankRecord with len := 1, distance := fun _ => 300000 }.planStop 0 1000 = .ok r' ∧
    r'.stopMarker = 0 ∧ 0 ≤ r'.stopOffset.toInt := by
  obtain ⟨r', h_ok, h_plan, -⟩ :=
    @stop_plan 0 1000 { blankRecord with len := 1, distance := fun _ => 300000 }
    (by decide) (by decide) fun _ _ => show 0 ≤ (300000 : Int32).toInt by decide
  have h_range := h_plan.range.2
  have h_first := (h_plan.marker 0 Nat.zero_lt_one).mpr fun m h_m => by
    obtain rfl := Nat.le_zero.mp h_m
    decide
  change _ < ((1 : ℕ) : Int) at h_range
  exact ⟨r', h_ok, by omega, h_plan.offset.1⟩

end

end Drive
end PollingExpress
