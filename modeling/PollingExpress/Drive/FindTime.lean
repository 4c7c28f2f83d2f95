import PollingExpress.Drive.Neutron

/-!
# The time to a place

`find_time` is about three parts of a move, and only the first two are right. Before the braking
point it is exact (`Neutron.Profile.findTime_eq`). For a place behind it the subtraction under the
root takes the way from the start of the move, not the way from the braking point; where that is as
long as a step in braking it is more than there is to be taken from, and the subtraction wraps
around (`stops_late`).

So the times are consistent for the moves that are shorter than that (`find_time_consistent_iff`),
which are those of a few thousandths of a millimetre.
-/

namespace PollingExpress
namespace Drive

open Nav (TrainNum)

/-- Nothing that `find_time` computes for `d` wraps around. -/
def Exact (n : Neutron) (d : UInt32) : Prop :=
  if d.toNat < n.distA.toNat then d.toNat * 2000 < 2 ^ 32
  else if d.toNat < n.distA.toNat + n.distB.toNat then
    n.distA.toNat + n.distB.toNat < 2 ^ 32 ∧
      (d.toNat - n.distA.toNat) / n.steady.toNat + n.timeA.toNat < 2 ^ 32
  else
    n.distA.toNat + n.distB.toNat < 2 ^ 32 ∧
      n.timeA.toNat + n.timeB.toNat + n.timeC.toNat < 2 ^ 32 ∧
      n.timeC.toNat * n.timeC.toNat < 2 ^ 32 ∧ 2 * d.toNat * 1000 < 2 ^ 32 ∧
      2 * d.toNat * 1000 / n.deaccel.toNat ≤ n.timeC.toNat * n.timeC.toNat ∧
      Nat.sqrt (n.timeC.toNat * n.timeC.toNat - 2 * d.toNat * 1000 / n.deaccel.toNat) ≤
        n.timeA.toNat + n.timeB.toNat + n.timeC.toNat

/-- The times to the places on a move are exact, do not go back, and do not go beyond the end. The
places are those before the destination, and exact is a time for which nothing that `find_time`
computes wraps around. -/
def Consistent (n : Neutron) : Prop :=
  ∀ d₁ d₂ : UInt32, d₁ ≤ d₂ → d₂ < n.distance → Exact n d₁ ∧ Exact n d₂ ∧
    ∃ t₁ t₂, findTime n d₁ = .ok t₁ ∧ findTime n d₂ = .ok t₂ ∧ t₁ ≤ t₂ ∧
      t₂.toNat ≤ n.timeA.toNat + n.timeB.toNat + n.timeC.toNat

/-! ### Braking -/

/-- What the rows of the supported trains have in common about braking: it takes less time than
`find_time` would need. The fields are the bounds that the two kinds of moves come down to, those
without a steady part (`short`, `ratio`) and those with one (`long`). -/
structure Constants.Abrupt (vals : Constants) : Prop where
  deaccel : 0 < vals.deaccel.toNat
  magic2 : vals.magic2.toNat < 1000
  short : vals.deaccel.toNat + 2000 ≤ 4 * vals.magic1.toNat
  ratio : vals.deaccel.toNat * (vals.magic2.toNat * vals.magic2.toNat) ≤ 1000000 * vals.magic1.toNat
  long : vals.deaccel.toNat * (vals.steadyStop.toNat * vals.steadyStop.toNat + 1) + 2000 ≤
    2000 * vals.steadyTail.toNat

theorem abrupt_constants (train : TrainNum) : (constants (rowOffset train)).Abrupt := by
  have h_all : ∀ train : TrainNum,
      let vals := constants (rowOffset train)
      0 < vals.deaccel.toNat ∧ vals.magic2.toNat < 1000 ∧
        vals.deaccel.toNat + 2000 ≤ 4 * vals.magic1.toNat ∧
        vals.deaccel.toNat * (vals.magic2.toNat * vals.magic2.toNat) ≤ 1000000 * vals.magic1.toNat ∧
        vals.deaccel.toNat * (vals.steadyStop.toNat * vals.steadyStop.toNat + 1) + 2000 ≤
          2000 * vals.steadyTail.toNat := by
    decide
  obtain ⟨h_deaccel, h_magic, h_short, h_ratio, h_long⟩ := h_all train
  exact ⟨h_deaccel, h_magic, h_short, h_ratio, h_long⟩

section
variable {vals : Constants} {distance d : UInt32}

theorem createNeutron_deaccel : (vals.createNeutron distance).deaccel = vals.deaccel ∧
    (vals.createNeutron distance).distance = distance := by
  unfold Constants.createNeutron
  split
  · exact ⟨rfl, rfl⟩
  · exact ⟨rfl, rfl⟩

/-- The braking time of a short move. -/
theorem toNat_timeC_short (h_sound : vals.Sound) (h : vals.Abrupt)
    (h_lt : distance < vals.steadyTail) :
    (vals.createNeutron distance).timeC.toNat =
      vals.magic2.toNat * (vals.createNeutron distance).timeA.toNat / 1000 := by
  have h_profile := h_sound.createNeutron distance
  obtain ⟨h_timeA, -⟩ := h_profile.times_lt
  have h_magic := h.magic2
  unfold Constants.createNeutron at h_timeA ⊢
  -- a short move has no steady part, and brakes for a part of the time for which it speeds up
  rw [if_pos h_lt] at h_timeA ⊢
  change (vals.magic2 * squareRoot (distance * 1000 / vals.magic1) / 1000).toNat =
    vals.magic2.toNat * (squareRoot (distance * 1000 / vals.magic1)).toNat / 1000
  change (squareRoot (distance * 1000 / vals.magic1)).toNat < 2 ^ 16 at h_timeA
  rw [UInt32.toNat_div, toNat_mul_of_lt]
  · rfl
  · -- the product fits: the time is a square root, below `2 ^ 16`
    calc vals.magic2.toNat * (squareRoot (distance * 1000 / vals.magic1)).toNat ≤ 1000 * 2 ^ 16 :=
          Nat.mul_le_mul (by omega) (by omega)
      _ < 2 ^ 32 := by decide

/-- The acceleration of a short move. -/
theorem magic_mul_le (h_sound : vals.Sound) (h_lt : distance < vals.steadyTail) :
    vals.magic1.toNat *
      ((vals.createNeutron distance).timeA.toNat * (vals.createNeutron distance).timeA.toNat) ≤
      1000 * distance.toNat := by
  have h_time : (vals.createNeutron distance).timeA.toNat =
      Nat.sqrt (distance.toNat * 1000 / vals.magic1.toNat) := by
    unfold Constants.createNeutron
    rw [if_pos h_lt]
    exact h_sound.short h_lt
  rw [h_time]
  calc vals.magic1.toNat * (Nat.sqrt _ * Nat.sqrt _)
      ≤ vals.magic1.toNat * (distance.toNat * 1000 / vals.magic1.toNat) :=
        Nat.mul_le_mul_left _ (Nat.sqrt_le _)
    _ ≤ distance.toNat * 1000 := Nat.mul_div_le _ _
    _ = 1000 * distance.toNat := Nat.mul_comm _ _

/-- **A train that goes beyond a step in braking** has come further than the braking time allows
for.

For a short move both times are proportional to the root of the distance, so that the way in braking
is at most half of the move; for a long one the braking time is that of the row, and the bound is
`Abrupt.long`. No product here is one of 32 bits. -/
theorem stops_late (h_sound : vals.Sound) (h : vals.Abrupt)
    (h_step : 2000 + vals.deaccel.toNat ≤ 2000 * distance.toNat) :
    vals.deaccel.toNat *
      ((vals.createNeutron distance).timeC.toNat * (vals.createNeutron distance).timeC.toNat + 1) +
      2000 ≤ 2000 * distance.toNat := by
  by_cases h_lt : distance < vals.steadyTail
  · -- a short move: both times are proportional to the root of the distance
    have h_timeC := toNat_timeC_short h_sound h h_lt
    have h_timeA := magic_mul_le h_sound h_lt
    obtain ⟨t, h_t⟩ : ∃ t, (vals.createNeutron distance).timeA.toNat = t := ⟨_, rfl⟩
    obtain ⟨c, h_c⟩ : ∃ c, (vals.createNeutron distance).timeC.toNat = c := ⟨_, rfl⟩
    rw [h_t] at h_timeA h_timeC
    rw [h_c] at h_timeC ⊢
    have h_le : 1000 * c ≤ vals.magic2.toNat * t := by
      rw [h_timeC]
      exact Nat.mul_div_le _ _
    rcases Nat.eq_zero_or_pos c with rfl | h_pos
    · omega
    · -- the move takes two ticks or more
      have h_two : 2 ≤ t := by
        by_contra h_less
        have h_small : vals.magic2.toNat * t ≤ vals.magic2.toNat * 1 :=
          Nat.mul_le_mul_left _ (by omega)
        have h_magic := h.magic2
        omega
      have h_four : vals.magic1.toNat * 4 ≤ 1000 * distance.toNat :=
        (Nat.mul_le_mul_left _ (Nat.mul_le_mul h_two h_two)).trans h_timeA
      have h_magic_pos := h_sound.magic_pos
      -- the way that the braking time allows for is at most half of the move
      have h_brake : vals.deaccel.toNat * (c * c) ≤ 1000 * distance.toNat := by
        refine Nat.le_of_mul_le_mul_left ?_ (Nat.mul_pos (by decide : 0 < 1000000) h_magic_pos)
        calc 1000000 * vals.magic1.toNat * (vals.deaccel.toNat * (c * c))
            = vals.magic1.toNat * vals.deaccel.toNat * ((1000 * c) * (1000 * c)) := by ring
          _ ≤ vals.magic1.toNat * vals.deaccel.toNat *
            ((vals.magic2.toNat * t) * (vals.magic2.toNat * t)) :=
              Nat.mul_le_mul_left _ (Nat.mul_le_mul h_le h_le)
          _ = vals.deaccel.toNat * (vals.magic2.toNat * vals.magic2.toNat) *
            (vals.magic1.toNat * (t * t)) := by ring
          _ ≤ 1000000 * vals.magic1.toNat * (1000 * distance.toNat) :=
            Nat.mul_le_mul h.ratio h_timeA
      have h_short := h.short
      rw [Nat.mul_add, Nat.mul_one]
      omega
  · -- a long move: the braking time is a constant
    have h_timeC : (vals.createNeutron distance).timeC = vals.steadyStop := by
      unfold Constants.createNeutron
      rw [if_neg h_lt]
      rfl
    have h_ge : vals.steadyTail.toNat ≤ distance.toNat := by
      rw [UInt32.lt_iff_toNat_lt] at h_lt
      omega
    rw [h_timeC]
    exact h.long.trans (Nat.mul_le_mul_left _ h_ge)

end

/-! ### The times -/

section
variable {n : Neutron} {d : UInt32}

theorem exact_of_lt (h : n.Profile) (h_ne : n.distance.toNat ≠ 0)
    (h_lt : d.toNat < n.distA.toNat + n.distB.toNat) :
    Exact n d := by
  have h_brakes := h.brakes h_ne
  have h_distance := UInt32.toNat_lt n.distance
  have h_time := h.timeAt_le h_lt
  obtain ⟨h_timeA, h_timeB⟩ := h.times_lt
  unfold Exact
  split
  · next h_d =>
    have h_fits := (h.sqrt_le h_d).1
    omega
  · next h_d =>
    rw [Neutron.timeAt, if_neg h_d] at h_time
    exact ⟨by omega, by omega⟩

/-- The last place is behind the braking point. -/
theorem exact_last (h : n.Profile) (h_last : d.toNat + 1 = n.distance.toNat) (h_exact : Exact n d) :
    2 * d.toNat * 1000 / n.deaccel.toNat ≤ n.timeC.toNat * n.timeC.toNat := by
  have h_brakes := h.brakes (by omega)
  unfold Exact at h_exact
  rw [if_neg (by omega), if_neg (by omega)] at h_exact
  exact h_exact.2.2.2.2.1

/-- Behind the braking point, in the first step in braking. The quotient under the root is still 0,
so nothing wraps around, and the time is that of the first two parts. -/
theorem findTime_of_step (h : n.Profile) (h_d : d.toNat < n.distance.toNat)
    (h_ge : n.distA.toNat + n.distB.toNat ≤ d.toNat) (h_timeC : n.timeC.toNat < 2 ^ 16)
    (h_step : 2000 * d.toNat < n.deaccel.toNat) :
    Exact n d ∧ ∃ t, findTime n d = .ok t ∧ t.toNat = n.timeA.toNat + n.timeB.toNat := by
  have h_sum := h.toNat_distA_add (by omega)
  obtain ⟨h_timeA, h_timeB⟩ := h.times_lt
  have h_square : n.timeC.toNat * n.timeC.toNat < 2 ^ 32 := by
    calc n.timeC.toNat * n.timeC.toNat < 2 ^ 16 * 2 ^ 16 := Nat.mul_lt_mul'' h_timeC h_timeC
      _ = 2 ^ 32 := rfl
  have h_deaccel := UInt32.toNat_lt n.deaccel
  -- so close behind the braking point the quotient is 0, and the root is `time_c`
  have h_zero : 2 * d.toNat * 1000 / n.deaccel.toNat = 0 := Nat.div_eq_of_lt (by omega)
  have h_brakes := UInt32.toNat_lt n.distance
  constructor
  · unfold Exact
    rw [if_neg (by omega), if_neg (by omega), h_zero, Nat.sub_zero, Nat.sqrt_eq]
    exact ⟨by omega, by omega, h_square, by omega, Nat.zero_le _, Nat.le_add_left _ _⟩
  · unfold findTime
    -- behind the braking point, and before the end
    rw [if_neg (by rw [UInt32.lt_iff_toNat_lt]; omega),
      if_neg (by rw [UInt32.lt_iff_toNat_lt, h_sum]; omega),
      if_pos (UInt32.lt_iff_toNat_lt.mpr h_d)]
    refine ⟨_, rfl, ?_⟩
    have h_double : (2 * d).toNat = 2 * d.toNat :=
      toNat_mul_of_lt (by change 2 * d.toNat < _; omega)
    have h_product : (2 * d * 1000).toNat = 2 * d.toNat * 1000 := by
      rw [toNat_mul_of_lt (by rw [h_double]; change 2 * d.toNat * 1000 < _; omega), h_double]
      rfl
    have h_root : (squareRoot (n.timeC * n.timeC - 2 * d * 1000 / n.deaccel)).toNat =
        n.timeC.toNat := by
      have h_quotient : (2 * d * 1000 / n.deaccel).toNat = 0 := by
        rw [UInt32.toNat_div, h_product, h_zero]
      rw [squareRoot_eq, toNat_sub_of_le (by rw [h_quotient]; exact Nat.zero_le _), h_quotient,
        Nat.sub_zero,
        toNat_mul_of_lt h_square, Nat.sqrt_eq]
    have h_two : (n.timeA + n.timeB).toNat = n.timeA.toNat + n.timeB.toNat :=
      toNat_add_of_lt (by omega)
    have h_three : (n.timeA + n.timeB + n.timeC).toNat =
        n.timeA.toNat + n.timeB.toNat + n.timeC.toNat := by
      rw [toNat_add_of_lt (by omega), h_two]
    rw [toNat_sub_of_le (by omega), h_three, h_root]
    omega

/-- A move that is shorter than a step in braking. All its places behind the braking point are in
that step, so their times are the same; those in front of it are exact anyway. -/
theorem consistent_of_step (h : n.Profile) (h_timeC : n.timeC.toNat < 2 ^ 16)
    (h_step : 2000 * n.distance.toNat < 2000 + n.deaccel.toNat) : Consistent n := by
  -- the time to a place
  have h_time : ∀ d : UInt32, d < n.distance → Exact n d ∧ ∃ t, findTime n d = .ok t ∧
      t.toNat =
        if d.toNat < n.distA.toNat + n.distB.toNat then n.timeAt d.toNat
        else n.timeA.toNat + n.timeB.toNat := by
    intro d h_d
    rw [UInt32.lt_iff_toNat_lt] at h_d
    split
    · next h_lt => exact ⟨exact_of_lt h (by omega) h_lt, h.findTime_eq (by omega) h_lt⟩
    · next h_ge => exact findTime_of_step h h_d (by omega) h_timeC (by omega)
  intro d₁ d₂ h_le h_d₂
  obtain ⟨h_exact₁, t₁, h_t₁, h_eq₁⟩ := h_time d₁ (UInt32.lt_of_le_of_lt h_le h_d₂)
  obtain ⟨h_exact₂, t₂, h_t₂, h_eq₂⟩ := h_time d₂ h_d₂
  refine ⟨h_exact₁, h_exact₂, t₁, t₂, h_t₁, h_t₂, ?_, ?_⟩
  · rw [UInt32.le_iff_toNat_le] at h_le ⊢
    rw [h_eq₁, h_eq₂]
    split
    · next h_lt₁ =>
      split
      · exact h.timeAt_mono h_le
      · exact h.timeAt_le h_lt₁
    · rw [if_neg (by omega)]
  · rw [h_eq₂]
    split
    · next h_lt => exact (h.timeAt_le h_lt).trans (Nat.le_add_right _ _)
    · exact Nat.le_add_right _ _

/-- A move that is longer, at its end. -/
theorem not_consistent_of_late (h : n.Profile) (h_ne : n.distance.toNat ≠ 0)
    (h_deaccel : 0 < n.deaccel.toNat)
    (h_late : n.deaccel.toNat * (n.timeC.toNat * n.timeC.toNat + 1) + 2000 ≤
      2000 * n.distance.toNat) :
    ¬Consistent n := by
  intro h_all
  -- the last place that the train passes before its destination
  have h_last : (n.distance - 1).toNat = n.distance.toNat - 1 :=
    toNat_sub_of_le (Nat.one_le_iff_ne_zero.mpr h_ne)
  obtain ⟨h_exact, -⟩ := h_all (n.distance - 1) (n.distance - 1) (UInt32.le_refl _)
    (UInt32.lt_iff_toNat_lt.mpr (by omega))
  have h_le := exact_last h (by omega) h_exact
  have h_lt := (Nat.div_lt_iff_lt_mul h_deaccel).mp (Nat.lt_succ_of_le h_le)
  rw [h_last, Nat.succ_eq_add_one] at h_lt
  rw [Nat.mul_comm] at h_late
  omega

end

/-- For any row that is like those of the supported trains. If the move is shorter than a step in
braking, all is well; if not, the last place in front of the destination lies behind the step, and
there the subtraction wraps around (`stops_late`). -/
theorem consistent_iff {vals : Constants} (h_sound : vals.Sound) (h : vals.Abrupt)
    (distance : UInt32) :
    Consistent (vals.createNeutron distance) ↔
      2000 * distance.toNat < 2000 + vals.deaccel.toNat := by
  have h_profile := h_sound.createNeutron distance
  have h_late := @stops_late vals distance h_sound h
  have h_short := @toNat_timeC_short vals distance h_sound h
  obtain ⟨h_deaccel, h_distance⟩ := @createNeutron_deaccel vals distance
  obtain ⟨n, h_n⟩ : ∃ n, n = vals.createNeutron distance := ⟨_, rfl⟩
  rw [← h_n] at h_profile h_late h_short h_deaccel h_distance ⊢
  rw [← h_deaccel, ← h_distance] at h_late ⊢
  constructor
  · intro h_consistent
    by_contra h_long
    refine not_consistent_of_late h_profile (by omega) ?_ (h_late (by omega)) h_consistent
    rw [h_deaccel]
    exact h.deaccel
  · intro h_step
    refine consistent_of_step h_profile ?_ h_step
    -- the move is a short one, so it does not take long to brake
    have h_lt : distance < vals.steadyTail := by
      have h_long := h.long
      have h_one := Nat.mul_le_mul_left vals.deaccel.toNat
        (Nat.le_add_left 1 (vals.steadyStop.toNat * vals.steadyStop.toNat))
      rw [h_deaccel, h_distance] at h_step
      rw [UInt32.lt_iff_toNat_lt]
      omega
    rw [h_short h_lt]
    refine (Nat.div_lt_iff_lt_mul (by decide)).mpr ?_
    have h_magic := h.magic2
    obtain ⟨h_timeA, -⟩ := h_profile.times_lt
    calc vals.magic2.toNat * n.timeA.toNat ≤ vals.magic2.toNat * 2 ^ 16 :=
      Nat.mul_le_mul_left _ h_timeA.le
      _ < 2 ^ 16 * 1000 := by omega

/-- **Where the times are consistent**: on the moves that are shorter than a step in braking, and on
no others.

`Consistent` asks of all distances along a move that the time found is exact, and no earlier for the
one that is farther away. It fails on a longer move in its braking part, where the number under the
root goes below 0 before the end is reached. The condition is about the train's deceleration and the
length only. -/
theorem find_time_consistent_iff (train : TrainNum) (distance : UInt32) :
    Consistent (createNeutron train distance) ↔
      2000 * distance.toNat < 2000 + (constants (rowOffset train)).deaccel.toNat :=
  consistent_iff (sound_constants train) (abrupt_constants train) distance

/-- Train 1 is to go half a metre. Near the end of the move, the time that is found is far behind
the end. -/
theorem not_find_time_consistent :
    (∃ t, findTime (createNeutron 0 500000) 499999 = .ok t ∧ (createNeutron 0 500000).timeA.toNat +
      (createNeutron 0 500000).timeB.toNat + (createNeutron 0 500000).timeC.toNat < t.toNat) ∧
    ¬∀ (train : TrainNum) (distance : UInt32), Consistent (createNeutron train distance) := by
  have h_n : createNeutron 0 500000 = (constants 0).profile 500000 205 206995 179 := by decide
  constructor
  · rw [h_n]
    -- what is left under the root is below 0 and wraps around, so the root is as large as it can be
    have h_root : squareRoot (179 * 179 - 2 * 499999 * 1000 / 8520) = 65535 := by
      rw [← UInt32.toNat_inj, squareRoot_eq]
      exact (Nat.eq_sqrt.mpr (by decide)).symm
    have h_time : findTime ((constants 0).profile 500000 205 206995 179) 499999 =
        .ok (519 - squareRoot (179 * 179 - 2 * 499999 * 1000 / 8520)) := rfl
    refine ⟨_, h_time, ?_⟩
    rw [h_root]
    decide
  · intro h_all
    obtain ⟨h_exact, -⟩ := h_all 0 500000 499999 499999 (by decide) (by decide)
    -- were the time exact, it would be the last of the move
    have h_late := @exact_last _ 499999 (profile_createNeutron 0 500000) (by decide) h_exact
    revert h_late
    decide

end Drive
end PollingExpress
