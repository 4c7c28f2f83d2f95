import PollingExpress.Drive.Stopping

/-!
# Making up for a lag

`adjust_offset` lengthens a move by the way that the train would have accelerated over in the time
that it was late. The square of that time is taken with 32 bits. As long as it fits, and so does the
longer distance, a longer lag makes the move longer; at the first lag that it does not fit for, the
move becomes shorter (`lag_monotone_iff`). For the supported trains that is a lag of seven and a
half to eleven seconds.

The profile that is built again is exact for any distance (`productsFit_createNeutron`).
-/

namespace PollingExpress
namespace Drive

open Nav (TrainNum)

/-- No product of `create_neutron` wraps around. -/
def ProductsFit (train : TrainNum) (n : Neutron) : Prop :=
  (n.distance.toNat < (constants (rowOffset train)).steadyTail.toNat →
    n.distance.toNat * 1000 < 2 ^ 32 ∧ (constants (rowOffset train)).magic2.toNat *
      n.timeA.toNat < 2 ^ 32) ∧
  n.accel.toNat * (n.timeA.toNat * n.timeA.toNat) < 2 ^ 32

/-- For lags up to `longest`, a longer lag makes a longer move, none makes it shorter than it was,
and the profile that is built again is exact: no product in it wraps around. -/
def LagMonotone (n : Neutron) (train : TrainNum) (longest : ℕ) : Prop :=
  ∀ l₁ l₂ : Int32, 0 ≤ l₁ → l₁ ≤ l₂ → l₂.toInt ≤ longest →
    n.distance ≤ (adjustOffset n train l₁).distance ∧
      (adjustOffset n train l₁).distance ≤ (adjustOffset n train l₂).distance ∧
      ProductsFit train (adjustOffset n train l₂)

/-! ### The profile is built again -/

theorem productsFit_createNeutron (train : TrainNum) (distance : UInt32) :
    ProductsFit train (createNeutron train distance) := by
  have h_profile := profile_createNeutron train distance
  have h_tail := (sound_constants train).tail
  obtain ⟨h_timeA, -⟩ := h_profile.times_lt
  have h_magic : ∀ train : TrainNum, (constants (rowOffset train)).magic2.toNat < 1000 := by decide
  refine ⟨fun h_short => ⟨by omega, ?_⟩, h_profile.square⟩
  calc _ ≤ 1000 * 2 ^ 16 := Nat.mul_le_mul (h_magic train).le h_timeA.le
    _ < 2 ^ 32 := by decide

theorem createNeutron_accel {train : TrainNum} {distance : UInt32} :
    (createNeutron train distance).accel = (constants (rowOffset train)).accel := by
  unfold createNeutron Constants.createNeutron
  split
  · rfl
  · rfl

theorem accel_range (train : TrainNum) : 2000 ≤ (constants (rowOffset train)).accel.toNat ∧
    (constants (rowOffset train)).accel.toNat ≤ 10000 := by
  revert train
  decide

/-! ### The distance after a lag -/

/-- What `adjust_offset` adds to the distance. -/
def lagLen (accel l : ℕ) : ℕ := accel * (l * l) % 2 ^ 32 / 2000

section
variable {n : Neutron} {train : TrainNum} {l : Int32}

theorem adjustOffset_distance (h : 0 ≤ l) : (adjustOffset n train l).distance.toNat =
    (n.distance.toNat + lagLen n.accel.toNat l.toInt.toNat) % 2 ^ 32 := by
  have h_nonneg := Int32.le_iff_toInt_le.mp h
  have h_lag := toNat_toUInt32 h_nonneg
  have h_eq : l.toUInt32.toNat = l.toInt.toNat := by omega
  have h_not : ¬l < 0 := Int32.not_lt.mpr h
  rw [adjustOffset, if_neg h_not, createNeutron_distance, UInt32.toUInt32_toInt32, UInt32.toNat_add,
    UInt32.toNat_div, UInt32.toNat_mul, UInt32.toNat_mul, Nat.mod_mul_mod, Nat.mul_assoc, h_eq]
  rfl

/-- A lag, and its square. -/
theorem exists_lag {k : ℕ} (h : k < 2 ^ 31) : ∃ l : Int32, 0 ≤ l ∧ l.toInt = k := by
  have h_toInt : (Int32.ofInt k).toInt = k := Int32.toInt_ofInt_of_le (by omega) (by omega)
  refine ⟨Int32.ofInt k, Int32.le_iff_toInt_le.mpr ?_, h_toInt⟩
  rw [h_toInt]
  exact Int.natCast_nonneg k

/-- The first lag that the square does not fit for is preceded by one that it fits for, and adds
less. -/
theorem exists_first_wrap {accel longest : ℕ} (h_min : 2000 ≤ accel) (h_max : accel ≤ 10000)
    (h_wrap : 2 ^ 32 ≤ accel * (longest * longest)) : ∃ k < longest, k < 2 ^ 16 ∧
      lagLen accel (k + 1) < lagLen accel k := by
  obtain ⟨k, h_first, h_wraps, h_fits⟩ : ∃ k, k + 1 ≤ longest ∧
      2 ^ 32 ≤ accel * ((k + 1) * (k + 1)) ∧
      accel * (k * k) < 2 ^ 32 := by
    have h_exists : ∃ m, 2 ^ 32 ≤ accel * (m * m) := ⟨longest, h_wrap⟩
    obtain ⟨m, h_m⟩ : ∃ m, m = Nat.find h_exists := ⟨_, rfl⟩
    have h_spec := Nat.find_spec h_exists
    have h_le := Nat.find_min' h_exists h_wrap
    rw [← h_m] at h_spec h_le
    cases m with
    | zero => simp at h_spec
    | succ k =>
      have h_least := Nat.find_min h_exists (m := k) (by omega)
      exact ⟨k, h_le, h_spec, by omega⟩
  -- the lags are small enough for the square to grow slowly
  have h_small : k < 2000 := by
    by_contra h_large
    have h_square : 2000 * (2000 * 2000) ≤ accel * (k * k) :=
      Nat.mul_le_mul h_min (Nat.mul_le_mul (by omega) (by omega))
    omega
  have h_step : accel * ((k + 1) * (k + 1)) = accel * (k * k) + accel * (2 * k + 1) := by ring
  have h_growth : accel * (2 * k + 1) ≤ 10000 * 4001 := Nat.mul_le_mul h_max (by omega)
  refine ⟨k, h_first, by omega, ?_⟩
  rw [lagLen, lagLen, Nat.mod_eq_of_lt h_fits]
  omega

/-- Where nothing wraps around. The square of the longest lag fits into 32 bits, and so does its way
together with the length of the move; every shorter lag is then computed exactly, and the exact
values grow with the lag. -/
theorem lagMonotone_of_fits {longest : ℕ} (h_square : n.accel.toNat * (longest * longest) < 2 ^ 32)
    (h_sum : n.distance.toNat + n.accel.toNat * (longest * longest) / 2000 < 2 ^ 32) :
    LagMonotone n train longest := by
  intro l₁ l₂ h_nonneg h_le h_longest
  -- both lags are at most the longest, so their squares fit as well
  have h_nonneg₂ := Int32.le_trans h_nonneg h_le
  rw [Int32.le_iff_toInt_le] at h_le
  have h_k : l₁.toInt.toNat ≤ l₂.toInt.toNat := Int.toNat_le_toNat h_le
  have h_k₂ : l₂.toInt.toNat ≤ longest := by omega
  have h_squares : n.accel.toNat * (l₁.toInt.toNat * l₁.toInt.toNat) ≤
      n.accel.toNat * (l₂.toInt.toNat * l₂.toInt.toNat) :=
        Nat.mul_le_mul_left _ (Nat.mul_le_mul h_k h_k)
  have h_squares₂ : n.accel.toNat * (l₂.toInt.toNat * l₂.toInt.toNat) ≤
      n.accel.toNat * (longest * longest) :=
    Nat.mul_le_mul_left _ (Nat.mul_le_mul h_k₂ h_k₂)
  have h_len₁ : lagLen n.accel.toNat l₁.toInt.toNat =
      n.accel.toNat * (l₁.toInt.toNat * l₁.toInt.toNat) / 2000 := by
    rw [lagLen, Nat.mod_eq_of_lt (by omega)]
  have h_len₂ : lagLen n.accel.toNat l₂.toInt.toNat =
      n.accel.toNat * (l₂.toInt.toNat * l₂.toInt.toNat) / 2000 := by
    rw [lagLen, Nat.mod_eq_of_lt (by omega)]
  rw [UInt32.le_iff_toNat_le, UInt32.le_iff_toNat_le, adjustOffset_distance h_nonneg,
    adjustOffset_distance h_nonneg₂, h_len₁, h_len₂, Nat.mod_eq_of_lt (by omega),
    Nat.mod_eq_of_lt (by omega)]
  refine ⟨by omega, by omega, ?_⟩
  rw [adjustOffset, if_neg (Int32.not_lt.mpr h_nonneg₂)]
  exact productsFit_createNeutron _ _

/-- A distance that does not fit has become shorter. -/
theorem lt_of_le_mod {d len : ℕ} (h_d : d < 2 ^ 32) (h_len : len < 2 ^ 32)
    (h : d ≤ (d + len) % 2 ^ 32) :
    d + len < 2 ^ 32 := by
  omega

theorem lagLen_lt (accel l : ℕ) : lagLen accel l < 2 ^ 32 := by
  have h_mod := Nat.mod_lt (accel * (l * l)) (by decide : 0 < 2 ^ 32)
  unfold lagLen
  omega

/-- **Where a longer lag makes a longer move**: as long as the square of the lag fits, and the
distance does.

`adjust_offset` adds to the distance what the train travels during the lag, half the acceleration
times the square of the lag. Both the product and the sum are words. Where the product wraps around
for the first time, the lag that is longer by one adds less (`exists_first_wrap`). -/
theorem lag_monotone_iff (train : TrainNum) (distance : UInt32) (longest : ℕ) :
    LagMonotone (createNeutron train distance) train longest ↔
      (constants (rowOffset train)).accel.toNat * (longest * longest) < 2 ^ 32 ∧
        distance.toNat + (constants (rowOffset train)).accel.toNat * (longest * longest) / 2000 <
          2 ^ 32 := by
  obtain ⟨h_min, h_max⟩ := accel_range train
  have h_distance := UInt32.toNat_lt distance
  obtain ⟨n, h_n⟩ : ∃ n, n = createNeutron train distance := ⟨_, rfl⟩
  have h_n_distance : n.distance = distance := h_n ▸ createNeutron_distance
  have h_n_accel : n.accel = (constants (rowOffset train)).accel := h_n ▸ createNeutron_accel
  rw [← h_n, ← h_n_accel, ← h_n_distance]
  rw [← h_n_accel] at h_min h_max
  rw [← h_n_distance] at h_distance
  constructor
  · intro h_all
    -- no lag up to the longest takes the distance out of range
    have h_sum : ∀ l : Int32, 0 ≤ l → l.toInt ≤ longest →
        n.distance.toNat + lagLen n.accel.toNat l.toInt.toNat < 2 ^ 32 := by
      intro l h_l h_longest
      have h_le := (h_all l l h_l (Int32.le_refl l) h_longest).1
      rw [UInt32.le_iff_toNat_le, adjustOffset_distance h_l] at h_le
      exact lt_of_le_mod h_distance (lagLen_lt _ _) h_le
    have h_square : n.accel.toNat * (longest * longest) < 2 ^ 32 := by
      by_contra h_wrap
      -- two lags that follow each other, of which the longer one adds less
      obtain ⟨k, h_k, h_small, h_less⟩ := exists_first_wrap h_min h_max (Nat.le_of_not_lt h_wrap)
      obtain ⟨l₁, h_l₁, h_k₁⟩ := @exists_lag k (by omega)
      obtain ⟨l₂, h_l₂, h_k₂⟩ := @exists_lag (k + 1) (by omega)
      have h_le := (h_all l₁ l₂ h_l₁ (Int32.le_iff_toInt_le.mpr (by omega)) (by omega)).2.1
      have h_sum₁ := h_sum l₁ h_l₁ (by omega)
      have h_sum₂ := h_sum l₂ h_l₂ (by omega)
      have h_toNat₁ : l₁.toInt.toNat = k := by omega
      have h_toNat₂ : l₂.toInt.toNat = k + 1 := by omega
      rw [h_toNat₁] at h_sum₁
      rw [h_toNat₂] at h_sum₂
      rw [UInt32.le_iff_toNat_le, adjustOffset_distance h_l₁, adjustOffset_distance h_l₂, h_toNat₁,
        h_toNat₂, Nat.mod_eq_of_lt h_sum₁, Nat.mod_eq_of_lt h_sum₂] at h_le
      omega
    refine ⟨h_square, ?_⟩
    -- a longest lag that does not fit into an `int` has no square that fits
    have h_short : longest < 2 ^ 31 := by
      by_contra h_long
      have h_mul : 2000 * (2 ^ 31 * 2 ^ 31) ≤ n.accel.toNat * (longest * longest) :=
        Nat.mul_le_mul h_min (Nat.mul_le_mul (by omega) (by omega))
      omega
    obtain ⟨l, h_l, h_toInt⟩ := exists_lag h_short
    have h_last := h_sum l h_l h_toInt.le
    rwa [h_toInt, Int.toNat_natCast, lagLen, Nat.mod_eq_of_lt h_square] at h_last
  · rintro ⟨h_square, h_fits⟩
    exact lagMonotone_of_fits h_square h_fits

/-- Train 1 is to go half a metre and is late by 7.6 seconds; a hundredth of a second less makes a
move that is longer by two metres. -/
theorem not_lag_monotone : (adjustOffset (createNeutron 0 500000) 0 760).distance = 503498 ∧
    (adjustOffset (createNeutron 0 500000) 0 759).distance = 2645325 ∧
    ¬∀ (train : TrainNum) (distance : UInt32) (longest : ℕ),
      LagMonotone (createNeutron train distance) train longest := by
  have h_late : (adjustOffset (createNeutron 0 500000) 0 760).distance = 503498 := by
    rw [← UInt32.toNat_inj, adjustOffset_distance (by decide)]
    decide
  have h_less : (adjustOffset (createNeutron 0 500000) 0 759).distance = 2645325 := by
    rw [← UInt32.toNat_inj, adjustOffset_distance (by decide)]
    decide
  refine ⟨h_late, h_less, fun h_all => ?_⟩
  have h_le := (h_all 0 500000 760 759 760 (by decide) (by decide) (by decide)).2.1
  rw [h_late, h_less] at h_le
  exact absurd h_le (by decide)

end

end Drive
end PollingExpress
