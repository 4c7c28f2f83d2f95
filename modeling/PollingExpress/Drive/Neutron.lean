import PollingExpress.Drive.SquareRoot
import PollingExpress.Train.Server

/-!
# The motion profile

`neutron.c`: how a train covers a distance. It accelerates for `time_a`, then goes at a steady speed
for `time_b`, then brakes for `time_c`; `dist_a` and `dist_b` are the lengths of the first two
parts. Lengths are in thousandths of a millimetre, times in ticks, and both are words of 32 bits.

A distance that is too short for the train to become steady has no steady part. `Sound` is what the
rows of `constants` for the supported trains have in common, and `Profile` what `create_neutron`
makes of such a row: none of its products wraps around, and the train brakes before its destination.
-/

namespace PollingExpress
namespace Drive

open Nav (TrainNum)
open Train (vPTrainNum)

/-- Where the behaviour of a straightpath worker is undefined, or the kernel is stopped. -/
inductive Fault
  /-- "Impossible Distance". -/
  | impossibleDistance
  /-- An access outside an array. -/
  | overrun
  /-- A loop that does not come to its end. -/
  | endless
  deriving DecidableEq

/-- A row of `constants`. -/
structure Constants where
  steadyTail : UInt32
  steadyVel : UInt32
  steadyStart : UInt32
  steadyStop : UInt32
  accel : UInt32
  deaccel : UInt32
  magic1 : UInt32
  magic2 : UInt32

def constants : Fin 12 → Constants := ![
  ⟨293005, 1526, 205, 179, 7448, 8520, 6979, 874⟩,
  ⟨1927195, 4707, 496, 322, 9483, 14595, 7822, 650⟩,
  ⟨510000, 1000, 1000, 20, 1000, 50000, 510, 20⟩,
  ⟨510000, 1000, 1000, 20, 1000, 50000, 510, 20⟩,
  ⟨359022, 1582, 252, 202, 6288, 7821, 5671, 804⟩,
  ⟨1687417, 4523, 384, 363, 11792, 12474, 11470, 945⟩,
  ⟨300653, 1445, 215, 201, 6707, 7200, 6478, 932⟩,
  ⟨1722952, 4338, 444, 350, 9771, 12380, 8741, 789⟩,
  ⟨1108617, 3198, 421, 272, 7591, 11755, 6247, 646⟩,
  ⟨2447698, 5761, 586, 264, 9833, 21835, 7130, 450⟩,
  ⟨333698, 1246, 343, 193, 3632, 6469, 2836, 562⟩,
  ⟨1755431, 3726, 626, 317, 5956, 11765, 4486, 506⟩]

/-- `neutron`: the three parts of a move, with their times and distances, and the constants
they were computed from. -/
structure Neutron where
  speed : UInt32
  distance : UInt32
  timeA : UInt32
  distA : UInt32
  timeB : UInt32
  distB : UInt32
  timeC : UInt32
  accel : UInt32
  deaccel : UInt32
  steady : UInt32
  deriving DecidableEq

/-- The row of `constants` for a train. -/
def rowOffset (train : TrainNum) : Fin 12 :=
  if vPTrainNum train = 1 then 0
  else if vPTrainNum train = 2 then 2
  else if vPTrainNum train = 24 then 4
  else if vPTrainNum train = 58 then 6
  else if vPTrainNum train = 74 then 8
  else if vPTrainNum train = 78 then 10
  else 6

/-- The profile with a given row and given times; `create_neutron` ends so, whatever the
distance. -/
def Constants.profile (vals : Constants) (distance timeA distB timeC : UInt32) : Neutron where
  speed := 7
  distance := distance
  timeA := timeA
  distA := vals.accel * timeA * timeA / 2000
  timeB := distB / vals.steadyVel
  distB := distB
  timeC := timeC
  accel := vals.accel
  deaccel := vals.deaccel
  steady := vals.steadyVel

/-- `create_neutron` with a given row. -/
def Constants.createNeutron (vals : Constants) (distance : UInt32) : Neutron :=
  if distance < vals.steadyTail then
    let timeA := squareRoot (distance * 1000 / vals.magic1)
    vals.profile distance timeA 0 (vals.magic2 * timeA / 1000)
  else vals.profile distance vals.steadyStart (distance - vals.steadyTail) vals.steadyStop

/-- `create_neutron`; `force_slow` is not read. The row of the train decides, and a distance that is
shorter than its tail gets a profile without a steady part. -/
def createNeutron (train : TrainNum) (distance : UInt32) : Neutron :=
  (constants (rowOffset train)).createNeutron distance

/-- `find_time`. -/
def findTime (n : Neutron) (distance : UInt32) : Except Fault UInt32 :=
  if distance < n.distA then .ok (squareRoot (distance * 2000 / n.accel))
  else if distance < n.distA + n.distB then .ok ((distance - n.distA) / n.steady + n.timeA)
  else if distance < n.distance then
    .ok (n.timeA + n.timeB + n.timeC - squareRoot
      (n.timeC * n.timeC - 2 * distance * 1000 / n.deaccel))
  else .error .impossibleDistance

/-- `adjust_offset`. -/
def adjustOffset (n : Neutron) (train : TrainNum) (offset : Int32) : Neutron :=
  if offset < 0 then n
  else
    let len : Int32 := (n.accel * offset.toUInt32 * offset.toUInt32 / 2000).toInt32
    createNeutron train (n.distance + len.toUInt32)

/-! ### The rows of the supported trains -/

/-- What the rows have in common. The profiles are computed in 32 bits, without a check; these are
the bounds under which no product wraps around and every part of a move has a length. That they hold
is decided on the table (`sound_constants`). -/
structure Constants.Sound (vals : Constants) : Prop where
  steady : 4 ≤ vals.steadyVel.toNat
  accel : 2000 ≤ vals.accel.toNat
  magic_pos : 0 < vals.magic1.toNat
  magic : vals.magic1.toNat ≤ 1000000
  tail : 2000 * vals.steadyTail.toNat < 2 ^ 32
  /-- A short move accelerates over less than its length. -/
  half : vals.accel.toNat < 2 * vals.magic1.toNat
  start_pos : 0 < vals.steadyStart.toNat
  /-- A train is steady before the end of the shortest move that has a steady part. -/
  start : vals.accel.toNat * (vals.steadyStart.toNat * vals.steadyStart.toNat) <
    2000 * vals.steadyTail.toNat

theorem sound_constants (train : TrainNum) : (constants (rowOffset train)).Sound := by
  have h_all : ∀ train : TrainNum,
      let vals := constants (rowOffset train)
      4 ≤ vals.steadyVel.toNat ∧ 2000 ≤ vals.accel.toNat ∧ 0 < vals.magic1.toNat ∧
        vals.magic1.toNat ≤ 1000000 ∧
        2000 * vals.steadyTail.toNat < 2 ^ 32 ∧ vals.accel.toNat < 2 * vals.magic1.toNat ∧
        0 < vals.steadyStart.toNat ∧
        vals.accel.toNat * (vals.steadyStart.toNat * vals.steadyStart.toNat) <
          2000 * vals.steadyTail.toNat := by
    decide
  obtain ⟨h_steady, h_accel, h_pos, h_magic, h_tail, h_half, h_start_pos, h_start⟩ := h_all train
  exact ⟨h_steady, h_accel, h_pos, h_magic, h_tail, h_half, h_start_pos, h_start⟩

/-! ### Profiles -/

/-- What `create_neutron` makes of a row. The lengths of the first two parts fit their times,
rounded down, and nothing that `find_time` multiplies is out of the range of 32 bits. -/
structure Neutron.Profile (n : Neutron) : Prop where
  accel : 0 < n.accel.toNat
  steady : 4 ≤ n.steady.toNat
  square : n.accel.toNat * (n.timeA.toNat * n.timeA.toNat) < 2 ^ 32
  distA : n.distA.toNat = n.accel.toNat * (n.timeA.toNat * n.timeA.toNat) / 2000
  timeB : n.timeB.toNat = n.distB.toNat / n.steady.toNat
  /-- The train brakes before its destination. -/
  brakes : n.distance.toNat ≠ 0 → n.distA.toNat + n.distB.toNat < n.distance.toNat

theorem toNat_mul_mul {a b : UInt32} (h : a.toNat * (b.toNat * b.toNat) < 2 ^ 32) :
    (a * b * b).toNat = a.toNat * (b.toNat * b.toNat) := by
  rw [UInt32.toNat_mul, UInt32.toNat_mul, Nat.mod_mul_mod, Nat.mul_assoc]
  exact Nat.mod_eq_of_lt h

section
variable {vals : Constants} {distance timeA distB timeC : UInt32}

theorem Constants.Sound.profile (h : vals.Sound)
    (h_square : vals.accel.toNat * (timeA.toNat * timeA.toNat) < 2 ^ 32)
    (h_brakes : distance.toNat ≠ 0 →
      vals.accel.toNat * (timeA.toNat * timeA.toNat) / 2000 + distB.toNat < distance.toNat) :
    (vals.profile distance timeA distB timeC).Profile := by
  have h_distA : (vals.accel * timeA * timeA / 2000).toNat =
      vals.accel.toNat * (timeA.toNat * timeA.toNat) / 2000 := by
    rw [UInt32.toNat_div, toNat_mul_mul h_square]
    rfl
  refine ⟨by have h_accel := h.accel; exact Nat.lt_of_lt_of_le (by decide) h_accel, h.steady,
    h_square, h_distA,
    UInt32.toNat_div _ _, fun h_ne => ?_⟩
  change (vals.accel * timeA * timeA / 2000).toNat + distB.toNat < distance.toNat
  rw [h_distA]
  exact h_brakes h_ne

/-- The time of a short move. -/
theorem Constants.Sound.short (h : vals.Sound) (h_short : distance < vals.steadyTail) :
    (squareRoot (distance * 1000 / vals.magic1)).toNat =
      Nat.sqrt (distance.toNat * 1000 / vals.magic1.toNat) := by
  have h_tail := h.tail
  have h_lt := UInt32.lt_iff_toNat_lt.mp h_short
  have h_product : (distance * 1000).toNat = distance.toNat * 1000 := toNat_mul_of_lt (by
    change distance.toNat * 1000 < 2 ^ 32
    omega)
  rw [squareRoot_eq, UInt32.toNat_div, h_product]

/-- Twice the acceleration of a short move. The time is the root of the length over `magic1`, and
`accel` is less than twice `magic1`, so the way of the acceleration is less than the whole. -/
theorem short_square_le (h : vals.Sound) (d : ℕ) :
    vals.accel.toNat *
      (Nat.sqrt (d * 1000 / vals.magic1.toNat) * Nat.sqrt (d * 1000 / vals.magic1.toNat)) ≤
      2000 * d ∧ (d ≠ 0 →
    vals.accel.toNat *
      (Nat.sqrt (d * 1000 / vals.magic1.toNat) * Nat.sqrt (d * 1000 / vals.magic1.toNat)) <
      2000 * d) := by
  obtain ⟨q, h_q⟩ : ∃ q, q = Nat.sqrt (d * 1000 / vals.magic1.toNat) *
      Nat.sqrt (d * 1000 / vals.magic1.toNat) :=
    ⟨_, rfl⟩
  have h_sqrt : vals.magic1.toNat * q ≤ d * 1000 := by
    calc vals.magic1.toNat * q ≤ vals.magic1.toNat * (d * 1000 / vals.magic1.toNat) :=
          Nat.mul_le_mul_left _ (h_q ▸ Nat.sqrt_le _)
      _ ≤ d * 1000 := Nat.mul_div_le _ _
  have h_half := h.half
  rw [← h_q]
  -- `accel` is less than twice `magic1`
  constructor
  · calc vals.accel.toNat * q ≤ 2 * vals.magic1.toNat * q := Nat.mul_le_mul_right _ h_half.le
      _ = 2 * (vals.magic1.toNat * q) := Nat.mul_assoc _ _ _
      _ ≤ 2000 * d := by omega
  · intro h_ne
    rcases Nat.eq_zero_or_pos q with rfl | h_pos
    · omega
    · calc vals.accel.toNat * q < 2 * vals.magic1.toNat * q :=
        Nat.mul_lt_mul_of_pos_right h_half h_pos
        _ = 2 * (vals.magic1.toNat * q) := Nat.mul_assoc _ _ _
        _ ≤ 2000 * d := by omega

/-- A sound row makes a profile, whether the move is a short one, without a steady part, or a long
one. -/
theorem Constants.Sound.createNeutron (h : vals.Sound) (distance : UInt32) :
    (vals.createNeutron distance).Profile := by
  have h_tail := h.tail
  unfold Constants.createNeutron
  split
  · -- a move without a steady part: the square of its time is compared with its length
    next h_short =>
    have h_lt := UInt32.lt_iff_toNat_lt.mp h_short
    obtain ⟨h_le, h_strict⟩ := short_square_le h distance.toNat
    have h_time := h.short h_short
    refine h.profile ?_ fun h_ne => ?_
    · rw [h_time]
      omega
    · rw [h_time]
      have h_strict := h_strict h_ne
      change _ / 2000 + 0 < _
      omega
  · -- what is taken off the length of a long move is no more than the length
    next h_long =>
    have h_start := h.start
    have h_le : vals.steadyTail.toNat ≤ distance.toNat := by
      rw [UInt32.lt_iff_toNat_lt] at h_long
      omega
    refine h.profile (by omega) fun h_ne => ?_
    rw [toNat_sub_of_le h_le]
    omega

theorem Constants.Sound.timeA_pos (h : vals.Sound) (h_ge : 1000 ≤ distance.toNat) :
    0 < (vals.createNeutron distance).timeA.toNat := by
  unfold Constants.createNeutron
  split
  · next h_short =>
    change 0 < (squareRoot (distance * 1000 / vals.magic1)).toNat
    have h_magic := h.magic
    rw [h.short h_short]
    exact Nat.sqrt_pos.mpr (Nat.div_pos (by omega) h.magic_pos)
  · exact h.start_pos

/-- A train that goes a millimetre accelerates. -/
theorem Constants.Sound.distA_pos (h : vals.Sound) (h_ge : 1000 ≤ distance.toNat) :
    0 < (vals.createNeutron distance).distA.toNat := by
  have h_timeA := h.timeA_pos h_ge
  have h_accel : 2000 ≤ (vals.createNeutron distance).accel.toNat := by
    unfold Constants.createNeutron
    split
    · exact h.accel
    · exact h.accel
  rw [(h.createNeutron distance).distA]
  refine Nat.div_pos ?_ (by decide)
  calc 2000 ≤ (vals.createNeutron distance).accel.toNat * 1 := by omega
    _ ≤ _ := Nat.mul_le_mul_left _ (Nat.mul_pos h_timeA h_timeA)

end

theorem createNeutron_distance {train : TrainNum} {distance : UInt32} :
    (createNeutron train distance).distance = distance := by
  unfold createNeutron Constants.createNeutron
  split
  · rfl
  · rfl

/-- **Every profile** is one, for every train and every distance: that the row of a train is sound
is all that is used. -/
theorem profile_createNeutron (train : TrainNum) (distance : UInt32) :
    (createNeutron train distance).Profile :=
  (sound_constants train).createNeutron distance

/-! ### The time to a place before the braking point -/

namespace Neutron

/-- What `find_time` computes there, with numbers of any size. -/
def timeAt (n : Neutron) (d : ℕ) : ℕ :=
  if d < n.distA.toNat then Nat.sqrt (2000 * d / n.accel.toNat)
  else (d - n.distA.toNat) / n.steady.toNat + n.timeA.toNat

variable {n : Neutron} {d d' : ℕ}

/-- While the train accelerates. -/
theorem Profile.sqrt_le (h : n.Profile) (h_lt : d < n.distA.toNat) :
    2000 * d < 2 ^ 32 ∧ Nat.sqrt (2000 * d / n.accel.toNat) ≤ n.timeA.toNat := by
  have h_distA := h.distA
  have h_square := h.square
  have h_le : 2000 * d ≤ n.accel.toNat * (n.timeA.toNat * n.timeA.toNat) := by omega
  refine ⟨by omega, ?_⟩
  calc Nat.sqrt (2000 * d / n.accel.toNat) ≤ Nat.sqrt (n.timeA.toNat * n.timeA.toNat) :=
        Nat.sqrt_le_sqrt (Nat.div_le_of_le_mul h_le)
    _ = n.timeA.toNat := Nat.sqrt_eq _

theorem Profile.timeAt_mono (h : n.Profile) (h_le : d ≤ d') : n.timeAt d ≤ n.timeAt d' := by
  unfold timeAt
  by_cases h_d : d < n.distA.toNat
  · rw [if_pos h_d]
    by_cases h_d' : d' < n.distA.toNat
    · -- both places are where the train accelerates
      rw [if_pos h_d']
      exact Nat.sqrt_le_sqrt (Nat.div_le_div_right (Nat.mul_le_mul_left _ h_le))
    · -- the train comes to one before it is steady, and to the other after
      rw [if_neg h_d']
      exact (h.sqrt_le h_d).2.trans (Nat.le_add_left _ _)
  · rw [if_neg h_d, if_neg (by omega)]
    exact Nat.add_le_add_right (Nat.div_le_div_right (by omega)) _

theorem Profile.timeAt_le (h : n.Profile) (h_lt : d < n.distA.toNat + n.distB.toNat) :
    n.timeAt d ≤ n.timeA.toNat + n.timeB.toNat := by
  unfold timeAt
  split
  · next h_d => exact (h.sqrt_le h_d).2.trans (Nat.le_add_right _ _)
  · rw [h.timeB, Nat.add_comm]
    exact Nat.add_le_add_left (Nat.div_le_div_right (by omega)) _

/-- The times add up without wrapping around. -/
theorem Profile.times_lt (h : n.Profile) : n.timeA.toNat < 2 ^ 16 ∧ n.timeB.toNat < 2 ^ 30 := by
  constructor
  · -- its square fits
    have h_square := h.square
    by_contra h_ge
    have h_mul : 2 ^ 16 * 2 ^ 16 ≤ n.timeA.toNat * n.timeA.toNat :=
      Nat.mul_le_mul (by omega) (by omega)
    have h_one := Nat.mul_le_mul_right (n.timeA.toNat * n.timeA.toNat) h.accel
    omega
  · have h_distB := UInt32.toNat_lt n.distB
    rw [h.timeB]
    refine (Nat.div_lt_iff_lt_mul (by have h_steady := h.steady; omega)).mpr ?_
    calc n.distB.toNat < 2 ^ 30 * 4 := by omega
      _ ≤ 2 ^ 30 * n.steady.toNat := Nat.mul_le_mul_left _ h.steady

/-- The braking point. -/
theorem Profile.toNat_distA_add (h : n.Profile) (h_ne : n.distance.toNat ≠ 0) :
    (n.distA + n.distB).toNat = n.distA.toNat + n.distB.toNat := by
  have h_brakes := h.brakes h_ne
  have h_distance := UInt32.toNat_lt n.distance
  exact toNat_add_of_lt (by omega)

/-- **Before the braking point**, `find_time` is exact: it computes in 32 bits what `timeAt` says of
numbers of any size. While the train accelerates only the product with 2000 could wrap around, and
while it is steady only the sum of the times; behind the braking point both can. -/
theorem Profile.findTime_eq (h : n.Profile) (h_ne : n.distance.toNat ≠ 0) {d : UInt32}
    (h_lt : d.toNat < n.distA.toNat + n.distB.toNat) :
    ∃ t, findTime n d = .ok t ∧ t.toNat = n.timeAt d.toNat := by
  have h_sum := h.toNat_distA_add h_ne
  unfold findTime
  by_cases h_d : d.toNat < n.distA.toNat
  · -- while it accelerates, only the product could wrap around
    obtain ⟨h_fits, -⟩ := h.sqrt_le h_d
    have h_product : (d * 2000).toNat = 2000 * d.toNat := by
      rw [toNat_mul_of_lt (by change d.toNat * 2000 < _; omega), Nat.mul_comm]
      rfl
    refine ⟨_, if_pos (UInt32.lt_iff_toNat_lt.mpr h_d), ?_⟩
    rw [squareRoot_eq, UInt32.toNat_div, h_product, timeAt, if_pos h_d]
  · -- while it is steady, only the sum of the times could
    have h_time := h.timeAt_le h_lt
    obtain ⟨h_timeA, h_timeB⟩ := h.times_lt
    rw [timeAt, if_neg h_d] at h_time ⊢
    rw [if_neg (by rwa [UInt32.lt_iff_toNat_lt]), if_pos (by rwa [UInt32.lt_iff_toNat_lt, h_sum])]
    refine ⟨_, rfl, ?_⟩
    have h_steady : ((d - n.distA) / n.steady).toNat =
        (d.toNat - n.distA.toNat) / n.steady.toNat := by
      rw [UInt32.toNat_div, toNat_sub_of_le (by omega)]
    rw [toNat_add_of_lt (by omega), h_steady]

end Neutron

end Drive
end PollingExpress
