import PcmStream.Proofs.Rounding
import PcmStream.Time

/- Frames played never decrease with time, although seconds are rounded. Within one second each
   rounding keeps the order. From one second to a later one the part behind the point, which is less
   than one, either does not reach the next whole second or is lost in rounding. -/
namespace PcmStream

namespace Double

open Binary

theorem infinity_lt : shape.infinity < 2 ^ 64 := by decide

theorem toNat_ofNat {bits : Nat} (fits : bits < 2 ^ 64) : (ofNat bits).toNat = bits :=
  Nat.mod_eq_of_lt fits

theorem toNat_ofInt (n : Nat) : (ofInt n).toNat = shape.nearest n := by
  rw [ofInt, ofInt_eq]
  exact toNat_ofNat ((nearest_le_infinity _).trans_lt infinity_lt)

theorem mul_lt {a b : Nat} (within : a ≤ shape.infinity) (within' : b ≤ shape.infinity) :
    shape.mul a b < 2 ^ 64 := by
  have invalid : shape.invalid < 2 ^ 64 := by decide
  have encoded (m : Nat) (e : Int) : shape.encode false m 1 e < 2 ^ 64 :=
    (encode_le_infinity m 1 e).trans_lt infinity_lt
  have chosen (p : Prop) [Decidable p] :
      (if p then shape.invalid else shape.infinity) < 2 ^ 64 := by
    split
    · exact invalid
    · exact infinity_lt
  rw [Binary.mul, combine_eq _ within within']
  rcases decode_ends within with decoded | ⟨m, e, decoded, -⟩ <;>
    rcases decode_ends within' with decoded' | ⟨m', e', decoded', -⟩ <;> rw [decoded, decoded']
  · exact infinity_lt
  · exact chosen (m' = 0)
  · exact chosen (m = 0)
  · exact encoded _ _

theorem nearest_lt_infinity {n : Nat} (fits : n ≤ 2 ^ 64) : shape.nearest n < shape.infinity := by
  have bound : shape.nearest ((2 ^ 64 : Nat) : ℚ) < shape.infinity := by decide +kernel
  exact (nearest_mono (Nat.cast_nonneg n) (Nat.cast_le.mpr fits)).trans_lt bound

theorem value_nearest_pow {n : Nat} (fits : n ≤ 64) :
    shape.value (shape.nearest (2 ^ n : Nat)) = (2 ^ n : Nat) := by
  have finite := nearest_lt_infinity (Nat.pow_le_pow_right two_pos fits)
  have power : ((2 ^ n : Nat) : ℚ) = (1 : Nat) * 2 ^ (n : Int) := by
    rw [Nat.cast_one, one_mul, zpow_natCast, Nat.cast_pow, Nat.cast_ofNat]
  have from_least : shape.least ≤ 0 := by decide
  rw [power] at finite ⊢
  exact value_nearest (by decide) (from_least.trans (Int.natCast_nonneg n)) finite

theorem value_nearest_nat {n : Nat} (fits : n ≤ 2 ^ 53) : shape.value (shape.nearest n) = n := by
  have finite : shape.nearest n < shape.infinity := nearest_lt_infinity (by omega)
  have from_least : shape.least ≤ 0 := by decide
  rcases Nat.lt_or_ge n (2 ^ 53) with below | full
  · have exact := value_nearest (f := shape) (m := n) (e := 0) below from_least
    rw [zpow_zero, mul_one] at exact
    exact exact finite
  · rw [Nat.le_antisymm fits full]
    exact value_nearest_pow (by decide)

end Double

open Binary Double

theorem nanosPerSecond_pos : 0 < nanosPerSecond := by decide

def partOfSecond (nanos : Nat) : Nat :=
  shape.div (shape.nearest nanos) (shape.nearest nanosPerSecond)

theorem second_value : shape.value (shape.nearest nanosPerSecond) = nanosPerSecond :=
  value_nearest_nat (by decide)

theorem partOfSecond_eq {nanos : Nat} (fits : nanos ≤ nanosPerSecond) :
    partOfSecond nanos = shape.nearest ((nanos : ℚ) / nanosPerSecond) := by
  have small : nanosPerSecond ≤ 2 ^ 53 := by decide
  have positive : (0 : ℚ) < nanosPerSecond := by exact_mod_cast nanosPerSecond_pos
  rw [partOfSecond, div_eq (nearest_lt_infinity (by omega)) (nearest_lt_infinity (by omega))
    (by rwa [second_value]), second_value, value_nearest_nat (by omega)]

theorem partOfSecond_mono {nanos nanos' : Nat} (le : nanos ≤ nanos')
    (fits : nanos' ≤ nanosPerSecond) : partOfSecond nanos ≤ partOfSecond nanos' := by
  rw [partOfSecond_eq (le.trans fits), partOfSecond_eq fits]
  exact nearest_mono (by positivity)
    (div_le_div_of_nonneg_right (Nat.cast_le.mpr le) (Nat.cast_nonneg _))

theorem partOfSecond_lt {nanos : Nat} (part : nanos < nanosPerSecond) :
    partOfSecond nanos < shape.nearest (1 : Nat) := by
  have most : partOfSecond (nanosPerSecond - 1) < shape.nearest (1 : Nat) := by decide +kernel
  exact (partOfSecond_mono (Nat.le_sub_one_of_lt part) (Nat.sub_le _ _)).trans_lt most

theorem partOfSecond_finite {nanos : Nat} (part : nanos < nanosPerSecond) :
    partOfSecond nanos < shape.infinity :=
  (partOfSecond_lt part).trans_le (nearest_le_infinity _)

theorem partOfSecond_value {nanos : Nat} (part : nanos < nanosPerSecond) :
    shape.value (partOfSecond nanos) < 1 := by
  have less := value_lt (partOfSecond_lt part) (nearest_le_infinity _)
  rwa [value_nearest_nat (by decide), Nat.cast_one] at less

theorem secondsOfNanos_eq (nanos : Nat) : (secondsOfNanos nanos).toNat =
    shape.add (shape.nearest (nanos / nanosPerSecond : Nat))
      (partOfSecond (nanos % nanosPerSecond)) := by
  have finite := partOfSecond_finite (Nat.mod_lt nanos nanosPerSecond_pos)
  have part : ((ofInt (nanos % nanosPerSecond : Nat)).div (ofInt nanosPerSecond)).toNat =
      partOfSecond (nanos % nanosPerSecond) := by
    rw [Double.div, toNat_ofInt, toNat_ofInt]
    exact toNat_ofNat (finite.trans infinity_lt)
  unfold secondsOfNanos
  rw [← Int.natCast_ediv, ← Int.natCast_emod, Double.add, part, toNat_ofInt]
  exact toNat_ofNat ((add_le_infinity (nearest_le_infinity _) finite.le).trans_lt infinity_lt)

/-- From here on two doubles next to each other are two whole numbers apart. -/
theorem far_unit {second steps mantissa : Nat} (far : 2 ^ 53 ≤ second)
    (is : shape.Parts (shape.nearest second) steps mantissa) :
    (2 : ℚ) ≤ 2 ^ (shape.least + steps) := by
  have above : ((2 ^ 53 : Nat) : ℚ) ≤ mantissa * 2 ^ (shape.least + steps) :=
    calc ((2 ^ 53 : Nat) : ℚ) = shape.value (shape.nearest (2 ^ 53 : Nat)) :=
          (value_nearest_nat le_rfl).symm
      _ ≤ shape.value (shape.nearest second) :=
          value_mono (nearest_mono (Nat.cast_nonneg _) (Nat.cast_le.mpr far))
            (nearest_le_infinity _)
      _ = mantissa * 2 ^ (shape.least + steps) := value_eq is
  have below : (mantissa : ℚ) < (2 ^ 53 : Nat) := Nat.cast_lt.mpr is.high
  have reached : 0 < shape.least + steps := by
    by_contra small
    have unit_le : (2 : ℚ) ^ (shape.least + steps) ≤ 1 :=
      zpow_le_one_of_nonpos₀ one_le_two (not_lt.mp small)
    have short := mul_le_of_le_one_right (Nat.cast_nonneg mantissa) unit_le
    linarith
  calc (2 : ℚ) = 2 ^ (1 : Int) := (zpow_one 2).symm
    _ ≤ 2 ^ (shape.least + steps) := zpow_le_zpow_right₀ one_le_two reached

theorem next_second {second second' nanos : Nat} (part : nanos < nanosPerSecond)
    (later : second < second') :
    shape.add (shape.nearest second) (partOfSecond nanos) ≤ shape.nearest second' := by
  have part_finite := partOfSecond_finite part
  have less := partOfSecond_value part
  have positive := value_nonneg (f := shape) (partOfSecond nanos)
  have whole : shape.nearest second ≤ shape.nearest second' :=
    nearest_mono (Nat.cast_nonneg _) (Nat.cast_le.mpr later.le)
  rcases (nearest_le_infinity (f := shape) (second' : ℚ)).eq_or_lt with infinite | finite
  · rw [infinite]
    exact add_le_infinity (nearest_le_infinity _) part_finite.le
  rw [add_eq (whole.trans_lt finite) part_finite]
  rcases Nat.lt_or_ge second (2 ^ 53) with near | far
  · have exact := value_nearest_nat near.le
    have reaches : (second : ℚ) + 1 ≤ second' := by exact_mod_cast later
    apply nearest_mono (add_nonneg (value_nonneg _) positive)
    linarith
  · have is := parts shape (shape.nearest second)
    have unit_ge := far_unit far is
    rw [nearest_absorbs is (nearest_le_infinity _) positive (by linarith)]
    exact whole

theorem secondsOfNanos_mono {nanos nanos' : Nat} (le : nanos ≤ nanos') :
    (secondsOfNanos nanos).toNat ≤ (secondsOfNanos nanos').toNat := by
  have part := Nat.mod_lt nanos nanosPerSecond_pos
  have part' := Nat.mod_lt nanos' nanosPerSecond_pos
  have finite' := partOfSecond_finite part'
  rw [secondsOfNanos_eq, secondsOfNanos_eq]
  -- In one second its part decides; a later second begins above all parts of this one.
  rcases (Nat.div_le_div_right le : nanos / nanosPerSecond ≤ _).eq_or_lt with same | later
  · have behind : nanos % nanosPerSecond ≤ nanos' % nanosPerSecond := by
      have split := Nat.div_add_mod nanos nanosPerSecond
      have split' := Nat.div_add_mod nanos' nanosPerSecond
      rw [same] at split
      omega
    rw [same]
    exact add_mono le_rfl (partOfSecond_mono behind part'.le) (nearest_le_infinity _) finite'.le
  · exact (next_second part later).trans (le_add (nearest_le_infinity _) finite'.le)

def playedAt (rate seconds : Nat) : Int :=
  shape.toIntWithin 0 (wordLimit - 1) (shape.mul seconds rate)

theorem playedAt_zero {rate seconds : Nat} (within : seconds ≤ shape.infinity)
    (within' : rate ≤ shape.infinity) (none : seconds = 0 ∨ rate = 0) :
    playedAt rate seconds = 0 := by
  by_cases finite : seconds < shape.infinity ∧ rate < shape.infinity
  · have product : shape.value seconds * shape.value rate = 0 := by
      rcases none with rfl | rfl
      · rw [value_zero, zero_mul]
      · rw [value_zero, mul_zero]
    rw [playedAt, mul_eq finite.1 finite.2, product]
    rfl
  · -- What zero times infinity gives is no number, and none is played.
    rcases none with rfl | rfl
    · obtain rfl : rate = shape.infinity := by omega
      decide +kernel
    · obtain rfl : seconds = shape.infinity := by omega
      decide +kernel

theorem playedAt_mono {rate seconds seconds' : Nat} (le : seconds ≤ seconds')
    (within : seconds' ≤ shape.infinity) (within' : rate ≤ shape.infinity) :
    playedAt rate seconds ≤ playedAt rate seconds' := by
  have word : (0 : Int) ≤ wordLimit - 1 := by decide
  by_cases none : seconds = 0 ∨ rate = 0
  · rw [playedAt_zero (le.trans within) within' none]
    exact toIntWithin_nonneg word _
  by_cases infinite : seconds' = shape.infinity ∨ rate = shape.infinity
  · rw [playedAt, playedAt, mul_infinity within within' (by omega) (by omega) infinite,
      toIntWithin_infinity]
    exact toIntWithin_le word _
  · have values := value_mono le within
    apply toIntWithin_mono word
    · rw [mul_eq (by omega) (by omega), mul_eq (by omega) (by omega)]
      exact nearest_mono (mul_nonneg (value_nonneg _) (value_nonneg _))
        (mul_le_mul_of_nonneg_right values (value_nonneg _))
    · rw [mul_eq (by omega) (by omega)]
      exact nearest_le_infinity _

theorem secondsOfNanos_le (nanos : Nat) : (secondsOfNanos nanos).toNat ≤ shape.infinity := by
  have finite := partOfSecond_finite (Nat.mod_lt nanos nanosPerSecond_pos)
  rw [secondsOfNanos_eq]
  exact add_le_infinity (nearest_le_infinity _) finite.le

theorem framesOfNanos_eq (nanos rate : Nat) : framesOfNanos nanos rate =
    (playedAt (shape.nearest rate) (secondsOfNanos nanos).toNat).toNat := by
  unfold framesOfNanos playedAt Double.mul Double.toIntWithin
  rw [toNat_ofInt, toNat_ofNat (mul_lt (secondsOfNanos_le nanos) (nearest_le_infinity _))]

theorem framesOfNanos_mono {nanos nanos' : Nat} (le : nanos ≤ nanos') (rate : Nat) :
    framesOfNanos nanos rate ≤ framesOfNanos nanos' rate := by
  rw [framesOfNanos_eq, framesOfNanos_eq]
  exact Int.toNat_le_toNat
    (playedAt_mono (secondsOfNanos_mono le) (secondsOfNanos_le nanos') (nearest_le_infinity _))

section FrameTime

variable {a b : Nat}

theorem div_le (finite : a < shape.infinity) (whole : shape.nearest (1 : Nat) ≤ b)
    (within : b ≤ shape.infinity) : shape.div a b ≤ a := by
  rcases within.eq_or_lt with rfl | finite'
  · obtain ⟨m, e, decoded, -⟩ := decode_finite finite
    rw [Binary.div, combine_eq _ finite.le le_rfl, decode_infinity, decoded]
    exact Nat.zero_le a
  · have one_le := value_mono whole within
    rw [value_nearest_nat (by decide), Nat.cast_one] at one_le
    rw [div_eq finite finite' (one_pos.trans_le one_le)]
    calc shape.nearest (shape.value a / shape.value b)
        ≤ shape.nearest (shape.value a) :=
          nearest_mono (div_nonneg (value_nonneg a) (value_nonneg b))
            (div_le_self (value_nonneg a) one_le)
      _ = a := nearest_value finite.le

theorem nanosOfSeconds_made {seconds : Double} {bits limit : Nat} (is : seconds.toNat = bits)
    (finite : bits < shape.infinity) (within : shape.value bits ≤ limit)
    (short : limit < wordLimit) : ∃ nanos, nanosOfSeconds seconds = .ok nanos := by
  obtain ⟨m, e, decoded, value⟩ := decode_finite finite
  have rounds := roundDiv_rounds (scaleUp (m * nanosPerSecond) e) (scaleUp_pos one_pos (-e))
  rw [scaled_div] at rounds
  have few : roundDiv (scaleUp (m * nanosPerSecond) e) (scaleUp 1 (-e)) ≤
      limit * nanosPerSecond := by
    apply rounds_mono rounds (rounds_cast _)
    push_cast
    calc (m : ℚ) * nanosPerSecond / 1 * 2 ^ e = m * 2 ^ e * nanosPerSecond := by ring
      _ ≤ limit * nanosPerSecond :=
          mul_le_mul_of_nonneg_right (value ▸ within) (Nat.cast_nonneg _)
  have room := Nat.mul_lt_mul_of_pos_right short nanosPerSecond_pos
  refine ⟨roundDiv (scaleUp (m * nanosPerSecond) e) (scaleUp 1 (-e)), ?_⟩
  unfold nanosOfSeconds
  rw [is, decoded]
  exact if_pos (few.trans_lt room)

theorem one_le_divisor (rate : Nat) :
    shape.nearest (1 : Nat) ≤ shape.nearest (max rate 1 : Nat) :=
  nearest_mono (Nat.cast_nonneg 1) (Nat.cast_le.mpr (le_max_right rate 1))

theorem secondsOfFrames_eq {frames : Nat} (fits : frames ≤ 2 ^ 64) (rate : Nat) :
    ((ofInt frames).div (ofInt (max rate 1 : Nat))).toNat =
      shape.div (shape.nearest frames) (shape.nearest (max rate 1 : Nat)) := by
  have finite := nearest_lt_infinity fits
  have quotient_le := div_le finite (one_le_divisor rate) (nearest_le_infinity _)
  have in_word := infinity_lt
  rw [Double.div, toNat_ofInt, toNat_ofInt]
  exact toNat_ofNat (by omega)

theorem nanosOfFrames_made {frames : Nat} (fits : frames ≤ 2 ^ 63) (rate : Nat) :
    ∃ nanos, nanosOfFrames frames rate = .ok nanos := by
  have finite := nearest_lt_infinity (by omega : frames ≤ 2 ^ 64)
  have quotient_le := div_le finite (one_le_divisor rate) (nearest_le_infinity _)
  have within : shape.value (shape.div (shape.nearest frames) (shape.nearest (max rate 1 : Nat))) ≤
      (2 ^ 63 : Nat) :=
    calc _ ≤ shape.value (shape.nearest (2 ^ 63 : Nat)) :=
          value_mono (quotient_le.trans
            (nearest_mono (Nat.cast_nonneg _) (Nat.cast_le.mpr fits))) (nearest_le_infinity _)
      _ = (2 ^ 63 : Nat) := value_nearest_pow (by decide)
  have divisor : ((max rate 1 : Nat) : Int) = max (rate : Int) 1 := Nat.cast_max rate 1
  unfold nanosOfFrames
  rw [← divisor]
  exact nanosOfSeconds_made (secondsOfFrames_eq (by omega) rate) (quotient_le.trans_lt finite)
    within (by decide)

end FrameTime

end PcmStream
