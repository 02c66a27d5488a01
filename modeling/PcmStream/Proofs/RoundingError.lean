import PcmStream.Proofs.TimeConversion

/- How far roundings take a number away. One rounding changes a number that is not too small by no
   more than the half of a last place, so roundings one after the other are bounded by powers of one
   factor. Time that becomes frames is rounded three times; frames that become time twice, and once
   more to whole nanoseconds. -/
namespace PcmStream

namespace Binary

variable {f : Binary} {x y z c d : ℚ} {n m : Nat}

def roundoff (f : Binary) : ℚ := 1 / 2 ^ (f.fraction + 1)

theorem roundoff_pos (f : Binary) : 0 < f.roundoff := by
  unfold roundoff
  positivity

theorem roundoff_le_half (f : Binary) : f.roundoff ≤ 1 / 2 := by
  unfold roundoff
  apply one_div_le_one_div_of_le two_pos
  calc (2 : ℚ) = 2 ^ 1 := (pow_one 2).symm
    _ ≤ 2 ^ (f.fraction + 1) := pow_le_pow_right₀ one_le_two (Nat.le_add_left 1 _)

/-- `y` is what `n` roundings may make of `x`. -/
structure Near (f : Binary) (n : Nat) (x y : ℚ) : Prop where
  low : x * (1 - f.roundoff) ^ n ≤ y
  high : y ≤ x * (1 + f.roundoff) ^ n

theorem shrinks (f : Binary) : 0 < 1 - f.roundoff := by
  have half := f.roundoff_le_half
  linarith

theorem grows (f : Binary) : 0 < 1 + f.roundoff := by
  have positive := f.roundoff_pos
  linarith

theorem Near.trans (h : f.Near n x y) (h' : f.Near m y z) : f.Near (n + m) x z := by
  constructor
  · calc x * (1 - f.roundoff) ^ (n + m) = x * (1 - f.roundoff) ^ n * (1 - f.roundoff) ^ m := by
          rw [pow_add, mul_assoc]
      _ ≤ y * (1 - f.roundoff) ^ m := mul_le_mul_of_nonneg_right h.low (pow_pos f.shrinks m).le
      _ ≤ z := h'.low
  · calc z ≤ y * (1 + f.roundoff) ^ m := h'.high
      _ ≤ x * (1 + f.roundoff) ^ n * (1 + f.roundoff) ^ m :=
          mul_le_mul_of_nonneg_right h.high (pow_pos f.grows m).le
      _ = x * (1 + f.roundoff) ^ (n + m) := by rw [pow_add, mul_assoc]

theorem Near.add (h : f.Near n x y) (h' : f.Near n c d) : f.Near n (x + c) (y + d) := by
  have low := h.low
  have low' := h'.low
  have high := h.high
  have high' := h'.high
  constructor <;> rw [add_mul] <;> linarith

theorem Near.scale (h : f.Near n x y) (positive : 0 ≤ c) : f.Near n (x * c) (y * c) := by
  constructor
  · rw [mul_right_comm]
    exact mul_le_mul_of_nonneg_right h.low positive
  · rw [mul_right_comm]
    exact mul_le_mul_of_nonneg_right h.high positive

theorem Near.back (h : f.Near n x y) (positive : 0 ≤ x) : y * (1 - f.roundoff) ^ n ≤ x := by
  have undone : (1 + f.roundoff) ^ n * (1 - f.roundoff) ^ n ≤ 1 := by
    rw [← mul_pow]
    apply pow_le_one₀ (mul_nonneg f.grows.le f.shrinks.le)
    nlinarith [sq_nonneg f.roundoff]
  calc y * (1 - f.roundoff) ^ n ≤ x * (1 + f.roundoff) ^ n * (1 - f.roundoff) ^ n :=
        mul_le_mul_of_nonneg_right h.high (pow_pos f.shrinks n).le
    _ = x * ((1 + f.roundoff) ^ n * (1 - f.roundoff) ^ n) := mul_assoc _ _ _
    _ ≤ x := mul_le_of_le_one_right positive undone

theorem value_carry {steps r : Nat} (high : r ≤ 2 * 2 ^ f.fraction)
    (low : steps = 0 ∨ 2 ^ f.fraction ≤ r) :
    f.value (steps * 2 ^ f.fraction + r) = r * 2 ^ (f.least + steps) := by
  have some_place := Nat.two_pow_pos f.fraction
  -- One bit too many: the carry makes the next binade, with its least mantissa.
  rcases high.eq_or_lt with rfl | stored
  · have is : f.Parts (steps * 2 ^ f.fraction + 2 * 2 ^ f.fraction) (steps + 1) (2 ^ f.fraction) :=
      ⟨by ring, by omega, .inr le_rfl⟩
    rw [value_eq is]
    push_cast
    rw [← add_assoc, two_zpow_succ]
    ring
  · exact value_eq ⟨rfl, stored, low⟩

theorem value_nearest_rounds (positive : 0 < x) (finite : f.nearest x < f.infinity) :
    ∃ r, Rounds (x / 2 ^ f.unit x) r ∧ f.value (f.nearest x) = r * 2 ^ f.unit x := by
  obtain ⟨r, rounds, nearest⟩ := nearest_spec (f := f) positive
  have from_least := least_le_unit (f := f) x
  have whole : f.nearest x = (f.unit x - f.least).toNat * 2 ^ f.fraction + r := by omega
  have low : (f.unit x - f.least).toNat = 0 ∨ 2 ^ f.fraction ≤ r := by
    rcases from_least.eq_or_lt with bottom | above
    · exact .inl (by omega)
    · exact .inr (le_mantissa positive above rounds)
  refine ⟨r, rounds, ?_⟩
  rw [whole, value_carry (mantissa_le rounds) low, Int.toNat_of_nonneg (by omega), add_sub_cancel]

theorem nearest_near (normal : 2 ^ (f.least + f.fraction) ≤ x) (finite : f.nearest x < f.infinity) :
    f.Near 1 x (f.value (f.nearest x)) := by
  have positive : 0 < x := (two_zpow_pos _).trans_le normal
  obtain ⟨r, rounds, value⟩ := value_nearest_rounds positive finite
  have unit_pos := two_zpow_pos (f.unit x)
  have exact : x / 2 ^ f.unit x * 2 ^ f.unit x = x := div_mul_cancel₀ _ unit_pos.ne'
  have unit_le : (2 : ℚ) ^ f.unit x ≤ 2 * (x * f.roundoff) := by
    have reached : f.least + f.fraction ≤ Int.log 2 x :=
      (Int.zpow_le_iff_le_log Nat.one_lt_two positive).mp normal
    have unit_eq : f.unit x + f.fraction = Int.log 2 x := by
      unfold unit
      omega
    have top : (2 : ℚ) ^ f.unit x * 2 ^ f.fraction ≤ x := by
      rw [← zpow_natCast, ← zpow_add₀ two_ne_zero, unit_eq]
      exact zpow_log_le positive
    calc (2 : ℚ) ^ f.unit x = 2 ^ f.unit x * 2 ^ f.fraction / 2 ^ f.fraction := by
          rw [mul_div_cancel_right₀ _ (pow_pos two_pos _).ne']
      _ ≤ x / 2 ^ f.fraction := div_le_div_of_nonneg_right top (pow_pos two_pos _).le
      _ = 2 * (x * f.roundoff) := by
          rw [roundoff, pow_succ]
          field_simp
  have low := mul_le_mul_of_nonneg_right rounds.low unit_pos.le
  have high := mul_le_mul_of_nonneg_right rounds.high unit_pos.le
  rw [add_mul, mul_assoc, mul_assoc, exact, one_mul] at low
  rw [add_mul, mul_assoc, mul_assoc, exact, one_mul] at high
  rw [value]
  constructor <;> rw [pow_one] <;> linarith

end Binary

open Binary

namespace Double

variable {x y : ℚ} {n m a b : Nat}

/-- Zero, or so far from it that after `n` roundings the highest bit is still stored. -/
def Durable (n : Nat) (x : ℚ) : Prop := x = 0 ∨ 2 ^ n / 2 ^ 64 ≤ x

theorem Durable.mono (h : Durable n x) (le : m ≤ n) : Durable m x := by
  apply h.imp_right
  intro far
  exact (div_le_div_of_nonneg_right (pow_le_pow_right₀ one_le_two le) (by positivity)).trans far

theorem durable_div (divides : 0 < b) (fits : b ≤ 2 ^ 32) : Durable 32 ((a : ℚ) / b) := by
  rcases Nat.eq_zero_or_pos a with rfl | some
  · exact .inl (by rw [Nat.cast_zero, zero_div])
  · have one_le : (1 : ℚ) ≤ a := by exact_mod_cast some
    have divisor_pos : (0 : ℚ) < b := by exact_mod_cast divides
    have divisor_le : (b : ℚ) ≤ 2 ^ 32 := by exact_mod_cast fits
    apply Or.inr
    calc (2 ^ 32 / 2 ^ 64 : ℚ) = 1 / 2 ^ 32 := by norm_num
      _ ≤ 1 / b := one_div_le_one_div_of_le divisor_pos divisor_le
      _ ≤ a / b := div_le_div_of_nonneg_right one_le divisor_pos.le

theorem durable_nat (a : Nat) : Durable 32 a := by
  have whole := durable_div (a := a) one_pos (by decide)
  rwa [Nat.cast_one, div_one] at whole

theorem durable_of_near (near : shape.Near n x y) (source : Durable (n + m) x) : Durable m y := by
  rcases source with rfl | far
  · have low := near.low
    have high := near.high
    rw [zero_mul] at low high
    exact .inl (le_antisymm high low)
  · have half : (1 / 2 : ℚ) ≤ 1 - shape.roundoff := by
      have bound := shape.roundoff_le_half
      linarith
    apply Or.inr
    calc (2 ^ m / 2 ^ 64 : ℚ) = 2 ^ (n + m) / 2 ^ 64 * (1 / 2) ^ n := by
          rw [pow_add, one_div, inv_pow]
          field_simp
      _ ≤ x * (1 - shape.roundoff) ^ n :=
          mul_le_mul far (pow_le_pow_left₀ (by norm_num) half n) (by positivity)
            ((by positivity : (0 : ℚ) ≤ 2 ^ (n + m) / 2 ^ 64).trans far)
      _ ≤ y := near.low

theorem near_nearest (source : Durable 0 x) (finite : shape.nearest x < shape.infinity) :
    shape.Near 1 x (shape.value (shape.nearest x)) := by
  rcases source with rfl | far
  · rw [nearest_zero, value_zero]
    constructor <;> rw [zero_mul]
  · have least : shape.least + (shape.fraction : Int) ≤ -64 := by decide
    apply nearest_near _ finite
    calc (2 : ℚ) ^ (shape.least + shape.fraction) ≤ 2 ^ (-64 : Int) :=
          zpow_le_zpow_right₀ one_le_two least
      _ = 2 ^ 0 / 2 ^ 64 := by norm_num
      _ ≤ x := far

theorem near_again (near : shape.Near n x y) (source : Durable n x)
    (finite : shape.nearest y < shape.infinity) :
    shape.Near (n + 1) x (shape.value (shape.nearest y)) :=
  near.trans (near_nearest (durable_of_near near source) finite)

theorem near_nat (n : Nat) (finite : shape.nearest n < shape.infinity) :
    shape.Near 1 n (shape.value (shape.nearest n)) :=
  near_nearest ((durable_nat n).mono (Nat.zero_le 32)) finite

end Double

open Double

section TimeError

variable {nanos rate frames slept : Nat}

theorem seconds_pos : (0 : ℚ) < nanosPerSecond := by exact_mod_cast nanosPerSecond_pos

theorem seconds_near (finite : (secondsOfNanos nanos).toNat < shape.infinity) :
    shape.Near 2 (nanos / nanosPerSecond) (shape.value (secondsOfNanos nanos).toNat) := by
  have part := Nat.mod_lt nanos nanosPerSecond_pos
  have part_finite := partOfSecond_finite part
  have durable := durable_div (a := nanos) nanosPerSecond_pos (by decide)
  rw [secondsOfNanos_eq] at finite ⊢
  have split : (nanos : ℚ) / nanosPerSecond =
      (nanos / nanosPerSecond : Nat) + (nanos % nanosPerSecond : Nat) / nanosPerSecond := by
    have parts : (nanosPerSecond : ℚ) * (nanos / nanosPerSecond : Nat) +
        (nanos % nanosPerSecond : Nat) = nanos := by exact_mod_cast Nat.div_add_mod _ _
    rw [← parts, add_div, mul_div_cancel_left₀ _ seconds_pos.ne']
  generalize nanos / nanosPerSecond = second at finite split ⊢
  generalize nanos % nanosPerSecond = rest at part part_finite finite split ⊢
  have whole_finite : shape.nearest second < shape.infinity :=
    (le_add (nearest_le_infinity _) part_finite.le).trans_lt finite
  have part_near : shape.Near 1 (rest / nanosPerSecond) (shape.value (partOfSecond rest)) := by
    rw [partOfSecond_eq part.le] at part_finite ⊢
    exact near_nearest ((durable_div nanosPerSecond_pos (by decide)).mono (Nat.zero_le 32))
      part_finite
  have sum := (near_nat second whole_finite).add part_near
  rw [← split] at sum
  rw [add_eq whole_finite part_finite] at finite ⊢
  exact near_again sum (durable.mono (by decide)) finite

theorem frames_near (nanos : Nat) (some_rate : 1 ≤ rate) (fits : rate ≤ 2 ^ 53) :
    framesOfNanos nanos rate = wordLimit - 1 ∨ ∃ y : ℚ,
      shape.Near 3 (nanos / nanosPerSecond * rate) y ∧ 0 ≤ y ∧
        framesOfNanos nanos rate = min (wordLimit - 1) ⌊y⌋₊ := by
  have rate_finite : shape.nearest rate < shape.infinity := nearest_lt_infinity (by omega)
  have rate_value := value_nearest_nat fits
  have rate_pos : 0 < shape.nearest rate := by
    by_contra none
    obtain zero : shape.nearest rate = 0 := by omega
    rw [zero, value_zero] at rate_value
    have : rate = 0 := by exact_mod_cast rate_value.symm
    omega
  have all_word : ((wordLimit - 1 : Nat) : Int) = wordLimit - 1 := by decide
  have seconds_le := secondsOfNanos_le nanos
  rw [framesOfNanos_eq, playedAt]
  have infinite (product : shape.mul (secondsOfNanos nanos).toNat (shape.nearest rate) =
      shape.infinity) : (shape.toIntWithin 0 (wordLimit - 1)
        (shape.mul (secondsOfNanos nanos).toNat (shape.nearest rate))).toNat = wordLimit - 1 := by
    rw [product, toIntWithin_infinity, ← all_word, Int.toNat_natCast]
  rcases seconds_le.eq_or_lt with endless | seconds_finite
  · have some_time : 0 < (secondsOfNanos nanos).toNat := by
      rw [endless]
      decide
    exact .inl (infinite (mul_infinity seconds_le rate_finite.le some_time rate_pos (.inl endless)))
  · have near := (seconds_near seconds_finite).scale (Nat.cast_nonneg rate)
    have durable : Durable 2 ((nanos : ℚ) / nanosPerSecond * rate) := by
      rw [div_mul_eq_mul_div, ← Nat.cast_mul]
      exact (durable_div nanosPerSecond_pos (by decide)).mono (by decide)
    have product := mul_eq seconds_finite rate_finite
    rw [rate_value] at product
    rcases (nearest_le_infinity (f := shape) _).eq_or_lt with endless | finite
    · exact .inl (infinite (product.trans endless))
    · refine .inr ⟨_, near_again near durable finite, value_nonneg _, ?_⟩
      rw [product, toIntWithin_eq (by decide) finite, ← all_word, ← Nat.cast_min,
        Int.toNat_natCast]

theorem lt_frames_add_one (some_rate : 1 ≤ rate) (fits : rate ≤ 2 ^ 53)
    (counted : framesOfNanos nanos rate < wordLimit - 1) :
    nanos / nanosPerSecond * rate * (1 - shape.roundoff) ^ 3 <
      (framesOfNanos nanos rate : ℚ) + 1 := by
  obtain ⟨y, near, -, frames⟩ := (frames_near nanos some_rate fits).resolve_left counted.ne
  have floor : framesOfNanos nanos rate = ⌊y⌋₊ := by omega
  rw [floor]
  exact near.low.trans_lt (Nat.lt_floor_add_one y)

theorem frames_shrunk_le (some_rate : 1 ≤ rate) (fits : rate ≤ 2 ^ 53)
    (counted : framesOfNanos nanos rate < wordLimit - 1) :
    framesOfNanos nanos rate * (1 - shape.roundoff) ^ 3 ≤ (nanos : ℚ) / nanosPerSecond * rate := by
  obtain ⟨y, near, positive, frames⟩ := (frames_near nanos some_rate fits).resolve_left counted.ne
  have floor : framesOfNanos nanos rate = ⌊y⌋₊ := by omega
  calc framesOfNanos nanos rate * (1 - shape.roundoff) ^ 3 ≤ y * (1 - shape.roundoff) ^ 3 := by
        rw [floor]
        exact mul_le_mul_of_nonneg_right (Nat.floor_le positive) (pow_pos shape.shrinks 3).le
    _ ≤ (nanos : ℚ) / nanosPerSecond * rate := near.back (by positivity)

theorem nanosOfSeconds_rounds {seconds : Double} (finite : seconds.toNat < shape.infinity)
    (made : nanosOfSeconds seconds = .ok nanos) :
    Rounds (shape.value seconds.toNat * nanosPerSecond) nanos := by
  obtain ⟨m, e, decoded, value⟩ := decode_finite finite
  have rounds := roundDiv_rounds (scaleUp (m * nanosPerSecond) e) (scaleUp_pos one_pos (-e))
  have scaled : ((m * nanosPerSecond : Nat) : ℚ) / (1 : Nat) * 2 ^ e =
      shape.value seconds.toNat * nanosPerSecond := by
    rw [value]
    push_cast
    ring
  rw [scaled_div, scaled] at rounds
  unfold nanosOfSeconds at made
  rw [decoded] at made
  dsimp only at made
  split at made
  · rwa [Except.ok.inj made] at rounds
  · cases made

theorem slept_ge (few : frames ≤ 2 ^ 64) (some_rate : 1 ≤ rate) (fits : rate ≤ 2 ^ 32)
    (made : nanosOfFrames frames rate = .ok slept) :
    frames / rate * (1 - shape.roundoff) ^ 2 * nanosPerSecond ≤ (slept : ℚ) + 1 / 2 := by
  have frames_finite := nearest_lt_infinity few
  have rate_finite : shape.nearest rate < shape.infinity := nearest_lt_infinity (by omega)
  have rate_pos : (0 : ℚ) < rate := by exact_mod_cast some_rate
  have rate_value := value_nearest_nat (fits.trans (by decide))
  have shorter := div_le frames_finite (one_le_divisor rate) (nearest_le_infinity _)
  have seconds := secondsOfFrames_eq few rate
  unfold nanosOfFrames at made
  rw [Nat.max_eq_left some_rate] at shorter seconds
  rw [max_eq_left (Nat.one_le_cast.mpr some_rate : (1 : Int) ≤ rate)] at made
  rw [div_eq frames_finite rate_finite (by rwa [rate_value]), rate_value] at shorter seconds
  have finite := shorter.trans_lt frames_finite
  have near : shape.Near 1 ((frames : ℚ) / rate) (shape.value (shape.nearest frames) / rate) := by
    rw [div_eq_mul_inv, div_eq_mul_inv]
    exact (near_nat frames frames_finite).scale (inv_nonneg.mpr rate_pos.le)
  have twice := near_again near ((durable_div some_rate fits).mono (by decide)) finite
  rw [← seconds] at twice finite
  have rounds := nanosOfSeconds_rounds finite made
  have low := mul_le_mul_of_nonneg_right twice.low seconds_pos.le
  have high := rounds.high
  linarith

theorem six_shrinks : 1 - 1 / 2 ^ 50 ≤ (1 - shape.roundoff) ^ 6 := by
  norm_num [roundoff, shape]

theorem slept_frames_ge (few : frames ≤ 2 ^ 64) (some_rate : 1 ≤ rate) (fits : rate ≤ 2 ^ 32)
    (made : nanosOfFrames frames rate = .ok slept) :
    frames * (1 - shape.roundoff) ^ 2 ≤
      (slept : ℚ) / nanosPerSecond * rate + rate / (2 * nanosPerSecond) := by
  have rate_pos : (0 : ℚ) < rate := by exact_mod_cast some_rate
  have second_pos := seconds_pos
  have sleeps := slept_ge few some_rate fits made
  calc (frames : ℚ) * (1 - shape.roundoff) ^ 2
      = frames / rate * (1 - shape.roundoff) ^ 2 * nanosPerSecond * (rate / nanosPerSecond) := by
        field_simp
    _ ≤ ((slept : ℚ) + 1 / 2) * (rate / nanosPerSecond) := by gcongr
    _ = (slept : ℚ) / nanosPerSecond * rate + rate / (2 * nanosPerSecond) := by ring

/-- Playing goes on during a sleep for `frames`. What has been played at its end falls short of
    what was played before and these frames by less than one frame for the cut to whole frames,
    half a nanosecond's frames for the cut to whole nanoseconds, and a part of all for the
    roundings. -/
theorem frames_after_sleep (few : frames ≤ 2 ^ 64) (some_rate : 1 ≤ rate) (fits : rate ≤ 2 ^ 32)
    (made : nanosOfFrames frames rate = .ok slept)
    (counted : framesOfNanos (nanos + slept) rate < wordLimit - 1) :
    (framesOfNanos nanos rate : ℚ) + frames < framesOfNanos (nanos + slept) rate + 1 +
      rate / (2 * nanosPerSecond) + (framesOfNanos nanos rate + frames) / 2 ^ 50 := by
  have fits' : rate ≤ 2 ^ 53 := fits.trans (by decide)
  have before := frames_shrunk_le some_rate fits'
    ((framesOfNanos_mono (Nat.le_add_right nanos slept) rate).trans_lt counted)
  have after := lt_frames_add_one some_rate fits' counted
  have asleep := slept_frames_ge few some_rate fits made
  have shrunk := six_shrinks
  have less_one : 1 - shape.roundoff ≤ 1 := by linarith [shape.roundoff_pos]
  have low := shape.shrinks.le
  have positive : (0 : ℚ) ≤ framesOfNanos nanos rate := Nat.cast_nonneg _
  push_cast at after
  generalize 1 - shape.roundoff = down at *
  generalize (framesOfNanos nanos rate : ℚ) = played at *
  have before' := mul_le_mul_of_nonneg_right before (pow_nonneg low 3)
  have asleep' := mul_le_mul_of_nonneg_right asleep (pow_nonneg low 4)
  have sleep_shrinks : (slept : ℚ) / nanosPerSecond * rate * down ^ 4 ≤
      slept / nanosPerSecond * rate * down ^ 3 :=
    mul_le_mul_of_nonneg_left (pow_le_pow_of_le_one low less_one (by decide)) (by positivity)
  have half_shrinks : (rate : ℚ) / (2 * nanosPerSecond) * down ^ 4 ≤ rate / (2 * nanosPerSecond) :=
    mul_le_of_le_one_right (by positivity) (pow_le_one₀ low less_one)
  -- All that is due at the end of the sleep, rounded six times at most.
  have due : (played + frames) * down ^ 6 ≤
      ((nanos : ℚ) + slept) / nanosPerSecond * rate * down ^ 3 + rate / (2 * nanosPerSecond) :=
    calc (played + frames) * down ^ 6
        = played * down ^ 3 * down ^ 3 + frames * down ^ 2 * down ^ 4 := by ring
      _ ≤ (nanos : ℚ) / nanosPerSecond * rate * down ^ 3 +
          (slept / nanosPerSecond * rate + rate / (2 * nanosPerSecond)) * down ^ 4 :=
          add_le_add before' asleep'
      _ ≤ (nanos : ℚ) / nanosPerSecond * rate * down ^ 3 +
          slept / nanosPerSecond * rate * down ^ 3 + rate / (2 * nanosPerSecond) := by linarith
      _ = ((nanos : ℚ) + slept) / nanosPerSecond * rate * down ^ 3 +
          rate / (2 * nanosPerSecond) := by ring
  have lost : (played + frames) * (1 - down ^ 6) ≤ (played + frames) / 2 ^ 50 := by
    rw [div_eq_mul_one_div]
    gcongr
    linarith
  linarith

end TimeError

end PcmStream
