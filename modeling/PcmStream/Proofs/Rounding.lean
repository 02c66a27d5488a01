import Mathlib.Algebra.Order.Floor.Semifield
import Mathlib.Data.Int.Log
import Mathlib.Data.Rat.Floor
import Mathlib.Tactic.FieldSimp
import Mathlib.Tactic.Linarith
import Mathlib.Tactic.Positivity
import Mathlib.Tactic.Ring
import PcmStream.Single

/- Rounding to the nearest pattern keeps the order of numbers, and every pattern is the nearest to
   the number it stands for. An operation on patterns without sign is the exact one, rounded once;
   so it keeps the order too. -/
namespace PcmStream

theorem scaleUp_eq (n : Nat) (e : Int) : scaleUp n e = n * 2 ^ e.toNat := Nat.shiftLeft_eq _ _

theorem two_zpow_eq (e : Int) : (2 : ℚ) ^ e = 2 ^ e.toNat / 2 ^ (-e).toNat := by
  rcases Int.le_total 0 e with up | down
  · have none_down : (-e).toNat = 0 := by omega
    rw [none_down, pow_zero, div_one, ← zpow_natCast, Int.toNat_of_nonneg up]
  · have none_up : e.toNat = 0 := by omega
    rw [none_up, pow_zero, one_div, ← zpow_natCast, Int.toNat_of_nonneg (by omega), ← zpow_neg,
      neg_neg]

theorem scaled_div (n d : Nat) (e : Int) :
    (scaleUp n e : ℚ) / scaleUp d (-e) = n / d * 2 ^ e := by
  rw [scaleUp_eq, scaleUp_eq, two_zpow_eq]
  push_cast
  rw [mul_div_mul_comm]

theorem scaleUp_pos {n : Nat} (nonzero : 0 < n) (e : Int) : 0 < scaleUp n e := by
  rw [scaleUp_eq]
  positivity

/-- `r` is the integer nearest to `x`, and the even one of two that are equally near. -/
structure Rounds (x : ℚ) (r : Nat) : Prop where
  low : 2 * (r : ℚ) ≤ 2 * x + 1
  high : 2 * x ≤ 2 * r + 1
  even : 2 * (r : ℚ) = 2 * x + 1 ∨ 2 * x = 2 * r + 1 → r % 2 = 0

theorem rounds_mono {x y : ℚ} {r t : Nat} (h : Rounds x r) (h' : Rounds y t) (le : x ≤ y) :
    r ≤ t := by
  by_contra above
  have next : (t : ℚ) + 1 ≤ r := by exact_mod_cast Nat.not_le.mp above
  have low := h.low
  have high := h'.high
  have down : 2 * (r : ℚ) = 2 * x + 1 := by linarith
  have up : 2 * y = 2 * (t : ℚ) + 1 := by linarith
  have apart : (r : ℚ) = t + 1 := by linarith
  have apart : r = t + 1 := by exact_mod_cast apart
  have even := h.even (.inl down)
  have even' := h'.even (.inr up)
  omega

theorem rounds_cast (r : Nat) : Rounds r r :=
  ⟨by linarith, by linarith, by rintro (h | h) <;> linarith⟩

theorem rounds_near {x : ℚ} {r : Nat} (low : 2 * (r : ℚ) < 2 * x + 1) (high : 2 * x < 2 * r + 1) :
    Rounds x r := by
  refine ⟨low.le, high.le, ?_⟩
  rintro (down | up)
  · exact absurd down low.ne
  · exact absurd up high.ne

theorem roundDiv_rounds (n : Nat) {d : Nat} (nonzero : 0 < d) :
    Rounds (n / d) (roundDiv n d) := by
  have positive : (0 : ℚ) < d := by exact_mod_cast nonzero
  have parts : (d : ℚ) * (n / d : Nat) + (n % d : Nat) = n := by exact_mod_cast Nat.div_add_mod n d
  have below : (n % d : Nat) < d := Nat.mod_lt n nonzero
  have quotient : (n : ℚ) / d = (n / d : Nat) + (n % d : Nat) / d := by
    field_simp
    linarith
  have doubled : 2 * (((n % d : Nat) : ℚ) / d) = (2 * (n % d) : Nat) / d := by
    push_cast
    ring
  have rest_nonneg : (0 : ℚ) ≤ (n % d : Nat) / d := by positivity
  have less : ((n % d : Nat) : ℚ) / d < 1 := (div_lt_one positive).mpr (by exact_mod_cast below)
  rw [quotient]
  unfold roundDiv
  dsimp only
  rcases Nat.lt_trichotomy (2 * (n % d)) d with short | tie | past
  · have half : ((2 * (n % d) : Nat) : ℚ) / d < 1 :=
      (div_lt_one positive).mpr (by exact_mod_cast short)
    rw [if_neg (by omega)]
    apply rounds_near <;> linarith
  · have half : ((2 * (n % d) : Nat) : ℚ) / d = 1 := by
      rw [tie, div_self positive.ne']
    split
    · rename_i odd
      refine ⟨?_, ?_, fun _ => by omega⟩ <;> push_cast <;> linarith
    · rename_i even
      refine ⟨by linarith, by linarith, fun _ => by omega⟩
  · have half : 1 < ((2 * (n % d) : Nat) : ℚ) / d :=
      (one_lt_div positive).mpr (by exact_mod_cast past)
    rw [if_pos (.inl past)]
    apply rounds_near <;> push_cast <;> linarith

section Logarithm

variable {x : ℚ} {z : Int}

theorem two_zpow_pos (z : Int) : (0 : ℚ) < 2 ^ z := zpow_pos two_pos z

theorem two_zpow_succ (z : Int) : (2 : ℚ) ^ (z + 1) = 2 * 2 ^ z := by
  rw [zpow_add_one₀ two_ne_zero, mul_comm]

theorem zpow_log_le (positive : 0 < x) : (2 : ℚ) ^ Int.log 2 x ≤ x :=
  Int.zpow_log_le_self Nat.one_lt_two positive

theorem lt_zpow_log (x : ℚ) : x < 2 ^ (Int.log 2 x + 1) :=
  Int.lt_zpow_succ_log_self Nat.one_lt_two x

theorem log_eq (low : 2 ^ z ≤ x) (high : x < 2 ^ (z + 1)) : Int.log 2 x = z := by
  have positive : 0 < x := (two_zpow_pos z).trans_le low
  have above : z ≤ Int.log 2 x := (Int.zpow_le_iff_le_log Nat.one_lt_two positive).mp low
  have below : Int.log 2 x < z + 1 := (Int.lt_zpow_iff_log_lt Nat.one_lt_two positive).mp high
  omega

theorem log_scaled (positive : 0 < x) (z : Int) :
    Int.log 2 (x * 2 ^ z) = Int.log 2 x + z := by
  apply log_eq
  · rw [zpow_add₀ two_ne_zero]
    exact mul_le_mul_of_nonneg_right (zpow_log_le positive) (two_zpow_pos z).le
  · rw [add_right_comm, zpow_add₀ two_ne_zero]
    exact mul_lt_mul_of_pos_right (lt_zpow_log x) (two_zpow_pos z)

end Logarithm

namespace Binary

theorem binade_eq {num den : Nat} (nonzero : 0 < num) (divides : 0 < den) (scale : Int) :
    binade num den scale = Int.log 2 ((num : ℚ) / den * 2 ^ scale) := by
  have num_pos : (0 : ℚ) < num := by exact_mod_cast nonzero
  have den_pos : (0 : ℚ) < den := by exact_mod_cast divides
  have quotient_pos : (0 : ℚ) < num / den := by positivity
  have num_low : ((2 ^ num.log2 : Nat) : ℚ) ≤ num := by
    exact_mod_cast Nat.log2_self_le nonzero.ne'
  have num_high : (num : ℚ) < (2 ^ (num.log2 + 1) : Nat) := by exact_mod_cast Nat.lt_log2_self
  have den_low : ((2 ^ den.log2 : Nat) : ℚ) ≤ den := by
    exact_mod_cast Nat.log2_self_le divides.ne'
  have den_high : (den : ℚ) < (2 ^ (den.log2 + 1) : Nat) := by exact_mod_cast Nat.lt_log2_self
  push_cast at num_low num_high den_low den_high
  rw [log_scaled quotient_pos]
  generalize guess_eq : (num.log2 : Int) - den.log2 = guess
  have split : (2 : ℚ) ^ guess = 2 ^ num.log2 / 2 ^ den.log2 := by
    rw [← guess_eq, zpow_sub₀ two_ne_zero, zpow_natCast, zpow_natCast]
  have high : (num : ℚ) / den < 2 ^ (guess + 1) := by
    rw [two_zpow_succ, split, div_lt_iff₀ den_pos]
    calc (num : ℚ) < 2 * (2 ^ num.log2 / 2 ^ den.log2) * 2 ^ den.log2 := by
          field_simp
          rw [pow_succ] at num_high
          linarith
      _ ≤ 2 * (2 ^ num.log2 / 2 ^ den.log2) * den := by gcongr
  have low : (2 : ℚ) ^ (guess - 1) ≤ num / den := by
    have half : (2 : ℚ) ^ guess = 2 * 2 ^ (guess - 1) := by rw [← two_zpow_succ]; ring_nf
    rw [le_div_iff₀ den_pos]
    calc (2 : ℚ) ^ (guess - 1) * den ≤ 2 ^ (guess - 1) * 2 ^ (den.log2 + 1) :=
          mul_le_mul_of_nonneg_left den_high.le (two_zpow_pos _).le
      _ = 2 ^ guess * 2 ^ den.log2 := by rw [half, pow_succ]; ring
      _ = 2 ^ num.log2 := by rw [split]; field_simp
      _ ≤ num := num_low
  have compares : scaleUp den guess ≤ scaleUp num (-guess) ↔ (2 : ℚ) ^ guess ≤ num / den := by
    have scaled := scaled_div num den (-guess)
    rw [neg_neg] at scaled
    have divisor_pos : (0 : ℚ) < scaleUp den guess := by exact_mod_cast scaleUp_pos divides guess
    calc scaleUp den guess ≤ scaleUp num (-guess)
          ↔ (scaleUp den guess : ℚ) ≤ scaleUp num (-guess) := Nat.cast_le.symm
      _ ↔ (1 : ℚ) ≤ num / den * 2 ^ (-guess) := by rw [← scaled, one_le_div divisor_pos]
      _ ↔ (2 : ℚ) ^ guess ≤ num / den := by
          rw [zpow_neg, ← div_eq_mul_inv, one_le_div (two_zpow_pos guess)]
  unfold binade
  dsimp only
  rw [guess_eq, if_congr compares rfl rfl]
  split
  · rename_i reached
    rw [log_eq reached high, add_comm]
  · rename_i missed
    have under : (num : ℚ) / den < 2 ^ (guess - 1 + 1) := by
      rw [sub_add_cancel]
      exact not_le.mp missed
    rw [log_eq low under]
    ring

def unit (f : Binary) (x : ℚ) : Int := max (Int.log 2 x - f.fraction) f.least

def nearest (f : Binary) (x : ℚ) : Nat := f.encode false x.num.natAbs x.den 0

/-- What a pattern without sign stands for. Infinity is counted as the power of two that would
    come next. -/
def value (f : Binary) (bits : Nat) : ℚ :=
  let steps := bits / 2 ^ f.fraction - 1
  (bits - steps * 2 ^ f.fraction : Nat) * 2 ^ (f.least + steps)

variable {f : Binary}

theorem encode_zero (den : Nat) (scale : Int) : f.encode false 0 den scale = 0 := rfl

theorem encode_spec {num den : Nat} (nonzero : 0 < num) (divides : 0 < den) (scale : Int) {x : ℚ}
    (exact : num / den * 2 ^ scale = x) :
    ∃ r, Rounds (x / 2 ^ f.unit x) r ∧
      f.encode false num den scale =
        min ((f.unit x - f.least).toNat * 2 ^ f.fraction + r) f.infinity := by
  have unit_eq : max (binade num den scale - f.fraction) f.least = f.unit x := by
    rw [binade_eq nonzero divides, exact, unit]
  have scaled := scaled_div num den (scale - f.unit x)
  rw [neg_sub, zpow_sub₀ two_ne_zero, ← mul_div_assoc, exact] at scaled
  have rounds := roundDiv_rounds (scaleUp num (scale - f.unit x))
    (scaleUp_pos divides (f.unit x - scale))
  rw [scaled] at rounds
  refine ⟨_, rounds, ?_⟩
  unfold encode
  rw [if_neg nonzero.ne']
  dsimp only
  rw [unit_eq, Nat.shiftLeft_eq]
  rfl

theorem least_le_unit (x : ℚ) : f.least ≤ f.unit x := le_max_right _ _

theorem unit_mono {x y : ℚ} (positive : 0 < x) (le : x ≤ y) : f.unit x ≤ f.unit y :=
  max_le_max_right _ (Int.sub_le_sub_right (Int.log_mono_right positive le) _)

theorem scaled_lt (x : ℚ) : x / 2 ^ f.unit x < 2 * 2 ^ f.fraction := by
  have log_le : Int.log 2 x + 1 ≤ f.fraction + 1 + f.unit x := by
    have := le_max_left (Int.log 2 x - f.fraction) f.least
    unfold unit
    omega
  rw [div_lt_iff₀ (two_zpow_pos _)]
  calc x < 2 ^ (Int.log 2 x + 1) := lt_zpow_log x
    _ ≤ 2 ^ ((f.fraction : Int) + 1 + f.unit x) := zpow_le_zpow_right₀ one_le_two log_le
    _ = 2 * 2 ^ f.fraction * 2 ^ f.unit x := by
        rw [zpow_add₀ two_ne_zero, two_zpow_succ, zpow_natCast]

theorem mantissa_le {x : ℚ} {r : Nat} (rounds : Rounds (x / 2 ^ f.unit x) r) :
    r ≤ 2 * 2 ^ f.fraction := by
  apply rounds_mono rounds (rounds_cast _)
  push_cast
  exact (scaled_lt x).le

theorem le_mantissa {x : ℚ} {r : Nat} (positive : 0 < x) (above : f.least < f.unit x)
    (rounds : Rounds (x / 2 ^ f.unit x) r) : 2 ^ f.fraction ≤ r := by
  have log_eq : (f.fraction : Int) + f.unit x = Int.log 2 x := by
    unfold unit at above ⊢
    omega
  apply rounds_mono (rounds_cast _) rounds
  push_cast
  rw [le_div_iff₀ (two_zpow_pos _), ← zpow_natCast, ← zpow_add₀ two_ne_zero, log_eq]
  exact zpow_log_le positive

theorem encode_mono {num den num' den' : Nat} {scale scale' : Int} (divides : 0 < den)
    (divides' : 0 < den') (le : (num : ℚ) / den * 2 ^ scale ≤ num' / den' * 2 ^ scale') :
    f.encode false num den scale ≤ f.encode false num' den' scale' := by
  rcases Nat.eq_zero_or_pos num with rfl | nonzero
  · rw [encode_zero]
    exact Nat.zero_le _
  have positive : 0 < (num : ℚ) / den * 2 ^ scale :=
    mul_pos (by positivity) (two_zpow_pos scale)
  have nonzero' : 0 < num' := by
    by_contra none
    obtain rfl : num' = 0 := by omega
    rw [Nat.cast_zero, zero_div, zero_mul] at le
    linarith
  generalize exact : (num : ℚ) / den * 2 ^ scale = x at le positive
  generalize exact' : (num' : ℚ) / den' * 2 ^ scale' = y at le
  obtain ⟨r, rounds, spec⟩ := encode_spec (f := f) nonzero divides scale exact
  obtain ⟨t, rounds', spec'⟩ := encode_spec (f := f) nonzero' divides' scale' exact'
  have units := unit_mono (f := f) positive le
  have from_least := least_le_unit (f := f) x
  rw [spec, spec']
  apply min_le_min_right
  rcases units.eq_or_lt with same | apart
  · rw [same] at rounds ⊢
    exact Nat.add_le_add_left (rounds_mono rounds rounds'
      (div_le_div_of_nonneg_right le (two_zpow_pos _).le)) _
  · have most := mantissa_le rounds
    have least := le_mantissa (positive.trans_le le) (by omega) rounds'
    calc (f.unit x - f.least).toNat * 2 ^ f.fraction + r
        ≤ ((f.unit x - f.least).toNat + 1) * 2 ^ f.fraction + 2 ^ f.fraction := by
          rw [Nat.succ_mul]; omega
      _ ≤ (f.unit y - f.least).toNat * 2 ^ f.fraction + t :=
          Nat.add_le_add (Nat.mul_le_mul_right _ (by omega)) least

theorem num_den_scaled {x : ℚ} (positive : 0 ≤ x) :
    (x.num.natAbs : ℚ) / x.den * 2 ^ (0 : Int) = x := by
  rw [zpow_zero, mul_one, Nat.cast_natAbs, abs_of_nonneg (Rat.num_nonneg.mpr positive),
    Rat.num_div_den]

theorem encode_eq_nearest {num den : Nat} (divides : 0 < den) (scale : Int) :
    f.encode false num den scale = f.nearest (num / den * 2 ^ scale) := by
  have positive : 0 ≤ (num : ℚ) / den * 2 ^ scale :=
    mul_nonneg (by positivity) (two_zpow_pos scale).le
  generalize exact : (num : ℚ) / den * 2 ^ scale = x at positive
  have again := num_den_scaled positive
  unfold nearest
  apply Nat.le_antisymm
  · exact encode_mono divides x.pos (exact.trans again.symm).le
  · exact encode_mono x.pos divides (again.trans exact.symm).le

theorem nearest_mono {x y : ℚ} (positive : 0 ≤ x) (le : x ≤ y) : f.nearest x ≤ f.nearest y := by
  apply encode_mono x.pos y.pos
  rwa [num_den_scaled positive, num_den_scaled (positive.trans le)]

theorem nearest_zero : f.nearest 0 = 0 := rfl

theorem nearest_spec {x : ℚ} (positive : 0 < x) :
    ∃ r, Rounds (x / 2 ^ f.unit x) r ∧
      f.nearest x = min ((f.unit x - f.least).toNat * 2 ^ f.fraction + r) f.infinity :=
  encode_spec (by have := Rat.num_pos.mpr positive; omega) x.pos 0
    (num_den_scaled positive.le)

theorem encode_le_infinity (num den : Nat) (scale : Int) :
    f.encode false num den scale ≤ f.infinity := by
  unfold encode
  split
  · exact Nat.zero_le _
  · exact min_le_right _ _

theorem nearest_le_infinity (x : ℚ) : f.nearest x ≤ f.infinity := encode_le_infinity _ _ _

section Pattern

/-- A pattern is a number of whole binades and, behind them, the mantissa with its highest bit. -/
structure Parts (f : Binary) (bits steps mantissa : Nat) : Prop where
  sum : bits = steps * 2 ^ f.fraction + mantissa
  high : mantissa < 2 * 2 ^ f.fraction
  low : steps = 0 ∨ 2 ^ f.fraction ≤ mantissa

variable {bits steps mantissa : Nat}

theorem parts (f : Binary) (bits : Nat) :
    f.Parts bits (bits / 2 ^ f.fraction - 1)
      (bits - (bits / 2 ^ f.fraction - 1) * 2 ^ f.fraction) := by
  have split := Nat.div_add_mod' bits (2 ^ f.fraction)
  have below := Nat.mod_lt bits (Nat.two_pow_pos f.fraction)
  rcases field_eq : bits / 2 ^ f.fraction with _ | field
  · rw [field_eq] at split
    exact ⟨by omega, by omega, .inl rfl⟩
  · rw [field_eq, Nat.succ_mul] at split
    rw [Nat.add_sub_cancel]
    exact ⟨by omega, by omega, .inr (by omega)⟩

theorem value_eq (is : f.Parts bits steps mantissa) :
    f.value bits = mantissa * 2 ^ (f.least + steps) := by
  have sum := is.sum
  have high := is.high
  have field_eq : bits / 2 ^ f.fraction - 1 = steps := by
    by_cases full : 2 ^ f.fraction ≤ mantissa
    · have field : bits / 2 ^ f.fraction = steps + 1 := by
        rw [Nat.div_eq_iff (Nat.two_pow_pos _), Nat.succ_mul]
        omega
      omega
    · have none := is.low.resolve_right full
      rw [none, Nat.zero_mul] at sum
      rw [Nat.div_eq_of_lt (by omega), none]
  have rest : bits - steps * 2 ^ f.fraction = mantissa := by omega
  unfold value
  dsimp only
  rw [field_eq, rest]

theorem value_zero : f.value 0 = 0 := by
  have is : f.Parts 0 0 0 := ⟨by rw [Nat.zero_mul], by positivity, .inl rfl⟩
  rw [value_eq is, Nat.cast_zero, zero_mul]

theorem value_nonneg (bits : Nat) : 0 ≤ f.value bits := by
  rw [value_eq (parts f bits)]
  exact mul_nonneg (Nat.cast_nonneg _) (two_zpow_pos _).le

theorem unit_eq (is : f.Parts bits steps mantissa) {x : ℚ} (positive : 0 < x)
    (low : f.value bits ≤ x) (high : x < (mantissa + 1) * 2 ^ (f.least + steps)) :
    f.unit x = f.least + steps := by
  have mantissa_high : (mantissa : ℚ) + 1 ≤ 2 * 2 ^ f.fraction := by exact_mod_cast is.high
  have below : x < 2 ^ ((f.fraction : Int) + (f.least + steps) + 1) :=
    calc x < (mantissa + 1) * 2 ^ (f.least + steps) := high
      _ ≤ 2 * 2 ^ f.fraction * 2 ^ (f.least + steps) :=
          mul_le_mul_of_nonneg_right mantissa_high (two_zpow_pos _).le
      _ = 2 ^ ((f.fraction : Int) + (f.least + steps) + 1) := by
          rw [two_zpow_succ, zpow_add₀ two_ne_zero (f.fraction : Int), zpow_natCast, mul_assoc]
  rcases is.low with first | full
  · have log_lt := (Int.lt_zpow_iff_log_lt Nat.one_lt_two positive).mp below
    unfold unit
    omega
  · have mantissa_low : (2 : ℚ) ^ f.fraction ≤ mantissa := by exact_mod_cast full
    have above : (2 : ℚ) ^ ((f.fraction : Int) + (f.least + steps)) ≤ x :=
      calc (2 : ℚ) ^ ((f.fraction : Int) + (f.least + steps))
          = 2 ^ f.fraction * 2 ^ (f.least + steps) := by rw [zpow_add₀ two_ne_zero, zpow_natCast]
        _ ≤ mantissa * 2 ^ (f.least + steps) :=
            mul_le_mul_of_nonneg_right mantissa_low (two_zpow_pos _).le
        _ ≤ x := by rwa [← value_eq is]
    rw [unit, log_eq above below]
    omega

theorem nearest_absorbs (is : f.Parts bits steps mantissa) (within : bits ≤ f.infinity) {q : ℚ}
    (positive : 0 ≤ q) (little : 2 * q < 2 ^ (f.least + steps)) :
    f.nearest (f.value bits + q) = bits := by
  have value := value_eq is
  rcases (value_nonneg (f := f) bits |>.trans (le_add_of_nonneg_right positive)).eq_or_lt
    with zero | nonzero
  · have nothing : (mantissa : ℚ) * 2 ^ (f.least + steps) = 0 := by
      rw [← value]
      linarith [value_nonneg (f := f) bits]
    have none : mantissa = 0 := by
      exact_mod_cast (mul_eq_zero.mp nothing).resolve_right (two_zpow_pos _).ne'
    have first := is.low.resolve_right (by rw [none]; exact Nat.not_le.mpr (Nat.two_pow_pos _))
    rw [← zero, nearest_zero, is.sum, none, first, Nat.zero_mul]
  -- The sum is counted in the unit of the pattern, and rounds back to it.
  · have unit_is : f.unit (f.value bits + q) = f.least + steps := by
      apply unit_eq is nonzero (by linarith)
      rw [value, add_mul, one_mul]
      linarith [two_zpow_pos (f.least + steps)]
    obtain ⟨r, rounds, nearest⟩ := nearest_spec (f := f) nonzero
    have scaled : (f.value bits + q) / 2 ^ (f.least + steps) =
        mantissa + q / 2 ^ (f.least + steps) := by
      rw [add_div, value, mul_div_assoc, div_self (two_zpow_pos _).ne', mul_one]
    have low : 0 ≤ q / 2 ^ (f.least + steps) := div_nonneg positive (two_zpow_pos _).le
    have high : 2 * (q / 2 ^ (f.least + steps)) < 1 := by
      rwa [← mul_div_assoc, div_lt_one (two_zpow_pos _)]
    rw [unit_is, scaled] at rounds
    have near : Rounds (mantissa + q / 2 ^ (f.least + steps)) mantissa :=
      rounds_near (by linarith) (by linarith)
    have same : r = mantissa :=
      Nat.le_antisymm (rounds_mono rounds near le_rfl) (rounds_mono near rounds le_rfl)
    rw [nearest, unit_is, same, add_sub_cancel_left, Int.toNat_natCast, ← is.sum]
    exact min_eq_left within

theorem nearest_value (within : bits ≤ f.infinity) : f.nearest (f.value bits) = bits := by
  have absorbed := nearest_absorbs (parts f bits) within le_rfl
    (by rw [mul_zero]; exact two_zpow_pos _)
  rwa [add_zero] at absorbed

end Pattern

theorem value_mono {a b : Nat} (le : a ≤ b) (within : b ≤ f.infinity) :
    f.value a ≤ f.value b := by
  by_contra above
  have back := nearest_mono (f := f) (value_nonneg b) (not_le.mp above).le
  rw [nearest_value within, nearest_value (le.trans within)] at back
  obtain rfl := Nat.le_antisymm le back
  exact above le_rfl

theorem value_lt {a b : Nat} (lt : a < b) (within : b ≤ f.infinity) : f.value a < f.value b := by
  refine lt_of_le_of_ne (value_mono lt.le within) fun same => ?_
  have back := congrArg f.nearest same
  rw [nearest_value within, nearest_value (lt.le.trans within)] at back
  exact lt.ne back

theorem value_nearest {m : Nat} {e : Int} (fits : m < 2 * 2 ^ f.fraction) (from_least : f.least ≤ e)
    (finite : f.nearest (m * 2 ^ e) < f.infinity) :
    f.value (f.nearest (m * 2 ^ e)) = m * 2 ^ e := by
  rcases Nat.eq_zero_or_pos m with rfl | nonzero
  · rw [Nat.cast_zero, zero_mul, nearest_zero, value_zero]
  have positive : (0 : ℚ) < m * 2 ^ e := mul_pos (by exact_mod_cast nonzero) (two_zpow_pos e)
  obtain ⟨r, rounds, nearest⟩ := nearest_spec (f := f) positive
  generalize exact : (m : ℚ) * 2 ^ e = x at positive finite rounds nearest ⊢
  have unit_le : f.unit x ≤ e := by
    have below : x < 2 ^ ((f.fraction : Int) + 1 + e) := by
      rw [← exact, zpow_add₀ two_ne_zero, two_zpow_succ, zpow_natCast]
      exact mul_lt_mul_of_pos_right (by exact_mod_cast fits) (two_zpow_pos e)
    have log_lt := (Int.lt_zpow_iff_log_lt Nat.one_lt_two positive).mp below
    unfold unit
    omega
  have whole : x / 2 ^ f.unit x = (m * 2 ^ (e - f.unit x).toNat : Nat) :=
    calc x / 2 ^ f.unit x = m * 2 ^ e / 2 ^ f.unit x := by rw [exact]
      _ = m * 2 ^ (e - f.unit x) := by rw [mul_div_assoc, ← zpow_sub₀ two_ne_zero]
      _ = (m * 2 ^ (e - f.unit x).toNat : Nat) := by
          push_cast
          rw [← zpow_natCast, Int.toNat_of_nonneg (by omega)]
  have same : r = m * 2 ^ (e - f.unit x).toNat := by
    rw [whole] at rounds
    exact Nat.le_antisymm (rounds_mono rounds (rounds_cast _) le_rfl)
      (rounds_mono (rounds_cast _) rounds le_rfl)
  have from_least := least_le_unit (f := f) x
  have is : f.Parts (f.nearest x) (f.unit x - f.least).toNat r := by
    refine ⟨?_, ?_, ?_⟩
    · rw [nearest, min_eq_left]
      omega
    · have below := scaled_lt (f := f) x
      rw [whole, ← same] at below
      exact_mod_cast below
    · rcases from_least.eq_or_lt with bottom | above
      · exact .inl (by omega)
      · exact .inr (le_mantissa positive above rounds)
  rw [value_eq is, same, ← whole, Int.toNat_of_nonneg (by omega), add_sub_cancel,
    div_mul_cancel₀ _ (two_zpow_pos _).ne']

section Decode

variable {a b bits : Nat}

theorem infinity_lt_signBit (f : Binary) : f.infinity < f.signBit := by
  unfold infinity signBit
  rw [Nat.shiftLeft_eq, Nat.one_shiftLeft, Nat.one_shiftLeft, Nat.pow_add]
  exact Nat.mul_lt_mul_of_pos_right (Nat.sub_lt (Nat.two_pow_pos _) one_pos) (Nat.two_pow_pos _)

theorem magnitude_eq (within : bits ≤ f.infinity) : f.magnitude bits = bits :=
  Nat.mod_eq_of_lt (within.trans_lt (infinity_lt_signBit f))

theorem isNaN_eq (within : bits ≤ f.infinity) : f.isNaN bits = false := by
  rw [isNaN, magnitude_eq within]
  exact decide_eq_false (Nat.not_lt.mpr within)

theorem isNegative_eq (within : bits ≤ f.infinity) : f.isNegative bits = false := by
  rw [isNegative, Nat.div_eq_of_lt (within.trans_lt (infinity_lt_signBit f))]
  rfl

theorem combine_eq (exact : Number → Number → Nat) (within : a ≤ f.infinity)
    (within' : b ≤ f.infinity) : f.combine exact a b = exact (f.decode a) (f.decode b) := by
  rw [combine, isNaN_eq within, isNaN_eq within', if_neg Bool.false_ne_true,
    if_neg Bool.false_ne_true]

theorem decode_infinity (f : Binary) : f.decode f.infinity = .infinite false := by
  unfold decode
  dsimp only
  rw [magnitude_eq le_rfl, if_neg (lt_irrefl _), if_pos rfl, isNegative_eq le_rfl]

theorem decode_finite (finite : bits < f.infinity) :
    ∃ m e, f.decode bits = .finite false m e ∧ f.value bits = m * 2 ^ e := by
  have is := parts f bits
  refine ⟨_, _, ?_, value_eq is⟩
  have split := Nat.div_add_mod' bits (2 ^ f.fraction)
  unfold decode
  dsimp only
  rw [magnitude_eq finite.le, if_neg (Nat.not_lt.mpr finite.le), if_neg finite.ne,
    isNegative_eq finite.le, Nat.shiftRight_eq_div_pow, Nat.one_shiftLeft]
  rcases field_eq : bits / 2 ^ f.fraction with _ | field
  · rw [field_eq] at split
    have all : bits % 2 ^ f.fraction = bits := by omega
    rw [if_pos rfl, all, Nat.zero_sub, Nat.zero_mul, Nat.sub_zero, Nat.cast_zero, add_zero]
  · rw [field_eq, Nat.succ_mul] at split
    have rest : bits - field * 2 ^ f.fraction = 2 ^ f.fraction + bits % 2 ^ f.fraction := by omega
    rw [if_neg (Nat.succ_ne_zero field), Nat.add_sub_cancel, rest, Nat.cast_add, Nat.cast_one,
      add_sub_cancel_right]

theorem ofInt_eq (f : Binary) (n : Nat) : f.ofInt n = f.nearest n := by
  have positive : decide ((n : Int) < 0) = false := decide_eq_false (by omega)
  rw [ofInt, positive, Int.natAbs_natCast, encode_eq_nearest one_pos, Nat.cast_one, div_one,
    zpow_zero, mul_one]

theorem mul_eq (finite : a < f.infinity) (finite' : b < f.infinity) :
    f.mul a b = f.nearest (f.value a * f.value b) := by
  obtain ⟨m, e, decoded, value⟩ := decode_finite finite
  obtain ⟨m', e', decoded', value'⟩ := decode_finite finite'
  have product : ((m * m' : Nat) : ℚ) / (1 : Nat) * 2 ^ (e + e') = m * 2 ^ e * (m' * 2 ^ e') := by
    rw [zpow_add₀ two_ne_zero]
    push_cast
    ring
  rw [mul, combine_eq _ finite.le finite'.le, decoded, decoded', value, value', ← product]
  exact encode_eq_nearest one_pos _

theorem div_eq (finite : a < f.infinity) (finite' : b < f.infinity) (divides : 0 < f.value b) :
    f.div a b = f.nearest (f.value a / f.value b) := by
  obtain ⟨m, e, decoded, value⟩ := decode_finite finite
  obtain ⟨m', e', decoded', value'⟩ := decode_finite finite'
  have nonzero : m' ≠ 0 := by
    rintro rfl
    rw [value', Nat.cast_zero, zero_mul] at divides
    exact lt_irrefl _ divides
  have quotient : (m : ℚ) / m' * 2 ^ (e - e') = m * 2 ^ e / (m' * 2 ^ e') := by
    rw [zpow_sub₀ two_ne_zero, mul_div_mul_comm]
  rw [div, combine_eq _ finite.le finite'.le, decoded, decoded', value, value', ← quotient]
  exact (if_neg nonzero).trans (encode_eq_nearest (Nat.pos_of_ne_zero nonzero) _)

theorem scaled_up (m : Nat) {e scale : Int} (le : scale ≤ e) :
    (scaleUp m (e - scale) : ℚ) * 2 ^ scale = m * 2 ^ e := by
  rw [scaleUp_eq]
  push_cast
  rw [← zpow_natCast, Int.toNat_of_nonneg (by omega), mul_assoc, ← zpow_add₀ two_ne_zero,
    sub_add_cancel]

theorem addExact_eq (f : Binary) (m m' : Nat) (e e' : Int) :
    f.addExact (.finite false m e) (.finite false m' e') =
      f.encode false (scaleUp m (e - min e e') + scaleUp m' (e' - min e e')) 1 (min e e') := by
  simp only [addExact, signed, Bool.false_eq_true, if_false]
  generalize scaleUp m (e - min e e') = n
  generalize scaleUp m' (e' - min e e') = n'
  rw [← Nat.cast_add, Int.natAbs_natCast, decide_eq_false (by omega : ¬ ((n + n' : Nat) : Int) < 0)]
  split
  · rename_i none
    rw [Nat.cast_eq_zero.mp none]
    rfl
  · rfl

theorem add_eq (finite : a < f.infinity) (finite' : b < f.infinity) :
    f.add a b = f.nearest (f.value a + f.value b) := by
  obtain ⟨m, e, decoded, value⟩ := decode_finite finite
  obtain ⟨m', e', decoded', value'⟩ := decode_finite finite'
  rw [add, combine_eq _ finite.le finite'.le, decoded, decoded', addExact_eq,
    encode_eq_nearest one_pos, value, value', ← scaled_up m (min_le_left e e'),
    ← scaled_up m' (min_le_right e e'), ← add_mul]
  push_cast
  rw [div_one]

theorem decode_ends (within : bits ≤ f.infinity) : f.decode bits = .infinite false ∨
    ∃ m e, f.decode bits = .finite false m e ∧ (0 < bits → m ≠ 0) := by
  rcases within.eq_or_lt with rfl | finite
  · exact .inl (decode_infinity f)
  · obtain ⟨m, e, decoded, value⟩ := decode_finite finite
    refine .inr ⟨m, e, decoded, ?_⟩
    rintro positive rfl
    have above := value_lt positive within
    rw [value, value_zero, Nat.cast_zero, zero_mul] at above
    exact lt_irrefl _ above

theorem add_infinity (within : a ≤ f.infinity) (within' : b ≤ f.infinity)
    (infinite : a = f.infinity ∨ b = f.infinity) : f.add a b = f.infinity := by
  rw [add, combine_eq _ within within']
  rcases infinite with rfl | rfl
  · rw [decode_infinity]
    rcases decode_ends within' with decoded | ⟨m, e, decoded, -⟩ <;> rw [decoded] <;> rfl
  · rw [decode_infinity]
    rcases decode_ends within with decoded | ⟨m, e, decoded, -⟩ <;> rw [decoded] <;> rfl

theorem add_le_infinity (within : a ≤ f.infinity) (within' : b ≤ f.infinity) :
    f.add a b ≤ f.infinity := by
  by_cases infinite : a = f.infinity ∨ b = f.infinity
  · exact (add_infinity within within' infinite).le
  · rw [add_eq (by omega) (by omega)]
    exact nearest_le_infinity _

theorem add_mono {a' b' : Nat} (le : a ≤ a') (le' : b ≤ b') (within : a' ≤ f.infinity)
    (within' : b' ≤ f.infinity) : f.add a b ≤ f.add a' b' := by
  by_cases infinite : a' = f.infinity ∨ b' = f.infinity
  · rw [add_infinity within within' infinite]
    exact add_le_infinity (le.trans within) (le'.trans within')
  · rw [add_eq (by omega) (by omega), add_eq (by omega) (by omega)]
    exact nearest_mono (add_nonneg (value_nonneg a) (value_nonneg b))
      (add_le_add (value_mono le within) (value_mono le' within'))

theorem le_add (within : a ≤ f.infinity) (within' : b ≤ f.infinity) : a ≤ f.add a b := by
  by_cases infinite : a = f.infinity ∨ b = f.infinity
  · rw [add_infinity within within' infinite]
    exact within
  · rw [add_eq (by omega) (by omega)]
    calc a = f.nearest (f.value a) := (nearest_value within).symm
      _ ≤ f.nearest (f.value a + f.value b) :=
          nearest_mono (value_nonneg a) (le_add_of_nonneg_right (value_nonneg b))

theorem mul_infinity (within : a ≤ f.infinity) (within' : b ≤ f.infinity) (positive : 0 < a)
    (positive' : 0 < b) (infinite : a = f.infinity ∨ b = f.infinity) :
    f.mul a b = f.infinity := by
  rw [mul, combine_eq _ within within']
  rcases infinite with rfl | rfl
  · rw [decode_infinity]
    rcases decode_ends within' with decoded | ⟨m, e, decoded, nonzero⟩ <;> rw [decoded]
    · rfl
    · exact if_neg (nonzero positive')
  · rw [decode_infinity]
    rcases decode_ends within with decoded | ⟨m, e, decoded, nonzero⟩ <;> rw [decoded]
    · rfl
    · exact if_neg (nonzero positive)

theorem toIntWithin_eq {high : Int} (positive : 0 ≤ high) (finite : bits < f.infinity) :
    f.toIntWithin 0 high bits = min high ⌊f.value bits⌋₊ := by
  obtain ⟨m, e, decoded, value⟩ := decode_finite finite
  have part : scaleDown m e = ⌊f.value bits⌋₊ := by
    rw [value, two_zpow_eq, ← mul_div_assoc, scaleDown, scaleUp_eq, Nat.shiftRight_eq_div_pow,
      ← Nat.floor_div_eq_div (K := ℚ)]
    push_cast
    rfl
  rw [toIntWithin, decoded, ← part]
  exact max_eq_right (le_min positive (Int.natCast_nonneg _))

theorem toIntWithin_infinity (f : Binary) (low high : Int) :
    f.toIntWithin low high f.infinity = high := by
  rw [toIntWithin, decode_infinity]
  rfl

theorem toIntWithin_nonneg {high : Int} (positive : 0 ≤ high) (bits : Nat) :
    0 ≤ f.toIntWithin 0 high bits := by
  unfold toIntWithin
  split
  · exact le_rfl
  · split
    · exact le_rfl
    · exact positive
  · exact le_max_left _ _

theorem toIntWithin_le {high : Int} (positive : 0 ≤ high) (bits : Nat) :
    f.toIntWithin 0 high bits ≤ high := by
  unfold toIntWithin
  split
  · exact positive
  · split
    · exact positive
    · exact le_rfl
  · exact max_le positive (min_le_left _ _)

theorem toIntWithin_mono {high : Int} (positive : 0 ≤ high) (le : a ≤ b)
    (within : b ≤ f.infinity) : f.toIntWithin 0 high a ≤ f.toIntWithin 0 high b := by
  have floor_le : ⌊f.value a⌋₊ ≤ ⌊f.value b⌋₊ := Nat.floor_mono (value_mono le within)
  rcases within.eq_or_lt with rfl | finite
  · rw [toIntWithin_infinity]
    rcases le.eq_or_lt with rfl | finite
    · exact (toIntWithin_infinity f 0 high).le
    · rw [toIntWithin_eq positive finite]
      exact min_le_left _ _
  · rw [toIntWithin_eq positive finite, toIntWithin_eq positive (le.trans_lt finite)]
    exact min_le_min_left high (Int.ofNat_le.mpr floor_le)

end Decode

end Binary

end PcmStream
