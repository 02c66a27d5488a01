import PcmStream.Proofs.Rounding
import PcmStream.Sample.Convert

/- Singles at unit gain. One is neutral, but for the quiet bit that every operation sets in a NaN;
   then what lies beyond full scale is cut to it. So the conversion of singles to singles is a copy
   just for the numbers from -1 to 1 and the quiet NaNs. -/
namespace PcmStream

namespace Binary

variable {f : Binary} {a b bits : Nat}

theorem withSign_magnitude (fits : bits < 2 * f.signBit) :
    f.withSign (f.isNegative bits) (f.magnitude bits) = bits := by
  have parts := Nat.mod_add_div bits f.signBit
  have sign : bits / f.signBit < 2 := Nat.div_lt_of_lt_mul (by rwa [Nat.mul_comm])
  unfold withSign isNegative magnitude
  rcases Nat.lt_or_ge (bits / f.signBit) 1 with below | above
  · have none : bits / f.signBit = 0 := Nat.lt_one_iff.mp below
    rw [none, Nat.mul_zero, Nat.add_zero] at parts
    rw [none]
    exact parts
  · have one : bits / f.signBit = 1 := Nat.le_antisymm (Nat.le_of_lt_succ sign) above
    rw [one, Nat.mul_one, Nat.add_comm] at parts
    rw [one]
    exact parts

theorem encode_sign (f : Binary) (negative : Bool) (num den : Nat) (scale : Int) :
    f.encode negative num den scale = f.withSign negative (f.encode false num den scale) := by
  unfold encode
  split <;> rfl

theorem magnitude_magnitude (f : Binary) (bits : Nat) :
    f.magnitude (f.magnitude bits) = f.magnitude bits := Nat.mod_mod _ _

theorem decode_infinite (infinite : f.magnitude bits = f.infinity) :
    f.decode bits = .infinite (f.isNegative bits) := by
  unfold decode
  dsimp only
  rw [infinite, if_neg (lt_irrefl _), if_pos rfl]

theorem decode_signed (finite : f.magnitude bits < f.infinity) :
    ∃ m e, f.decode bits = .finite (f.isNegative bits) m e ∧
      f.value (f.magnitude bits) = m * 2 ^ e := by
  obtain ⟨m, e, decoded, value⟩ := decode_finite finite
  refine ⟨m, e, ?_, value⟩
  unfold decode at decoded ⊢
  dsimp only at decoded ⊢
  rw [magnitude_magnitude, if_neg finite.not_gt, if_neg finite.ne] at decoded
  rw [if_neg finite.not_gt, if_neg finite.ne]
  split at decoded
  · rename_i subnormal
    rw [if_pos subnormal, (Number.finite.inj decoded).2.1, (Number.finite.inj decoded).2.2]
  · rename_i normal
    rw [if_neg normal, (Number.finite.inj decoded).2.1, (Number.finite.inj decoded).2.2]

theorem combine_numbers (exact : Number → Number → Nat) (number : f.isNaN a = false)
    (number' : f.isNaN b = false) : f.combine exact a b = exact (f.decode a) (f.decode b) := by
  rw [combine, number, number', if_neg Bool.false_ne_true, if_neg Bool.false_ne_true]

theorem mul_nan (nan : f.isNaN a = true) (b : Nat) : f.mul a b = a ||| f.quietBit := by
  rw [mul, combine, if_pos nan]

theorem mul_unit (fits : a < 2 * f.signBit) (number : f.isNaN a = false) (finite : b < f.infinity)
    (unit : f.value b = 1) : f.mul a b = a := by
  have within : f.magnitude a ≤ f.infinity := Nat.not_lt.mp (of_decide_eq_false number)
  obtain ⟨m', e', decoded', value'⟩ := decode_finite finite
  rw [unit] at value'
  have signed : f.mul a b = f.withSign (f.isNegative a) (f.magnitude a) := by
    rw [mul, combine_numbers _ number (isNaN_eq finite.le), decoded']
    rcases within.eq_or_lt with infinite | below
    · have nonzero : m' ≠ 0 := by
        rintro rfl
        rw [Nat.cast_zero, zero_mul] at value'
        exact one_ne_zero value'
      rw [decode_infinite infinite, infinite]
      dsimp only
      rw [if_neg nonzero, Bool.bne_false]
    · obtain ⟨m, e, decoded, value⟩ := decode_signed below
      have product : ((m * m' : Nat) : ℚ) / (1 : Nat) * 2 ^ (e + e') = f.value (f.magnitude a) :=
        calc ((m * m' : Nat) : ℚ) / (1 : Nat) * 2 ^ (e + e')
            = m * 2 ^ e * (m' * 2 ^ e') := by
              rw [zpow_add₀ two_ne_zero]
              push_cast
              ring
          _ = f.value (f.magnitude a) := by rw [← value', mul_one, value]
      rw [decoded]
      dsimp only
      rw [encode_sign, encode_eq_nearest one_pos, product, nearest_value within, Bool.bne_false]
  rw [signed, withSign_magnitude fits]

theorem isNaN_quiet (nan : f.isNaN a = true) : f.isNaN (a ||| f.quietBit) = true := by
  have above : f.infinity < f.magnitude a := of_decide_eq_true nan
  refine decide_eq_true (above.trans_le ?_)
  unfold magnitude signBit
  rw [Nat.one_shiftLeft, Nat.or_mod_two_pow]
  exact Nat.left_le_or

end Binary

namespace Single

variable {x : Single}

theorem toNat_lt (x : Single) : x.toNat < 2 * shape.signBit := x.bits.toNat_lt

theorem ofNat_toNat (x : Single) : ofNat x.toNat = x := by
  rw [ofNat, toNat, UInt32.ofNat_toNat]

theorem toNat_ofNat {bits : Nat} (fits : bits < 2 * shape.signBit) : (ofNat bits).toNat = bits :=
  UInt32.toNat_ofNat_of_lt' fits

theorem one_finite : one.toNat < shape.infinity := by decide

theorem value_one : shape.value one.toNat = 1 := by
  have parts : shape.Parts one.toNat 126 (2 ^ 23) := by
    constructor
    · decide
    · decide
    · exact .inr (by decide)
  have least : shape.least + (126 : Nat) = -23 := by decide
  rw [Binary.value_eq parts, least]
  norm_num

theorem mul_one (number : shape.isNaN x.toNat = false) : x.mul one = x := by
  rw [mul, Binary.mul_unit x.toNat_lt number one_finite value_one, ofNat_toNat]

theorem lt_iff {y : Single} (number : shape.isNaN x.toNat = false)
    (number' : shape.isNaN y.toNat = false) :
    x.lt y = decide (shape.rank x.toNat < shape.rank y.toNat) := by
  rw [lt, Binary.lt, number, number', Bool.not_false, Bool.true_and, Bool.true_and]

theorem clamp_nan (low high : Single) (nan : shape.isNaN x.toNat = true) :
    clamp low high x = x := by
  have unordered : ∀ y : Single, x.lt y = false ∧ y.lt x = false := by
    intro y
    simp [lt, Binary.lt, nan]
  simp [clamp, unordered]

end Single

theorem fullScale_number {x : Single} (number : Single.shape.isNaN x.toNat = false) :
    fullScale x =
      if Single.shape.magnitude x.toNat ≤ Single.one.toNat then x
      else if Single.shape.isNegative x.toNat then Single.minusOne else Single.one := by
  have low : Single.shape.rank Single.minusOne.toNat = -Single.one.toNat := by decide
  have high : Single.shape.rank Single.one.toNat = Single.one.toNat := by decide
  have below : x.lt Single.minusOne = decide (Single.shape.rank x.toNat < -Single.one.toNat) := by
    rw [Single.lt_iff number (by decide), low]
  have above : Single.one.lt x = decide ((Single.one.toNat : Int) < Single.shape.rank x.toNat) := by
    rw [Single.lt_iff (by decide) number, high]
  have settled : Single.one.lt Single.minusOne = false := by decide
  unfold fullScale Single.clamp
  cases negative : Single.shape.isNegative x.toNat with
  | true =>
    have rank : Single.shape.rank x.toNat = -Single.shape.magnitude x.toNat := by
      rw [Binary.rank, negative, Binary.signed, if_pos rfl]
    rw [rank] at below above
    by_cases within : Single.shape.magnitude x.toNat ≤ Single.one.toNat
    · have inside : x.lt Single.minusOne = false := below.trans (decide_eq_false (by omega))
      have inside' : Single.one.lt x = false := above.trans (decide_eq_false (by omega))
      simp [inside, inside', within]
    · have outside : x.lt Single.minusOne = true := below.trans (decide_eq_true (by omega))
      simp [outside, settled, within]
  | false =>
    have rank : Single.shape.rank x.toNat = Single.shape.magnitude x.toNat := by
      rw [Binary.rank, negative, Binary.signed, if_neg Bool.false_ne_true]
    rw [rank] at below above
    have not_below : x.lt Single.minusOne = false := below.trans (decide_eq_false (by omega))
    by_cases within : Single.shape.magnitude x.toNat ≤ Single.one.toNat
    · have inside : Single.one.lt x = false := above.trans (decide_eq_false (by omega))
      simp [not_below, inside, within]
    · have outside : Single.one.lt x = true := above.trans (decide_eq_true (by omega))
      simp [not_below, outside, within]

namespace Single

/-- A number from -1 to 1, or a quiet NaN. -/
def Kept (x : Single) : Prop :=
  shape.magnitude x.toNat ≤ one.toNat ∨
    shape.isNaN x.toNat = true ∧ x.toNat ||| shape.quietBit = x.toNat

instance (x : Single) : Decidable x.Kept := inferInstanceAs (Decidable (_ ∨ _))

variable {x : Single}

theorem beyond_one (nan : shape.isNaN x.toNat = true) :
    ¬ shape.magnitude x.toNat ≤ one.toNat := by
  have above : shape.infinity < shape.magnitude x.toNat := of_decide_eq_true nan
  have finite := one_finite
  omega

theorem fullScale_mul_one_nan (nan : shape.isNaN x.toNat = true) :
    (fullScale (x.mul one)).toNat = x.toNat ||| shape.quietBit := by
  have fits : x.toNat ||| shape.quietBit < 2 * shape.signBit :=
    Nat.or_lt_two_pow (n := 32) x.toNat_lt (by decide)
  have product : (x.mul one).toNat = x.toNat ||| shape.quietBit := by
    rw [mul, Binary.mul_nan nan, toNat_ofNat fits]
  rw [fullScale, clamp_nan _ _ (by rw [product]; exact Binary.isNaN_quiet nan), product]

theorem toNat_inj {y : Single} (same : x.toNat = y.toNat) : x = y := by
  rw [← x.ofNat_toNat, same, y.ofNat_toNat]

theorem fullScale_mul_one_iff : fullScale (x.mul one) = x ↔ x.Kept := by
  cases number : shape.isNaN x.toNat with
  | true =>
    have quiet := fullScale_mul_one_nan number
    constructor
    · intro same
      rw [same] at quiet
      exact .inr ⟨number, quiet.symm⟩
    · rintro (within | ⟨_, same⟩)
      · exact absurd within (beyond_one number)
      · exact toNat_inj (quiet.trans same)
  | false =>
    rw [mul_one number, fullScale_number number]
    constructor
    · intro same
      by_contra cut
      have beyond : ¬ shape.magnitude x.toNat ≤ one.toNat := fun within => cut (.inl within)
      rw [if_neg beyond] at same
      split at same
      · rw [← same] at beyond
        exact beyond (by decide)
      · rw [← same] at beyond
        exact beyond (by decide)
    · rintro (within | ⟨nan, _⟩)
      · exact if_pos within
      · exact absurd nan (by simp [number])

end Single

theorem littleEndian_inj {width m n : Nat} (fits : m < 256 ^ width) (fits' : n < 256 ^ width)
    (same : littleEndian width m = littleEndian width n) : m = n := by
  induction width generalizing m n with
  | zero => omega
  | succ width ih =>
    rw [Nat.pow_succ] at fits fits'
    obtain ⟨low, high⟩ := List.cons.inj same
    have low : m % 256 = n % 256 := by simpa using congrArg UInt8.toNat low
    have high : m / 256 = n / 256 := ih (by omega) (by omega) high
    omega

theorem Single.bytes_inj {x y : Single} (same : Sample.bytes x = Sample.bytes y) : x = y :=
  Single.toNat_inj
    (littleEndian_inj (m := x.toNat) (n := y.toNat) x.bits.toNat_lt y.bits.toNat_lt same)

theorem convert_singles_iff {xs : List Single} :
    xs.flatMap (convertSample .f32 Single.one) = xs.flatMap Sample.bytes ↔ ∀ x ∈ xs, x.Kept := by
  have each : ∀ x : Single, convertSample .f32 Single.one x = Sample.bytes x ↔ x.Kept := by
    intro x
    rw [← Single.fullScale_mul_one_iff]
    exact ⟨Single.bytes_inj, congrArg Sample.bytes⟩
  induction xs with
  | nil => simp
  | cons x xs ih =>
    have widths : (convertSample .f32 Single.one x).length = (Sample.bytes x).length := by
      rw [length_convertSample, Sample.length_bytes]
      rfl
    rw [List.flatMap_cons, List.flatMap_cons, List.forall_mem_cons]
    constructor
    · intro same
      obtain ⟨first, rest⟩ := List.append_inj same widths
      exact ⟨(each x).mp first, ih.mp rest⟩
    · rintro ⟨first, rest⟩
      rw [(each x).mpr first, ih.mpr rest]

theorem convertSample_integers {σ : Type} [Sample σ] {format : SampleFormat}
    (same : Sample.format σ = format) (integers : format ≠ .f32) :
    convertSample (σ := σ) format Single.one = Sample.bytes := by
  funext x
  exact if_pos ⟨same, integers, rfl⟩

end PcmStream
