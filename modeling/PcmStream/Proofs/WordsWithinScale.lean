import PcmStream.Proofs.FullScale

/- The words that a conversion to singles writes. Each is within full scale, infinities and all,
   unless the product of the sample and the gain has no value: then a NaN is written. No integer
   sample brings that about by itself. -/
namespace PcmStream

def ofLittleEndian : List UInt8 → Nat
  | [] => 0
  | b :: bs => b.toNat + 256 * ofLittleEndian bs

theorem ofLittleEndian_littleEndian {width n : Nat} (fits : n < 256 ^ width) :
    ofLittleEndian (littleEndian width n) = n := by
  induction width generalizing n with
  | zero => rw [littleEndian, ofLittleEndian]; omega
  | succ width ih =>
    rw [Nat.pow_succ] at fits
    rw [littleEndian, ofLittleEndian, ih (by omega), UInt8.toNat_ofNat']
    omega

namespace Binary

variable {f : Binary} {a b : Nat}

theorem magnitude_withSign (negative : Bool) {m : Nat} (within : m ≤ f.infinity) :
    f.magnitude (f.withSign negative m) = m := by
  unfold withSign
  split
  · rw [magnitude, Nat.add_mod_left]
    exact magnitude_eq within
  · exact magnitude_eq within

theorem isNaN_withSign (negative : Bool) {m : Nat} (within : m ≤ f.infinity) :
    f.isNaN (f.withSign negative m) = false := by
  rw [isNaN, magnitude_withSign negative within]
  exact decide_eq_false (Nat.not_lt.mpr within)

theorem decode_number (number : f.isNaN a = false) :
    f.magnitude a = f.infinity ∧ f.decode a = .infinite (f.isNegative a) ∨
    f.magnitude a < f.infinity ∧ ∃ m e, f.decode a = .finite (f.isNegative a) m e ∧
      f.value (f.magnitude a) = m * 2 ^ e ∧ (m = 0 ↔ f.magnitude a = 0) := by
  have within : f.magnitude a ≤ f.infinity := Nat.not_lt.mp (of_decide_eq_false number)
  rcases within.eq_or_lt with infinite | finite
  · exact .inl ⟨infinite, decode_infinite infinite⟩
  · obtain ⟨m, e, decoded, value⟩ := decode_signed finite
    refine .inr ⟨finite, m, e, decoded, value, ?_, ?_⟩
    · rintro rfl
      by_contra nonzero
      have above := value_lt (Nat.pos_of_ne_zero nonzero) within
      rw [value, value_zero, Nat.cast_zero, zero_mul] at above
      exact lt_irrefl _ above
    · intro zero
      rw [zero, value_zero] at value
      exact_mod_cast (mul_eq_zero.mp value.symm).resolve_right (two_zpow_pos e).ne'

/-- The product has no value: an operand is a NaN, or one is infinite and the other zero. -/
def Void (f : Binary) (a b : Nat) : Prop :=
  f.isNaN a = true ∨ f.isNaN b = true ∨
    f.magnitude a = f.infinity ∧ f.magnitude b = 0 ∨ f.magnitude a = 0 ∧ f.magnitude b = f.infinity

instance (f : Binary) (a b : Nat) : Decidable (f.Void a b) := inferInstanceAs (Decidable (_ ∨ _))

theorem mul_void_iff (invalid : f.isNaN f.invalid = true) (some_exponent : 0 < f.infinity) :
    f.isNaN (f.mul a b) = true ↔ f.Void a b := by
  cases nan : f.isNaN a with
  | true => simp [mul_nan nan, isNaN_quiet nan, Void, nan]
  | false =>
    cases nan' : f.isNaN b with
    | true =>
      have quiet : f.mul a b = b ||| f.quietBit := by simp [mul, combine, nan, nan']
      simp [quiet, isNaN_quiet nan', Void, nan']
    | false =>
      rw [mul, combine_numbers _ nan nan']
      simp only [Void, nan, nan', Bool.false_eq_true, false_or]
      have number := f.isNaN_withSign (f.isNegative a != f.isNegative b) le_rfl
      rcases decode_number nan with ⟨infinite, decoded⟩ | ⟨finite, m, e, decoded, -, zero⟩ <;>
        rcases decode_number nan' with
          ⟨infinite', decoded'⟩ | ⟨finite', m', e', decoded', -, zero'⟩ <;>
        rw [decoded, decoded'] <;> dsimp only
      · simp [number, infinite, infinite', some_exponent.ne']
      · split
        · rename_i none
          simp [invalid, infinite, zero'.mp none]
        · rename_i some
          simp [number, infinite, zero'.not.mp some, some_exponent.ne']
      · split
        · rename_i none
          simp [invalid, infinite', zero.mp none]
        · rename_i some
          simp [number, infinite', zero.not.mp some, some_exponent.ne']
      · have number : f.isNaN (f.encode (f.isNegative a != f.isNegative b) (m * m') 1 (e + e')) =
            false := by
          rw [encode_sign]
          exact isNaN_withSign _ (encode_le_infinity _ _ _)
        simp [number, finite.ne, finite'.ne]

theorem ofInt_signed (f : Binary) (n : Int) :
    f.ofInt n = f.withSign (n < 0) (f.nearest n.natAbs) := by
  rw [ofInt, encode_sign, encode_eq_nearest one_pos, Nat.cast_one, div_one, zpow_zero, mul_one]

theorem div_signed (finite : f.magnitude a < f.infinity) (finite' : f.magnitude b < f.infinity)
    (nonzero : 0 < f.magnitude b) :
    f.div a b = f.withSign (f.isNegative a != f.isNegative b)
      (f.nearest (f.value (f.magnitude a) / f.value (f.magnitude b))) := by
  have number : ∀ {c : Nat}, f.magnitude c < f.infinity → f.isNaN c = false :=
    fun finite => decide_eq_false finite.not_gt
  obtain ⟨m, e, decoded, value⟩ := decode_signed finite
  obtain ⟨m', e', decoded', value'⟩ := decode_signed finite'
  have some : m' ≠ 0 := by
    rintro rfl
    have above := value_lt nonzero finite'.le
    rw [value', value_zero, Nat.cast_zero, zero_mul] at above
    exact lt_irrefl _ above
  have quotient : (m : ℚ) / m' * 2 ^ (e - e') = m * 2 ^ e / (m' * 2 ^ e') := by
    rw [zpow_sub₀ two_ne_zero, mul_div_mul_comm]
  rw [div, combine_numbers _ (number finite) (number finite'), decoded, decoded', value, value',
    ← quotient]
  dsimp only
  rw [if_neg some, encode_sign, encode_eq_nearest (Nat.pos_of_ne_zero some)]

end Binary

namespace Single

variable {x y : Single}

/-- The product of a sample and a gain has no value. -/
def Void (x y : Single) : Prop := shape.Void x.toNat y.toNat

instance (x y : Single) : Decidable (x.Void y) := inferInstanceAs (Decidable (Binary.Void ..))

theorem magnitude_ofNat (bits : Nat) : shape.magnitude (ofNat bits).toNat = shape.magnitude bits :=
  Nat.mod_mod_of_dvd bits (by decide)

theorem mul_void_iff : shape.isNaN (x.mul y).toNat = true ↔ x.Void y := by
  rw [mul, Binary.isNaN, magnitude_ofNat]
  exact Binary.mul_void_iff (by decide) (by decide)

theorem fullScale_within_iff :
    shape.magnitude (fullScale x).toNat ≤ one.toNat ↔ ¬ shape.isNaN x.toNat = true := by
  cases number : shape.isNaN x.toNat with
  | true =>
    rw [fullScale, clamp_nan _ _ number]
    exact iff_of_false (beyond_one number) (by simp)
  | false =>
    refine iff_of_true ?_ (by simp)
    rw [fullScale_number number]
    split
    · assumption
    · split <;> decide

end Single

section Integers

open Binary

theorem Single.magnitude_ofInt (n : Int) :
    shape.magnitude (ofInt n).toNat = shape.nearest n.natAbs := by
  rw [ofInt, magnitude_ofNat, ofInt_signed, magnitude_withSign _ (nearest_le_infinity _)]

theorem Single.value_nearest_one : shape.value (shape.nearest (1 : Nat)) = 1 := by
  have pattern : shape.nearest ((1 : Nat) : ℚ) = one.toNat := by decide +kernel
  rw [pattern, value_one]

theorem Single.nearest_int_finite {n : Nat} (fits : n ≤ 2 ^ 31) :
    shape.nearest n < shape.infinity := by
  have bound : shape.nearest ((2 ^ 31 : Nat) : ℚ) < shape.infinity := by decide +kernel
  exact (nearest_mono (Nat.cast_nonneg _) (Nat.cast_le.mpr fits)).trans_lt bound

theorem Single.one_le_value {n : Nat} (some : 1 ≤ n) (fits : n ≤ 2 ^ 31) :
    1 ≤ shape.value (shape.nearest n) :=
  value_nearest_one.ge.trans (value_mono (nearest_mono (Nat.cast_nonneg _) (Nat.cast_le.mpr some))
    (nearest_int_finite fits).le)

theorem Single.least_part : 0 < shape.nearest (1 / shape.value (shape.nearest (2 ^ 31 : Nat))) := by
  have quotient : 0 < shape.div (shape.nearest (1 : Nat)) (shape.nearest (2 ^ 31 : Nat)) := by
    decide +kernel
  have one_le := one_le_value (by decide) (le_refl (2 ^ 31))
  rwa [div_eq (nearest_int_finite (by decide)) (nearest_int_finite le_rfl)
    (one_pos.trans_le one_le), value_nearest_one] at quotient

theorem Single.integer_parts {n : Int} (fits : n.natAbs ≤ 2 ^ 31) {greatest : Nat}
    (some : 1 ≤ greatest) (fits' : greatest ≤ 2 ^ 31) :
    let x := (ofInt n).div (ofInt greatest)
    shape.magnitude x.toNat < shape.infinity ∧ (shape.magnitude x.toNat = 0 ↔ n = 0) := by
  intro x
  have finite := nearest_int_finite fits
  have finite' := nearest_int_finite fits'
  have one_le := one_le_value some fits'
  have magnitude' : shape.magnitude (ofInt greatest).toNat = shape.nearest greatest :=
    magnitude_ofInt greatest
  have positive : 0 < shape.nearest greatest := by
    have first : 0 < shape.nearest ((1 : Nat) : ℚ) := by decide +kernel
    exact first.trans_le (nearest_mono (Nat.cast_nonneg _) (Nat.cast_le.mpr some))
  have quotient : shape.magnitude x.toNat = shape.nearest
      (shape.value (shape.nearest n.natAbs) / shape.value (shape.nearest greatest)) := by
    change shape.magnitude (ofNat (shape.div (ofInt n).toNat (ofInt greatest).toNat)).toNat = _
    rw [magnitude_ofNat, div_signed (by rwa [magnitude_ofInt]) (by rwa [magnitude'])
      (by rwa [magnitude']), magnitude_withSign _ (nearest_le_infinity _), magnitude_ofInt,
      magnitude']
  rw [quotient]
  refine ⟨?_, ?_, ?_⟩
  · calc shape.nearest (shape.value (shape.nearest n.natAbs) / shape.value (shape.nearest greatest))
        ≤ shape.nearest (shape.value (shape.nearest n.natAbs)) :=
          nearest_mono (div_nonneg (value_nonneg _) (value_nonneg _))
            (div_le_self (value_nonneg _) one_le)
      _ = shape.nearest n.natAbs := nearest_value finite.le
      _ < shape.infinity := finite
  · intro zero
    by_contra nonzero
    have least := least_part
    have top := nearest_int_finite (le_refl (2 ^ 31))
    have above : (1 : ℚ) / shape.value (shape.nearest (2 ^ 31 : Nat)) ≤
        shape.value (shape.nearest n.natAbs) / shape.value (shape.nearest greatest) :=
      div_le_div₀ (value_nonneg _) (one_le_value (by omega) fits) (one_pos.trans_le one_le)
        (value_mono (nearest_mono (Nat.cast_nonneg _) (Nat.cast_le.mpr fits')) top.le)
    have grown := nearest_mono (f := shape) (div_nonneg one_pos.le (value_nonneg _)) above
    omega
  · rintro rfl
    rw [Int.natAbs_zero, Nat.cast_zero, nearest_zero, value_zero, zero_div, nearest_zero]

theorem Single.integer_void_iff {n : Int} (fits : n.natAbs ≤ 2 ^ 31) {greatest : Nat}
    (some : 1 ≤ greatest) (fits' : greatest ≤ 2 ^ 31) (gain : Single) :
    ((ofInt n).div (ofInt greatest)).Void gain ↔
      shape.isNaN gain.toNat = true ∨ n = 0 ∧ shape.magnitude gain.toNat = shape.infinity := by
  obtain ⟨finite, zero⟩ := integer_parts fits some fits'
  have number : shape.isNaN ((ofInt n).div (ofInt greatest)).toNat = false :=
    decide_eq_false finite.not_gt
  simp [Void, Binary.Void, number, finite.ne, zero]

theorem Single.int16_void_iff (n : Int16) (gain : Single) : (Sample.toSingle n).Void gain ↔
    Single.shape.isNaN gain.toNat = true ∨
      n = 0 ∧ Single.shape.magnitude gain.toNat = Single.shape.infinity := by
  have low := n.le_toInt
  have high := n.toInt_lt
  have zero : n.toInt = 0 ↔ n = 0 := by rw [← Int16.toInt_zero, Int16.toInt_inj]
  rw [← zero]
  exact Single.integer_void_iff (by omega) (by decide : 1 ≤ 32767) (by decide) gain

theorem Single.int32_void_iff (n : Int32) (gain : Single) : (Sample.toSingle n).Void gain ↔
    Single.shape.isNaN gain.toNat = true ∨
      n = 0 ∧ Single.shape.magnitude gain.toNat = Single.shape.infinity := by
  have low := n.le_toInt
  have high := n.toInt_lt
  have zero : n.toInt = 0 ↔ n = 0 := by rw [← Int32.toInt_zero, Int32.toInt_inj]
  rw [← zero]
  exact Single.integer_void_iff (by omega) (by decide : 1 ≤ 2147483647) (by decide) gain

end Integers

section Words

variable {σ : Type} [Sample σ] {gain : Single}

def fullScaleWord (gain : Single) (x : σ) : Nat := (fullScale ((Sample.toSingle x).mul gain)).toNat

theorem convertSample_single (gain : Single) (x : σ) :
    convertSample .f32 gain x = littleEndian 4 (fullScaleWord gain x) :=
  if_neg fun same => same.2.1 rfl

theorem convertSample_word (gain : Single) (x : σ) :
    ofLittleEndian (convertSample .f32 gain x) = fullScaleWord gain x := by
  rw [convertSample_single]
  exact ofLittleEndian_littleEndian (Single.toNat_lt _)

theorem word_written {format : SampleFormat} {xs : List σ} {i : Nat} {x : σ}
    (placed : xs[i]? = some x) (rest : List UInt8) :
    ((xs.flatMap (convertSample format gain) ++ rest).drop (i * format.width)).take format.width =
      convertSample format gain x := by
  have length : ∀ x : σ, (convertSample format gain x).length = format.width :=
    length_convertSample format gain
  induction xs generalizing i with
  | nil => cases placed
  | cons x' xs ih =>
    rw [List.flatMap_cons, List.append_assoc]
    cases i with
    | zero =>
      obtain rfl : x' = x := by simpa using placed
      rw [Nat.zero_mul, List.drop_zero, List.take_left' (length _)]
    | succ i =>
      rw [Nat.succ_mul, Nat.add_comm, ← List.drop_drop, List.drop_left' (length _)]
      exact ih (by simpa using placed)

theorem fullScaleWord_within_iff (gain : Single) (x : σ) :
    fullScaleWord gain x &&& 0x7fffffff ≤ 0x3f800000 ↔ ¬ (Sample.toSingle x).Void gain := by
  have masked : fullScaleWord gain x &&& 0x7fffffff =
      Single.shape.magnitude (fullScaleWord gain x) :=
    Nat.and_two_pow_sub_one_eq_mod _ 31
  rw [masked, ← Single.mul_void_iff]
  exact Single.fullScale_within_iff

theorem fullScaleWord_nan_iff (gain : Single) (x : σ) :
    Single.shape.isNaN (fullScaleWord gain x) = true ↔ (Sample.toSingle x).Void gain := by
  rw [← Single.mul_void_iff, fullScaleWord]
  constructor
  · intro nan
    by_contra number
    exact Single.beyond_one nan (Single.fullScale_within_iff.mpr number)
  · intro nan
    rwa [fullScale, Single.clamp_nan _ _ nan]

/-- As many words are written as there are samples, or as there is room for. Each is within full
    scale if and only if the product of its sample and the gain has a value, and else it is a NaN.
    For integer samples that takes a gain that is a NaN, or a sample of zero and an infinite gain. -/
theorem words_within_scale_iff (xs : List σ) (gain : Single) (dst : List UInt8) :
    let made := convert xs .f32 gain dst
    made.1 = min xs.length (dst.length / 4) ∧
    (∀ i < made.1, ∃ x, xs[i]? = some x ∧
      let word := ofLittleEndian ((made.2.drop (i * 4)).take 4)
      (word &&& 0x7fffffff ≤ 0x3f800000 ↔ ¬ (Sample.toSingle x).Void gain) ∧
      (Single.shape.isNaN word = true ↔ (Sample.toSingle x).Void gain)) ∧
    (∀ n : Int16, (Sample.toSingle n).Void gain ↔ Single.shape.isNaN gain.toNat = true ∨
      n = 0 ∧ Single.shape.magnitude gain.toNat = Single.shape.infinity) ∧
    ∀ n : Int32, (Sample.toSingle n).Void gain ↔ Single.shape.isNaN gain.toNat = true ∨
      n = 0 ∧ Single.shape.magnitude gain.toNat = Single.shape.infinity := by
  intro made
  refine ⟨rfl, ?_, fun n => Single.int16_void_iff n gain, fun n => Single.int32_void_iff n gain⟩
  intro i counted
  have few : made.1 ≤ xs.length := Nat.min_le_left _ _
  have placed : (xs.take made.1)[i]? = some xs[i] := by
    rw [List.getElem?_take_of_lt counted, List.getElem?_eq_getElem]
  have word : ofLittleEndian ((made.2.drop (i * 4)).take 4) = fullScaleWord gain xs[i] := by
    rw [← convertSample_word, ← word_written placed (dst.drop (made.1 * 4))]
    rfl
  refine ⟨xs[i], List.getElem?_eq_getElem _, ?_⟩
  rw [word]
  exact ⟨fullScaleWord_within_iff gain xs[i], fullScaleWord_nan_iff gain xs[i]⟩

/-- Twice two is cut to one, twice a quarter below zero stays, and between them stands a NaN. -/
theorem cut_void_and_soft :
    let xs : List Single := [⟨0x40000000⟩, ⟨0x7fc00000⟩, ⟨0xbe800000⟩]
    let made := convert xs .f32 ⟨0x40000000⟩ (silence 12)
    let word i := ofLittleEndian ((made.2.drop (i * 4)).take 4)
    made.1 = 3 ∧ word 0 &&& 0x7fffffff ≤ 0x3f800000 ∧ Single.shape.isNaN (word 1) = true ∧
      word 2 &&& 0x7fffffff ≤ 0x3f800000 := by
  intro xs made word
  obtain ⟨count, each, -⟩ := words_within_scale_iff xs ⟨0x40000000⟩ (silence 12)
  have three : made.1 = 3 := count
  have counted (i : Nat) (few : i < 3) : i < made.1 := by omega
  refine ⟨three, ?_, ?_, ?_⟩
  · obtain ⟨x, same, within, -⟩ := each 0 (counted 0 (by decide))
    obtain rfl := Option.some.inj same
    exact within.mpr (by decide +kernel)
  · obtain ⟨x, same, -, missing⟩ := each 1 (counted 1 (by decide))
    obtain rfl := Option.some.inj same
    exact missing.mpr (by decide +kernel)
  · obtain ⟨x, same, within, -⟩ := each 2 (counted 2 (by decide))
    obtain rfl := Option.some.inj same
    exact within.mpr (by decide +kernel)

/-- A NaN comes out as a NaN, and so does an integer zero at an infinite gain, where the integer
    formats write silence for both. -/
theorem nan_is_not_held :
    let nan : Single := ⟨0x7fc00000⟩
    let infinite : Single := ⟨0x7f800000⟩
    let word := ofLittleEndian [0, 0, 0xc0, 0x7f]
    convert [nan] .f32 Single.one (silence 4) = (1, [0, 0, 0xc0, 0x7f]) ∧
      ¬ word &&& 0x7fffffff ≤ 0x3f800000 ∧ Single.shape.isNaN word = true ∧
      convert [(0 : Int16)] .f32 infinite (silence 4) = (1, [0, 0, 0xc0, 0xff]) ∧
      convert [nan] .i16 Single.one (silence 2) = (1, [0, 0]) ∧
      convert [(0 : Int16)] .i32 infinite (silence 4) = (1, [0, 0, 0, 0]) := by
  decide +kernel

end Words

end PcmStream
