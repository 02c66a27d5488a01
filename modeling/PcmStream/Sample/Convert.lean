import PcmStream.Sample

/- Conversion of samples into the bytes of a format, with gain. -/
namespace PcmStream

variable {σ : Type} [Sample σ]

/-- Integers that keep their format at unit gain are copied; all else goes through a single. -/
def convertSample (format : SampleFormat) (gain : Single) (x : σ) : List UInt8 :=
  if Sample.format σ = format ∧ format ≠ .f32 ∧ gain = Single.one then Sample.bytes x
  else format.encode ((Sample.toSingle x).mul gain)

/-- Overwrites the front of `dst` with as many samples as fit, and counts them. -/
def convert (src : List σ) (format : SampleFormat) (gain : Single) (dst : List UInt8) :
    Nat × List UInt8 :=
  let count := min src.length (dst.length / format.width)
  (count, (src.take count).flatMap (convertSample format gain) ++ dst.drop (count * format.width))

theorem length_encode (format : SampleFormat) (x : Single) :
    (format.encode x).length = format.width := by
  cases format <;> simp [SampleFormat.encode, Sample.length_bytes] <;> rfl

theorem length_convertSample (format : SampleFormat) (gain : Single) (x : σ) :
    (convertSample format gain x).length = format.width := by
  unfold convertSample
  split
  · rename_i same
    rw [Sample.length_bytes, same.1]
  · exact length_encode format _

theorem length_flatMap_convertSample (format : SampleFormat) (gain : Single) (xs : List σ) :
    (xs.flatMap (convertSample format gain)).length = xs.length * format.width := by
  induction xs with
  | nil => simp
  | cons x xs ih =>
    simp only [List.flatMap_cons, List.length_append, length_convertSample, ih, List.length_cons]
    rw [Nat.add_mul]
    omega

theorem convert_count_le (src : List σ) (format : SampleFormat) (gain : Single)
    (dst : List UInt8) : (convert src format gain dst).1 * format.width ≤ dst.length := by
  have fits := Nat.div_mul_le_self dst.length format.width
  have least : min src.length (dst.length / format.width) ≤ dst.length / format.width :=
    Nat.min_le_right _ _
  exact Nat.le_trans (Nat.mul_le_mul_right _ least) fits

theorem length_convert (src : List σ) (format : SampleFormat) (gain : Single) (dst : List UInt8) :
    (convert src format gain dst).2.length = dst.length := by
  have fits := convert_count_le src format gain dst
  simp only [convert] at fits ⊢
  simp only [List.length_append, length_flatMap_convertSample, List.length_take, List.length_drop]
  have inner : min (min src.length (dst.length / format.width)) src.length =
      min src.length (dst.length / format.width) := by omega
  rw [inner]
  omega

theorem convert_fitting {src : List σ} {format : SampleFormat} {dst : List UInt8}
    (fits : src.length * format.width ≤ dst.length) (gain : Single) :
    convert src format gain dst =
      (src.length, src.flatMap (convertSample format gain) ++
        dst.drop (src.length * format.width)) := by
  have room : src.length ≤ dst.length / format.width :=
    (Nat.le_div_iff_mul_le format.width_pos).mpr fits
  simp only [convert, Nat.min_eq_left room, List.take_length]

end PcmStream
