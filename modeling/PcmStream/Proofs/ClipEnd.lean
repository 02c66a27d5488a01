import PcmStream.Proofs.ProducerRuns

/- Where a clip ends that is played once. It falls silent behind its last whole frame, and it says
   that it is over behind its last sample. If its data is made up of whole frames the two are the
   same; if not, it falls silent and is never over. -/
namespace PcmStream.Clip

inductive Use (σ : Type) where
  | produce (out : List σ)
  | rewind

variable {σ : Type} {channels : Nat} {c : Clip σ}

def use (channels : Nat) (c : Clip σ) : Use σ → Clip σ
  | .produce out => (c.produce out channels).producer
  | .rewind => c.rewind

def uses (channels : Nat) (c : Clip σ) (all : List (Use σ)) : Clip σ :=
  all.foldl (use channels) c

/-- However it is asked for frames, it has none until it is rewound. -/
def Silent (channels : Nat) (c : Clip σ) : Prop :=
  ∀ (earlier : List (List σ)) (out : List σ),
    ((c.uses channels (earlier.map .produce)).produce out channels).frames = 0

/-- The clip is played once and has got to the start of a frame, or to the end of the last one. -/
structure Paced (channels : Nat) (data : List σ) (c : Clip σ) : Prop where
  data : c.data = data
  once : c.looping = false
  aligned : channels ∣ c.position
  within : c.position ≤ c.playable channels

theorem play_within {playable : Nat} (some_data : 0 < playable) (n : Nat)
    (within : c.position ≤ playable) : (c.play playable n).2.position ≤ playable := by
  induction c, n using play_rounds some_data with
  | nothing c => exact within
  | ended c n ended => rwa [play_ended ended]
  | round c n some_n going ih =>
    have inside := c.resume_lt some_data
    rw [play_round some_data going some_n]
    exact ih (by dsimp only; omega)

theorem produce_ended (ended : c.Ended (c.playable channels)) (out : List σ) :
    (c.produce out channels).frames = 0 ∧ (c.produce out channels).producer = c := by
  unfold produce
  split
  · exact ⟨rfl, rfl⟩
  · rw [play_ended ended]
    exact ⟨Nat.zero_div _, rfl⟩

theorem produce_going (some_channel : 0 < channels) {data : List σ} (paced : c.Paced channels data)
    (going : c.position < c.playable channels) {out : List σ} (room : channels ≤ out.length) :
    0 < (c.produce out channels).frames := by
  have some_data : 0 < c.playable channels := by omega
  have unended : ¬ c.Ended (c.playable channels) := fun ended => Nat.not_le.mpr going ended.1
  have resumed : c.resume (c.playable channels) = c.position := if_neg (Nat.not_le.mpr going)
  have frame_left : channels ≤ c.playable channels - c.position := by
    apply Nat.le_of_dvd (by omega)
    exact Nat.dvd_sub (Nat.dvd_mul_left _ _) paced.aligned
  have frame_wanted : channels ≤ out.length / channels * channels := by
    have one : 1 ≤ out.length / channels := (Nat.one_le_div_iff some_channel).mpr room
    calc channels = 1 * channels := (Nat.one_mul _).symm
      _ ≤ out.length / channels * channels := Nat.mul_le_mul_right _ one
  have inside : c.playable channels ≤ c.data.length := c.playable_le channels
  unfold produce
  rw [if_neg (by omega), play_round some_data unended (by omega)]
  simp only [List.length_append, length_round c _ inside]
  apply Nat.div_pos _ some_channel
  rw [resumed]
  omega

theorem produce_paced {data : List σ} (paced : c.Paced channels data) (out : List σ) :
    (c.produce out channels).producer.Paced channels data := by
  unfold produce
  split
  · exact paced
  · rename_i sounds
    have some_data : 0 < c.playable channels := by omega
    let n := out.length / channels * channels
    have kept : (c.play (c.playable channels) n).2.data = c.data := (play_keeps c n).1
    constructor
    · exact kept.trans paced.data
    · exact (play_keeps c n).2.trans paced.once
    · exact (play_aligned some_data n (c.playable_le channels) (Nat.dvd_mul_left _ _)
        paced.aligned (Nat.dvd_mul_left _ _)).2
    · have same : (c.play (c.playable channels) n).2.playable channels = c.playable channels := by
        rw [playable, kept, playable]
      dsimp only
      rw [same]
      exact play_within some_data n paced.within

theorem uses_paced (data : List σ) (all : List (Use σ)) :
    (uses channels { data } all).Paced channels data := by
  have begun : ({ data } : Clip σ).Paced channels data :=
    ⟨rfl, rfl, Nat.dvd_zero _, Nat.zero_le _⟩
  have each : ∀ (c : Clip σ) (u : Use σ), c.Paced channels data →
      (c.use channels u).Paced channels data := by
    intro c u paced
    cases u with
    | produce out => exact produce_paced paced out
    | rewind => exact ⟨paced.data, paced.once, Nat.dvd_zero _, Nat.zero_le _⟩
  unfold uses
  generalize ({ data } : Clip σ) = c at begun
  induction all generalizing c with
  | nil => exact begun
  | cons u rest ih => exact ih _ (each c u begun)

theorem silent_iff {data : List σ} (paced : c.Paced channels data) :
    c.Silent channels ↔ c.position = c.playable channels := by
  constructor
  · intro silent
    apply Nat.le_antisymm paced.within
    rcases Nat.lt_or_ge c.position (c.playable channels) with going | done
    · have some_channel : 0 < channels := by
        rcases Nat.eq_zero_or_pos channels with none | some
        · simp [playable, none] at going
        · exact some
      have some_data : 0 < c.playable channels := by omega
      have frame : channels ≤ c.data.length :=
        Nat.le_trans (Nat.le_of_dvd some_data (Nat.dvd_mul_left _ _)) (c.playable_le channels)
      have room : channels ≤ (c.data.take channels).length := by
        rw [List.length_take]
        omega
      have sounds := produce_going some_channel paced going room
      exact absurd (silent [] (c.data.take channels)) (Nat.ne_of_gt sounds)
    · exact done
  · intro done earlier out
    have ended : c.Ended (c.playable channels) := ⟨Nat.le_of_eq done.symm, paced.once⟩
    have still : c.uses channels (earlier.map .produce) = c := by
      induction earlier with
      | nil => rfl
      | cons slice rest ih =>
        change uses channels (c.produce slice channels).producer _ = c
        rw [(produce_ended ended slice).2]
        exact ih
    rw [still]
    exact (produce_ended ended out).1

theorem isOver_iff {data : List σ} (paced : c.Paced channels data) :
    c.isOver = true ↔ c.position = c.playable channels ∧ channels ∣ data.length := by
  have inside := c.playable_le channels
  have within := paced.within
  simp only [isOver, paced.once, Bool.not_false, Bool.true_and, decide_eq_true_eq]
  rw [← paced.data]
  constructor
  · intro done
    have whole : c.playable channels = c.data.length := by omega
    exact ⟨by omega, whole ▸ Nat.dvd_mul_left _ _⟩
  · rintro ⟨done, whole⟩
    exact Nat.le_of_eq (by rw [done, playable, Nat.div_mul_cancel whole])

theorem produce_short {data : List σ} (paced : c.Paced channels data) {out : List σ}
    (short : (c.produce out channels).frames < out.length / channels) :
    (c.produce out channels).producer.position =
      (c.produce out channels).producer.playable channels := by
  have paced' := produce_paced paced out
  have within := paced'.within
  apply Nat.le_antisymm within
  unfold produce at short ⊢
  split at short
  · rename_i nothing
    rcases nothing with no_channel | no_data
    · rw [no_channel, Nat.div_zero] at short
      omega
    · rw [if_pos (.inr no_data)]
      dsimp only
      omega
  · rename_i sounds
    rw [if_neg sounds]
    let n := out.length / channels * channels
    have fewer : (c.play (c.playable channels) n).1.length < n :=
      (Nat.div_lt_iff_lt_mul (by omega)).mp short
    have ended := (play_short (by omega) n (c.playable_le channels)).2 fewer
    have same : (c.play (c.playable channels) n).2.playable channels = c.playable channels := by
      rw [playable, (play_keeps c n).1, playable]
    dsimp only
    rw [same]
    exact ended.1

/-- Whatever has been done with a clip that is played once: it is over if and only if it has no
    frame to give until it is rewound, and its data is made up of whole frames. A fill that comes
    short leaves it silent, and over if its data is made up of whole frames. -/
theorem over_iff_silent_and_whole (channels : Nat) (data : List σ) (all : List (Use σ)) :
    let c := uses channels { data } all
    (c.isOver = true ↔ c.Silent channels ∧ channels ∣ data.length) ∧
    ∀ out, let made := c.produce out channels
      made.frames < out.length / channels →
        made.producer.Silent channels ∧ (made.producer.isOver = true ↔ channels ∣ data.length) := by
  intro c
  have paced : c.Paced channels data := uses_paced data all
  refine ⟨?_, ?_⟩
  · rw [isOver_iff paced, silent_iff paced]
  · intro out made short
    have paced' : made.producer.Paced channels data := produce_paced paced out
    have done := produce_short paced short
    exact ⟨(silent_iff paced').mpr done, by rw [isOver_iff paced']; exact and_iff_right done⟩

/-- Of three samples a stereo clip plays two. The fill comes short and the clip has no more to give,
    but it is not over then, nor whatever is done with it. -/
theorem odd_clip_is_never_over :
    let c : Clip Int16 := { data := [1, 2, 3] }
    let made := c.produce [0, 0, 0, 0] 2
    made.frames = 1 ∧ made.frames < [0, 0, 0, 0].length / 2 ∧ made.producer.Silent 2 ∧
      made.producer.isOver = false ∧ ∀ all, (c.uses 2 all).isOver = false := by
  intro c made
  have never : ∀ all, (c.uses 2 all).isOver = false := by
    intro all
    apply Bool.eq_false_iff.mpr
    intro done
    exact absurd ((isOver_iff (uses_paced c.data all)).mp done).2 (by decide)
  have paced : made.producer.Paced 2 c.data := uses_paced c.data [.produce [0, 0, 0, 0]]
  have silent := (silent_iff paced).mpr (by decide)
  exact ⟨by decide, by decide, silent, never [.produce [0, 0, 0, 0]], never⟩

end PcmStream.Clip
