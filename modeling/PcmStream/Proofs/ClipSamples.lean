import PcmStream.Proofs.ClipEnd

/- Which samples a clip plays. In a loop it plays the endless repetition of its whole frames, from
   where it stands; played once, the rest of them. However often it starts over while it fills one
   slice, its position counts the samples that were played, modulo the length of one pass. -/
namespace PcmStream.Clip

variable {σ : Type} {channels playable n : Nat} {c : Clip σ}

theorem resume_mod (within : c.position ≤ playable) :
    c.resume playable % playable = c.position % playable := by
  unfold resume
  split
  · rename_i at_end
    rw [Nat.le_antisymm within at_end, Nat.zero_mod, Nat.mod_self]
  · rfl

theorem resume_add_mod (within : c.position ≤ playable) (i : Nat) :
    (c.resume playable + i) % playable = (c.position + i) % playable := by
  rw [Nat.add_mod, resume_mod within, ← Nat.add_mod]

theorem not_ended (looping : c.looping = true) : ¬ c.Ended playable := by
  intro ended
  exact absurd ended.2 (by simp [looping])

theorem length_play_loop (some_data : 0 < playable) (inside : playable ≤ c.data.length)
    (looping : c.looping = true) (n : Nat) : (c.play playable n).1.length = n := by
  induction c, n using play_rounds some_data with
  | nothing c => rfl
  | ended c n ended => exact absurd ended (not_ended looping)
  | round c n some_n going ih =>
    have rest := ih inside looping
    rw [play_round some_data going some_n, List.length_append, length_round c n inside]
    omega

theorem getElem_play_loop (some_data : 0 < playable) (inside : playable ≤ c.data.length)
    (looping : c.looping = true) (within : c.position ≤ playable) {i : Nat} (played : i < n) :
    (c.play playable n).1[i]? = c.data[(c.position + i) % playable]? := by
  induction c, n using play_rounds some_data generalizing i with
  | nothing c => exact absurd played (Nat.not_lt_zero i)
  | ended c n ended => exact absurd ended (not_ended looping)
  | round c n some_n going ih =>
    have starts := c.resume_lt some_data
    have length := length_round c n inside
    rw [play_round some_data going some_n, ← resume_add_mod within i]
    dsimp only
    -- The sample is of this round, or of those after it, which go on behind what this one played.
    rcases Nat.lt_or_ge i (min n (playable - c.resume playable)) with now | later
    · rw [List.getElem?_append_left (by rwa [length]), List.getElem?_take_of_lt now,
        List.getElem?_drop, Nat.mod_eq_of_lt (by omega)]
    · have rest := ih inside looping (by dsimp only; omega)
        (by omega : i - min n (playable - c.resume playable) < _)
      rw [List.getElem?_append_right (by rwa [length]), length, rest]
      dsimp only
      rw [Nat.add_assoc, Nat.add_sub_cancel' later]

theorem play_position_mod (some_data : 0 < playable) (inside : playable ≤ c.data.length)
    (within : c.position ≤ playable) (n : Nat) :
    (c.play playable n).2.position % playable =
      (c.position + (c.play playable n).1.length) % playable := by
  induction c, n using play_rounds some_data with
  | nothing c => rfl
  | ended c n ended => rw [play_ended ended]; rfl
  | round c n some_n going ih =>
    have starts := c.resume_lt some_data
    have later := ih inside (by dsimp only; omega)
    rw [play_round some_data going some_n, List.length_append, length_round c n inside]
    dsimp only at later ⊢
    rw [later, Nat.add_assoc, resume_add_mod within]

theorem play_once (some_data : 0 < playable) (once : c.looping = false)
    (within : c.position ≤ playable) (n : Nat) :
    c.play playable n =
      let count := min n (playable - c.position)
      ((c.data.drop c.position).take count, { c with position := c.position + count }) := by
  rcases Nat.eq_zero_or_pos n with rfl | some_n
  · simp [play_zero]
  rcases Nat.eq_or_lt_of_le within with rfl | before
  · simp [play_ended ⟨Nat.le_refl _, once⟩]
  · have going : ¬ c.Ended playable := fun ended => Nat.not_le.mpr before ended.1
    have resumed : c.resume playable = c.position := if_neg (Nat.not_le.mpr before)
    rw [play_round some_data going some_n, resumed]
    dsimp only
    rcases Nat.le_total n (playable - c.position) with less | more
    · rw [Nat.min_eq_left less, Nat.sub_self, play_zero, List.append_nil]
    · have ended : ({ c with position := c.position + (playable - c.position) } : Clip σ).Ended
          playable := ⟨Nat.le_of_eq (by dsimp only; omega), once⟩
      rw [Nat.min_eq_right more, play_ended ended, List.append_nil]

theorem play_moves (c : Clip σ) (playable n : Nat) :
    (c.play playable n).2 = { c with position := (c.play playable n).2.position } := by
  have kept : (c.play playable n).2.data = c.data ∧ (c.play playable n).2.looping = c.looping :=
    play_keeps c n
  obtain ⟨data, looping⟩ := kept
  generalize (c.play playable n).2 = c' at data looping ⊢
  cases c'
  simp_all

section Fill

variable {out : List σ}

theorem produce_silent (no_data : c.playable channels = 0) (out : List σ) :
    c.produce out channels = ⟨0, out, c⟩ := if_pos (.inr no_data)

theorem length_produce (c : Clip σ) (out : List σ) (channels : Nat) :
    (c.produce out channels).out.length = out.length := by
  unfold produce
  split
  · rfl
  · exact length_overwrite _ _

theorem produce_run (some_channel : 0 < channels) (aligned : channels ∣ c.position)
    (some_data : 0 < c.playable channels) (out : List σ) :
    let ran := c.play (c.playable channels) (out.length / channels * channels)
    c.produce out channels =
        ⟨ran.1.length / channels, ran.1 ++ out.drop ran.1.length, ran.2⟩ ∧
      ran.1.length / channels * channels = ran.1.length ∧ ran.1.length ≤ out.length := by
  intro ran
  have inside := c.playable_le channels
  have whole : channels ∣ ran.1.length := (play_aligned some_data _ inside (Nat.dvd_mul_left _ _)
    aligned (Nat.dvd_mul_left _ _)).1
  have fits : ran.1.length ≤ out.length :=
    Nat.le_trans (play_short some_data _ inside).1 (Nat.div_mul_le_self _ _)
  refine ⟨?_, Nat.div_mul_cancel whole, fits⟩
  rw [produce, if_neg (by omega)]
  change (⟨ran.1.length / channels, overwrite ran.1 out, ran.2⟩ : Produced (Clip σ) σ) = _
  rw [overwrite, List.take_of_length_le fits]

theorem produce_loop (some_channel : 0 < channels) (aligned : channels ∣ c.position)
    (within : c.position ≤ c.playable channels) (some_data : 0 < c.playable channels)
    (looping : c.looping = true) (out : List σ) :
    (c.produce out channels).frames = out.length / channels * channels / channels ∧
      ∀ i < out.length / channels * channels,
        (c.produce out channels).out[i]? = c.data[(c.position + i) % c.playable channels]? := by
  have inside := c.playable_le channels
  have length := length_play_loop some_data inside looping (out.length / channels * channels)
  rw [(produce_run some_channel aligned some_data out).1]
  refine ⟨by dsimp only; rw [length], ?_⟩
  intro i wanted
  dsimp only
  rw [List.getElem?_append_left (by rwa [length]),
    getElem_play_loop some_data inside looping within wanted]

theorem produce_once (some_channel : 0 < channels) (aligned : channels ∣ c.position)
    (within : c.position ≤ c.playable channels) (once : c.looping = false) (out : List σ) :
    let count := min (out.length / channels * channels) (c.playable channels - c.position)
    (c.produce out channels).frames = count / channels ∧
      (c.produce out channels).frames * channels = count ∧
      (∀ i < count, (c.produce out channels).out[i]? = c.data[c.position + i]?) ∧
      (c.produce out channels).producer.position = c.position + count := by
  intro count
  rcases Nat.eq_zero_or_pos (c.playable channels) with no_data | some_data
  · have none : count = 0 := by omega
    simp [produce_silent no_data, none]
  · have inside := c.playable_le channels
    obtain ⟨run, whole, _⟩ := produce_run some_channel aligned some_data out
    rw [play_once some_data once within] at run whole
    have length : ((c.data.drop c.position).take count).length = count := by
      rw [List.length_take, List.length_drop]
      omega
    dsimp only at run whole
    rw [length] at run whole
    rw [run]
    refine ⟨rfl, whole, ?_, rfl⟩
    intro i played
    dsimp only
    rw [List.getElem?_append_left (by rwa [length]), List.getElem?_take_of_lt played,
      List.getElem?_drop]

theorem produce_rest (some_channel : 0 < channels) (aligned : channels ∣ c.position)
    (out : List σ) :
    (c.produce out channels).out.drop ((c.produce out channels).frames * channels) =
      out.drop ((c.produce out channels).frames * channels) := by
  rcases Nat.eq_zero_or_pos (c.playable channels) with no_data | some_data
  · rw [produce_silent no_data]
  · obtain ⟨run, whole, _⟩ := produce_run some_channel aligned some_data out
    rw [run]
    dsimp only
    rw [whole, List.drop_left]

theorem produce_position (some_channel : 0 < channels) (aligned : channels ∣ c.position)
    (within : c.position ≤ c.playable channels) (out : List σ) :
    ∃ position, (c.produce out channels).producer = { c with position } ∧ channels ∣ position ∧
      position ≤ c.playable channels ∧
      position % c.playable channels =
        (c.position + (c.produce out channels).frames * channels) % c.playable channels := by
  rcases Nat.eq_zero_or_pos (c.playable channels) with no_data | some_data
  · rw [produce_silent no_data]
    exact ⟨c.position, rfl, aligned, within, by rw [Nat.zero_mul, Nat.add_zero]⟩
  · have inside := c.playable_le channels
    obtain ⟨run, whole, _⟩ := produce_run some_channel aligned some_data out
    have stops := (play_aligned some_data _ inside (Nat.dvd_mul_left _ _) aligned
      (Nat.dvd_mul_left _ (out.length / channels))).2
    rw [run]
    dsimp only
    rw [whole]
    exact ⟨_, play_moves _ _ _, stops, play_within some_data _ within,
      play_position_mod some_data inside within _⟩

end Fill

/-- A clip without a whole frame plays nothing. With one, a fill ends by itself: as many rounds as
    samples are wanted are enough. A loop fills all whole frames of the slice with the repetition of
    its data; played once, a clip gives what is left of it. Behind the frames that it counts the
    slice stays as it was, and the clip goes on at the start of a frame, as far behind its old place
    as it has played. -/
theorem produce_plays_the_data (some_channel : 1 ≤ channels) (aligned : channels ∣ c.position)
    (within : c.position ≤ c.playable channels) (out : List σ) :
    let whole := c.playable channels
    let wanted := out.length / channels * channels
    let made := c.produce out channels
    let played := made.frames * channels
    (whole = 0 → made = ⟨0, out, c⟩) ∧
    (0 < whole → ∀ fuel, wanted ≤ fuel → playFuel whole fuel c wanted = c.play whole wanted) ∧
    (0 < whole → c.looping = true → made.frames = wanted / channels ∧
      ∀ i < wanted, made.out[i]? = c.data[(c.position + i) % whole]?) ∧
    (c.looping = false → made.frames = min wanted (whole - c.position) / channels ∧
      ∀ i < min wanted (whole - c.position), made.out[i]? = c.data[c.position + i]?) ∧
    made.out.length = out.length ∧ made.out.drop played = out.drop played ∧
    ∃ position, made.producer = { c with position } ∧ channels ∣ position ∧ position ≤ whole ∧
      position % whole = (c.position + played) % whole ∧
      (c.looping = false → position = c.position + played) := by
  intro whole wanted made played
  refine ⟨fun no_data => produce_silent no_data out,
    fun some_data fuel enough => playFuel_enough some_data enough,
    fun some_data looping => produce_loop some_channel aligned within some_data looping out,
    ?_, length_produce c out channels, produce_rest some_channel aligned out, ?_⟩
  · intro once
    obtain ⟨frames, _, samples, _⟩ := produce_once some_channel aligned within once out
    exact ⟨frames, samples⟩
  · obtain ⟨position, moved, stands, inside, counted⟩ :=
      produce_position some_channel aligned within out
    refine ⟨position, moved, stands, inside, counted, ?_⟩
    intro once
    obtain ⟨_, count, _, stopped⟩ := produce_once some_channel aligned within once out
    rw [moved, ← count] at stopped
    exact stopped

/-- Of five samples four are looped in stereo. From the third of them on ten are wanted, so the loop
    starts over twice and rests at its end; the odd place of the slice stays as it was. -/
theorem four_of_five_samples_go_round :
    let c : Clip Int16 := { data := [1, 2, 3, 4, 5], position := 2, looping := true }
    let out : List Int16 := List.replicate 11 9
    1 ≤ 2 ∧ 2 ∣ c.position ∧ c.position ≤ c.playable 2 ∧
      (c.produce out 2).frames = 5 ∧
      (c.produce out 2).out = [3, 4, 1, 2, 3, 4, 1, 2, 3, 4, 9] ∧
      (∀ i < 10, (c.produce out 2).out[i]? = c.data[(2 + i) % 4]?) ∧
      (c.produce out 2).out.drop 10 = [9] ∧
      ∃ position, (c.produce out 2).producer = { c with position } ∧ 2 ∣ position ∧
        position ≤ 4 ∧ position % 4 = 0 := by
  intro c out
  obtain ⟨_, _, looped, _, _, rest, position, moved, stands, inside, counted, _⟩ :=
    produce_plays_the_data (by decide) (by decide : 2 ∣ c.position)
      (by decide : c.position ≤ c.playable 2) out
  obtain ⟨frames, samples⟩ := looped (by decide) rfl
  have whole : c.playable 2 = 4 := by decide
  have wanted : out.length / 2 * 2 = 10 := by decide
  have five : (c.produce out 2).frames = 5 := frames.trans (by decide)
  rw [whole, wanted] at samples
  rw [whole] at inside
  rw [whole, five] at counted
  rw [five] at rest
  exact ⟨by decide, by decide, by decide, five, by decide, samples, rest, position, moved, stands,
    inside, counted.trans (by decide)⟩

end PcmStream.Clip
