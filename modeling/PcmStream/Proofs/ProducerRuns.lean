import PcmStream.Producer.Voice

/- What a stock producer plays does not depend on how much is asked for at a time: two runs, one after the
   other, play what one run of their sum plays. A run that comes short is the last to play anything. -/
namespace PcmStream

namespace Clip

variable {σ : Type} {playable wanted fuel : Nat} {c : Clip σ}

def Ended (c : Clip σ) (playable : Nat) : Prop := playable ≤ c.position ∧ c.looping = false

def resume (c : Clip σ) (playable : Nat) : Nat := if playable ≤ c.position then 0 else c.position

theorem resume_lt (c : Clip σ) (some_data : 0 < playable) : c.resume playable < playable := by
  unfold resume
  split <;> omega

theorem playFuel_zero (fuel : Nat) (c : Clip σ) : playFuel playable fuel c 0 = ([], c) := by
  cases fuel <;> rfl

theorem playFuel_ended (ended : c.Ended playable) (fuel wanted : Nat) :
    playFuel playable fuel c wanted = ([], c) := by
  cases fuel with
  | zero => rfl
  | succ fuel =>
    cases wanted with
    | zero => rfl
    | succ wanted => simp [playFuel, ended.1, ended.2]

theorem playFuel_keeps (fuel : Nat) (c : Clip σ) (wanted : Nat) :
    (playFuel playable fuel c wanted).2.data = c.data ∧
      (playFuel playable fuel c wanted).2.looping = c.looping := by
  induction fuel generalizing c wanted with
  | zero => exact ⟨rfl, rfl⟩
  | succ fuel ih =>
    cases wanted with
    | zero => exact ⟨rfl, rfl⟩
    | succ wanted =>
      rw [playFuel]
      · split
        · exact ⟨rfl, rfl⟩
        · exact ih _ _
      · simp

theorem playFuel_round (going : ¬ c.Ended playable) (some_wanted : 0 < wanted) :
    playFuel playable (fuel + 1) c wanted =
      let count := min wanted (playable - c.resume playable)
      let later := playFuel playable fuel { c with position := c.resume playable + count }
        (wanted - count)
      ((c.data.drop (c.resume playable)).take count ++ later.1, later.2) := by
  cases wanted with
  | zero => omega
  | succ wanted =>
    have unended : ¬ (playable ≤ c.position ∧ (!c.looping) = true) := by simpa [Ended] using going
    have kept : ∀ position left, (playFuel playable fuel { c with position } left).2.data = c.data :=
      fun position left => (playFuel_keeps fuel { c with position } left).1
    rw [playFuel, if_neg unended]
    · unfold resume
      simp only [kept]
    · simp

theorem playFuel_enough (some_data : 0 < playable) (enough : wanted ≤ fuel) :
    playFuel playable fuel c wanted = c.play playable wanted := by
  have same : ∀ {fuel fuel' wanted : Nat} {c : Clip σ}, wanted ≤ fuel → wanted ≤ fuel' →
      playFuel playable fuel c wanted = playFuel playable fuel' c wanted := by
    intro fuel
    induction fuel with
    | zero =>
      intro fuel' wanted c enough enough'
      obtain rfl : wanted = 0 := by omega
      rw [playFuel_zero, playFuel_zero]
    | succ fuel ih =>
      intro fuel' wanted c enough enough'
      rcases Nat.eq_zero_or_pos wanted with rfl | some_wanted
      · rw [playFuel_zero, playFuel_zero]
      · obtain ⟨fuel', rfl⟩ : ∃ n, fuel' = n + 1 := ⟨fuel' - 1, by omega⟩
        by_cases ended : c.Ended playable
        · rw [playFuel_ended ended, playFuel_ended ended]
        · have inside := c.resume_lt some_data
          rw [playFuel_round ended some_wanted, playFuel_round ended some_wanted]
          dsimp only
          rw [ih (by omega) (by omega : wanted - min wanted (playable - c.resume playable) ≤ fuel')]
  exact same enough (Nat.le_refl _)

theorem play_zero (c : Clip σ) : c.play playable 0 = ([], c) := rfl

theorem play_ended (ended : c.Ended playable) (wanted : Nat) :
    c.play playable wanted = ([], c) := playFuel_ended ended _ _

theorem play_round (some_data : 0 < playable) (going : ¬ c.Ended playable) (some_wanted : 0 < wanted) :
    c.play playable wanted =
      let count := min wanted (playable - c.resume playable)
      let later := play { c with position := c.resume playable + count } playable (wanted - count)
      ((c.data.drop (c.resume playable)).take count ++ later.1, later.2) := by
  obtain ⟨fuel, rfl⟩ : ∃ n, wanted = n + 1 := ⟨wanted - 1, by omega⟩
  have inside := c.resume_lt some_data
  rw [play, playFuel_round going some_wanted]
  dsimp only
  rw [playFuel_enough some_data (by omega)]

theorem play_rounds {motive : Clip σ → Nat → Prop} (some_data : 0 < playable)
    (nothing : ∀ c, motive c 0) (ended : ∀ c n, c.Ended playable → motive c n)
    (round : ∀ c n, 0 < n → ¬ c.Ended playable →
      (let count := min n (playable - c.resume playable)
       motive { c with position := c.resume playable + count } (n - count)) → motive c n)
    (c : Clip σ) (n : Nat) : motive c n := by
  induction n using Nat.strongRecOn generalizing c with
  | ind n ih =>
    rcases Nat.eq_zero_or_pos n with rfl | some_n
    · exact nothing c
    by_cases done : c.Ended playable
    · exact ended c n done
    -- There is data where a round starts, so that it plays a sample and less is wanted after it.
    · have inside := c.resume_lt some_data
      exact round c n some_n done (ih _ (by omega) _)

theorem play_add (some_data : 0 < playable) (n m : Nat) (c : Clip σ) :
    c.play playable (n + m) =
      ((c.play playable n).1 ++ ((c.play playable n).2.play playable m).1,
        ((c.play playable n).2.play playable m).2) := by
  induction c, n using play_rounds some_data with
  | nothing c => simp [play_zero]
  | ended c n ended => simp [play_ended ended]
  | round c n some_n going ih =>
    have inside := c.resume_lt some_data
    by_cases within : n < playable - c.resume playable
    · rcases Nat.eq_zero_or_pos m with rfl | some_m
      · simp [play_zero]
      -- The sum and the first run stop in one round; the second run goes on in it.
      let met : Clip σ := { c with position := c.resume playable + n }
      have resumed : met.resume playable = c.resume playable + n := by
        unfold resume
        exact if_neg (by simp only [met]; omega)
      have going' : ¬ met.Ended playable := by
        intro done
        have far := done.1
        simp only [met] at far
        omega
      have first : c.play playable n = ((c.data.drop (c.resume playable)).take n, met) := by
        have all : min n (playable - c.resume playable) = n := by omega
        rw [play_round some_data going some_n]
        simp only [all, Nat.sub_self, play_zero, List.append_nil, met]
      have both : min (n + m) (playable - c.resume playable) =
          n + min m (playable - (c.resume playable + n)) := by omega
      have left : n + m - (n + min m (playable - (c.resume playable + n))) =
          m - min m (playable - (c.resume playable + n)) := by omega
      rw [first, play_round some_data going (by omega), play_round some_data going' some_m, resumed]
      simp only [both, left, met, List.take_add, List.drop_drop, List.append_assoc, Nat.add_assoc]
    · have whole : min n (playable - c.resume playable) = playable - c.resume playable := by omega
      have whole' : min (n + m) (playable - c.resume playable) = playable - c.resume playable := by
        omega
      have left : n + m - (playable - c.resume playable) =
          n - (playable - c.resume playable) + m := by omega
      rw [play_round some_data going (by omega), play_round some_data going some_n]
      simp only [whole, whole', left] at ih ⊢
      simp only [ih, List.append_assoc]

theorem play_keeps (c : Clip σ) (n : Nat) :
    (c.play playable n).2.data = c.data ∧ (c.play playable n).2.looping = c.looping :=
  playFuel_keeps n c n

theorem length_round (c : Clip σ) (n : Nat) (inside : playable ≤ c.data.length) :
    ((c.data.drop (c.resume playable)).take (min n (playable - c.resume playable))).length =
      min n (playable - c.resume playable) := by
  rw [List.length_take, List.length_drop]
  omega

theorem play_short (some_data : 0 < playable) (n : Nat) {c : Clip σ}
    (inside : playable ≤ c.data.length) :
    (c.play playable n).1.length ≤ n ∧
      ((c.play playable n).1.length < n → (c.play playable n).2.Ended playable) := by
  induction c, n using play_rounds some_data with
  | nothing c => simp [play_zero]
  | ended c n ended => simp [play_ended ended, ended]
  | round c n some_n going ih =>
    obtain ⟨within, ends⟩ := ih inside
    rw [play_round some_data going some_n]
    simp only [List.length_append, length_round c n inside]
    refine ⟨by omega, ?_⟩
    intro short
    exact ends (by omega)

theorem play_aligned (some_data : 0 < playable) (n : Nat) {c : Clip σ} {channels : Nat}
    (inside : playable ≤ c.data.length) (whole : channels ∣ playable)
    (aligned : channels ∣ c.position) (frames : channels ∣ n) :
    channels ∣ (c.play playable n).1.length ∧ channels ∣ (c.play playable n).2.position := by
  induction c, n using play_rounds some_data with
  | nothing c => simp [play_zero, aligned]
  | ended c n ended => simp [play_ended ended, aligned]
  | round c n some_n going ih =>
    have resumed : channels ∣ c.resume playable := by
      unfold resume
      split
      · exact Nat.dvd_zero _
      · exact aligned
    have count : channels ∣ min n (playable - c.resume playable) := by
      rcases Nat.le_total n (playable - c.resume playable) with less | more
      · rwa [Nat.min_eq_left less]
      · rw [Nat.min_eq_right more]
        exact Nat.dvd_sub whole resumed
    obtain ⟨later, stopped⟩ := ih inside (Nat.dvd_add resumed count) (Nat.dvd_sub frames count)
    rw [play_round some_data going some_n]
    simp only [List.length_append, length_round c n inside]
    exact ⟨Nat.dvd_add count later, stopped⟩

end Clip

/-- All that a good producer plays when it is asked for some frames is `play`, and that does not depend
    on how the frames are asked for. -/
structure Steady {π σ : Type} [Sample σ] [Producer π σ] (channels : Nat) (good : π → Prop)
    (play : Nat → π → List σ × π) : Prop where
  produce : ∀ {p}, good p → ∀ {n : Nat} {out : List σ}, out.length = n * channels →
    Producer.produce p out channels =
      ⟨(play n p).1.length / channels, overwrite (play n p).1 out, (play n p).2⟩
  stays : ∀ {p}, good p → ∀ n, good (play n p).2
  whole : ∀ {p}, good p → ∀ n, channels ∣ (play n p).1.length
  within : ∀ {p}, good p → ∀ n, (play n p).1.length ≤ n * channels
  add : ∀ {p}, good p → ∀ n m, play (n + m) p =
    ((play n p).1 ++ (play m (play n p).2).1, (play m (play n p).2).2)
  ends : ∀ {p}, good p → ∀ {n}, (play n p).1.length < n * channels →
    ∀ m, (play m (play n p).2).1 = []

section Stock

variable {σ : Type} {channels : Nat}

def Clip.run (channels n : Nat) (c : Clip σ) : List σ × Clip σ :=
  if c.playable channels = 0 then ([], c) else c.play (c.playable channels) (n * channels)

theorem Clip.run_playable (channels n : Nat) (c : Clip σ) :
    (c.run channels n).2.playable channels = c.playable channels := by
  unfold run
  split
  · rfl
  · rw [playable, (play_keeps c _).1, playable]

theorem Clip.run_sounding {c : Clip σ} (sounds : c.playable channels ≠ 0) (n : Nat) :
    c.run channels n = c.play (c.playable channels) (n * channels) := if_neg sounds

theorem Clip.run_next {n : Nat} {c : Clip σ} (sounds : c.playable channels ≠ 0) (m : Nat) :
    (c.run channels n).2.run channels m =
      (c.play (c.playable channels) (n * channels)).2.play (c.playable channels) (m * channels) := by
  have same := run_playable channels n c
  rw [run_sounding sounds] at same ⊢
  rw [run_sounding (by rwa [same]), same]

theorem Clip.playable_le (channels : Nat) (c : Clip σ) : c.playable channels ≤ c.data.length :=
  Nat.div_mul_le_self _ _

theorem Clip.steady [Sample σ] (some_channel : 0 < channels) :
    Steady channels (fun c : Clip σ => channels ∣ c.position) (Clip.run channels) := by
  constructor
  · intro c aligned n out sized
    have asked : out.length / channels * channels = n * channels := by
      rw [sized, Nat.mul_div_cancel _ some_channel]
    change Clip.produce c out channels = _
    by_cases silent : c.playable channels = 0
    · simp [Clip.produce, Clip.run, silent, overwrite]
    · have some_of_both : ¬ (channels = 0 ∨ c.playable channels = 0) := by omega
      simp only [Clip.produce, Clip.run, if_neg silent, if_neg some_of_both, asked]
  · intro c aligned n
    unfold Clip.run
    split
    · exact aligned
    · exact (Clip.play_aligned (by omega) _ (c.playable_le channels) (Nat.dvd_mul_left _ _) aligned
        (Nat.dvd_mul_left _ _)).2
  · intro c aligned n
    unfold Clip.run
    split
    · exact Nat.dvd_zero _
    · exact (Clip.play_aligned (by omega) _ (c.playable_le channels) (Nat.dvd_mul_left _ _) aligned
        (Nat.dvd_mul_left _ _)).1
  · intro c _ n
    unfold Clip.run
    split
    · exact Nat.zero_le _
    · exact (Clip.play_short (by omega) _ (c.playable_le channels)).1
  · intro c _ n m
    by_cases silent : c.playable channels = 0
    · simp [Clip.run, silent]
    · rw [Clip.run_next silent, Clip.run_sounding silent, Clip.run_sounding silent, Nat.add_mul,
        Clip.play_add (by omega)]
  · intro c _ n short m
    by_cases silent : c.playable channels = 0
    · simp [Clip.run, silent]
    · rw [Clip.run_sounding silent] at short
      have ended := (Clip.play_short (by omega) _ (c.playable_le channels)).2 short
      rw [Clip.run_next silent, Clip.play_ended ended]

theorem Tone.length_play (channels n : Nat) (t : Tone) :
    (Tone.play channels n t).1.length = n * channels := by
  induction n generalizing t with
  | zero => simp [Tone.play]
  | succ n ih =>
    simp only [Tone.play, List.length_append, List.length_replicate, ih, Nat.add_mul]
    omega

theorem Tone.play_add (channels n m : Nat) (t : Tone) :
    Tone.play channels (n + m) t =
      ((Tone.play channels n t).1 ++ (Tone.play channels m (Tone.play channels n t).2).1,
        (Tone.play channels m (Tone.play channels n t).2).2) := by
  induction n generalizing t with
  | zero => simp [Tone.play]
  | succ n ih =>
    rw [Nat.add_right_comm]
    simp only [Tone.play, ih, List.append_assoc]

theorem Tone.steady (some_channel : 0 < channels) :
    Steady channels (fun _ : Tone => True) (Tone.play channels) := by
  constructor
  · intro t _ n out sized
    have asked : out.length / channels = n := by
      rw [sized, Nat.mul_div_cancel _ some_channel]
    change Tone.produce t out channels = _
    simp only [Tone.produce, if_neg (Nat.ne_of_gt some_channel), asked, Tone.length_play,
      Nat.mul_div_cancel _ some_channel]
  · intro t _ n
    trivial
  · intro t _ n
    rw [Tone.length_play]
    exact Nat.dvd_mul_left _ _
  · intro t _ n
    exact Nat.le_of_eq (Tone.length_play channels n t)
  · intro t _ n m
    exact Tone.play_add channels n m t
  · intro t _ n short
    rw [Tone.length_play] at short
    omega

/-- A clip at the start of a frame. A list of cues claims what it likes. -/
def Stock.Whole (channels : Nat) : Stock σ → Prop
  | clip c => channels ∣ c.position
  | cues _ => False

def Stock.run (channels n : Nat) : Stock σ → List σ × Stock σ
  | clip c => ((c.run channels n).1, clip (c.run channels n).2)
  | cues c => ([], cues c)

theorem Stock.steady [Sample σ] (some_channel : 0 < channels) :
    Steady channels (Stock.Whole (σ := σ) channels) (Stock.run channels) := by
  have clips := Clip.steady (σ := σ) some_channel
  constructor
  · intro p whole n out sized
    cases p with
    | cues c => exact whole.elim
    | clip c =>
      have made : Clip.produce c out channels = _ := clips.produce whole sized
      change Stock.produce (.clip c) out channels = _
      simp only [Stock.produce, made, Stock.run]
  · intro p whole n
    cases p with
    | cues c => exact whole.elim
    | clip c => exact clips.stays whole n
  · intro p whole n
    cases p with
    | cues c => exact whole.elim
    | clip c => exact clips.whole whole n
  · intro p whole n
    cases p with
    | cues c => exact whole.elim
    | clip c => exact clips.within whole n
  · intro p whole n m
    cases p with
    | cues c => exact whole.elim
    | clip c => simp only [Stock.run, clips.add whole n m]
  · intro p whole n short m
    cases p with
    | cues c => exact whole.elim
    | clip c => exact clips.ends whole short m

end Stock

end PcmStream
