import PcmStream.Proofs.SessionMoves

/- What the moves of a session are made of. A move before the close is a run of acts, so what each act
   keeps holds after any run of moves, and also where a move is cut in the middle. -/
namespace PcmStream

def Move.closes : Move → Bool
  | .close => true
  | _ => false

def Holder.Alike {δ κ : Type} : Holder δ κ → Holder δ κ → Prop
  | .filler _, .filler _ => True
  | .owner _, .owner _ => True
  | .nobody, .nobody => True
  | _, _ => False

namespace Holder

variable {δ κ : Type} {a b c : Holder δ κ}

theorem Alike.refl (a : Holder δ κ) : a.Alike a := by
  cases a <;> trivial

theorem Alike.symm (h : a.Alike b) : b.Alike a := by
  cases a <;> cases b <;> simp_all [Alike]

theorem Alike.trans (h : a.Alike b) (h' : b.Alike c) : a.Alike c := by
  cases a <;> cases b <;> cases c <;> simp_all [Alike]

theorem Alike.filler {t : Filler δ κ} (h : a.Alike b) (same : a = .filler t) :
    ∃ t', b = .filler t' := by
  cases b <;> simp_all [Alike]

theorem Alike.owner {d : δ} (h : a.Alike b) (same : a = .owner d) : ∃ d', b = .owner d' := by
  cases b <;> simp_all [Alike]

theorem Alike.nobody (h : a.Alike b) (same : a = .nobody) : b = .nobody := by
  cases b <;> simp_all [Alike]

theorem Alike.held (h : a.Alike b) (held : a ≠ .nobody) : b ≠ .nobody := by
  cases a <;> cases b <;> simp_all [Alike]

end Holder

namespace Session

variable {δ κ : Type}

def terms (s : Session δ κ) : Params × Nat × Nat × Mode :=
  (s.params, s.packetFrames, s.packetCount, s.mode)

theorem mode_of_terms {s s' : Session δ κ} (same : s'.terms = s.terms) : s'.mode = s.mode :=
  congrArg (·.2.2.2) same

theorem params_of_terms {s s' : Session δ κ} (same : s'.terms = s.terms) : s'.params = s.params :=
  congrArg (·.1) same

theorem summarize_terms (s : Session δ κ) : s.summarize.terms = s.terms := by
  unfold summarize
  split <;> rfl

variable [Device δ]

theorem place_terms (s : Session δ κ) (bytes : List UInt8) (frames : Nat) :
    (s.place bytes frames).2.terms = s.terms := by
  unfold place
  split
  · split
    · rfl
    · split <;> rfl
  · dsimp only
    split
    · rfl
    · unfold enqueue
      dsimp only
      split
      · rfl
      · rfl
      · split <;> rfl
  · rfl

theorem place_alike (s : Session δ κ) (bytes : List UInt8) (frames : Nat) :
    s.holder.Alike (s.place bytes frames).2.holder := by
  unfold place
  split
  · split
    · exact .refl _
    · split
      · exact .refl _
      · exact .refl _
  · rename_i d holder
    dsimp only
    split
    · exact .refl _
    · rw [holder]
      unfold enqueue
      dsimp only
      split
      · trivial
      · trivial
      · split <;> trivial
  · exact .refl _

theorem write_le {q q' : Fifo} {src : List UInt8} {accepted : Nat}
    (done : q.write src = .ok (accepted, q')) : accepted ≤ src.length := by
  unfold Fifo.write at done
  split at done
  · cases written : q.writeFuel src.length src with
    | error f => simp [written, bind, Except.bind] at done
    | ok pair =>
      simp only [written, bind, Except.bind, pure, Except.pure, Except.ok.injEq,
        Prod.mk.injEq] at done
      omega
  · simp only [pure, Except.pure, Except.ok.injEq, Prod.mk.injEq] at done
    omega

theorem place_le {s s' : Session δ κ} (unowned : ∀ d, s.holder ≠ .owner d) {bytes : List UInt8}
    {frames placed : Nat} (done : s.place bytes frames = (.ok placed, s')) : placed ≤ frames := by
  cases holder : s.holder with
  | owner d => exact absurd holder (unowned d)
  | nobody =>
    simp only [place, holder, Prod.mk.injEq, Except.ok.injEq] at done
    omega
  | filler t =>
    simp only [place, holder] at done
    split at done
    · simp only [Prod.mk.injEq, Except.ok.injEq] at done
      omega
    · split at done
      · simp at done
      · rename_i written
        simp only [Prod.mk.injEq, Except.ok.injEq] at done
        rw [← done.1]
        have within := write_le written
        apply Nat.div_le_of_le_mul
        rw [List.length_take, Nat.mul_comm] at within
        omega

variable [Callback κ]

/-- One thing that happens to a session, with the bytes that it gets accepted: the filler takes a
    step, frames are placed and counted or the placing faults, a turn is skipped, time goes by, or
    the staging bytes or the summary log change. -/
inductive Act : Session δ κ → List UInt8 → Session δ κ → Prop where
  | step (s : Session δ κ) : Act s [] s.step
  | place {s s' : Session δ κ} {bytes : List UInt8} {frames placed : Nat}
      (enough : frames * s.params.frameSize ≤ bytes.length)
      (done : s.place bytes frames = (.ok placed, s')) :
      Act s (bytes.take (placed * s.params.frameSize))
        (s'.withMetrics (s'.metrics.countPush placed))
  | fault {s s' : Session δ κ} {bytes : List UInt8} {frames : Nat} {f : Fault}
      (enough : frames * s.params.frameSize ≤ bytes.length)
      (done : s.place bytes frames = (.error f, s')) : Act s [] s'
  | skip (s : Session δ κ) : Act s [] (s.withMetrics s.metrics.countSkip)
  | wait (s : Session δ κ) (nanos : Nat) : Act s [] (s.advance nanos)
  | stage (s : Session δ κ) (staging : List UInt8) : Act s [] { s with staging }
  | summarize (s : Session δ κ) : Act s [] s.summarize

inductive Acts (s : Session δ κ) : List UInt8 → Session δ κ → Prop where
  | refl : Acts s [] s
  | tail {got more : List UInt8} {s' s'' : Session δ κ} (acts : Acts s got s')
      (act : Act s' more s'') : Acts s (got ++ more) s''

variable {s s' s'' : Session δ κ} {got more : List UInt8}

theorem Act.alone (act : Act s got s') : Acts s got s' := .tail .refl act

theorem Acts.trans (h : Acts s got s') (h' : Acts s' more s'') : Acts s (got ++ more) s'' := by
  induction h' with
  | refl => simpa using h
  | tail _ act ih =>
    rw [← List.append_assoc]
    exact .tail ih act

theorem Acts.keeps {P : Session δ κ → List UInt8 → Prop}
    (each : ∀ s s' stream got, Act s got s' → P s stream → P s' (stream ++ got))
    (acts : Acts s got s') {stream : List UInt8} (h : P s stream) : P s' (stream ++ got) := by
  induction acts with
  | refl => simpa using h
  | tail _ act ih =>
    rw [← List.append_assoc]
    exact each _ _ _ _ act ih

theorem act_terms (act : Act s got s') : s'.terms = s.terms := by
  cases act with
  | step =>
    unfold step
    split <;> rfl
  | @place _ bytes frames _ _ done =>
    have same := place_terms s bytes frames
    rw [done] at same
    exact same
  | @fault _ bytes frames _ _ done =>
    have same := place_terms s bytes frames
    rw [done] at same
    exact same
  | skip => rfl
  | wait nanos => rfl
  | stage staging => rfl
  | summarize => exact summarize_terms s

theorem act_alike (act : Act s got s') : s.holder.Alike s'.holder := by
  cases act with
  | step =>
    unfold step
    split
    · rename_i t holder
      rw [holder]
      trivial
    · exact .refl _
  | @place _ bytes frames _ _ done =>
    have alike := place_alike s bytes frames
    rw [done] at alike
    exact alike
  | @fault _ bytes frames _ _ done =>
    have alike := place_alike s bytes frames
    rw [done] at alike
    exact alike
  | skip => exact .refl _
  | wait nanos => exact .refl _
  | stage staging => exact .refl _
  | summarize =>
    unfold summarize
    split <;> exact .refl _

theorem acts_terms (acts : Acts s got s') : s'.terms = s.terms := by
  induction acts with
  | refl => rfl
  | tail _ act ih => exact (act_terms act).trans ih

theorem acts_alike (acts : Acts s got s') : s.holder.Alike s'.holder := by
  induction acts with
  | refl => exact .refl _
  | tail _ act ih => exact ih.trans (act_alike act)

inductive Offer (s : Session δ κ) (bytes : List UInt8) : Except Fault Nat × Session δ κ → Prop where
  | placed {n : Nat} {s' : Session δ κ} (acts : Acts s (bytes.take (n * s.params.frameSize)) s')
      (fits : (∀ d, s.holder ≠ .owner d) → n * s.params.frameSize ≤ bytes.length) :
      Offer s bytes (.ok n, s')
  | fault {f : Fault} {s' : Session δ κ} (acts : Acts s [] s') : Offer s bytes (.error f, s')

theorem Offer.none_placed {bytes : List UInt8} (acts : Acts s [] s') :
    Offer s bytes (.ok 0, s') := by
  apply Offer.placed
  · simpa using acts
  · simp

theorem push_offer (s : Session δ κ) (bytes : List UInt8) : Offer s bytes (s.push bytes) := by
  have enough := Nat.div_mul_le_self bytes.length s.params.frameSize
  unfold push
  dsimp only
  split
  · exact .none_placed .refl
  · rcases done : s.place bytes (bytes.length / s.params.frameSize) with ⟨f | placed, s'⟩
    · exact .fault (Act.fault enough done).alone
    · refine .placed (Act.place enough done).alone ?_
      intro unowned
      exact Nat.le_trans (Nat.mul_le_mul_right _ (place_le unowned done)) enough

theorem pushStaged_offer (s : Session δ κ) (bytes : List UInt8) :
    Offer s bytes (s.pushStaged bytes) := by
  have emptied := (Act.stage s []).alone
  have offer := push_offer { s with staging := [] } bytes
  unfold pushStaged
  generalize push { s with staging := [] } bytes = result at offer
  cases offer with
  | placed acts fits => exact .placed (by simpa using (emptied.trans acts).tail (.stage _ bytes)) fits
  | fault acts => exact .fault (emptied.trans acts)

theorem pushTyped_offer {σ : Type} [Sample σ] (s : Session δ κ) (samples : List σ) :
    ∃ bytes, Offer s bytes (s.pushTyped samples) ∧
      ∀ n ≤ bytes.length, bytes.take n = (s.offered (.pushTyped samples)).take n := by
  let whole := samples.take (samples.length / s.params.channels * s.params.channels)
  by_cases same : Sample.format σ = s.params.format
  · refine ⟨whole.flatMap Sample.bytes, ?_, ?_⟩
    · simp only [pushTyped, same, if_true]
      exact push_offer s _
    · intro n fits
      simp only [offered, same, if_true]
      exact take_flatMap_take _ _ _ _ fits
  · refine ⟨whole.flatMap (convertSample s.params.format Single.one), ?_, ?_⟩
    · simp only [pushTyped, same, if_false]
      rw [convert_all _ _ _ (length_resize 0 _ s.staging)]
      exact pushStaged_offer s _
    · intro n fits
      simp only [offered, same, if_false]
      exact take_flatMap_take _ _ _ _ fits

theorem pushRendered_offer {ρ : Type} [Renderer ρ] (s : Session δ κ) (r : ρ) (took : Nat) :
    Offer s (s.offered (.pushRendered r took)) (s.move (.pushRendered r took)) := by
  by_cases none_free : s.room = 0
  · by_cases counted : s.mode ≠ .callback ∧ s.isRunning = true
    · simp only [move, pushRendered, none_free, if_true, if_pos counted]
      exact .none_placed (Act.skip s).alone
    · simp only [move, pushRendered, none_free, if_true, if_neg counted]
      exact .none_placed .refl
  · cases measured : s.measure r with
    | error f =>
      simp only [move, pushRendered, none_free, if_false, measured]
      exact .fault (Act.stage s []).alone
    | ok size =>
      obtain ⟨rfl, _⟩ := measure_eq_ok_iff.mp measured
      have waited := (Act.wait s took).alone
      have offer := pushStaged_offer (s.advance took)
        (Renderer.render r (resize 0 (s.room * s.params.frameSize) s.staging) s.params).out
      simp only [move, pushRendered, none_free, if_false, measured, offered]
      generalize (s.advance took).pushStaged _ = result at offer
      cases offer with
      | placed acts fits =>
        exact .placed (by simpa using (waited.trans acts).tail (.summarize _)) fits
      | fault acts => exact .fault (by simpa using waited.trans acts)

theorem run_acts (s : Session δ κ) (n : Nat) : Acts s [] (s.run n).2 := by
  cases holder : s.holder with
  | filler t =>
    let at_work (t : Filler δ κ) (shared : Shared) : Session δ κ :=
      { s with holder := .filler t, shared }
    have begun : Acts s [] (at_work t s.shared) := by
      simp only [at_work, ← holder]
      exact .refl
    obtain ⟨t', shared, same, acts⟩ :=
      run_keeps (P := fun t shared => Acts s [] (at_work t shared))
        (fun t shared acts => acts.tail (.step (at_work t shared))) n holder begun
    rw [same]
    exact acts
  | owner d =>
    rw [run_unthreaded (by simp [holder])]
    exact .refl
  | nobody =>
    rw [run_unthreaded (by simp [holder])]
    exact .refl

/-- A move before the close is a run of acts. A device may claim to have taken more than it was
    given; the packets never do, so that there the bytes are those that the move says it placed. -/
theorem move_acts (s : Session δ κ) {m : Move} (goes_on : m.closes = false) :
    ∃ got, Acts s got (s.move m).2 ∧ ((∀ d, s.holder ≠ .owner d) → got = s.accepted m) := by
  -- A device may claim to have taken more than it was given; the packets never do.
  have of_offer : ∀ bytes, Offer s bytes (s.move m) →
      (∀ n ≤ bytes.length, bytes.take n = (s.offered m).take n) →
      ∃ got, Acts s got (s.move m).2 ∧ ((∀ d, s.holder ≠ .owner d) → got = s.accepted m) := by
    intro bytes offer same
    unfold accepted
    generalize s.move m = result at offer
    cases offer with
    | placed acts fits => exact ⟨_, acts, fun unowned => same _ (fits unowned)⟩
    | fault acts => exact ⟨[], acts, fun _ => rfl⟩
  cases m with
  | push bytes => exact of_offer bytes (push_offer s bytes) (fun _ _ => rfl)
  | pushTyped samples =>
    obtain ⟨bytes, offer, same⟩ := pushTyped_offer s samples
    exact of_offer bytes offer same
  | pushRendered r took => exact of_offer _ (pushRendered_offer s r took) (fun _ _ => rfl)
  | run n => exact ⟨[], run_acts s n, by simp [accepted, move, offered]⟩
  | step => exact ⟨[], (Act.step s).alone, by simp [accepted, move, offered]⟩
  | wait nanos => exact ⟨[], (Act.wait s nanos).alone, by simp [accepted, move, offered]⟩
  | close => simp [Move.closes] at goes_on

theorem move_terms (s : Session δ κ) (m : Move) : (s.move m).2.terms = s.terms := by
  cases closes : m.closes with
  | false =>
    obtain ⟨got, acts, _⟩ := move_acts s closes
    exact acts_terms acts
  | true =>
    cases m with
    | close => cases holder : s.holder <;> simp [move, close, closed, holder, terms]
    | _ => simp [Move.closes] at closes

theorem moves_acts {all : List Move} (go_on : ∀ m ∈ all, m.closes = false)
    (filler : ∃ t, s.holder = .filler t) : Acts s (s.moves all).2 (s.moves all).1 := by
  induction all generalizing s with
  | nil => exact .refl
  | cons m rest ih =>
    obtain ⟨got, acts, same⟩ := move_acts s (go_on m List.mem_cons_self)
    obtain ⟨t, holder⟩ := filler
    rw [same (by simp [holder])] at acts
    have filler' : ∃ t', (s.move m).2.holder = .filler t' := (acts_alike acts).filler holder
    exact acts.trans (ih (fun m' mem => go_on m' (List.mem_cons_of_mem m mem)) filler')

end Session

end PcmStream
