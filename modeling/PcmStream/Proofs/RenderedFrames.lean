import PcmStream.Proofs.OwnerWrites
import PcmStream.Proofs.SameAudio

/- What becomes of the frames rendered in one turn. In packet mode all of them come into the
   packets. In queue mode those of them are offered to the device at once that it still has room for
   after rendering, and what it does not take then is lost: nothing is kept for the next turn. -/
namespace PcmStream

namespace Filler

variable {δ κ : Type}

variable [Device δ] [Callback κ]

end Filler

namespace Session

variable {δ κ : Type} [Device δ]

section Packets

variable {s s' : Session δ κ} {got : List UInt8}

variable [Callback κ]

end Packets

section Turns

variable {ρ : Type} [Renderer ρ]

def made (s : Session δ κ) (r : ρ) : Rendered ρ :=
  Renderer.render r (resize 0 (s.room * s.params.frameSize) s.staging) s.params

theorem length_made (s : Session δ κ) (r : ρ) :
    (s.made r).out.length = s.room * s.params.frameSize := by
  rw [made, Renderer.length_render, length_resize]

/-- There is no room, or memory cannot hold what would be rendered into it. -/
def Idle (s : Session δ κ) (r : ρ) : Prop := s.room = 0 ∨ ¬ s.Affords r

variable {s : Session δ κ} {r : ρ}

theorem pushRendered_places (busy : ¬ s.Idle r) (some_frame : 0 < s.params.frameSize)
    (took : Nat) :
    let placed := place { s.advance took with staging := [] } (s.made r).out s.room
    (s.pushRendered r took).1 = placed.1 ∧
      (s.pushRendered r took).2.2 = (s.made r).renderer ∧
      (s.pushRendered r took).2.1.fifo = placed.2.fifo ∧
      (s.pushRendered r took).2.1.journal.calls = placed.2.journal.calls := by
  obtain ⟨some_room, affords⟩ := not_or.mp busy
  obtain ⟨result, renderer, after⟩ :=
    pushRendered_made s r took some_room (Classical.not_not.mp affords)
  have frames : (s.made r).out.length / (s.advance took).params.frameSize = s.room := by
    rw [length_made, advance_params, Nat.mul_div_cancel _ some_frame]
  intro placed
  have staged : ((s.advance took).pushStaged (s.made r).out).1 = placed.1 ∧
      ((s.advance took).pushStaged (s.made r).out).2.fifo = placed.2.fifo ∧
      ((s.advance took).pushStaged (s.made r).out).2.journal = placed.2.journal := by
    simp only [pushStaged, push, frames, if_neg some_room, placed]
    rcases place { s.advance took with staging := [] } (s.made r).out s.room with ⟨f | n, s'⟩
    · exact ⟨rfl, rfl, rfl⟩
    · exact ⟨rfl, rfl, rfl⟩
  obtain ⟨result', fifo, journal⟩ := staged
  refine ⟨result.trans result', renderer, ?_⟩
  rcases after with same | summarized
  · rw [same]
    exact ⟨fifo, congrArg Journal.calls journal⟩
  · rw [summarized, summarize_journal]
    exact ⟨(summarize_hands _).2.fifo.trans fifo, congrArg Journal.calls journal⟩

theorem busy_of_measured (some_room : s.room ≠ 0) {size : Nat} (measured : s.measure r = .ok size) :
    ¬ s.Idle r := by
  rintro (none_free | large)
  · exact some_room none_free
  · exact large (measure_eq_ok_iff.mp measured).2

end Turns

variable [Callback κ] {config : Config} {d : δ} {around : Surroundings}

end Session

end PcmStream
