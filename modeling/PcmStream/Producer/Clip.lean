import PcmStream.Producer

/- Samples held in memory, played once or in a loop. -/
namespace PcmStream

structure Clip (σ : Type) where
  data : List σ
  position : Nat := 0
  looping : Bool := false
  deriving Repr, DecidableEq

namespace Clip

variable {σ : Type}

def isOver (c : Clip σ) : Bool := !c.looping && c.data.length ≤ c.position

def rewind (c : Clip σ) : Clip σ := { c with position := 0 }

/-- A trailing part of a frame is never played. -/
def playable (c : Clip σ) (channels : Nat) : Nat := c.data.length / channels * channels

/-- Plays up to `wanted` samples from the first `playable`. A loop starts over only when more is
    wanted, so the position may rest at the end. -/
def playFuel (playable : Nat) : Nat → Clip σ → Nat → List σ × Clip σ
  | 0, c, _ => ([], c)
  | _, c, 0 => ([], c)
  | fuel + 1, c, wanted =>
    if playable ≤ c.position ∧ !c.looping then ([], c)
    else
      let start := if playable ≤ c.position then 0 else c.position
      let count := min wanted (playable - start)
      let (rest, c) := playFuel playable fuel { c with position := start + count } (wanted - count)
      ((c.data.drop start).take count ++ rest, c)

def play (c : Clip σ) (playable wanted : Nat) : List σ × Clip σ :=
  playFuel playable wanted c wanted

def produce (c : Clip σ) (out : List σ) (channels : Nat) : Produced (Clip σ) σ :=
  if channels = 0 ∨ c.playable channels = 0 then ⟨0, out, c⟩
  else
    let (written, c) := c.play (c.playable channels) (out.length / channels * channels)
    ⟨written.length / channels, overwrite written out, c⟩

instance [Sample σ] : Producer (Clip σ) σ where
  produce := produce
  length_produce c out channels := by
    simp only [produce]
    split <;> simp

end Clip

end PcmStream
