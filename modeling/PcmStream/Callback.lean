import PcmStream.Producer.Voice

/- Callbacks: code that the fill thread asks for each device buffer. The buffer holds silence when
   the callback gets it. A callback may break down and take the thread with it. -/
namespace PcmStream

class Callback (κ : Type) where
  fill : κ → List UInt8 → Params → Except Fault (List UInt8 × κ)
  length_fill : ∀ c buffer params out c',
    fill c buffer params = .ok (out, c') → out.length = buffer.length

def Renderer.fill {ρ : Type} [Renderer ρ] (r : ρ) (buffer : List UInt8) (params : Params) :
    Except Fault (List UInt8 × ρ) :=
  match Renderer.prepare r buffer.length params with
  | .error f => .error f
  | .ok () =>
    let made := Renderer.render r buffer params
    .ok (made.out, made.renderer)

theorem Renderer.length_fill {ρ : Type} [Renderer ρ] {r r' : ρ} {buffer out : List UInt8}
    {params : Params} (h : Renderer.fill r buffer params = .ok (out, r')) :
    out.length = buffer.length := by
  unfold Renderer.fill at h
  split at h
  · cases h
  · simp only [Except.ok.injEq, Prod.mk.injEq] at h
    rw [← h.1, Renderer.length_render]

instance {ρ : Type} [Renderer ρ] : Callback ρ where
  fill := Renderer.fill
  length_fill _ _ _ _ _ := Renderer.length_fill

/-- Writes a run of bytes at the front of each buffer, all equal or counting up across calls. The
    lengths of the runs repeat; without any the run is the whole buffer. -/
structure Pattern where
  counting : Bool
  next : UInt8
  lengths : List Nat := []
  breaksAt : Option Nat := none
  calls : Nat := 0
  deriving DecidableEq, Repr

namespace Pattern

def runLength (p : Pattern) (room : Nat) : Nat :=
  min room (p.lengths.getD (p.calls % p.lengths.length) room)

def run (p : Pattern) (n : Nat) : List UInt8 :=
  if p.counting then (List.range n).map fun i => p.next + UInt8.ofNat i
  else List.replicate n p.next

def fill (p : Pattern) (buffer : List UInt8) : Except Fault (List UInt8 × Pattern) :=
  if p.breaksAt = some p.calls then .error (.breakdown "callback breakdown")
  else
    let n := p.runLength buffer.length
    let next := if p.counting then p.next + UInt8.ofNat n else p.next
    .ok (overwrite (p.run n) buffer, { p with next, calls := p.calls + 1 })

end Pattern

inductive StockCallback where
  | pattern (p : Pattern)
  | voice (v : Voice)
  deriving DecidableEq, Repr

namespace StockCallback

def fill : StockCallback → List UInt8 → Params → Except Fault (List UInt8 × StockCallback)
  | pattern p, buffer, _ => (p.fill buffer).map fun (out, p) => (out, pattern p)
  | voice v, buffer, params => (Renderer.fill v buffer params).map fun (out, v) => (out, voice v)

theorem length_fill (c : StockCallback) (buffer : List UInt8) (params : Params)
    (out : List UInt8) (c' : StockCallback) (h : c.fill buffer params = .ok (out, c')) :
    out.length = buffer.length := by
  cases c with
  | pattern p =>
    simp only [fill, Pattern.fill] at h
    split at h
    · simp [Except.map] at h
    · simp only [Except.map, Except.ok.injEq, Prod.mk.injEq] at h
      rw [← h.1, length_overwrite]
  | voice v =>
    simp only [fill] at h
    cases made : Renderer.fill v buffer params with
    | error f => simp [made, Except.map] at h
    | ok rendered =>
      simp only [made, Except.map, Except.ok.injEq, Prod.mk.injEq] at h
      rw [← h.1]
      exact Renderer.length_fill made

instance : Callback StockCallback where
  fill := fill
  length_fill := length_fill

end StockCallback

end PcmStream
