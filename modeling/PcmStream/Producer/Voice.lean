import PcmStream.Producer.Adapter
import PcmStream.Producer.Clip
import PcmStream.Producer.Cues
import PcmStream.Producer.Tone

/- The stock producers as one type, each behind an adapter of its own sample type. -/
namespace PcmStream

inductive Stock (σ : Type) where
  | clip (c : Clip σ)
  | cues (c : Cues σ)
  deriving Repr, DecidableEq

namespace Stock

variable {σ : Type}

def produce (p : Stock σ) (out : List σ) (channels : Nat) : Produced (Stock σ) σ :=
  match p with
  | clip c => let made := c.produce out channels; ⟨made.frames, made.out, clip made.producer⟩
  | cues c => let made := c.produce out; ⟨made.frames, made.out, cues made.producer⟩

instance [Sample σ] : Producer (Stock σ) σ where
  produce := produce
  length_produce p out channels := by
    cases p with
    | clip c => exact Producer.length_produce c out channels
    | cues c => exact Producer.length_produce c out channels

def rewind? : Stock σ → Option (Stock σ)
  | clip c => some (clip c.rewind)
  | cues _ => none

def isOver? : Stock σ → Option Bool
  | clip c => some c.isOver
  | cues _ => none

end Stock

inductive Voice where
  | tone (a : Adapter Tone Single)
  | single (a : Adapter (Stock Single) Single)
  | int16 (a : Adapter (Stock Int16) Int16)
  | int32 (a : Adapter (Stock Int32) Int32)
  deriving Repr, DecidableEq

namespace Voice

def gain : Voice → Single
  | tone a => a.gain
  | single a => a.gain
  | int16 a => a.gain
  | int32 a => a.gain

/-- Does the same to the adapter of any voice, inside whatever the step yields. -/
def update {φ : Type → Type} [Functor φ]
    (f : {π σ : Type} → [Sample σ] → [Producer π σ] → Adapter π σ → φ (Adapter π σ)) :
    Voice → φ Voice
  | tone a => tone <$> f a
  | single a => single <$> f a
  | int16 a => int16 <$> f a
  | int32 a => int32 <$> f a

def setGain (gain : Single) : Voice → Voice
  | tone a => tone { a with gain }
  | single a => single { a with gain }
  | int16 a => int16 { a with gain }
  | int32 a => int32 { a with gain }

def renew : Voice → Voice
  | tone a => tone a.renew
  | single a => single a.renew
  | int16 a => int16 a.renew
  | int32 a => int32 a.renew

def reserve (frames channels : Nat) (v : Voice) : Except Fault Voice :=
  v.update fun a => do
    let reserved ← Adapter.reserved a.producer frames channels
    return { reserved with gain := a.gain }

def prepare (v : Voice) (length : Nat) (params : Params) : Except Fault Unit :=
  match v with
  | tone a => a.prepare length params
  | single a => a.prepare length params
  | int16 a => a.prepare length params
  | int32 a => a.prepare length params

def render (v : Voice) (out : List UInt8) (params : Params) : Rendered Voice :=
  v.update fun a => a.render out params

instance : Renderer Voice where
  prepare := prepare
  render := render
  length_render v out params := by
    cases v with
    | tone a => exact a.length_render out params
    | single a => exact a.length_render out params
    | int16 a => exact a.length_render out params
    | int32 a => exact a.length_render out params

def rewind? : Voice → Option Voice
  | tone _ => none
  | single a => a.producer.rewind?.map fun p => single { a with producer := p }
  | int16 a => a.producer.rewind?.map fun p => int16 { a with producer := p }
  | int32 a => a.producer.rewind?.map fun p => int32 { a with producer := p }

def isOver? : Voice → Option Bool
  | tone _ => none
  | single a => a.producer.isOver?
  | int16 a => a.producer.isOver?
  | int32 a => a.producer.isOver?

def frequency? : Voice → Option Single
  | tone a => some a.producer.frequency
  | _ => none

def setFrequency? (f : Single) : Voice → Option Voice
  | tone a => some (tone { a with producer := { a.producer with frequency := f } })
  | _ => none

end Voice

end PcmStream
