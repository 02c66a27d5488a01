import PcmStream.Single

/- The sine of a single, computed in doubles and rounded once. The angle is brought to within an
   eighth of a turn of a quarter turn; there a polynomial of the sine or of the cosine is good to
   more digits than a single holds. The constants are bit patterns of doubles.
   Angles below 120 are reduced in doubles, greater ones exactly, as a product of integers. -/
namespace PcmStream.Single

def quarterTurn : Double := ⟨0x3ff921fb54442d18⟩

def quarterTurnsScaled : Double := ⟨0x41645f306dc9c883⟩

/-- Quarter turns per radian, in parts of 2 ^ 256: enough digits for the greatest single. -/
def quarterTurnsPerRadian : Nat :=
  0xa2f9836e4e441529fc2757d1f534ddc0db6295993c439041fe5163abdebbc561

def quarterTurnPart : Double := ⟨0x3c1921fb54442d18⟩

def sineSeries : Double × Double × Double :=
  (⟨0xbfc555545995a603⟩, ⟨0x3f81107605230bc4⟩, ⟨0xbf2994eb3774cf24⟩)

def cosineSeries : Double × Double × Double × Double × Double :=
  (⟨0x3ff0000000000000⟩, ⟨0xbfdffffffd0c621c⟩, ⟨0x3fa55553e1068f19⟩, ⟨0xbf56c087e89a359d⟩,
    ⟨0x3ef99343027bf8c3⟩)

def sineNearZero (x : Double) : Double :=
  let (s1, s2, s3) := sineSeries
  let x2 := x.mul x
  let x3 := x.mul x2
  let x5 := x3.mul x2
  (x.add (x3.mul s1)).add (x5.mul (s2.add (x2.mul s3)))

def cosineNearZero (x : Double) : Double :=
  let (c0, c1, c2, c3, c4) := cosineSeries
  let x2 := x.mul x
  let x4 := x2.mul x2
  let x6 := x4.mul x2
  ((c0.add (x2.mul c1)).add (x4.mul c2)).add (x6.mul (c3.add (x2.mul c4)))

def reduceNear (x : Double) : Int × Double :=
  let turns :=
    ((x.mul quarterTurnsScaled).toIntWithin (-2147483648) 2147483647 + 8388608) / 16777216
  (turns, x.sub ((Double.ofInt turns).mul quarterTurn))

/-- The same for great angles: their quarter turns are cut to 62 digits behind the point. -/
def reduceFar (negative : Bool) (mantissa : Nat) (scale : Int) : Int × Double :=
  let whole : Nat := 1 <<< 62
  let parts :=
    Binary.signed negative (scaleDown (mantissa * quarterTurnsPerRadian) (scale - 194))
  let turns := (parts + whole / 2) / whole
  (turns, (Double.ofInt (parts - turns * whole)).mul quarterTurnPart)

def minus (x : Double) : Double := x.mul (Double.ofInt (-1))

def sineOfReduced (turns : Int) (x : Double) : Single :=
  match turns % 4 with
  | 0 => (sineNearZero x).toSingle
  | 1 => (cosineNearZero x).toSingle
  | 2 => (sineNearZero (minus x)).toSingle
  | _ => (minus (cosineNearZero x)).toSingle

/-- Below 2 ^ -12 an angle is its own sine, and below 3/4 it needs no reduction. -/
def sin (angle : Single) : Single :=
  let magnitude := shape.magnitude angle.toNat
  let x := Double.ofSingle angle
  match shape.decode angle.toNat with
  | .nan => ofNat (angle.toNat ||| shape.quietBit)
  | .infinite _ => ofNat shape.invalid
  | .finite negative mantissa scale =>
    if magnitude < 0x39800000 then angle
    else if magnitude < 0x3f400000 then (sineNearZero x).toSingle
    else
      let (turns, x) :=
        if magnitude < 0x42f00000 then reduceNear x else reduceFar negative mantissa scale
      sineOfReduced turns x

end PcmStream.Single
