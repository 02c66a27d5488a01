import PcmStream.Toml.Text
import PcmStream.Toml.Value

/- Booleans, numbers and date-times. All are words without quotes, and a word is read as a whole. -/
namespace PcmStream.Toml

def isWord (c : Char) : Bool := c.isAlphanum || c == '_' || c == '-' || c == '+' || c == '.' || c == ':'

/-- Takes out the underscores of a number; each has to stand between two digits. -/
def ungroup? (isDigit : Char → Bool) : List Char → Option (List Char)
  | [] => none
  | [c] => if isDigit c then some [c] else none
  | c :: '_' :: cs => if isDigit c then (ungroup? isDigit cs).map (c :: ·) else none
  | c :: cs => if isDigit c then (ungroup? isDigit cs).map (c :: ·) else none

def decimal? (cs : List Char) : Option (List Char) := do
  let digits ← ungroup? Char.isDigit cs
  if 1 < digits.length ∧ digits.head? = some '0' then none
  return digits

def unsign : List Char → Bool × List Char
  | '+' :: cs => (false, cs)
  | '-' :: cs => (true, cs)
  | cs => (false, cs)

def natural? : List Char → Option Nat
  | '0' :: 'x' :: cs => (ungroup? (isDigitOf 16) cs).map (digitsValue 16)
  | '0' :: 'o' :: cs => (ungroup? (isDigitOf 8) cs).map (digitsValue 8)
  | '0' :: 'b' :: cs => (ungroup? (isDigitOf 2) cs).map (digitsValue 2)
  | cs => (decimal? cs).map (digitsValue 10)

/-- An integer has at most 128 bits, and only a decimal one has a sign. -/
def integer? (word : List Char) : Option Int := do
  let (negative, digits) := unsign word
  let n ← if digits.length = word.length then natural? word
    else (decimal? digits).map (digitsValue 10)
  if negative then
    if n ≤ 1 <<< 127 then some (-n) else none
  else
    if n < 1 <<< 128 then some n else none

/-- Whether `digits * 10 ^ scale` rounds to a double at all. The count of digits settles it for
    numbers far from the greatest double. -/
def withinDoubles (digits : List Char) (scale : Int) : Bool :=
  let digits := digits.dropWhile (· == '0')
  let n := digitsValue 10 digits
  let limit := (1 <<< 54 - 1) <<< 970
  if n = 0 ∨ digits.length + scale < 300 then true
  else if 400 < digits.length + scale then false
  else n * Nat.pow 10 scale.toNat < limit * Nat.pow 10 (-scale).toNat

def splitAtChar (p : Char → Bool) (cs : List Char) : List Char × Option (List Char) :=
  let front := cs.takeWhile (!p ·)
  match cs.drop front.length with
  | [] => (front, none)
  | _ :: rest => (front, some rest)

def isFloat (word : List Char) : Bool :=
  let (_, magnitude) := unsign word
  if magnitude == "inf".toList || magnitude == "nan".toList then true
  else
    let (mantissa, exponent) := splitAtChar (fun c => c == 'e' || c == 'E') magnitude
    let (whole, fraction) := splitAtChar (· == '.') mantissa
    let parts? : Option (List Char × List Char × Int) := do
      let whole ← decimal? whole
      let fraction ← match fraction with
        | some cs => ungroup? Char.isDigit cs
        | none => some []
      let scale ← match exponent with
        | some cs =>
          let (negative, digits) := unsign cs
          (ungroup? Char.isDigit digits).map fun ds =>
            let n : Int := digitsValue 10 ds
            if negative then -n else n
        | none => some 0
      return (whole, fraction, scale)
    match parts? with
    | none => false
    | some (whole, fraction, scale) =>
      (exponent.isSome || !fraction.isEmpty) &&
        withinDoubles (whole ++ fraction) (scale - fraction.length)

def twoDigits? : Reader Nat
  | a :: b :: cs =>
      if a.isDigit && b.isDigit then some (digitsValue 10 [a, b], cs) else none
  | _ => none

def expect? (c : Char) : List Char → Option (List Char)
  | d :: cs => if d == c then some cs else none
  | [] => none

def isLeapYear (y : Nat) : Bool := y % 4 == 0 && (y % 100 != 0 || y % 400 == 0)

def daysInMonth (year month : Nat) : Nat :=
  if month = 2 then if isLeapYear year then 29 else 28
  else if month ∈ [4, 6, 9, 11] then 30
  else 31

def date? (cs : List Char) : Option (List Char) := do
  let (century, cs) ← twoDigits? cs
  let (year, cs) ← twoDigits? cs
  let cs ← expect? '-' cs
  let (month, cs) ← twoDigits? cs
  let cs ← expect? '-' cs
  let (day, cs) ← twoDigits? cs
  if month = 0 ∨ 12 < month ∨ day = 0 ∨ daysInMonth (century * 100 + year) month < day then none
  return cs

def time? (cs : List Char) : Option (List Char) := do
  let (hour, cs) ← twoDigits? cs
  let cs ← expect? ':' cs
  let (minute, cs) ← twoDigits? cs
  if 23 < hour ∨ 59 < minute then none
  match expect? ':' cs with
  | none => return cs
  | some cs =>
    let (second, cs) ← twoDigits? cs
    if 60 < second then none
    match cs with
    | '.' :: cs =>
      let fraction := cs.takeWhile Char.isDigit
      if fraction.isEmpty then none
      return cs.drop fraction.length
    | cs => return cs

def zone? : List Char → Option (List Char)
  | 'Z' :: cs => some cs
  | 'z' :: cs => some cs
  | c :: cs => do
    if c != '+' && c != '-' then none
    let (hour, cs) ← twoDigits? cs
    let cs ← expect? ':' cs
    let (minute, cs) ← twoDigits? cs
    if 23 < hour ∨ 59 < minute then none
    return cs
  | [] => none

def isSeparator (c : Char) : Bool := c == 'T' || c == 't' || c == ' '

def isMoment (word : List Char) : Bool :=
  match date? word with
  | some [] => true
  | some (c :: cs) =>
    isSeparator c && match time? cs with
      | some [] => true
      | some cs => zone? cs == some []
      | none => false
  | none => time? word == some []

/-- A word, and behind a date also the time that one space parts from it. -/
def word (cs : List Char) : List Char × List Char :=
  let first := cs.takeWhile isWord
  let rest := cs.drop first.length
  match rest with
  | ' ' :: c :: more =>
    if date? first == some [] && c.isDigit then
      let second := (c :: more).takeWhile isWord
      (first ++ ' ' :: second, (c :: more).drop second.length)
    else (first, rest)
  | _ => (first, rest)

def scalar? (cs : List Char) : Option (Value × List Char) :=
  let (w, rest) := word cs
  if w == "true".toList then some (.boolean true, rest)
  else if w == "false".toList then some (.boolean false, rest)
  else if let some n := integer? w then some (.integer n, rest)
  else if isFloat w then some (.float (String.ofList w), rest)
  else if isMoment w then some (.moment (String.ofList w), rest)
  else none

end PcmStream.Toml
