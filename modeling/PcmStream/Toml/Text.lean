/- The lexical level of TOML 1.1: blanks, comments, strings and keys. A reader takes the characters
   that are left and gives what it read with the characters after it, or none. -/
namespace PcmStream.Toml

abbrev Reader (α : Type) := List Char → Option (α × List Char)

def isBlank (c : Char) : Bool := c == ' ' || c == '\t'

def isText (c : Char) : Bool := c == '\t' || (0x20 ≤ c.val && c.val != 0x7f)

def isBareKey (c : Char) : Bool := c.isAlphanum || c == '_' || c == '-'

def skipBlanks (cs : List Char) : List Char := cs.dropWhile isBlank

def lineBreak? : List Char → Option (List Char)
  | [] => some []
  | '\n' :: cs => some cs
  | '\r' :: '\n' :: cs => some cs
  | _ => none

def lineEnd? (cs : List Char) : Option (List Char) :=
  match skipBlanks cs with
  | '#' :: cs => lineBreak? (cs.dropWhile isText)
  | cs => lineBreak? cs

def skipTrivia? (comment : Bool) : List Char → Option (List Char)
  | [] => some []
  | '\n' :: cs => skipTrivia? false cs
  | '\r' :: '\n' :: cs => skipTrivia? false cs
  | c :: cs =>
    if comment then if isText c then skipTrivia? true cs else none
    else if isBlank c then skipTrivia? false cs
    else if c == '#' then skipTrivia? true cs
    else some (c :: cs)

def digitValue (c : Char) : Nat :=
  if c.isDigit then c.toNat - '0'.toNat else c.toLower.toNat - 'a'.toNat + 10

def isDigitOf (base : Nat) (c : Char) : Bool :=
  (c.isDigit || ('a' ≤ c.toLower && c.toLower ≤ 'f')) && digitValue c < base

def digitsValue (base : Nat) (cs : List Char) : Nat :=
  cs.foldl (fun n c => n * base + digitValue c) 0

def charNumbered? (width : Nat) : Reader Char := fun cs =>
  let digits := cs.take width
  let n := digitsValue 16 digits
  if digits.length = width ∧ digits.all (isDigitOf 16) ∧ n.isValidChar then
    some (Char.ofNat n, cs.drop width)
  else none

def escape? : Reader Char
  | 'b' :: cs => some ('\x08', cs)
  | 't' :: cs => some ('\t', cs)
  | 'n' :: cs => some ('\n', cs)
  | 'f' :: cs => some ('\x0c', cs)
  | 'r' :: cs => some ('\r', cs)
  | 'e' :: cs => some ('\x1b', cs)
  | '"' :: cs => some ('"', cs)
  | '\\' :: cs => some ('\\', cs)
  | 'x' :: cs => charNumbered? 2 cs
  | 'u' :: cs => charNumbered? 4 cs
  | 'U' :: cs => charNumbered? 8 cs
  | _ => none

def quotedFuel : Nat → Reader (List Char)
  | 0, _ => none
  | _, [] => none
  | _, '"' :: cs => some ([], cs)
  | fuel + 1, '\\' :: cs => do
      let (c, cs) ← escape? cs
      let (text, cs) ← quotedFuel fuel cs
      return (c :: text, cs)
  | fuel + 1, c :: cs => do
      if !isText c then none
      let (text, cs) ← quotedFuel fuel cs
      return (c :: text, cs)

def literal? (cs : List Char) : Option (List Char × List Char) :=
  let text := cs.takeWhile fun c => isText c && c != '\''
  match cs.drop text.length with
  | '\'' :: cs => some (text, cs)
  | _ => none

def skipEmptyLines : List Char → List Char
  | [] => []
  | '\n' :: cs => skipEmptyLines cs
  | '\r' :: '\n' :: cs => skipEmptyLines cs
  | c :: cs => if isBlank c then skipEmptyLines cs else c :: cs

/-- A backslash before a line break takes all blanks and line breaks up to the next text. -/
def joinedLine? (cs : List Char) : Option (List Char) :=
  match skipBlanks cs with
  | '\n' :: cs => some (skipEmptyLines cs)
  | '\r' :: '\n' :: cs => some (skipEmptyLines cs)
  | _ => none

/-- The rest of a string in triple quotes. Up to two quotes may stand before the closing three. -/
def blockFuel (quote : Char) (escapes : Bool) : Nat → Reader (List Char)
  | 0, _ => none
  | fuel + 1, cs => do
    let quotes := (cs.takeWhile (· == quote)).length
    if 3 ≤ quotes then
      let kept := min quotes 5 - 3
      return (List.replicate kept quote, cs.drop (kept + 3))
    match cs with
    | [] => none
    | '\r' :: '\n' :: cs =>
      let (text, cs) ← blockFuel quote escapes fuel cs
      return ('\n' :: text, cs)
    | '\\' :: cs =>
      if escapes then
        match joinedLine? cs with
        | some cs => blockFuel quote escapes fuel cs
        | none =>
          let (c, cs) ← escape? cs
          let (text, cs) ← blockFuel quote escapes fuel cs
          return (c :: text, cs)
      else
        let (text, cs) ← blockFuel quote escapes fuel cs
        return ('\\' :: text, cs)
    | c :: cs =>
      if !isText c && c != '\n' then none
      let (text, cs) ← blockFuel quote escapes fuel cs
      return (c :: text, cs)

/-- A line break right behind the opening quotes does not count. -/
def block? (quote : Char) (escapes : Bool) (cs : List Char) : Option (List Char × List Char) :=
  let body := match cs with
    | '\n' :: cs => cs
    | '\r' :: '\n' :: cs => cs
    | cs => cs
  blockFuel quote escapes (body.length + 1) body

def lineString? : Reader (List Char)
  | '"' :: cs => quotedFuel (cs.length + 1) cs
  | '\'' :: cs => literal? cs
  | _ => none

def string? : Reader (List Char)
  | '"' :: '"' :: '"' :: cs => block? '"' true cs
  | '\'' :: '\'' :: '\'' :: cs => block? '\'' false cs
  | cs => lineString? cs

def keyPart? (cs : List Char) : Option (String × List Char) :=
  let bare := cs.takeWhile isBareKey
  if bare.isEmpty then (lineString? cs).map fun (text, cs) => (String.ofList text, cs)
  else some (String.ofList bare, cs.drop bare.length)

def keyFuel : Nat → Reader (List String)
  | 0, _ => none
  | fuel + 1, cs => do
    let (part, cs) ← keyPart? (skipBlanks cs)
    match skipBlanks cs with
    | '.' :: cs =>
      let (parts, cs) ← keyFuel fuel cs
      return (part :: parts, cs)
    | cs => return ([part], cs)

/-- A key may have at most this many parts, the last not counted, and values nest to this depth. -/
def depthLimit : Nat := 80

def key? (cs : List Char) : Option ((List String × String) × List Char) := do
  let (parts, cs) ← keyFuel cs.length cs
  let name ← parts.getLast?
  if depthLimit < parts.length then none
  return ((parts.dropLast, name), cs)

end PcmStream.Toml
