import PcmStream.Toml.Scalar

/- TOML documents: values, lines, the table a document stands for, and a flat table as a document.
   The fuel of each reader is the count of characters left, of which every step takes at least
   one. -/
namespace PcmStream.Toml

mutual

def valueFuel : Nat → Nat → Reader Value
  | 0, _, _ => none
  | fuel + 1, depth, cs =>
    match cs with
    | '"' :: _ => (string? cs).map fun (text, cs) => (.string (String.ofList text), cs)
    | '\'' :: _ => (string? cs).map fun (text, cs) => (.string (String.ofList text), cs)
    | '[' :: cs =>
      if depth = 0 then none
      else (itemsFuel fuel (depth - 1) cs).map fun (items, cs) => (.array items false, cs)
    | '{' :: cs =>
      if depth = 0 then none
      else (pairsFuel fuel (depth - 1) [] cs).map fun (es, cs) => (.table .inline es, cs)
    | _ => scalar? cs

def itemsFuel : Nat → Nat → Reader (List Value)
  | 0, _, _ => none
  | fuel + 1, depth, cs => do
    match ← skipTrivia? false cs with
    | ']' :: cs => return ([], cs)
    | cs =>
      let (v, cs) ← valueFuel fuel depth cs
      match ← skipTrivia? false cs with
      | ']' :: cs => return ([v], cs)
      | ',' :: cs =>
        let (vs, cs) ← itemsFuel fuel depth cs
        return (v :: vs, cs)
      | _ => none

/-- The pairs of an inline table up to its brace; the last may have a comma behind it. Lines may
    break on both sides of an equals sign, but not within a key. -/
def pairsFuel : Nat → Nat → Entries → Reader Entries
  | 0, _, _, _ => none
  | fuel + 1, depth, es, cs => do
    match ← skipTrivia? false cs with
    | '}' :: cs => return (es, cs)
    | cs =>
      let ((path, name), cs) ← key? cs
      let cs ← expect? '=' (← skipTrivia? false cs)
      let (v, cs) ← valueFuel fuel depth (← skipTrivia? false cs)
      let es ← es.addDotted? path name v
      match ← skipTrivia? false cs with
      | '}' :: cs => return (es, cs)
      | ',' :: cs => pairsFuel fuel depth es cs
      | _ => none

end

def value? (cs : List Char) : Option (Value × List Char) := valueFuel (cs.length + 1) depthLimit cs

/-- The table read so far and the path of the header in force. -/
structure Document where
  root : Entries := []
  path : List String := []

namespace Document

def pair? (d : Document) (cs : List Char) : Option (Document × List Char) := do
  let ((path, name), cs) ← key? cs
  let cs ← expect? '=' (skipBlanks cs)
  let (v, cs) ← value? (skipBlanks cs)
  let root ← Entries.within? (·.addDotted? path name v) d.path d.root
  return ({ d with root }, cs)

def header? (d : Document) (cs : List Char) : Option (Document × List Char) := do
  match cs with
  | '[' :: '[' :: cs =>
    let ((path, name), cs) ← key? cs
    let cs ← expect? ']' cs
    let cs ← expect? ']' cs
    let root ← Entries.within? (Entries.openItem? name) path d.root
    return (⟨root, path ++ [name]⟩, cs)
  | '[' :: cs =>
    let ((path, name), cs) ← key? cs
    let cs ← expect? ']' cs
    let root ← Entries.within? (Entries.openTable? name) path d.root
    return (⟨root, path ++ [name]⟩, cs)
  | _ => none

def line? (d : Document) (cs : List Char) : Option (Document × List Char) := do
  match lineEnd? cs with
  | some cs => return (d, cs)
  | none =>
    let cs := skipBlanks cs
    let (d, cs) ← if cs.head? = some '[' then d.header? cs else d.pair? cs
    let cs ← lineEnd? cs
    return (d, cs)

def linesFuel : Nat → Document → List Char → Option Document
  | _, d, [] => some d
  | 0, _, _ => none
  | fuel + 1, d, cs => do
    let (d, cs) ← d.line? cs
    linesFuel fuel d cs

end Document

def read? (text : String) : Option Entries :=
  let cs := match text.toList with
    | '\ufeff' :: cs => cs
    | cs => cs
  (Document.linesFuel cs.length {} cs).map (·.root)

def printValue? : Value → Option String
  | .integer n => some (toString n)
  | .string text =>
    if text.toList.all fun c => isText c && c != '"' && c != '\\' then some s!"\"{text}\"" else none
  | _ => none

/-- One line for each entry. Only bare keys, integers and strings without escapes are printed. -/
def print? : Entries → Option String
  | [] => some ""
  | (key, v) :: es => do
    if key.isEmpty || !key.toList.all isBareKey then none
    let word ← printValue? v
    let rest ← print? es
    return s!"{key} = {word}\n" ++ rest

def plain : Library := ⟨read?, print?⟩

end PcmStream.Toml
