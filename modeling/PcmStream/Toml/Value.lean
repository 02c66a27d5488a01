/- TOML values, and the rules by which keys and headers add to a table. A table remembers what
   brought it into being, because that decides what may still be added to it. -/
namespace PcmStream.Toml

/-- Inline tables are complete as written. An implied table stands on the way to a header that was
    written first, and may get a header of its own once. -/
inductive Origin where
  | inline
  | header
  | implied
  | dotted
  deriving DecidableEq, Repr

/-- Floats and date-times keep their text. An array grows while it is made of headers. -/
inductive Value where
  | string (text : String)
  | integer (n : Int)
  | float (text : String)
  | boolean (b : Bool)
  | moment (text : String)
  | array (items : List Value) (growing : Bool)
  | table (origin : Origin) (entries : List (String × Value))
  deriving Repr

abbrev Entries := List (String × Value)

namespace Entries

def find? (es : Entries) (key : String) : Option Value := es.lookup key

def add (es : Entries) (key : String) (v : Value) : Entries := es ++ [(key, v)]

def replace (es : Entries) (key : String) (v : Value) : Entries :=
  es.map fun e => if e.1 == key then (key, v) else e

def addNew? (es : Entries) (key : String) (v : Value) : Option Entries :=
  match es.find? key with
  | none => some (es.add key v)
  | some _ => none

/-- A dotted key makes the tables on its way and adds only to tables made in this way. Implied
    tables, and the last table of a growing array, may be passed through. -/
def addDotted? : List String → String → Value → Entries → Option Entries
  | [], key, v, es => es.addNew? key v
  | part :: path, key, v, es =>
    match es.find? part with
    | none => (addDotted? path key v []).map fun inner => es.add part (.table .dotted inner)
    | some (.table origin inner) =>
      if origin = .dotted ∨ origin = .implied ∧ path ≠ [] then
        (addDotted? path key v inner).map fun inner => es.replace part (.table origin inner)
      else none
    | some (.array items true) =>
      match items.getLast? with
      | some (.table origin inner) =>
        if path = [] then none
        else (addDotted? path key v inner).map fun inner =>
          es.replace part (.array (items.dropLast ++ [.table origin inner]) true)
      | _ => none
    | some _ => none

/-- Changes the table that a header's path leads to. A growing array stands for its last table;
    what is missing on the way is implied. -/
def within? (change : Entries → Option Entries) : List String → Entries → Option Entries
  | [], es => change es
  | part :: path, es =>
    match es.find? part with
    | none => (within? change path []).map fun inner => es.add part (.table .implied inner)
    | some (.table origin inner) =>
      if origin = .inline then none
      else (within? change path inner).map fun inner => es.replace part (.table origin inner)
    | some (.array items true) =>
      match items.getLast? with
      | some (.table origin inner) => (within? change path inner).map fun inner =>
          es.replace part (.array (items.dropLast ++ [.table origin inner]) true)
      | _ => none
    | some _ => none

def openTable? (key : String) (es : Entries) : Option Entries :=
  match es.find? key with
  | none => some (es.add key (.table .header []))
  | some (.table .implied inner) => some (es.replace key (.table .header inner))
  | some _ => none

def openItem? (key : String) (es : Entries) : Option Entries :=
  match es.find? key with
  | none => some (es.add key (.array [.table .header []] true))
  | some (.array items true) =>
      some (es.replace key (.array (items ++ [.table .header []]) true))
  | some _ => none

end Entries

/-- What reads and prints documents. Either may refuse. -/
structure Library where
  read? : String → Option Entries
  print? : Entries → Option String

end PcmStream.Toml
