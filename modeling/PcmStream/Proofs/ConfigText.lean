import Mathlib.Data.Finset.Basic
import PcmStream.Config.File
import PcmStream.Proofs.TomlReading

/- Configurations written as TOML and read again. A text may set any of the six fields, in any
   order and with any spelling of the numbers; what it does not set keeps its default, and lines
   with other names leave no trace. -/
namespace PcmStream.Config

open Toml

inductive Field where
  | sampleRate
  | channels
  | bufferFrames
  | packetFrames
  | packetCount
  | format
  deriving DecidableEq, Repr

namespace Field

def all : List Field := [sampleRate, channels, bufferFrames, packetFrames, packetCount, format]

def name : Field → String
  | sampleRate => "sample_rate"
  | channels => "num_channels"
  | bufferFrames => "buffer_frames"
  | packetFrames => "packet_frames"
  | packetCount => "num_packets"
  | format => "sample_format"

theorem mem_all (f : Field) : f ∈ all := by cases f <;> decide

theorem name_injective {f g : Field} (same : f.name = g.name) : f = g := by
  cases f <;> cases g <;> first | rfl | exact absurd same (by decide)

end Field

def value (c : Config) : Field → Value
  | .sampleRate => .integer c.sampleRate
  | .channels => .integer c.channels
  | .bufferFrames => .integer c.bufferFrames
  | .packetFrames => .integer c.packetFrames
  | .packetCount => .integer c.packetCount
  | .format => .string c.format.name

def only (c : Config) (K : Finset Field) : Config where
  sampleRate := if .sampleRate ∈ K then c.sampleRate else ({} : Config).sampleRate
  channels := if .channels ∈ K then c.channels else ({} : Config).channels
  bufferFrames := if .bufferFrames ∈ K then c.bufferFrames else ({} : Config).bufferFrames
  packetFrames := if .packetFrames ∈ K then c.packetFrames else ({} : Config).packetFrames
  packetCount := if .packetCount ∈ K then c.packetCount else ({} : Config).packetCount
  format := if .format ∈ K then c.format else ({} : Config).format

/-- An entry sets a field to what it is in `c`, or it has a name of its own and an integer. -/
def States (c : Config) (e : String × Value) : Prop :=
  (∃ f : Field, e = (f.name, c.value f)) ∨
    (∀ f : Field, e.1 ≠ f.name) ∧ ∃ n : Int, e.2 = .integer n ∧ -(2 ^ 63) ≤ n ∧ n < 2 ^ 63

def put (c : Config) (f : Field) (d : Config) : Config :=
  match f with
  | .sampleRate => { d with sampleRate := c.sampleRate }
  | .channels => { d with channels := c.channels }
  | .bufferFrames => { d with bufferFrames := c.bufferFrames }
  | .packetFrames => { d with packetFrames := c.packetFrames }
  | .packetCount => { d with packetCount := c.packetCount }
  | .format => { d with format := c.format }

variable {c d : Config}

theorem put_value (f g : Field) :
    (c.put f d).value g = if g = f then c.value g else d.value g := by
  cases f <;> cases g <;> rfl

theorem only_value (K : Finset Field) (f : Field) :
    (c.only K).value f = if f ∈ K then c.value f else ({} : Config).value f := by
  cases f <;> simp only [value, only] <;> split <;> rfl

theorem eq_of_values (same : ∀ f, c.value f = d.value f) : c = d := by
  have formats : c.format = d.format := by
    have names : c.format.name = d.format.name := by simpa [value] using same .format
    revert names
    cases c.format <;> cases d.format <;> decide
  have rates := same .sampleRate
  have channels := same .channels
  have buffers := same .bufferFrames
  have packets := same .packetFrames
  have counts := same .packetCount
  simp only [value, Value.integer.injEq, Int.ofNat_inj] at rates channels buffers packets counts
  obtain ⟨⟩ := c
  obtain ⟨⟩ := d
  simp_all

theorem named?_name (f : SampleFormat) : SampleFormat.named? f.name = some f := by
  cases f <;> decide

theorem number?_of_lt {limit n : Nat} (below : n < limit) :
    number? limit (.integer n) = some n := by
  simp [number?, below]

theorem setField?_value (fits : c.Fits) (f : Field) :
    d.setField? f.name (c.value f) = some (c.put f d) := by
  obtain ⟨rate, channels, buffer, packet, count⟩ := fits
  cases f with
  | sampleRate => simp [setField?, Field.name, value, put, number?_of_lt rate]
  | channels => simp [setField?, Field.name, value, put, number?_of_lt channels]
  | bufferFrames => simp [setField?, Field.name, value, put, number?_of_lt buffer]
  | packetFrames => simp [setField?, Field.name, value, put, number?_of_lt packet]
  | packetCount => simp [setField?, Field.name, value, put, number?_of_lt count]
  | format => simp [setField?, Field.name, value, put, format?, named?_name]

theorem setField?_other {name : String} (other : ∀ f : Field, name ≠ f.name) (v : Value) :
    d.setField? name v = some d := by
  rw [setField?.eq_def]
  split
  · exact absurd rfl (other .sampleRate)
  · exact absurd rfl (other .channels)
  · exact absurd rfl (other .bufferFrames)
  · exact absurd rfl (other .packetFrames)
  · exact absurd rfl (other .packetCount)
  · exact absurd rfl (other .format)
  · rfl

theorem entries_value (fits : c.Fits) {es : Entries} (stated : ∀ e ∈ es, c.States e) (d : Config) :
    ∃ d', es.foldlM (fun d e => d.setField? e.1 e.2) d = some d' ∧
      ∀ f : Field, d'.value f = if f.name ∈ es.map Prod.fst then c.value f else d.value f := by
  induction es generalizing d with
  | nil => exact ⟨d, rfl, by simp⟩
  | cons e es ih =>
    have later : ∀ e ∈ es, c.States e := fun e listed => stated e (by simp [listed])
    obtain ⟨g, rfl⟩ | ⟨other, -⟩ := stated e (by simp)
    · obtain ⟨d', folded, values⟩ := ih later (c.put g d)
      refine ⟨d', by simp [setField?_value fits, ← folded], fun f => ?_⟩
      rw [values, put_value]
      by_cases same : f = g
      · simp [same]
      · have apart : f.name ≠ g.name := fun names => same (Field.name_injective names)
        simp only [List.map_cons, List.mem_cons, same, apart, if_false, false_or]
    · obtain ⟨d', folded, values⟩ := ih later d
      refine ⟨d', by simp [setField?_other other, ← folded], fun f => ?_⟩
      rw [values]
      simp only [List.map_cons, List.mem_cons, Ne.symm (other f), false_or]

theorem ofToml_lays {lib : Library} (reads : lib.Reads) (fits : c.Fits) {lines : List Line}
    {text : String} (laid : Lays lines text.toList) (apart : (lines.map Line.name).Nodup)
    (plain : ∀ l ∈ lines, l.Plain) (stated : ∀ l ∈ lines, c.States l.entry) {K : Finset Field}
    (named : ∀ f : Field, f ∈ K ↔ f.name ∈ lines.map Line.name) :
    ofToml lib text = .ok (c.only K) := by
  obtain ⟨es, read, order⟩ := reads lines text laid plain apart
  -- The entries may come in another order, which changes neither them nor their names.
  have said : ∀ e ∈ es, c.States e := by
    intro e listed
    obtain ⟨l, line, rfl⟩ := List.mem_map.mp (order.mem_iff.mp listed)
    exact stated l line
  have names : ∀ name, name ∈ es.map Prod.fst ↔ name ∈ lines.map Line.name := by
    intro name
    have keys := (order.map Prod.fst).mem_iff (a := name)
    rwa [List.map_map] at keys
  obtain ⟨d, folded, values⟩ := entries_value fits said {}
  have whole : d = c.only K := eq_of_values fun f => by
    rw [values, only_value]
    simp only [named, names]
  have entries : ofEntries? es = some d := folded
  simp [ofToml, read, entries, whole]

theorem entries_eq (c : Config) : c.entries = Field.all.map fun f => (f.name, c.value f) := rfl

theorem entries_names (c : Config) : c.entries.map Prod.fst = Field.all.map Field.name := rfl

theorem entries_flat (fits : c.Fits) : ∀ e ∈ c.entries, IsFlat e := by
  rw [entries_eq]
  simp only [List.mem_map, forall_exists_index, and_imp]
  rintro e f - rfl
  refine ⟨show f.name ≠ "" by cases f <;> decide,
    List.all_eq_true.mp (show f.name.toList.all isBareKey = true by cases f <;> decide), ?_⟩
  obtain ⟨rate, channels, buffer, packet, count⟩ := fits
  have wide : ∀ n : Nat, n < wordLimit → IsWide n := by
    intro n below
    have word : n < 2 ^ 64 := below
    exact ⟨by omega, by omega⟩
  cases f with
  | sampleRate => exact .inl ⟨_, rfl, wide _ (rate.trans (by decide))⟩
  | channels => exact .inl ⟨_, rfl, wide _ (channels.trans (by decide))⟩
  | bufferFrames => exact .inl ⟨_, rfl, wide _ buffer⟩
  | packetFrames => exact .inl ⟨_, rfl, wide _ packet⟩
  | packetCount => exact .inl ⟨_, rfl, wide _ count⟩
  | format =>
    exact .inr ⟨_, rfl, List.all_eq_true.mp (by cases c.format <;> decide)⟩

/-- With a library that reads and prints lines as it should: if a configuration can be written, it
    is read again as it was. And a text that gives the fields of `K`, each on its own line, in any
    order and in any spelling, reads as the configuration that agrees on `K` and has the defaults
    elsewhere, whatever lines with other names stand among them. -/
theorem toml_keeps_the_config (lib : Library) (reads : lib.Reads) (prints : lib.Prints) (c : Config)
    (fits : c.Fits) :
    (∀ text, c.toToml lib = some text → ofToml lib text = .ok c) ∧
    ∀ (K : Finset Field) (lines : List Line) (text : String),
      Lays lines text.toList → (lines.map Line.name).Nodup →
      (∀ l ∈ lines, l.Plain ∧ c.States l.entry) →
      (∀ f : Field, f ∈ K ↔ f.name ∈ lines.map Line.name) →
      ofToml lib text = .ok (c.only K) := by
  constructor
  · intro text printed
    have distinct : (Field.all.map Field.name).Nodup := by decide
    obtain ⟨lines, laid, plain, order⟩ := prints c.entries text (entries_flat fits) distinct printed
    have names : (lines.map Line.name).Perm (Field.all.map Field.name) := by
      simpa [Function.comp_def, Line.entry, entries_names] using order.map Prod.fst
    have read := ofToml_lays reads fits laid (names.nodup_iff.mpr distinct) plain
      (fun l line => by
        have entry := order.mem_iff.mp (List.mem_map_of_mem line)
        rw [entries_eq] at entry
        obtain ⟨f, -, same⟩ := List.mem_map.mp entry
        exact .inl ⟨f, same.symm⟩)
      (K := Field.all.toFinset) (fun f => by
        simp [names.mem_iff, f.mem_all, List.mem_map_of_mem])
    have whole : c.only Field.all.toFinset = c := eq_of_values fun f => by
      simp [only_value, f.mem_all]
    rw [read, whole]
  · intro K lines text laid apart said named
    exact ofToml_lays reads fits laid apart (fun l listed => (said l listed).1)
      (fun l listed => (said l listed).2) named

/-- Every number at its limit; and three lines, the second of which is ignored. -/
theorem greatest_config_survives :
    (∃ text, toToml plain
        ⟨4294967295, 65535, 65535, 18446744073709551615, 18446744073709551615, .i16⟩ = some text ∧
      ofToml plain text =
        .ok ⟨4294967295, 65535, 65535, 18446744073709551615, 18446744073709551615, .i16⟩) ∧
    ofToml plain "sample_format = 'i16'\r\nmade-by = -7\nbuffer_frames = 0xFF_ff" =
      .ok { bufferFrames := 65535, format := .i16 } := by
  have kept := toml_keeps_the_config plain plain_reads plain_prints
    ⟨4294967295, 65535, 65535, 18446744073709551615, 18446744073709551615, .i16⟩ (by
      unfold Fits
      decide)
  have letters : Digits 16 ['F', 'F', '_', 'f', 'f'] [15, 15, 15, 15] :=
    .next ⟨by decide, by decide, .inr (by decide)⟩ (.parted ⟨by decide, by decide, .inr (by decide)⟩
      (.next ⟨by decide, by decide, .inl (by decide)⟩
        (.last ⟨by decide, by decide, .inl (by decide)⟩)))
  have seven : Digits 10 ['7'] [7] := .last ⟨by decide, by decide, .inl (by decide)⟩
  let format : Line := ⟨"sample_format", ['\'', 'i', '1', '6', '\''], .string "i16"⟩
  let made : Line := ⟨"made-by", ['-', '7'], .integer (-7)⟩
  let buffer : Line := ⟨"buffer_frames", ['0', 'x', 'F', 'F', '_', 'f', 'f'], .integer 65535⟩
  have formatPlain : format.Plain :=
    ⟨by decide, List.all_eq_true.mp (by decide),
      @Spells.literal ['i', '1', '6'] (List.all_iff_forall_prop.mp (by decide))⟩
  have madePlain : made.Plain :=
    ⟨by decide, List.all_eq_true.mp (by decide),
      .integer (.minus ⟨[7], seven, by decide, by decide⟩) ⟨by decide, by decide⟩⟩
  have bufferPlain : buffer.Plain :=
    ⟨by decide, List.all_eq_true.mp (by decide),
      .integer (.hexadecimal ⟨_, letters, by decide⟩) ⟨by decide, by decide⟩⟩
  have laid : Lays [format, made, buffer]
      (format.text ++ (['\r', '\n'] ++ (made.text ++ (['\n'] ++ buffer.text)))) :=
    .line .both (.line .feed (.last buffer))
  refine ⟨⟨_, rfl, kept.1 _ rfl⟩, ?_⟩
  refine kept.2 {.format, .bufferFrames} [format, made, buffer] _ ?_ (by decide) ?_ ?_
  · simpa [format, made, buffer, Line.text] using laid
  · simp only [List.mem_cons, List.not_mem_nil, or_false]
    rintro l (rfl | rfl | rfl)
    · exact ⟨formatPlain, .inl ⟨.format, rfl⟩⟩
    · exact ⟨madePlain, .inr ⟨fun f => by cases f <;> decide, -7, rfl, by decide, by decide⟩⟩
    · exact ⟨bufferPlain, .inl ⟨.bufferFrames, rfl⟩⟩
  · intro f
    cases f <;> decide

end PcmStream.Config
