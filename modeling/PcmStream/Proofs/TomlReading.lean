import Mathlib.Data.Bool.AllAny
import Mathlib.Data.Nat.Digits.Lemmas
import PcmStream.Toml.Document

/- What the reader makes of plain lines: a bare key, an equals sign between two spaces, and an
   integer or a string without escapes. The spellings are stated apart from the reader, and every
   one of them is read as what it stands for. A flat table is printed as such lines. -/
namespace PcmStream.Toml

/-! Integers -/

/-- A letter may stand in either case. -/
def IsDigit (base : Nat) (c : Char) (d : Nat) : Prop :=
  d < base ∧ d < 16 ∧ (c = d.digitChar ∨ c = d.digitChar.toUpper)

/-- Digits, the greatest first, where single underscores may part two of them. -/
inductive Digits (base : Nat) : List Char → List Nat → Prop where
  | last {c d} (digit : IsDigit base c d) : Digits base [c] [d]
  | next {c d w ds} (digit : IsDigit base c d) (more : Digits base w ds) :
      Digits base (c :: w) (d :: ds)
  | parted {c d w ds} (digit : IsDigit base c d) (more : Digits base w ds) :
      Digits base (c :: '_' :: w) (d :: ds)

/-- A decimal number has no zero in front of other digits. -/
def Decimal (w : List Char) (n : Nat) : Prop :=
  ∃ ds, Digits 10 w ds ∧ (ds.head? = some 0 → ds.length = 1) ∧ n = Nat.ofDigits 10 ds.reverse

def Marked (base : Nat) (w : List Char) (n : Nat) : Prop :=
  ∃ ds, Digits base w ds ∧ n = Nat.ofDigits base ds.reverse

inductive Integer : List Char → Int → Prop where
  | decimal {w n} (number : Decimal w n) : Integer w n
  | plus {w n} (number : Decimal w n) : Integer ('+' :: w) n
  | minus {w n} (number : Decimal w n) : Integer ('-' :: w) (-n)
  | hexadecimal {w n} (number : Marked 16 w n) : Integer ('0' :: 'x' :: w) n
  | octal {w n} (number : Marked 8 w n) : Integer ('0' :: 'o' :: w) n
  | binary {w n} (number : Marked 2 w n) : Integer ('0' :: 'b' :: w) n

theorem IsDigit.known {base d : Nat} {c : Char} (digit : IsDigit base c d) :
    digitValue c = d ∧ isDigitOf base c = true ∧ isWord c = true ∧
      c ≠ '_' ∧ c ≠ '+' ∧ c ≠ '-' ∧ (c = '0' ↔ d = 0) := by
  obtain ⟨inBase, small, spelled⟩ := digit
  have sixteen : ∀ d < 16, [d.digitChar, d.digitChar.toUpper].all fun c =>
      digitValue c = d ∧ (c.isDigit || ('a' ≤ c.toLower && c.toLower ≤ 'f')) = true ∧
        isWord c = true ∧ c ≠ '_' ∧ c ≠ '+' ∧ c ≠ '-' ∧ (c = '0' ↔ d = 0) := by decide
  obtain ⟨value, form, others⟩ :=
    List.all_iff_forall_prop.mp (sixteen d small) c (by simpa using spelled)
  refine ⟨value, ?_, others⟩
  rw [isDigitOf, form, value]
  simpa using inBase

theorem IsDigit.isDigit {c : Char} {d : Nat} (digit : IsDigit 10 c d) : c.isDigit = true := by
  obtain ⟨inBase, -, spelled⟩ := digit
  have ten : ∀ d < 10, [d.digitChar, d.digitChar.toUpper].all Char.isDigit := by decide
  exact List.all_eq_true.mp (ten d inBase) c (by simpa using spelled)

namespace Digits

variable {base : Nat} {w : List Char} {ds : List Nat}

theorem word (digits : Digits base w ds) : ∀ c ∈ w, isWord c = true := by
  induction digits with
  | last digit => simpa using digit.known.2.2.1
  | next digit _ ih => simpa using ⟨digit.known.2.2.1, ih⟩
  | parted digit _ ih =>
    simp only [List.mem_cons, forall_eq_or_imp]
    exact ⟨digit.known.2.2.1, by decide, ih⟩

theorem first (digits : Digits base w ds) :
    ∃ c d, w.head? = some c ∧ ds.head? = some d ∧ IsDigit base c d := by
  cases digits with
  | last digit => exact ⟨_, _, rfl, rfl, digit⟩
  | next digit _ => exact ⟨_, _, rfl, rfl, digit⟩
  | parted digit _ => exact ⟨_, _, rfl, rfl, digit⟩

theorem ungroup {p : Char → Bool} (accepts : ∀ c d, IsDigit base c d → p c = true)
    (digits : Digits base w ds) :
    ∃ cs, ungroup? p w = some cs ∧ List.Forall₂ (IsDigit base) cs ds := by
  induction digits with
  | last digit =>
    exact ⟨_, by simp [ungroup?, accepts _ _ digit], .cons digit .nil⟩
  | @next c d w ds digit more ih =>
    obtain ⟨cs, read, spelled⟩ := ih
    obtain ⟨c', _, front, -, digit'⟩ := more.first
    obtain ⟨w', rfl⟩ : ∃ w', w = c' :: w' := by
      cases w with
      | nil => simp at front
      | cons x xs => exact ⟨xs, by simp_all⟩
    have apart : c' ≠ '_' := digit'.known.2.2.2.1
    exact ⟨c :: cs, by simp [ungroup?, apart, accepts _ _ digit, read], .cons digit spelled⟩
  | @parted c d w ds digit more ih =>
    obtain ⟨cs, read, spelled⟩ := ih
    exact ⟨c :: cs, by simp [ungroup?, accepts _ _ digit, read], .cons digit spelled⟩

end Digits

theorem digitsValue_eq {base : Nat} {cs : List Char} {ds : List Nat}
    (spelled : List.Forall₂ (IsDigit base) cs ds) :
    digitsValue base cs = Nat.ofDigits base ds.reverse := by
  have onto : ∀ n : Nat, cs.foldl (fun n c => n * base + digitValue c) n =
      ds.foldl (fun n d => d + base * n) n := by
    induction spelled with
    | nil => intro n; rfl
    | cons digit _ ih =>
      intro n
      simp only [List.foldl_cons, ih, digit.known.1]
      rw [Nat.add_comm, Nat.mul_comm]
  rw [digitsValue, onto, Nat.ofDigits_eq_foldr, List.foldr_reverse]
  rfl

theorem Decimal.read {w : List Char} {n : Nat} (number : Decimal w n) :
    (decimal? w).map (digitsValue 10) = some n := by
  obtain ⟨ds, digits, lead, rfl⟩ := number
  obtain ⟨cs, read, spelled⟩ := digits.ungroup (p := Char.isDigit) fun _ _ digit => digit.isDigit
  have plain : ¬ (1 < cs.length ∧ cs.head? = some '0') := by
    rintro ⟨long, zero⟩
    cases spelled with
    | nil => simp at zero
    | @cons c d cs ds digit spelled =>
      have none : d = 0 := digit.known.2.2.2.2.2.2.mp (by simpa using zero)
      have one := lead (by simp [none])
      have same := spelled.length_eq
      simp only [List.length_cons] at long one
      omega
  simp [decimal?, read, plain, digitsValue_eq spelled]

theorem Marked.read {base : Nat} {w : List Char} {n : Nat} (number : Marked base w n) :
    (ungroup? (isDigitOf base) w).map (digitsValue base) = some n := by
  obtain ⟨ds, digits, rfl⟩ := number
  obtain ⟨cs, read, spelled⟩ := digits.ungroup fun _ _ digit => digit.known.2.1
  simp [read, digitsValue_eq spelled]

theorem Decimal.natural {w : List Char} {n : Nat} (number : Decimal w n) :
    natural? w = some n := by
  have read := number.read
  obtain ⟨ds, digits, lead, -⟩ := number
  -- A zero in front stands alone, so no letter that marks a base can come next.
  have unmarked : ∀ c w', w = '0' :: c :: w' → c = '_' ∨ IsDigit 10 c 0 := by
    rintro c w' rfl
    cases digits with
    | @next _ d _ ds digit more =>
      have zero : d = 0 := digit.known.2.2.2.2.2.2.mp rfl
      have one := lead (by simp [zero])
      obtain ⟨-, d', -, front, -⟩ := more.first
      cases ds with
      | nil => simp at front
      | cons => simp at one
    | parted => exact .inl rfl
  rw [natural?.eq_def]
  split
  · exact absurd (unmarked _ _ rfl) (by rintro (h | ⟨-, -, h⟩) <;> revert h <;> decide)
  · exact absurd (unmarked _ _ rfl) (by rintro (h | ⟨-, -, h⟩) <;> revert h <;> decide)
  · exact absurd (unmarked _ _ rfl) (by rintro (h | ⟨-, -, h⟩) <;> revert h <;> decide)
  · exact read

theorem unsign_of_digits {base : Nat} {w : List Char} {ds : List Nat} (digits : Digits base w ds) :
    unsign w = (false, w) := by
  obtain ⟨c, d, front, -, digit⟩ := digits.first
  obtain ⟨-, -, -, -, noPlus, noMinus, -⟩ := digit.known
  cases w with
  | nil => rfl
  | cons x xs =>
    obtain rfl : x = c := by simpa using front
    simp [unsign, noPlus, noMinus]

/-- A number of 64 bits, with a sign or without. -/
def IsWide (n : Int) : Prop := -(2 ^ 63) ≤ n ∧ n < 2 ^ 64

theorem Integer.read {w : List Char} {n : Int} (number : Integer w n) (wide : IsWide n) :
    integer? w = some n := by
  obtain ⟨low, high⟩ := wide
  cases number with
  | decimal number =>
    have sign : unsign w = (false, w) := unsign_of_digits number.choose_spec.1
    simp [integer?, sign, number.natural]
    omega
  | plus number =>
    simp [integer?, unsign, number.read]
    omega
  | minus number =>
    simp [integer?, unsign, number.read]
    omega
  | hexadecimal number =>
    simp [integer?, unsign, natural?, number.read]
    omega
  | octal number =>
    simp [integer?, unsign, natural?, number.read]
    omega
  | binary number =>
    simp [integer?, unsign, natural?, number.read]
    omega

theorem Integer.word {w : List Char} {n : Int} (number : Integer w n) :
    ∀ c ∈ w, isWord c = true := by
  cases number with
  | decimal number => exact number.choose_spec.1.word
  | plus number => simpa using ⟨by decide, number.choose_spec.1.word⟩
  | minus number => simpa using ⟨by decide, number.choose_spec.1.word⟩
  | hexadecimal number => simpa using ⟨by decide, by decide, number.choose_spec.1.word⟩
  | octal number => simpa using ⟨by decide, by decide, number.choose_spec.1.word⟩
  | binary number => simpa using ⟨by decide, by decide, number.choose_spec.1.word⟩

theorem Integer.first {w : List Char} {n : Int} (number : Integer w n) :
    ∃ c more, w = c :: more ∧ c ∉ ['"', '\'', '[', '{', 't', 'f', ' ', '\t'] := by
  have ofDecimal : ∀ {w n}, Decimal w n →
      ∃ c more, w = c :: more ∧ c ∉ ['"', '\'', '[', '{', 't', 'f', ' ', '\t'] := by
    rintro w n ⟨ds, digits, -⟩
    obtain ⟨c, d, front, -, digit⟩ := digits.first
    obtain ⟨more, rfl⟩ := List.head?_eq_some_iff.mp front
    have form := digit.isDigit
    have others : ['"', '\'', '[', '{', 't', 'f', ' ', '\t'].all (!Char.isDigit ·) := by decide
    refine ⟨c, more, rfl, fun listed => ?_⟩
    simpa [form] using List.all_eq_true.mp others c listed
  cases number with
  | decimal number => exact ofDecimal number
  | plus => exact ⟨_, _, rfl, by decide⟩
  | minus => exact ⟨_, _, rfl, by decide⟩
  | hexadecimal => exact ⟨_, _, rfl, by decide⟩
  | octal => exact ⟨_, _, rfl, by decide⟩
  | binary => exact ⟨_, _, rfl, by decide⟩

theorem Digits.of_list {base : Nat} (small : base ≤ 16) {ds : List Nat} (filled : ds ≠ [])
    (below : ∀ d ∈ ds, d < base) : Digits base (ds.map Nat.digitChar) ds := by
  induction ds with
  | nil => exact absurd rfl filled
  | cons d ds ih =>
    have inBase := below d (by simp)
    have digit : IsDigit base d.digitChar d := ⟨inBase, by omega, .inl rfl⟩
    cases ds with
    | nil => exact .last digit
    | cons => exact .next digit (ih (by simp) fun d listed => below d (by simp [listed]))

theorem toDigits_eq {base n : Nat} (two : 1 < base) (some' : n ≠ 0) :
    Nat.toDigits base n = (Nat.digits base n).reverse.map Nat.digitChar := by
  induction n using Nat.strongRecOn with
  | ind n ih =>
    rw [Nat.toDigits_eq_if two, Nat.digits_def' two (Nat.pos_of_ne_zero some')]
    split
    · next single => simp [Nat.div_eq_of_lt single, Nat.mod_eq_of_lt single]
    · next long =>
      have front := ih (n / base) (Nat.div_lt_self (Nat.pos_of_ne_zero some') two)
        (Nat.div_pos (by omega) (by omega)).ne'
      simp [front]

theorem Decimal.of_print (n : Nat) : Decimal n.repr.toList n := by
  rw [Nat.toList_repr]
  by_cases zero : n = 0
  · subst zero
    have digit : IsDigit 10 '0' 0 := ⟨by decide, by decide, .inl rfl⟩
    exact ⟨[0], .last digit, fun _ => rfl, by simp⟩
  · have filled : Nat.digits 10 n ≠ [] := Nat.digits_ne_nil_iff_ne_zero.mpr zero
    refine ⟨(Nat.digits 10 n).reverse, ?_, ?_, by rw [List.reverse_reverse, Nat.ofDigits_digits]⟩
    · rw [toDigits_eq (by decide) zero]
      exact Digits.of_list (by decide) (by simpa using filled) fun d listed =>
        Nat.digits_lt_base (by decide) (List.mem_reverse.mp listed)
    · intro lead
      have last := Nat.getLast_digit_ne_zero 10 zero
      rw [List.head?_reverse, List.getLast?_eq_getLast_of_ne_nil filled] at lead
      exact absurd (by simpa using lead) last

theorem Integer.of_print (n : Int) : Integer n.repr.toList n := by
  cases n with
  | ofNat n => exact .decimal (Decimal.of_print n)
  | negSucc n =>
    have number : Integer ('-' :: (n + 1).repr.toList) (-((n + 1 : Nat) : Int)) :=
      .minus (Decimal.of_print (n + 1))
    simpa [Int.repr, Int.negSucc_eq] using number

/-! Values -/

inductive Break : List Char → Prop where
  | feed : Break ['\n']
  | both : Break ['\r', '\n']

def Ends (rest : List Char) : Prop := rest = [] ∨ ∃ b more, Break b ∧ rest = b ++ more

theorem Ends.front {rest : List Char} (ends : Ends rest) :
    rest = [] ∨ ∃ c more, rest = c :: more ∧ (c = '\n' ∨ c = '\r') := by
  obtain rfl | ⟨b, more, break', rfl⟩ := ends
  · exact .inl rfl
  · cases break' with
    | feed => exact .inr ⟨_, _, rfl, .inl rfl⟩
    | both => exact .inr ⟨_, _, rfl, .inr rfl⟩

/-- A value in one of the spellings this theory covers. -/
inductive Spells : List Char → Value → Prop where
  | integer {w n} (number : Integer w n) (wide : IsWide n) : Spells w (.integer n)
  | quoted {cs} (plain : ∀ c ∈ cs, isText c = true ∧ c ≠ '"' ∧ c ≠ '\\') :
      Spells ('"' :: (cs ++ ['"'])) (.string (String.ofList cs))
  | literal {cs} (plain : ∀ c ∈ cs, isText c = true ∧ c ≠ '\'') :
      Spells ('\'' :: (cs ++ ['\''])) (.string (String.ofList cs))

theorem takeWhile_of_stop {p : Char → Bool} {w rest : List Char} (all : ∀ c ∈ w, p c = true)
    (stop : ∀ c ∈ rest.head?, p c = false) : (w ++ rest).takeWhile p = w := by
  rw [List.takeWhile_append_of_pos all]
  cases rest with
  | nil => simp
  | cons c more => simp [stop c (by simp)]

theorem Ends.stops {rest : List Char} (ends : Ends rest) {p : Char → Bool}
    (feed : p '\n' = false) (carriage : p '\r' = false) : ∀ c ∈ rest.head?, p c = false := by
  obtain rfl | ⟨c, more, rfl, rfl | rfl⟩ := ends.front
  · simp
  · simpa using feed
  · simpa using carriage

theorem word_append {w rest : List Char} (all : ∀ c ∈ w, isWord c = true) (ends : Ends rest) :
    word (w ++ rest) = (w, rest) := by
  have first := takeWhile_of_stop all (ends.stops (by decide) (by decide))
  rw [word, first, List.drop_left]
  obtain rfl | ⟨c, more, rfl, rfl | rfl⟩ := ends.front <;> rfl

theorem scalar_append {w rest : List Char} {n : Int} (number : Integer w n) (wide : IsWide n)
    (ends : Ends rest) : scalar? (w ++ rest) = some (.integer n, rest) := by
  obtain ⟨c, more, rfl, first⟩ := number.first
  have noTrue : (c :: more == "true".toList) = false := by
    simp only [beq_eq_false_iff_ne]
    rintro same
    obtain rfl : c = 't' := by simpa using congrArg List.head? same
    simp at first
  have noFalse : (c :: more == "false".toList) = false := by
    simp only [beq_eq_false_iff_ne]
    rintro same
    obtain rfl : c = 'f' := by simpa using congrArg List.head? same
    simp at first
  rw [scalar?, word_append number.word ends]
  simp only [noTrue, noFalse, number.read wide, Bool.false_eq_true, ↓reduceIte]

theorem quotedFuel_append (cs rest : List Char) (fuel : Nat) (enough : cs.length < fuel)
    (plain : ∀ c ∈ cs, isText c = true ∧ c ≠ '"' ∧ c ≠ '\\') :
    quotedFuel fuel (cs ++ '"' :: rest) = some (cs, rest) := by
  induction cs generalizing fuel with
  | nil =>
    obtain ⟨fuel, rfl⟩ : ∃ k, fuel = k + 1 := ⟨fuel - 1, by simp at enough; omega⟩
    simp [quotedFuel]
  | cons c cs ih =>
    obtain ⟨fuel, rfl⟩ : ∃ k, fuel = k + 1 := ⟨fuel - 1, by simp at enough; omega⟩
    obtain ⟨text, quote, slash⟩ := plain c (by simp)
    have tail := ih fuel (by simpa using enough) fun x listed => plain x (by simp [listed])
    simp [quotedFuel, text, tail]

theorem literal_append {cs rest : List Char} (plain : ∀ c ∈ cs, isText c = true ∧ c ≠ '\'') :
    literal? (cs ++ '\'' :: rest) = some (cs, rest) := by
  have text : (cs ++ '\'' :: rest).takeWhile (fun c => isText c && c != '\'') = cs :=
    takeWhile_of_stop (by simpa using plain) (by simp)
  simp [literal?, text]

theorem string_append {quote : Char} {cs rest : List Char}
    (other : ∀ c ∈ cs, c ≠ quote) (ends : Ends rest) (printed : quote = '"' ∨ quote = '\'') :
    string? (quote :: (cs ++ quote :: rest)) = lineString? (quote :: (cs ++ quote :: rest)) := by
  -- Behind two quotes the line ends, so that a third one does not open a longer string.
  have single : ∀ more, cs ++ quote :: rest ≠ quote :: quote :: more := by
    intro more same
    cases cs with
    | nil =>
      obtain rfl | ⟨c, tail, rfl, rfl | rfl⟩ := ends.front
      · simp at same
      · obtain rfl | rfl := printed <;> simp at same
      · obtain rfl | rfl := printed <;> simp at same
    | cons c cs => exact other c (by simp) (by simpa using congrArg List.head? same)
  rw [string?.eq_def]
  split
  · next more same =>
    simp only [List.cons.injEq] at same
    obtain ⟨rfl, same⟩ := same
    exact absurd same (single more)
  · next more same =>
    simp only [List.cons.injEq] at same
    obtain ⟨rfl, same⟩ := same
    exact absurd same (single more)
  · rfl

theorem Spells.read {w rest : List Char} {v : Value} (spelled : Spells w v) (ends : Ends rest) :
    value? (w ++ rest) = some (v, rest) := by
  cases spelled with
  | integer number wide =>
    have scalar := scalar_append number wide ends
    obtain ⟨c, more, rfl, first⟩ := number.first
    simp only [List.mem_cons, List.not_mem_nil, or_false, not_or] at first
    obtain ⟨quote, apostrophe, bracket, brace, -⟩ := first
    rw [value?, valueFuel.eq_def]
    simpa [quote, apostrophe, bracket, brace] using scalar
  | @quoted cs plain =>
    have line := string_append (fun c listed => (plain c listed).2.1) ends (.inl rfl)
    have read := quotedFuel_append cs rest (cs.length + (rest.length + 1) + 1) (by omega) plain
    simp [value?, valueFuel, line, lineString?, read]
  | @literal cs plain =>
    have line := string_append (fun c listed => (plain c listed).2) ends (.inr rfl)
    simp [value?, valueFuel, line, lineString?, literal_append plain]

theorem Spells.first {w : List Char} {v : Value} (spelled : Spells w v) :
    ∃ c more, w = c :: more ∧ isBlank c = false := by
  cases spelled with
  | integer number _ =>
    obtain ⟨c, more, rfl, first⟩ := number.first
    exact ⟨c, more, rfl, by simp_all [isBlank]⟩
  | quoted => exact ⟨_, _, rfl, by decide⟩
  | literal => exact ⟨_, _, rfl, by decide⟩

/-! Lines -/

structure Line where
  name : String
  word : List Char
  value : Value

namespace Line

def text (l : Line) : List Char := l.name.toList ++ ' ' :: '=' :: ' ' :: l.word

def entry (l : Line) : String × Value := (l.name, l.value)

structure Plain (l : Line) : Prop where
  named : l.name ≠ ""
  bare : ∀ c ∈ l.name.toList, isBareKey c = true
  spelled : Spells l.word l.value

end Line

/-- A text of lines. The last of them may do without a line break. -/
inductive Lays : List Line → List Char → Prop where
  | nil : Lays [] []
  | last (l : Line) : Lays [l] l.text
  | line {l ls b cs} (broken : Break b) (tail : Lays ls cs) : Lays (l :: ls) (l.text ++ (b ++ cs))

theorem bare_first {c : Char} (bare : isBareKey c = true) :
    c ∉ [' ', '\t', '#', '\n', '\r', '[', '\ufeff'] := by
  have others : [' ', '\t', '#', '\n', '\r', '[', '\ufeff'].all (!isBareKey ·) := by decide
  intro listed
  simpa [bare] using List.all_eq_true.mp others c listed

theorem skipBlanks_cons {c : Char} (mark : isBlank c = false) (more : List Char) :
    skipBlanks (c :: more) = c :: more := by
  simp [skipBlanks, mark]

namespace Line

variable {l : Line}

theorem Plain.front (plain : l.Plain) :
    ∃ c more, l.name.toList = c :: more ∧ c ∉ [' ', '\t', '#', '\n', '\r', '[', '\ufeff'] := by
  have bare := plain.bare
  cases letters : l.name.toList with
  | nil => exact absurd (String.toList_eq_nil_iff.mp letters) plain.named
  | cons c more => exact ⟨c, more, rfl, bare_first (bare c (by simp [letters]))⟩

theorem Plain.key (plain : l.Plain) (more : List Char) :
    key? (l.name.toList ++ ' ' :: '=' :: more) = some (([], l.name), '=' :: more) := by
  have whole : (l.name.toList ++ ' ' :: '=' :: more).takeWhile isBareKey = l.name.toList :=
    takeWhile_of_stop plain.bare (by simp; decide)
  obtain ⟨c, letters, spelled, first⟩ := plain.front
  have start : skipBlanks (l.name.toList ++ ' ' :: '=' :: more) =
      l.name.toList ++ ' ' :: '=' :: more := by
    rw [spelled]
    exact skipBlanks_cons (by simp_all [isBlank]) _
  have part :
      keyPart? (l.name.toList ++ ' ' :: '=' :: more) = some (l.name, ' ' :: '=' :: more) := by
    rw [keyPart?, whole, List.drop_left]
    simp [plain.named]
  have gap : skipBlanks (' ' :: '=' :: more) = '=' :: more := by simp [skipBlanks, isBlank]
  obtain ⟨fuel, long⟩ : ∃ fuel, (l.name.toList ++ ' ' :: '=' :: more).length = fuel + 1 :=
    ⟨_, by simp; rfl⟩
  have parts : keyFuel (l.name.toList ++ ' ' :: '=' :: more).length
      (l.name.toList ++ ' ' :: '=' :: more) = some ([l.name], '=' :: more) := by
    rw [long, keyFuel, start, part]
    simp [gap]
  rw [key?, parts]
  simp [depthLimit]

theorem Plain.pair (plain : l.Plain) {d : Document} (top : d.path = [])
    (fresh : l.name ∉ d.root.map Prod.fst) {rest : List Char} (ends : Ends rest) :
    d.pair? (l.text ++ rest) = some (⟨d.root ++ [l.entry], []⟩, rest) := by
  obtain ⟨c, more, spelled, solid⟩ := plain.spelled.first
  have key := plain.key (' ' :: (l.word ++ rest))
  have space : skipBlanks (' ' :: (l.word ++ rest)) = l.word ++ rest := by
    rw [spelled, List.cons_append]
    simp [skipBlanks, isBlank, show (c == ' ' || c == '\t') = false from solid]
  have equals : skipBlanks ('=' :: ' ' :: (l.word ++ rest)) = '=' :: ' ' :: (l.word ++ rest) :=
    skipBlanks_cons (by decide) _
  have unknown : d.root.find? l.name = none := by
    rw [Entries.find?, List.lookup_eq_none_iff]
    intro e listed
    have other : l.name ≠ e.1 := fun same => fresh (by simpa [same] using ⟨e.2, listed⟩)
    simpa using other
  simp only [text, List.append_assoc, List.cons_append]
  rw [Document.pair?, key]
  simp [equals, expect?, space, plain.spelled.read ends, top, Entries.within?,
    Entries.addDotted?, Entries.addNew?, unknown, Entries.add, entry]

theorem Plain.line (plain : l.Plain) {d : Document} (top : d.path = [])
    (fresh : l.name ∉ d.root.map Prod.fst) {rest after : List Char} (ends : Ends rest)
    (broken : lineEnd? rest = some after) :
    d.line? (l.text ++ rest) = some (⟨d.root ++ [l.entry], []⟩, after) := by
  have pair := plain.pair top fresh ends
  obtain ⟨c, more, spelled, first⟩ := plain.front
  obtain ⟨more, begun⟩ : ∃ more, l.text ++ rest = c :: more := ⟨_, by rw [text, spelled]; rfl⟩
  simp only [List.mem_cons, List.not_mem_nil, or_false, not_or] at first
  obtain ⟨space, tab, hash, feed, carriage, bracket, -⟩ := first
  have start : skipBlanks (c :: more) = c :: more :=
    skipBlanks_cons (by simp [isBlank, space, tab]) more
  have content : lineEnd? (c :: more) = none := by
    rw [lineEnd?, start]
    simp [hash, lineBreak?, feed, carriage]
  rw [begun] at pair ⊢
  simp [Document.line?, content, start, bracket, pair, broken]

end Line

theorem lineEnd_break {b : List Char} (broken : Break b) (more : List Char) :
    lineEnd? (b ++ more) = some more := by
  cases broken with
  | feed => simp [lineEnd?, skipBlanks, isBlank, lineBreak?]
  | both => simp [lineEnd?, skipBlanks, isBlank, lineBreak?]

theorem linesFuel_step {d d' : Document} {cs after : List Char} (some' : cs ≠ [])
    (line : d.line? cs = some (d', after)) (fuel : Nat) :
    Document.linesFuel (fuel + 1) d cs = Document.linesFuel fuel d' after := by
  cases cs with
  | nil => exact absurd rfl some'
  | cons c cs => simp [Document.linesFuel, line]

theorem linesFuel_lays {ls : List Line} {cs : List Char} (laid : Lays ls cs)
    (plain : ∀ l ∈ ls, l.Plain) (apart : (ls.map Line.name).Nodup) (fuel : Nat)
    (enough : cs.length ≤ fuel) (d : Document) (top : d.path = [])
    (fresh : ∀ l ∈ ls, l.name ∉ d.root.map Prod.fst) :
    Document.linesFuel fuel d cs = some ⟨d.root ++ ls.map Line.entry, []⟩ := by
  have long : ∀ l : Line, 3 ≤ l.text.length := fun l => by simp [Line.text]; omega
  have filled : ∀ (l : Line) rest, l.text ++ rest ≠ [] := fun l rest => by simp [Line.text]
  induction laid generalizing fuel d with
  | nil =>
    obtain ⟨root, path⟩ := d
    obtain rfl : path = [] := top
    cases fuel <;> simp [Document.linesFuel]
  | last l =>
    have read := (plain l (by simp)).line top (fresh l (by simp)) (.inl rfl)
      (show lineEnd? [] = some [] from rfl)
    obtain ⟨fuel, rfl⟩ : ∃ k, fuel = k + 1 := ⟨fuel - 1, by have := long l; omega⟩
    rw [← List.append_nil l.text, linesFuel_step (filled l []) read]
    cases fuel <;> simp [Document.linesFuel]
  | @line l ls b cs broken tail ih =>
    have read := (plain l (by simp)).line top (fresh l (by simp)) (.inr ⟨b, cs, broken, rfl⟩)
      (lineEnd_break broken cs)
    simp only [List.map_cons, List.nodup_cons] at apart
    simp only [List.length_append] at enough
    obtain ⟨fuel, rfl⟩ : ∃ k, fuel = k + 1 := ⟨fuel - 1, by have := long l; omega⟩
    have others : ∀ l' ∈ ls, l'.name ∉ (d.root ++ [l.entry]).map Prod.fst := by
      intro l' listed
      have new := fresh l' (by simp [listed])
      have other : l'.name ≠ l.name := fun same => apart.1 (by
        rw [← same]
        exact List.mem_map_of_mem listed)
      simpa [Line.entry, other] using new
    rw [linesFuel_step (filled l _) read, ih (fun l' listed => plain l' (by simp [listed])) apart.2
      fuel (by have := long l; omega) _ rfl others]
    simp

theorem read_lays {ls : List Line} {text : String} (laid : Lays ls text.toList)
    (plain : ∀ l ∈ ls, l.Plain) (apart : (ls.map Line.name).Nodup) :
    read? text = some (ls.map Line.entry) := by
  have lines := linesFuel_lays laid plain apart text.toList.length (Nat.le_refl _) {} rfl (by simp)
  have unmarked : ∀ cs, text.toList ≠ '\ufeff' :: cs := by
    intro cs marked
    rw [marked] at laid
    have noMark : ∀ (l : Line) rest, l.Plain → l.text ++ rest ≠ '\ufeff' :: cs := by
      intro l rest plain same
      obtain ⟨c, more, spelled, first⟩ := plain.front
      obtain rfl : c = '\ufeff' := by simpa [Line.text, spelled] using congrArg List.head? same
      simp at first
    generalize whole : '\ufeff' :: cs = all at laid
    cases laid with
    | nil => simp at whole
    | last l => exact noMark l [] (plain l (by simp)) (by rw [List.append_nil, whole])
    | @line l ls b tail => exact noMark l _ (plain l (by simp)) whole.symm
  rw [read?.eq_def]
  split
  · exact absurd ‹_› (unmarked _)
  · simp [lines]

/-! Libraries -/

/-- A name and a value that one line can hold without quoting anything but bare characters. -/
structure IsFlat (e : String × Value) : Prop where
  named : e.1 ≠ ""
  bare : ∀ c ∈ e.1.toList, isBareKey c = true
  word : (∃ n, e.2 = .integer n ∧ IsWide n) ∨
    ∃ text : String, e.2 = .string text ∧ ∀ c ∈ text.toList, isBareKey c = true

namespace Library

/-- A text of plain lines with different names is read as the table of their entries, in any
    order. -/
def Reads (lib : Library) : Prop :=
  ∀ (ls : List Line) (text : String), Lays ls text.toList → (∀ l ∈ ls, l.Plain) →
    (ls.map Line.name).Nodup → ∃ es, lib.read? text = some es ∧ es.Perm (ls.map Line.entry)

/-- What is printed of a flat table is one plain line for each entry, in any order. A table may be
    refused. -/
def Prints (lib : Library) : Prop :=
  ∀ (es : Entries) (text : String), (∀ e ∈ es, IsFlat e) → (es.map Prod.fst).Nodup →
    lib.print? es = some text →
    ∃ ls, Lays ls text.toList ∧ (∀ l ∈ ls, l.Plain) ∧ (ls.map Line.entry).Perm es

end Library

theorem plain_reads : plain.Reads := by
  intro ls text laid plain apart
  exact ⟨_, read_lays laid plain apart, .refl _⟩

theorem bare_text {c : Char} (bare : isBareKey c = true) :
    isText c = true ∧ c ≠ '"' ∧ c ≠ '\\' := by
  have others : ['"', '\\', '\x7f'].all (!isBareKey ·) := by decide
  have listed : c ∉ ['"', '\\', '\x7f'] := fun listed => by
    simpa [bare] using List.all_eq_true.mp others c listed
  simp only [List.mem_cons, List.not_mem_nil, or_false, not_or] at listed
  have controls : ∀ n < 0x20, isBareKey (Char.ofNat n) = false := by decide
  have low : 0x20 ≤ c.val := by
    by_contra control
    have below : c.toNat < 0x20 := UInt32.lt_iff_toNat_lt.mp (UInt32.not_le.mp control)
    have unnamed := controls c.toNat below
    rw [Char.ofNat_toNat, bare] at unnamed
    cases unnamed
  have top : c.val ≠ 0x7f := fun same => listed.2.2 (Char.ext same)
  exact ⟨by simp [isText, low, top], listed.1, listed.2.1⟩

theorem Spells.of_print {e : String × Value} (flat : IsFlat e) :
    ∃ word, printValue? e.2 = some word ∧ Spells word.toList e.2 := by
  obtain ⟨n, said, wide⟩ | ⟨text, said, bare⟩ := flat.word
  · exact ⟨n.repr, by rw [said]; rfl, by rw [said]; exact .integer (.of_print n) wide⟩
  · have plain : ∀ c ∈ text.toList, isText c = true ∧ c ≠ '"' ∧ c ≠ '\\' :=
      fun c listed => bare_text (bare c listed)
    have quoted := Spells.quoted plain
    rw [String.ofList_toList] at quoted
    refine ⟨s!"\"{text}\"", ?_, ?_⟩
    · rw [said, printValue?, if_pos (by simpa [and_assoc] using plain)]
    · simpa [said, toString] using quoted

theorem print_lays {es : Entries} (flat : ∀ e ∈ es, IsFlat e) :
    ∃ ls text, print? es = some text ∧ Lays ls text.toList ∧ (∀ l ∈ ls, l.Plain) ∧
      ls.map Line.entry = es := by
  induction es with
  | nil => exact ⟨[], "", rfl, .nil, by simp, rfl⟩
  | cons e es ih =>
    obtain ⟨ls, rest, printed, laid, plain, same⟩ := ih fun e listed => flat e (by simp [listed])
    have front := flat e (by simp)
    obtain ⟨word, value, spelled⟩ := Spells.of_print front
    let l : Line := ⟨e.1, word.toList, e.2⟩
    have bare : (e.1.isEmpty || !e.1.toList.all isBareKey) = false := by
      simpa [front.named] using front.bare
    refine ⟨l :: ls, s!"{e.1} = {word}\n" ++ rest, ?_, ?_, ?_, by simp [same, l, Line.entry]⟩
    · simp [print?, bare, value, printed]
    · simpa [l, Line.text, toString] using Lays.line (l := l) .feed laid
    · simpa using ⟨⟨front.named, front.bare, spelled⟩, plain⟩

theorem plain_prints : plain.Prints := by
  intro es text flat _ printed
  obtain ⟨ls, text', printed', laid, plain, same⟩ := print_lays flat
  obtain rfl : text' = text := Option.some.inj (printed'.symm.trans printed)
  exact ⟨ls, laid, plain, by rw [same]⟩

end PcmStream.Toml
