import Mathlib.Tactic.IntervalCases
import TreeCompiler.Json.Reader.Shape
import TreeCompiler.Json.Value
import TreeCompiler.Proofs.IntegerTexts

set_option autoImplicit false

namespace TreeCompiler.Json

def IsDigits (text : List Char) : Prop := text ≠ [] ∧ ∀ c ∈ text, c.isDigit = true

namespace Reader

variable {α β : Type}

theorem bind_of_ok {reader : Reader α} {next : α → Reader β} {text rest : List Char} {value : α}
    (read : reader text = .ok (value, rest)) : (reader >>= next) text = next value rest := by
  simp only [bind, StateT.bind, read, Except.bind]

theorem next?_of_notBlank {c : Char} (notBlank : isBlank c = false) (text : List Char) :
    next? (c :: text) = .ok (some c, c :: text) := by
  simp [next?, notBlank]

def EndsValue (rest : List Char) : Prop :=
  ∀ c ∈ rest.head?, c = ',' ∨ c = ']' ∨ c = '}'

/-- A reader takes a text off the front and gives a value, whatever comes after the text. -/
def Reads (reader : Reader α) (text : List Char) (value : α) : Prop :=
  ∀ rest, EndsValue rest → reader (text ++ rest) = .ok (value, rest)

section Strings

open Value

theorem codeUnit_append {text rest : List Char} {unit : Nat}
    (read : codeUnit text = .ok (unit, rest)) (more : List Char) :
    codeUnit (text ++ more) = .ok (unit, rest ++ more) := by
  unfold codeUnit at read
  split at read
  next a b c d rest' =>
    split at read
    next unit' found =>
      cases read
      simp [codeUnit, found]
    next => cases read
  next => cases read

theorem codeUnit_hexDigits {n : Nat} (control : n < 0x20) : codeUnit (hexDigits n) = .ok (n, []) := by
  interval_cases n <;> rfl

theorem stringFrom_escape {text rest : List Char} {c : Char} (read : escape text = .ok (c, rest))
    (reversed : List Char) : stringFrom reversed ('\\' :: text) = stringFrom (c :: reversed) rest := by
  rw [stringFrom]
  split <;> simp_all

theorem stringFrom_plain {c : Char} (noQuote : c ≠ '"') (noBackslash : c ≠ '\\')
    (noControl : ¬c.toNat < 0x20) (reversed rest : List Char) :
    stringFrom reversed (c :: rest) = stringFrom (c :: reversed) rest := by
  rw [stringFrom.eq_def]
  split <;> simp_all

theorem escape_control {c : Char} (control : c.toNat < 0x20) (rest : List Char) :
    escape ('u' :: (hexDigits c.toNat ++ rest)) = .ok (c, rest) := by
  have unit : codeUnit (hexDigits c.toNat ++ rest) = .ok (c.toNat, rest) :=
    codeUnit_append (codeUnit_hexDigits control) rest
  have notLow : isLowSurrogate c.toNat = false := by simp [isLowSurrogate]; omega
  have notHigh : isHighSurrogate c.toNat = false := by simp [isHighSurrogate]; omega
  simp [escape, unit, bind, Except.bind, notLow, notHigh]

theorem stringFrom_escaped (c : Char) (reversed rest : List Char) :
    stringFrom reversed (escaped c ++ rest) = stringFrom (c :: reversed) rest := by
  unfold escaped
  split
  iterate 7 exact stringFrom_escape rfl reversed
  next c noQuote noBackslash _ _ _ _ _ =>
    split
    next control => exact stringFrom_escape (escape_control control rest) reversed
    next noControl => exact stringFrom_plain noQuote noBackslash noControl reversed rest

theorem stringFrom_written (chars reversed rest : List Char) :
    stringFrom reversed (chars.flatMap escaped ++ '"' :: rest) =
      .ok (String.ofList (reversed.reverse ++ chars), rest) := by
  induction chars generalizing reversed with
  | nil => simp [stringFrom]
  | cons c chars ih =>
      rw [List.flatMap_cons, List.append_assoc, stringFrom_escaped, ih]
      simp

theorem string_written (text : String) (rest : List Char) :
    string (stringChars text ++ rest) = .ok (text, rest) := by
  have opened : string (stringChars text ++ rest) =
      stringFrom [] (text.toList.flatMap escaped ++ '"' :: rest) := by
    simp only [stringChars, List.cons_append, List.append_assoc, List.nil_append]
    rfl
  rw [opened, stringFrom_written, List.reverse_nil, List.nil_append, String.ofList_toList]

end Strings

section Numbers

variable {rest : List Char}

theorem EndsValue.cases (ends : EndsValue rest) :
    rest = [] ∨ ∃ after, rest = ',' :: after ∨ rest = ']' :: after ∨ rest = '}' :: after := by
  cases rest with
  | nil => exact .inl rfl
  | cons c after =>
      have head := ends c rfl
      exact .inr ⟨after, by simpa using head⟩

def EndsDigits (rest : List Char) : Prop := ∀ c ∈ rest.head?, c.isDigit = false

theorem EndsValue.endsDigits (ends : EndsValue rest) : EndsDigits rest := by
  intro c head
  rcases ends c head with rfl | rfl | rfl <;> rfl

theorem digits_append {text : List Char} (cutOff : Fault) (isDigits : IsDigits text)
    (ends : EndsDigits rest) : digits cutOff (text ++ rest) = .ok (text, rest) := by
  have nothing : rest.takeWhile Char.isDigit = [] ∧ rest.dropWhile Char.isDigit = rest := by
    cases rest with
    | nil => exact ⟨rfl, rfl⟩
    | cons c rest =>
        have noDigit := ends c rfl
        simp [noDigit]
  rw [digits, List.takeWhile_append_of_pos isDigits.2, List.dropWhile_append_of_pos isDigits.2,
    nothing.1, nothing.2, List.append_nil]
  cases text with
  | nil => exact absurd rfl isDigits.1
  | cons => rfl

theorem wholePart_append {whole : List Char} (cutOff : Fault) (isWhole : IsDigits whole)
    (noZero : whole = ['0'] ∨ whole.head? ≠ some '0') (ends : EndsDigits rest) :
    wholePart cutOff (whole ++ rest) = .ok (whole, rest) := by
  rw [wholePart, digits_append cutOff isWhole ends]
  split
  next second others after read =>
    -- A zero before other digits is neither the only digit nor no zero.
    obtain ⟨rfl, rfl⟩ := Prod.mk.inj (Except.ok.inj read)
    simp at noZero
  next => rfl

theorem head?_toDigits {n : Nat} (positive : 0 < n) : (Nat.toDigits 10 n).head? ≠ some '0' := by
  induction n using Nat.strongRecOn with
  | ind n ih =>
      by_cases small : n < 10
      next =>
        have nonzero : n ≠ 0 := by omega
        simp [Nat.toDigits_of_lt_base small, nonzero]
      next =>
        have higher := ih (n / 10) (by omega) (by omega)
        obtain ⟨first, others, split⟩ := List.exists_cons_of_ne_nil
          (Nat.toDigits_ne_nil (n := n / 10) (b := 10))
        rw [Nat.toDigits_of_base_le (by decide) (by omega)]
        simpa [split] using higher

theorem isDigits_toDigits (n : Nat) : IsDigits (Nat.toDigits 10 n) :=
  ⟨Nat.toDigits_ne_nil, fun _ member => Nat.isDigit_of_mem_toDigits (by decide) (by decide) member⟩

theorem wholePart_written (cutOff : Fault) (n : Nat) (ends : EndsValue rest) :
    wholePart cutOff (Nat.toDigits 10 n ++ rest) = .ok (Nat.toDigits 10 n, rest) := by
  refine wholePart_append cutOff (isDigits_toDigits n) ?_ ends.endsDigits
  rcases Nat.eq_zero_or_pos n with rfl | positive
  · exact .inl rfl
  · exact .inr (head?_toDigits positive)

theorem fractionPart_written (cutOff : Fault) (ends : EndsValue rest) :
    fractionPart cutOff rest = .ok (none, rest) := by
  obtain rfl | ⟨after, rfl | rfl | rfl⟩ := ends.cases <;> rfl

theorem exponentPart_written (cutOff : Fault) (ends : EndsValue rest) :
    exponentPart cutOff rest = .ok (none, rest) := by
  obtain rfl | ⟨after, rfl | rfl | rfl⟩ := ends.cases <;> rfl

theorem exists_toDigits (n : Nat) :
    ∃ first others, Nat.toDigits 10 n = first :: others ∧ first.isDigit := by
  obtain ⟨first, others, written⟩ := List.exists_cons_of_ne_nil
    (Nat.toDigits_ne_nil (n := n) (b := 10))
  exact ⟨first, others, written, (isDigits_toDigits n).2 first (written ▸ List.mem_cons_self)⟩

theorem numeral_written (cutOff : Fault) (n : Nat) (ends : EndsValue rest) :
    numeral cutOff (Nat.toDigits 10 n ++ rest) =
      .ok (⟨false, Nat.toDigits 10 n, none, none⟩, rest) := by
  have whole := wholePart_written cutOff n ends
  obtain ⟨first, others, written, isDigit⟩ := exists_toDigits n
  rw [written, List.cons_append] at whole ⊢
  have unsigned : first ≠ '-' := by
    rintro rfl
    cases isDigit
  simp [numeral, unsigned, whole, fractionPart_written cutOff ends,
    exponentPart_written cutOff ends, bind, Except.bind, pure, Except.pure]

theorem numeral_written_negative (cutOff : Fault) (n : Nat) (ends : EndsValue rest) :
    numeral cutOff ('-' :: (Nat.toDigits 10 n ++ rest)) =
      .ok (⟨true, Nat.toDigits 10 n, none, none⟩, rest) := by
  simp [numeral, wholePart_written cutOff n ends, fractionPart_written cutOff ends,
    exponentPart_written cutOff ends, bind, Except.bind, pure, Except.pure]

-- A significand only grows, so that it fits all along if it fits at the end.
theorem appendDigits_of_fits {significand : Nat} {written : List Char}
    (fits : Nat.ofDigitChars 10 written significand < UInt64.size) :
    appendDigits significand written = (Nat.ofDigitChars 10 written significand, []) := by
  induction written generalizing significand with
  | nil => rfl
  | cons c written ih =>
      rw [Nat.ofDigitChars_cons, Nat.mul_comm] at fits ⊢
      have grows := Text.le_ofDigitChars written (significand * 10 + digitValue c)
      rw [appendDigits, if_pos (Nat.lt_of_le_of_lt grows fits)]
      exact ih fits

theorem appendDigits_toDigits {n : Nat} (fits : n < UInt64.size) :
    appendDigits 0 (Nat.toDigits 10 n) = (n, []) := by
  rw [appendDigits_of_fits] <;> rw [Nat.ofDigitChars_ten_toDigits]
  exact fits

theorem number_written_natural {n : Nat} (fits : n < UInt64.size) (ends : EndsValue rest) :
    number (Nat.toDigits 10 n ++ rest) = .ok (.integer n, rest) := by
  simp [number, numeral_written _ n ends, Numeral.toNumber, appendDigits_toDigits fits, bind,
    Except.bind, pure, Except.pure]

theorem number_written_negative {n : Nat} (positive : 0 < n) (fits : n ≤ 0x8000000000000000)
    (ends : EndsValue rest) :
    number ('-' :: (Nat.toDigits 10 n ++ rest)) = .ok (.integer (-n), rest) := by
  have small : n < UInt64.size := Nat.lt_of_le_of_lt fits (by decide)
  simp [number, numeral_written_negative _ n ends, Numeral.toNumber, appendDigits_toDigits small,
    positive, fits, bind, Except.bind, pure, Except.pure]

theorem ne_of_startsNumber {c other : Char} (starts : (c = '-' || c.isDigit) = true)
    (noStart : (other = '-' || other.isDigit) = false) : c ≠ other := by
  rintro rfl
  rw [starts] at noStart
  cases noStart

theorem isBlank_of_startsNumber {c : Char} (starts : (c = '-' || c.isDigit) = true) :
    isBlank c = false := by
  simp only [isBlank, Bool.or_eq_false_iff, decide_eq_false_iff_not]
  refine ⟨⟨⟨?_, ?_⟩, ?_⟩, ?_⟩ <;> exact ne_of_startsNumber starts rfl

theorem found_number {c : Char} {text : List Char} {value : Number}
    (starts : (c = '-' || c.isDigit) = true) (read : number (c :: text) = .ok (value, rest)) :
    found (c :: text) = .ok (.number value, rest) := by
  rw [found, bind_of_ok (next?_of_notBlank (isBlank_of_startsNumber starts) text)]
  -- The character is none of those that start a value of another kind.
  generalize same : some c = character
  split
  iterate 6 exact absurd (Option.some.inj same) (ne_of_startsNumber starts rfl)
  next =>
    cases same
    rw [if_pos starts, bind_of_ok read]
    rfl
  next => cases same

theorem exists_chars_number (value : Int) :
    ∃ c text, (Value.number value).chars = c :: text ∧ (c = '-' || c.isDigit) = true := by
  rw [Value.chars, Int.repr_eq_if]
  split
  next =>
    obtain ⟨first, others, written, isDigit⟩ := exists_toDigits value.toNat
    exact ⟨first, others, by rw [Nat.toList_repr, written], by simp [isDigit]⟩
  next => exact ⟨'-', Nat.toDigits 10 (-value).toNat, by simp, rfl⟩

theorem number_written {value : Int} (signed : -0x8000000000000000 ≤ value)
    (unsigned : value < UInt64.size) (ends : EndsValue rest) :
    number ((Value.number value).chars ++ rest) = .ok (.integer value, rest) := by
  rw [Value.chars, Int.repr_eq_if]
  split
  next natural =>
    obtain ⟨n, rfl⟩ := Int.eq_ofNat_of_zero_le natural
    rw [Int.toNat_natCast, Nat.toList_repr]
    exact number_written_natural (by omega) ends
  next negative =>
    obtain ⟨n, rfl⟩ : ∃ n : Nat, value = -n := ⟨(-value).toNat, by omega⟩
    rw [Int.neg_neg, Int.toNat_natCast, String.toList_append, Nat.toList_repr]
    exact number_written_negative (by omega) (by omega) ends

theorem integer_written {low high value : Int} (expected : String)
    (within : low ≤ value ∧ value ≤ high) (signed : -0x8000000000000000 ≤ value)
    (unsigned : value < UInt64.size) :
    Reads (integer low high expected) (Value.number value).chars value := by
  intro rest ends
  have read := number_written signed unsigned ends
  obtain ⟨c, text, written, starts⟩ := exists_chars_number value
  rw [written, List.cons_append] at read ⊢
  rw [integer, bind_of_ok (found_number starts read)]
  simp [within]
  rfl

end Numbers

end Reader

end TreeCompiler.Json
