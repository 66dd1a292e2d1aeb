import Mathlib.Data.Nat.Notation
import TreeCompiler.Text.Integer

set_option autoImplicit false

namespace TreeCompiler.Text

def IsNumeral (digits : List Char) (n : Nat) : Prop :=
  digits ≠ [] ∧ (∀ c ∈ digits, c.isDigit = true) ∧ n = Nat.ofDigitChars 10 digits 0

inductive IsWhole : List Char → Nat → Prop
  | plain {digits : List Char} {n : Nat} (isNumeral : IsNumeral digits n) : IsWhole digits n
  | plus {digits : List Char} {n : Nat} (isNumeral : IsNumeral digits n) : IsWhole ('+' :: digits) n

inductive IsInteger : List Char → Int → Prop
  | whole {text : List Char} {n : Nat} (isWhole : IsWhole text n) : IsInteger text n
  | minus {digits : List Char} {n : Nat} (isNumeral : IsNumeral digits n) :
      IsInteger ('-' :: digits) (-n)

theorem le_ofDigitChars (digits : List Char) (value : Nat) :
    value ≤ Nat.ofDigitChars 10 digits value := by
  rw [Nat.ofDigitChars_eq_ofDigitChars_zero]
  have scaled : 0 < 10 ^ digits.length := Nat.pow_pos (by decide)
  exact Nat.le_trans (Nat.le_mul_of_pos_left _ scaled) (Nat.le_add_right _ _)

section Reading

variable {limit value n : Nat} {past : IntegerFault} {digits : List Char} {text : String}

theorem readDigits_eq_ok (within : value ≤ limit) :
    readDigits limit past value digits = .ok n ↔
      (∀ c ∈ digits, c.isDigit = true) ∧ n = Nat.ofDigitChars 10 digits value ∧ n ≤ limit := by
  induction digits generalizing value with
  | nil =>
      rw [readDigits, Nat.ofDigitChars_nil]
      constructor
      · rintro ⟨⟩
        exact ⟨List.forall_mem_nil _, rfl, within⟩
      · rintro ⟨-, rfl, -⟩
        rfl
  | cons c digits ih =>
      rw [readDigits, Nat.ofDigitChars_cons, Nat.mul_comm 10, List.forall_mem_cons]
      dsimp only
      generalize value * 10 + (c.toNat - '0'.toNat) = next at ih ⊢
      by_cases isDigit : c.isDigit = true
      · by_cases fits : next ≤ limit
        · simp only [isDigit, if_true, fits, ih fits, true_and]
        · have grows := le_ofDigitChars digits next
          have exceeds : ¬(n = Nat.ofDigitChars 10 digits next ∧ n ≤ limit) := by omega
          simp only [isDigit, if_true, fits, if_false, exceeds, and_false, reduceCtorEq]
      · simp [isDigit]

theorem readNumeral_eq_ok :
    readNumeral limit past digits = .ok n ↔ IsNumeral digits n ∧ n ≤ limit := by
  cases digits with
  | nil => simp [readNumeral, IsNumeral]
  | cons c digits =>
      have digitsRead : readNumeral limit past (c :: digits) =
        readDigits limit past 0 (c :: digits) := rfl
      rw [digitsRead, readDigits_eq_ok (Nat.zero_le _), IsNumeral]
      simp only [ne_eq, reduceCtorEq, not_false_eq_true, true_and, and_assoc]

theorem not_isNumeral_sign {c : Char} (isSign : c.isDigit = false) : ¬IsNumeral (c :: digits) n := by
  rintro ⟨-, allDigits, -⟩
  rw [allDigits c List.mem_cons_self] at isSign
  cases isSign

theorem isWhole_plus : IsWhole ('+' :: digits) n ↔ IsNumeral digits n := by
  constructor
  · rintro (isNumeral | isNumeral)
    · exact absurd isNumeral (not_isNumeral_sign rfl)
    · exact isNumeral
  · exact .plus

theorem isWhole_unsigned (unsigned : digits.head? ≠ some '+') :
    IsWhole digits n ↔ IsNumeral digits n := by
  constructor
  · rintro (isNumeral | -)
    · exact isNumeral
    · exact absurd rfl unsigned
  · exact .plain

theorem readNat_eq_ok : readNat limit text = .ok n ↔ IsWhole text.toList n ∧ n ≤ limit := by
  unfold readNat
  split
  next empty =>
    rw [empty, isWhole_unsigned (by decide)]
    simp [IsNumeral]
  next digits signed => rw [signed, isWhole_plus, readNumeral_eq_ok]
  next filled unsigned =>
    rw [readNumeral_eq_ok, isWhole_unsigned]
    intro head
    obtain ⟨digits, signed⟩ := List.head?_eq_some_iff.mp head
    exact unsigned digits signed

theorem readInt64_minus (signed : text.toList = '-' :: digits) :
    readInt64 text =
      (readNumeral 0x8000000000000000 .tooSmall digits).map fun n : Nat => -(n : Int) := by
  rw [readInt64, signed]
  rfl

theorem readInt64_unsigned (unsigned : text.toList.head? ≠ some '-') :
    readInt64 text = (readNat 0x7fffffffffffffff text).map Int.ofNat := by
  unfold readInt64 readNat
  generalize text.toList = written at unsigned
  cases written with
  | nil => rfl
  | cons c digits =>
      by_cases plus : c = '+'
      · subst plus
        rfl
      · have noMinus : c ≠ '-' := fun minus => unsigned (congrArg some minus)
        simp [plus, noMinus]

theorem isInteger_minus {value : Int} :
    IsInteger ('-' :: digits) value ↔ ∃ n : Nat, IsNumeral digits n ∧ value = -n := by
  constructor
  · rintro (isWhole | isNumeral)
    · rw [isWhole_unsigned (by simp)] at isWhole
      exact absurd isWhole (not_isNumeral_sign rfl)
    · exact ⟨_, isNumeral, rfl⟩
  · rintro ⟨n, isNumeral, rfl⟩
    exact .minus isNumeral

theorem isInteger_unsigned {value : Int} (unsigned : digits.head? ≠ some '-') :
    IsInteger digits value ↔ ∃ n : Nat, IsWhole digits n ∧ value = n := by
  constructor
  · rintro (isWhole | -)
    · exact ⟨_, isWhole, rfl⟩
    · exact absurd rfl unsigned
  · rintro ⟨n, isWhole, rfl⟩
    exact .whole isWhole

theorem map_eq_ok {α β ε : Type} {read : Except ε α} {f : α → β} {b : β} :
    read.map f = .ok b ↔ ∃ a, read = .ok a ∧ f a = b := by
  cases read <;> simp [Except.map]

theorem readInt64_eq_ok {value : Int} : readInt64 text = .ok value ↔
    IsInteger text.toList value ∧ -0x8000000000000000 ≤ value ∧ value ≤ 0x7fffffffffffffff := by
  by_cases signed : text.toList.head? = some '-'
  · obtain ⟨digits, written⟩ := List.head?_eq_some_iff.mp signed
    rw [readInt64_minus written, map_eq_ok, written, isInteger_minus]
    simp only [readNumeral_eq_ok]
    constructor
    · rintro ⟨n, ⟨isNumeral, within⟩, rfl⟩
      exact ⟨⟨n, isNumeral, rfl⟩, by omega, by omega⟩
    · rintro ⟨⟨n, isNumeral, rfl⟩, low, -⟩
      exact ⟨n, ⟨isNumeral, by omega⟩, rfl⟩
  · rw [readInt64_unsigned signed, map_eq_ok, isInteger_unsigned signed]
    simp only [readNat_eq_ok]
    constructor
    · rintro ⟨n, ⟨isWhole, within⟩, rfl⟩
      exact ⟨⟨n, isWhole, rfl⟩, by simp, by simp; omega⟩
    · rintro ⟨⟨n, isWhole, rfl⟩, -, high⟩
      exact ⟨n, ⟨isWhole, by omega⟩, rfl⟩

end Reading

end TreeCompiler.Text
