import TreeCompiler.Proofs.JsonScalars

set_option autoImplicit false

namespace TreeCompiler.Json

open Value (stringChars escaped)

namespace Reader.Bracket

def opening : Bracket → Char
  | list => '['
  | object => '{'

def closing : Bracket → Char
  | list => ']'
  | object => '}'

def enclose (bracket : Bracket) : List (List Char) → List Char
  | [] => [bracket.opening, bracket.closing]
  | first :: rest => bracket.opening :: (first ++ rest.flatMap (',' :: ·) ++ [bracket.closing])

def dueItem : Bracket → Due
  | list => .value
  | object => .member

end Reader.Bracket

def listChars (elements : List (List Char)) : List Char := Reader.Bracket.list.enclose elements

def memberChars (member : String × List Char) : List Char :=
  stringChars member.1 ++ ':' :: member.2

def objectChars (members : List (String × List Char)) : List Char :=
  Reader.Bracket.object.enclose (members.map memberChars)

inductive IsFraction : List Char → Prop
  | absent : IsFraction []
  | present {digits : List Char} (isDigits : IsDigits digits) : IsFraction ('.' :: digits)

inductive IsExponent : List Char → Prop
  | absent : IsExponent []
  | present {mark : Char} {sign digits : List Char} (isMark : mark = 'e' ∨ mark = 'E')
      (isSign : sign = [] ∨ sign = ['+'] ∨ sign = ['-']) (isDigits : IsDigits digits) :
      IsExponent (mark :: (sign ++ digits))

inductive IsNumeral : List Char → Prop
  -- No other digit comes before the point where a zero is the first.
  | intro {sign whole fraction exponent : List Char} (isSign : sign = [] ∨ sign = ['-'])
      (isWhole : IsDigits whole) (noZero : whole = ['0'] ∨ whole.head? ≠ some '0')
      (isFraction : IsFraction fraction) (isExponent : IsExponent exponent) :
      IsNumeral (sign ++ (whole ++ (fraction ++ exponent)))

/-- The text of a JSON value, written without blanks. -/
inductive IsValue : List Char → Prop
  | null : IsValue ['n', 'u', 'l', 'l']
  | true : IsValue ['t', 'r', 'u', 'e']
  | false : IsValue ['f', 'a', 'l', 's', 'e']
  | number {text : List Char} (isNumeral : IsNumeral text) : IsValue text
  | string (text : String) : IsValue (stringChars text)
  | list {elements : List (List Char)} (each : ∀ element ∈ elements, IsValue element) :
      IsValue (listChars elements)
  | object {members : List (String × List Char)} (each : ∀ member ∈ members, IsValue member.2) :
      IsValue (objectChars members)

namespace Reader

variable {rest : List Char} {enclosing : List Bracket}

section Numerals

theorem endsDigits_exponent {exponent : List Char} (isExponent : IsExponent exponent)
    (ends : EndsValue rest) : EndsDigits (exponent ++ rest) ∧ (exponent ++ rest).head? ≠ some '.' := by
  cases isExponent with
  | absent => obtain rfl | ⟨after, rfl | rfl | rfl⟩ := ends.cases <;> simp [EndsDigits]
  | present isMark => rcases isMark with rfl | rfl <;> simp [EndsDigits]

theorem endsDigits_fraction {fraction : List Char} (isFraction : IsFraction fraction)
    (ends : EndsDigits rest) : EndsDigits (fraction ++ rest) := by
  cases isFraction with
  | absent => exact ends
  | present => simp [EndsDigits]

theorem fractionPart_append {fraction : List Char} (cutOff : Fault)
    (isFraction : IsFraction fraction) (ends : EndsDigits rest) (noPoint : rest.head? ≠ some '.') :
    ∃ read, fractionPart cutOff (fraction ++ rest) = .ok (read, rest) := by
  cases isFraction with
  | absent =>
      refine ⟨none, ?_⟩
      rw [List.nil_append, fractionPart.eq_def]
      split
      next => simp at noPoint
      next => rfl
  | @present digits isDigits =>
      refine ⟨some digits, ?_⟩
      rw [List.cons_append, fractionPart, digits_append cutOff isDigits ends]
      rfl

theorem exponentSign_append {sign text : List Char}
    (isSign : sign = [] ∨ sign = ['+'] ∨ sign = ['-']) (starts : ∀ c ∈ text.head?, c.isDigit = true) :
    ∃ negative, exponentSign (sign ++ text) = (negative, text) := by
  rcases isSign with rfl | rfl | rfl
  · refine ⟨false, ?_⟩
    rw [List.nil_append, exponentSign.eq_def]
    split <;> simp_all
  · exact ⟨false, rfl⟩
  · exact ⟨true, rfl⟩

theorem exponentPart_append {exponent : List Char} (cutOff : Fault)
    (isExponent : IsExponent exponent) (ends : EndsValue rest) :
    ∃ read, exponentPart cutOff (exponent ++ rest) = .ok (read, rest) := by
  cases isExponent with
  | absent => exact ⟨none, exponentPart_written cutOff ends⟩
  | @present mark sign digits isMark isSign isDigits =>
      have starts : ∀ c ∈ (digits ++ rest).head?, c.isDigit = true := by
        obtain ⟨first, others, rfl⟩ := List.exists_cons_of_ne_nil isDigits.1
        simpa using isDigits.2 first List.mem_cons_self
      obtain ⟨negative, signed⟩ := exponentSign_append isSign starts
      refine ⟨some (negative, digits), ?_⟩
      rcases isMark with rfl | rfl <;>
        simp only [List.cons_append, List.append_assoc, exponentPart, signed,
          digits_append cutOff isDigits ends.endsDigits] <;> rfl

theorem numeral_append {text : List Char} (cutOff : Fault) (isNumeral : IsNumeral text)
    (ends : EndsValue rest) : ∃ read, numeral cutOff (text ++ rest) = .ok (read, rest) := by
  cases isNumeral with
  | @intro sign whole fraction exponent isSign isWhole noZero isFraction isExponent =>
      obtain ⟨endsFraction, noPoint⟩ := endsDigits_exponent isExponent ends
      obtain ⟨readFraction, fractionRead⟩ :=
        fractionPart_append cutOff isFraction endsFraction noPoint
      obtain ⟨readExponent, exponentRead⟩ := exponentPart_append cutOff isExponent ends
      have wholeRead := wholePart_append cutOff isWhole noZero (endsDigits_fraction isFraction endsFraction)
      simp only [List.append_assoc]
      rcases isSign with rfl | rfl
      · refine ⟨⟨false, whole, readFraction, readExponent⟩, ?_⟩
        obtain ⟨first, others, rfl⟩ := List.exists_cons_of_ne_nil isWhole.1
        have unsigned : first ≠ '-' := by
          rintro rfl
          exact absurd (isWhole.2 _ List.mem_cons_self) (by decide)
        rw [List.cons_append] at wholeRead
        simp [numeral, unsigned, wholeRead, fractionRead, exponentRead, bind, Except.bind, pure,
          Except.pure]
      · refine ⟨⟨true, whole, readFraction, readExponent⟩, ?_⟩
        simp [numeral, wholeRead, fractionRead, exponentRead, bind, Except.bind, pure, Except.pure]

theorem skipNumber_append {text : List Char} (isNumeral : IsNumeral text) (ends : EndsValue rest) :
    skipNumber (text ++ rest) = .ok ((), rest) := by
  obtain ⟨read, done⟩ := numeral_append (.malformed .invalidNumber) isNumeral ends
  simp [skipNumber, done, bind, Except.bind, pure, Except.pure]

end Numerals

section Strings

theorem skipStringFrom_escape {text : List Char} (read : skipEscape text = .ok rest) :
    skipStringFrom ('\\' :: text) = skipStringFrom rest := by
  rw [skipStringFrom]
  split <;> simp_all

theorem skipStringFrom_plain {c : Char} (noQuote : c ≠ '"') (noBackslash : c ≠ '\\')
    (noControl : ¬c.toNat < 0x20) : skipStringFrom (c :: rest) = skipStringFrom rest := by
  rw [skipStringFrom.eq_def]
  split <;> simp_all

theorem skipEscape_control {c : Char} (control : c.toNat < 0x20) :
    skipEscape ('u' :: (Value.hexDigits c.toNat ++ rest)) = .ok rest := by
  have unit := codeUnit_append (codeUnit_hexDigits control) rest
  simp [skipEscape, unit, Except.map]

theorem skipStringFrom_escaped (c : Char) :
    skipStringFrom (escaped c ++ rest) = skipStringFrom rest := by
  unfold escaped
  split
  iterate 7 exact skipStringFrom_escape rfl
  next c noQuote noBackslash _ _ _ _ _ =>
    split
    next control => exact skipStringFrom_escape (skipEscape_control control)
    next noControl => exact skipStringFrom_plain noQuote noBackslash noControl

theorem skipString_written (text : String) (rest : List Char) :
    skipString (stringChars text ++ rest) = .ok ((), rest) := by
  have body (chars : List Char) :
      skipStringFrom (chars.flatMap escaped ++ '"' :: rest) = .ok rest := by
    induction chars with
    | nil => simp [skipStringFrom]
    | cons c chars ih => rw [List.flatMap_cons, List.append_assoc, skipStringFrom_escaped, ih]
  have opened : skipString (stringChars text ++ rest) =
      (skipStringFrom (text.toList.flatMap escaped ++ '"' :: rest)).map ((), ·) := by
    simp only [stringChars, List.cons_append, List.append_assoc, List.nil_append]
    rfl
  rw [opened, body]
  rfl

end Strings

section Passing

theorem isNumeral_starts {text : List Char} (isNumeral : IsNumeral text) :
    ∃ c more, text = c :: more ∧ (c = '-' || c.isDigit) = true := by
  cases isNumeral with
  | @intro _ whole fraction exponent isSign isWhole =>
      obtain ⟨first, others, rfl⟩ := List.exists_cons_of_ne_nil isWhole.1
      have isDigit := isWhole.2 first List.mem_cons_self
      rcases isSign with rfl | rfl
      · exact ⟨first, others ++ (fraction ++ exponent), rfl, by simp [isDigit]⟩
      · exact ⟨'-', _, rfl, rfl⟩

def StartsValue (text : List Char) : Prop :=
  ∃ c more, text = c :: more ∧ isBlank c = false ∧ c ≠ ']'

theorem startsValue_list (elements : List (List Char)) : StartsValue (listChars elements) := by
  cases elements <;> exact ⟨'[', _, rfl, rfl, by decide⟩

theorem startsValue_object (members : List (String × List Char)) :
    StartsValue (objectChars members) := by
  cases members <;> exact ⟨'{', _, rfl, rfl, by decide⟩

theorem startsValue {text : List Char} (isValue : IsValue text) : StartsValue text := by
  cases isValue with
  | number isNumeral =>
      obtain ⟨c, more, rfl, starts⟩ := isNumeral_starts isNumeral
      exact ⟨c, more, rfl, isBlank_of_startsNumber starts, ne_of_startsNumber starts rfl⟩
  | list => exact startsValue_list _
  | object => exact startsValue_object _
  | _ => exact ⟨_, _, rfl, rfl, by decide⟩

theorem skipStart_number {text : List Char} (isNumeral : IsNumeral text) (ends : EndsValue rest) :
    skipStart enclosing (text ++ rest) = .ok ((.endOfValue, enclosing), rest) := by
  have skipped := skipNumber_append isNumeral ends
  obtain ⟨c, more, rfl, starts⟩ := isNumeral_starts isNumeral
  rw [List.cons_append] at skipped ⊢
  rw [skipStart, bind_of_ok (next?_of_notBlank (isBlank_of_startsNumber starts) _)]
  -- The character is none of those that start a value of another kind.
  generalize same : some c = character
  split
  iterate 6 exact absurd (Option.some.inj same) (ne_of_startsNumber starts rfl)
  next =>
    cases same
    rw [if_pos starts, bind_of_ok skipped]
    rfl
  next => cases same

theorem skipStart_string (text : String) :
    skipStart enclosing (stringChars text ++ rest) = .ok ((.endOfValue, enclosing), rest) := by
  have skipped := skipString_written text rest
  have quote : next? (stringChars text ++ rest) = .ok (some '"', stringChars text ++ rest) := rfl
  simp only [skipStart, bind_of_ok quote, bind_of_ok skipped]
  rfl

theorem skipStart_list {text : List Char} (starts : StartsValue text) :
    skipStart enclosing ('[' :: text) = .ok ((.value, .list :: enclosing), text) := by
  obtain ⟨c, more, rfl, notBlank, notEnd⟩ := starts
  have bracket := next?_of_notBlank (c := '[') rfl (c :: more)
  have opened : advance ('[' :: c :: more) = .ok ((), c :: more) := rfl
  simp only [skipStart, bind_of_ok bracket, bind_of_ok opened,
    bind_of_ok (next?_of_notBlank notBlank more)]
  rfl

theorem skipName_written (name : String) (text : List Char) :
    skipName (stringChars name ++ ':' :: text) = .ok ((), text) := by
  have skipped := skipString_written name (':' :: text)
  have quote : next? (stringChars name ++ ':' :: text) =
      .ok (some '"', stringChars name ++ ':' :: text) := rfl
  simp only [skipName, bind_of_ok quote, bind_of_ok skipped]
  rfl

/--
Before the text one thing is due inside some brackets, and after it another. A bound that the text
fits is used up by no more than the length of the text.
-/
def PassesOver (text rest : List Char) (before after : Due × List Bracket) : Prop :=
  ∀ bound, text.length ≤ bound → ∃ left, bound ≤ left + text.length ∧
    skipFrom bound before.1 before.2 (text ++ rest) = skipFrom left after.1 after.2 rest

section Steps

variable {text text' : List Char} {before between after : Due × List Bracket}

theorem PassesOver.trans (first : PassesOver text (text' ++ rest) before between)
    (second : PassesOver text' rest between after) :
    PassesOver (text ++ text') rest before after := by
  intro bound fits
  rw [List.length_append] at fits
  obtain ⟨middle, enough, firstDone⟩ := first bound (by omega)
  obtain ⟨left, enough', secondDone⟩ := second middle (by omega)
  refine ⟨left, ?_, ?_⟩
  · rw [List.length_append]
    omega
  · rw [List.append_assoc, firstDone, secondDone]

-- One step takes one off the bound, and the text that it passes over has a character at least.
theorem passesOver_step (filled : text ≠ [])
    (step : ∀ bound, skipFrom (bound + 1) before.1 before.2 (text ++ rest) =
      skipFrom bound after.1 after.2 rest) : PassesOver text rest before after := by
  intro bound fits
  have positive : 0 < text.length := List.length_pos_iff.mpr filled
  obtain ⟨bound, rfl⟩ := Nat.exists_eq_add_one.mpr (Nat.lt_of_lt_of_le positive fits)
  exact ⟨bound, by omega, step bound⟩

theorem passesOver_start (filled : text ≠ [])
    (started : skipStart enclosing (text ++ rest) = .ok (after, rest)) :
    PassesOver text rest (.value, enclosing) after := by
  refine passesOver_step filled fun bound => ?_
  simp only [skipFrom, bind_of_ok started]

theorem passesOver_name (name : String) :
    PassesOver (stringChars name ++ [':']) rest (.member, enclosing) (.value, enclosing) := by
  refine passesOver_step (by simp) fun bound => ?_
  have named : skipName (stringChars name ++ [':'] ++ rest) = .ok ((), rest) := by
    rw [List.append_assoc]
    exact skipName_written name rest
  simp only [skipFrom, bind_of_ok named]

theorem passesOver_comma (bracket : Bracket) (outer : List Bracket) (rest : List Char) :
    PassesOver [','] rest (.endOfValue, bracket :: outer) (bracket.dueItem, bracket :: outer) := by
  refine passesOver_step (by simp) fun bound => ?_
  cases bracket <;> rfl

theorem passesOver_closing (bracket : Bracket) (outer : List Bracket) (rest : List Char) :
    PassesOver [bracket.closing] rest (.endOfValue, bracket :: outer) (.endOfValue, outer) := by
  refine passesOver_step (by simp) fun bound => ?_
  cases bracket <;> rfl

theorem endsValue_closing (bracket : Bracket) (rest : List Char) :
    EndsValue (bracket.closing :: rest) := by
  cases bracket <;> simp [EndsValue, Bracket.closing]

theorem endsValue_items (bracket : Bracket) (items : List (List Char)) (rest : List Char) :
    EndsValue (items.flatMap (',' :: ·) ++ bracket.closing :: rest) := by
  cases items with
  | nil => exact endsValue_closing bracket rest
  | cons => simp [EndsValue]

def SkipsItem (bracket : Bracket) (item : List Char) : Prop :=
  ∀ outer rest, EndsValue rest →
    PassesOver item rest (bracket.dueItem, bracket :: outer) (.endOfValue, bracket :: outer)

theorem passesOver_items {bracket : Bracket} {items : List (List Char)}
    (each : ∀ item ∈ items, SkipsItem bracket item) (outer : List Bracket) (rest : List Char) :
    PassesOver (items.flatMap (',' :: ·)) (bracket.closing :: rest)
      (.endOfValue, bracket :: outer) (.endOfValue, bracket :: outer) := by
  induction items with
  | nil => exact fun bound _ => ⟨bound, Nat.le_refl _, rfl⟩
  | cons first others ih =>
      rw [List.forall_mem_cons] at each
      have item := (passesOver_comma bracket outer _).trans
        (each.1 outer _ (endsValue_items bracket others rest))
      exact item.trans (ih each.2)

theorem passesOver_enclose {bracket : Bracket} {items : List (List Char)}
    (opens : ∀ first ∈ items.head?, ∀ more,
      skipStart enclosing (bracket.opening :: (first ++ more)) =
        .ok ((bracket.dueItem, bracket :: enclosing), first ++ more))
    (each : ∀ item ∈ items, SkipsItem bracket item) :
    PassesOver (bracket.enclose items) rest (.value, enclosing) (.endOfValue, enclosing) := by
  cases items with
  | nil => exact passesOver_start (by simp [Bracket.enclose]) (by cases bracket <;> rfl)
  | cons first others =>
      rw [List.forall_mem_cons] at each
      have opened : PassesOver [bracket.opening]
          (first ++ (others.flatMap (',' :: ·) ++ (bracket.closing :: rest))) (.value, enclosing)
          (bracket.dueItem, bracket :: enclosing) :=
        passesOver_start (by simp) (opens first rfl _)
      have item := each.1 enclosing _ (endsValue_items bracket others rest)
      have items := passesOver_items each.2 enclosing rest
      have whole := ((opened.trans item).trans items).trans (passesOver_closing bracket enclosing rest)
      simpa [Bracket.enclose] using whole

end Steps

def Skippable (text : List Char) : Prop :=
  ∀ enclosing rest, EndsValue rest →
    PassesOver text rest (.value, enclosing) (.endOfValue, enclosing)

theorem skippable {text : List Char} (isValue : IsValue text) : Skippable text := by
  induction isValue with
  | null | true | false => exact fun _ _ _ => passesOver_start (by simp) rfl
  | @number text isNumeral =>
      intro enclosing rest ends
      obtain ⟨c, more, rfl, _⟩ := isNumeral_starts isNumeral
      exact passesOver_start (by simp) (skipStart_number isNumeral ends)
  | string text =>
      intro enclosing rest ends
      exact passesOver_start (by simp [stringChars]) (skipStart_string text)
  | @list elements each skips =>
      intro enclosing rest _
      refine passesOver_enclose ?_ ?_
      · intro first head more
        obtain ⟨c, others, written, notBlank, notEnd⟩ :=
          startsValue (each first (List.mem_of_mem_head? head))
        exact skipStart_list ⟨c, others ++ more, by rw [written]; rfl, notBlank, notEnd⟩
      · intro item member outer rest ends
        exact skips item member (.list :: outer) rest ends
  | @object members each skips =>
      intro enclosing rest _
      refine passesOver_enclose ?_ ?_
      · intro first head more
        obtain ⟨member, _, rfl⟩ := List.mem_map.mp (List.mem_of_mem_head? head)
        rfl
      · intro item isMember outer rest ends
        obtain ⟨⟨name, value⟩, member, rfl⟩ := List.mem_map.mp isMember
        have whole := (passesOver_name name).trans (skips _ member (.object :: outer) rest ends)
        simpa [memberChars, Bracket.dueItem] using whole

theorem skip_isValue {text : List Char} {bound : Nat} (isValue : IsValue text)
    (fits : text.length ≤ bound) : Reads (skip bound) text () := by
  intro rest ends
  obtain ⟨left, _, skipped⟩ := skippable isValue [] rest ends bound fits
  rw [skip, skipped]
  cases left <;> rfl

end Passing

end Reader

end TreeCompiler.Json
