import Mathlib.Data.List.Forall2
import Mathlib.Data.List.Pairwise
import Mathlib.Tactic.MkIffOfInductiveProp
import TreeCompiler.Proofs.JsonTexts

set_option autoImplicit false

/-!
Lists, objects and choices written without blanks are read back whenever their parts are. The members of
an object may stand in any order, and among them others that no field asks for. The text of a value is
longer than that of each part, and than the number of its parts: where it fits a bound on the characters
that are left, they fit too.
-/

namespace TreeCompiler.Json

section Lengths

variable {element item : List Char} {items elements : List (List Char)}
  {members : List (String × List Char)}

theorem length_items_lt (bracket : Reader.Bracket) (items : List (List Char)) :
    (items.flatMap (',' :: ·)).length < (bracket.enclose items).length := by
  cases items with
  | nil => simp [Reader.Bracket.enclose]
  | cons first rest =>
      simp only [Reader.Bracket.enclose, List.flatMap_cons, List.length_cons, List.length_append]
      omega

theorem count_le_items (items : List (List Char)) :
    items.length ≤ (items.flatMap (',' :: ·)).length := by
  induction items with
  | nil => exact Nat.zero_le _
  | cons first rest ih =>
      simp only [List.flatMap_cons, List.length_cons, List.length_append]
      omega

theorem item_lt_items (member : item ∈ items) :
    item.length < (items.flatMap (',' :: ·)).length :=
  (List.sublist_flatten_of_mem (List.mem_map_of_mem (f := (',' :: ·)) member)).length_le

theorem element_lt_list (member : element ∈ elements) :
    element.length < (listChars elements).length :=
  Nat.lt_trans (item_lt_items member) (length_items_lt .list elements)

theorem element_fits {bound : Nat} (fits : (listChars elements).length ≤ bound) (index : Nat)
    (found : elements[index]? = some element) : element.length ≤ bound :=
  Nat.le_trans (Nat.le_of_lt (element_lt_list (List.mem_of_getElem? found))) fits

theorem value_lt_member (member : String × List Char) :
    member.2.length + 2 < (memberChars member).length := by
  simp only [memberChars, Value.stringChars, List.length_cons, List.length_append]
  omega

theorem value_lt_object {name : String} {value : List Char} (listed : (name, value) ∈ members) :
    value.length + 1 < (objectChars members).length := by
  have written : value.length + 2 < (memberChars (name, value)).length :=
    value_lt_member (name, value)
  have inside := item_lt_items (List.mem_map_of_mem (f := memberChars) listed)
  have whole := length_items_lt .object (members.map memberChars)
  rw [objectChars]
  omega

end Lengths

namespace Value

variable {bound : Nat} {value : Value} {values : List Value} {members : List (String × Value)}

theorem chars_list (values : List Value) : (list values).chars = listChars (values.map chars) := by
  have later (values : List Value) :
      charsOfElements values = (values.map chars).flatMap (',' :: ·) := by
    induction values with
    | nil => rfl
    | cons first rest ih => rw [charsOfElements, ih, List.map_cons, List.flatMap_cons, List.cons_append]
  cases values with
  | nil => rfl
  | cons first rest => rw [chars, later]; rfl

def writtenMember (member : String × Value) : String × List Char := (member.1, member.2.chars)

theorem chars_object (members : List (String × Value)) :
    (object members).chars = objectChars (members.map writtenMember) := by
  have later (members : List (String × Value)) : charsOfMembers members =
      ((members.map writtenMember).map memberChars).flatMap (',' :: ·) := by
    induction members with
    | nil => rfl
    | cons first rest ih =>
        simp [charsOfMembers, ih, memberChars, writtenMember]
  cases members with
  | nil => rfl
  | cons first rest =>
      simp [chars, later, objectChars, Reader.Bracket.enclose, memberChars, writtenMember,
        Reader.Bracket.opening, Reader.Bracket.closing]

def Fits (bound : Nat) (value : Value) : Prop := value.chars.length ≤ bound

theorem Fits.succ (fits : Fits bound value) : Fits (bound + 1) value := Nat.le_succ_of_le fits

theorem Fits.element (fits : Fits bound (list values)) (mem : value ∈ values) : Fits bound value := by
  have inside := element_lt_list (List.mem_map_of_mem (f := chars) mem)
  rw [← chars_list] at inside
  exact Nat.le_trans (Nat.le_of_lt inside) fits

theorem Fits.below {name : String} (fits : Fits (bound + 1) (object members)) (index : Nat)
    (found : members[index]? = some (name, value)) : Fits bound value := by
  have listed : (name, value.chars) ∈ members.map writtenMember :=
    List.mem_map_of_mem (List.mem_of_getElem? found)
  have inside := value_lt_object listed
  rw [← chars_object] at inside
  exact Nat.le_of_lt (Nat.lt_of_succ_lt_succ (Nat.lt_of_lt_of_le inside fits))

theorem Fits.member {name : String} (fits : Fits bound (object members)) (index : Nat)
    (found : members[index]? = some (name, value)) : Fits bound value :=
  fits.succ.below index found

end Value

namespace Reader

open Value (stringChars writtenMember Fits)

variable {α β σ : Type} {bound : Nat} {rest : List Char}

theorem Reads.bind {reader : Reader α} {next : α → Reader β} {text : List Char} {value : α}
    {result : β} (reads : Reads reader text value) (returns : next value = pure result) :
    Reads (reader >>= next) text result := by
  intro rest ends
  rw [bind_of_ok (reads rest ends), returns]
  rfl

theorem name_written (text : String) : Reads name (Value.string text).chars text :=
  fun rest _ => string_written text rest

theorem advance_cons (c : Char) (text : List Char) : advance (c :: text) = .ok ((), text) := rfl

theorem colon_cons (text : List Char) : colon (':' :: text) = .ok ((), text) := rfl

theorem endsValue_comma (rest : List Char) : EndsValue (',' :: rest) := by simp [EndsValue]

section Lists

variable {element : Reader α} {text : List Char} {values : List α} {texts : List (List Char)}

theorem moreElements_first (starts : StartsValue text) (rest : List Char) :
    moreElements true (text ++ rest) = .ok (true, text ++ rest) := by
  obtain ⟨c, more, rfl, notBlank, notEnd⟩ := starts
  rw [List.cons_append, moreElements, bind_of_ok (next?_of_notBlank notBlank _)]
  -- The match falls through to one more element because of `notEnd`.
  simp only
  rfl

theorem moreElements_comma (starts : StartsValue text) (rest : List Char) :
    moreElements false (',' :: (text ++ rest)) = .ok (true, text ++ rest) := by
  obtain ⟨c, more, rfl, notBlank, notEnd⟩ := starts
  have comma := next?_of_notBlank (c := ',') rfl (c :: more ++ rest)
  rw [List.cons_append] at comma ⊢
  simp only [moreElements, bind_of_ok comma, bind_of_ok (advance_cons _ _),
    bind_of_ok (next?_of_notBlank notBlank _)]
  rfl

theorem elements_end (bound : Nat) (first : Bool) (rest : List Char) :
    elements element (bound + 1) first (']' :: rest) = .ok ([], ']' :: rest) := by
  cases first <;> rfl

theorem elements_step {first : Bool} {part after : List Char} {result : α}
    (more : moreElements first text = .ok (true, part ++ rest))
    (reads : Reads element part result) (ends : EndsValue rest)
    (others : elements element bound false rest = .ok (values, after)) :
    elements element (bound + 1) first text = .ok (result :: values, after) := by
  rw [elements, bind_of_ok more, if_pos rfl, bind_of_ok (reads rest ends), bind_of_ok others]
  rfl

def ReadsElement (element : Reader α) (text : List Char) (value : α) : Prop :=
  StartsValue text ∧ Reads element text value

def ReadsEach (element : Reader α) : List (List Char) → List α → Prop :=
  List.Forall₂ (ReadsElement element)

theorem elements_read (reads : ReadsEach element texts values) (count : texts.length < bound)
    (rest : List Char) :
    elements element bound false (texts.flatMap (',' :: ·) ++ ']' :: rest) =
      .ok (values, ']' :: rest) := by
  induction reads generalizing bound with
  | nil =>
      obtain ⟨bound, rfl⟩ := Nat.exists_eq_add_one.mpr count
      exact elements_end bound false rest
  | cons readsFirst _ ih =>
      obtain ⟨bound, rfl⟩ := Nat.exists_eq_add_one.mpr (Nat.zero_lt_of_lt count)
      rw [List.flatMap_cons, List.cons_append, List.cons_append, List.append_assoc]
      exact elements_step (moreElements_comma readsFirst.1 _) readsFirst.2
        (endsValue_items .list _ rest) (ih (Nat.lt_of_succ_lt_succ count))

theorem list_opened (read : elements element bound true text = .ok (values, ']' :: rest)) :
    list bound element ('[' :: text) = .ok (values, rest) := by
  rw [list, bind_of_ok (next?_of_notBlank rfl _)]
  simp only [bind_of_ok (advance_cons _ _), bind_of_ok read]
  rfl

theorem list_read (reads : ReadsEach element texts values)
    (fits : (listChars texts).length ≤ bound) :
    Reads (list bound element) (listChars texts) values := by
  intro rest _
  have count : texts.length < bound := by
    have inside := count_le_items texts
    have whole := length_items_lt .list texts
    rw [listChars] at fits
    omega
  obtain ⟨bound, rfl⟩ := Nat.exists_eq_add_one.mpr (Nat.zero_lt_of_lt count)
  cases reads with
  | nil => exact list_opened (elements_end bound true rest)
  | @cons _ _ others _ readsFirst readsOthers =>
      -- Only the first element is written without a comma.
      have later := elements_read readsOthers (Nat.lt_of_succ_lt_succ count) rest
      simp only [listChars, Bracket.enclose, List.cons_append, List.append_assoc, List.nil_append]
      exact list_opened (elements_step (moreElements_first readsFirst.1 _) readsFirst.2
        (endsValue_items .list others rest) later)

theorem pair_read {title : String} {left right : List Char} {first second : α}
    (readsLeft : ReadsElement element left first) (readsRight : ReadsElement element right second) :
    Reads (pair title element) (listChars [left, right]) (first, second) := by
  intro rest _
  have leftPart := readsLeft.2 (',' :: (right ++ ']' :: rest)) (endsValue_comma _)
  have rightPart := readsRight.2 (']' :: rest) (endsValue_closing .list rest)
  have written : listChars [left, right] ++ rest = '[' :: (left ++ ',' :: (right ++ ']' :: rest)) := by
    simp [listChars, Bracket.enclose, Bracket.opening, Bracket.closing]
  rw [written, pair, bind_of_ok (next?_of_notBlank rfl _)]
  simp only [bind_of_ok (advance_cons _ _), bind_of_ok (moreElements_first readsLeft.1 _),
    bind_of_ok leftPart, bind_of_ok (moreElements_comma readsRight.1 _), bind_of_ok rightPart, if_true]
  rfl

end Lists

section Objects

variable {fields : List (RecordField σ)} {member : String × List Char}
  {members : List (String × List Char)} {parts next result : σ}

inductive Takes (fields : List (RecordField σ)) : String × List Char → σ → σ → Prop
  | known {key : String} {text : List Char} {parts : σ} {field : RecordField σ} {part : field.Value}
      (known : fields.find? (·.key = key) = some field) (absent : field.isPresent parts = false)
      (reads : Reads field.read text part) :
      Takes fields (key, text) parts (field.store part parts)
  | unknown {key : String} {text : List Char} {parts : σ}
      (unknown : fields.find? (·.key = key) = none) (isValue : IsValue text) :
      Takes fields (key, text) parts parts

inductive Collects (fields : List (RecordField σ)) : List (String × List Char) → σ → σ → Prop
  | nil (parts : σ) : Collects fields [] parts parts
  | cons {member : String × List Char} {members : List (String × List Char)} {parts next result : σ}
      (first : Takes fields member parts next) (others : Collects fields members next result) :
      Collects fields (member :: members) parts result

theorem Takes.read (takes : Takes fields member parts next) (fits : member.2.length ≤ bound)
    (ends : EndsValue rest) :
    Reader.member bound fields parts (memberChars member ++ rest) = .ok (next, rest) := by
  cases takes with
  | known known absent reads =>
      rw [memberChars, List.append_assoc, Reader.member, bind_of_ok (string_written _ _), known]
      simp only [List.cons_append, absent, Bool.false_eq_true, if_false, bind_of_ok (colon_cons _),
        bind_of_ok (reads rest ends)]
      rfl
  | unknown unknown isValue =>
      rw [memberChars, List.append_assoc, Reader.member, bind_of_ok (string_written _ _), unknown]
      simp only [List.cons_append, bind_of_ok (colon_cons _),
        bind_of_ok (skip_isValue isValue fits rest ends)]
      rfl

theorem members_end (bound : Nat) (first : Bool) (parts : σ) (rest : List Char) :
    Reader.members fields (bound + 1) first parts ('}' :: rest) = .ok (parts, rest) := by
  cases first <;> rfl

theorem members_step {first : Bool} {text : List Char}
    (more : moreMembers first text = .ok (true, memberChars member ++ rest))
    (takes : Takes fields member parts next) (fits : member.2.length ≤ bound) (ends : EndsValue rest) :
    Reader.members fields (bound + 1) first parts text =
      Reader.members fields bound false next rest := by
  rw [Reader.members, bind_of_ok more, if_pos rfl, bind_of_ok (takes.read fits ends)]

-- The members after the first, each with the comma before it.
theorem members_read (collects : Collects fields members parts result)
    (fits : ((members.map memberChars).flatMap (',' :: ·)).length < bound) (rest : List Char) :
    Reader.members fields bound false parts
      ((members.map memberChars).flatMap (',' :: ·) ++ '}' :: rest) = .ok (result, rest) := by
  obtain ⟨bound, rfl⟩ := Nat.exists_eq_add_one.mpr (Nat.zero_lt_of_lt fits)
  induction collects generalizing bound with
  | nil parts => exact members_end bound false parts rest
  | @cons member _ _ _ _ takes _ ih =>
      have short := value_lt_member member
      simp only [List.map_cons, List.flatMap_cons, List.length_append, List.length_cons] at fits
      obtain ⟨bound, rfl⟩ : ∃ smaller, bound = smaller + 1 := ⟨bound - 1, by omega⟩
      rw [List.map_cons, List.flatMap_cons, List.append_assoc, List.cons_append,
        members_step rfl takes (by omega) (endsValue_items .object _ rest)]
      exact ih bound (by omega)

theorem record_opened (bound : Nat) (title : String) (fields : List (RecordField σ)) (blank : σ)
    (text : List Char) :
    record bound title fields blank ('{' :: text) = Reader.members fields bound true blank text :=
  rfl

-- The members get a smaller bound than the object: its braces are two characters more.
theorem record_read {title : String} (collects : Collects fields members parts result)
    (fits : (objectChars members).length ≤ bound + 1) :
    Reads (record bound title fields parts) (objectChars members) result := by
  intro rest _
  cases collects with
  | nil =>
      obtain ⟨bound, rfl⟩ := Nat.exists_eq_add_one.mpr (Nat.le_of_succ_le_succ fits)
      exact (record_opened _ title fields parts _).trans (members_end bound true parts rest)
  | @cons member _ _ _ _ takes others =>
      have short := value_lt_member member
      simp only [objectChars, Bracket.enclose, List.map_cons, List.length_cons, List.length_append,
        List.length_nil] at fits
      obtain ⟨bound, rfl⟩ : ∃ smaller, bound = smaller + 1 := ⟨bound - 1, by omega⟩
      simp only [objectChars, Bracket.enclose, List.map_cons, List.cons_append, List.append_assoc]
      rw [Bracket.opening, record_opened,
        members_step rfl takes (by omega) (endsValue_items .object _ rest)]
      exact members_read others (by omega) rest

section Order

-- Neither field can tell whether the other has been stored, nor which of the two came first.
@[mk_iff]
structure RecordField.Apart (field other : RecordField σ) : Prop where
  comm : ∀ part otherPart parts,
    field.store part (other.store otherPart parts) = other.store otherPart (field.store part parts)
  isPresent_store : ∀ part parts, field.isPresent (other.store part parts) = field.isPresent parts
  isPresent_store' : ∀ part parts, other.isPresent (field.store part parts) = other.isPresent parts

instance : Std.Symm (RecordField.Apart (σ := σ)) where
  symm _ _ apart :=
    { comm := fun part otherPart parts => (apart.comm otherPart part parts).symm
      isPresent_store := apart.isPresent_store'
      isPresent_store' := apart.isPresent_store }

/-- What is stored for a field is there afterwards, and is all that the field changes. -/
structure Lawful (fields : List (RecordField σ)) : Prop where
  present : ∀ field ∈ fields, ∀ part parts, field.isPresent (field.store part parts) = true
  apart : fields.Pairwise RecordField.Apart

theorem Takes.swap {other : String × List Char} (lawful : Lawful fields)
    (first : Takes fields member parts next) (second : Takes fields other next result) :
    ∃ between, Takes fields other parts between ∧ Takes fields member between result := by
  cases first with
  | unknown unknown isValue => exact ⟨_, second, .unknown unknown isValue⟩
  | @known _ _ _ field part known absent reads =>
      cases second with
      | unknown unknown isValue => exact ⟨_, .unknown unknown isValue, .known known absent reads⟩
      | @known _ _ _ field' part' known' absent' reads' =>
          have listed := List.mem_of_find?_eq_some known
          have listed' := List.mem_of_find?_eq_some known'
          by_cases same : field = field'
          next =>
            -- The field would have been met before.
            subst same
            rw [lawful.present field listed] at absent'
            cases absent'
          next =>
            have apart := lawful.apart.forall listed listed' same
            rw [apart.isPresent_store'] at absent'
            refine ⟨_, .known known' absent' reads', ?_⟩
            rw [← apart.comm part part' parts]
            exact .known known (by rw [apart.isPresent_store, absent]) reads

theorem Collects.perm {others : List (String × List Char)} (lawful : Lawful fields)
    (order : members.Perm others) (collects : Collects fields members parts result) :
    Collects fields others parts result := by
  induction order generalizing parts with
  | nil => exact collects
  | cons _ _ ih =>
      cases collects with
      | cons first others => exact .cons first (ih others)
  | swap =>
      cases collects with
      | cons first collects =>
          cases collects with
          | cons second others =>
              obtain ⟨_, first', second'⟩ := first.swap lawful second
              exact .cons first' (.cons second' others)
  | trans _ _ ih ih' => exact ih' (ih collects)

theorem Collects.append {others : List (String × List Char)}
    (first : Collects fields members parts next) (second : Collects fields others next result) :
    Collects fields (members ++ others) parts result := by
  induction first with
  | nil => exact second
  | cons takes _ ih => exact .cons takes (ih second)

theorem collects_unknown
    (unknown : ∀ member ∈ members, member.1 ∉ fields.map (·.key) ∧ IsValue member.2) (parts : σ) :
    Collects fields members parts parts := by
  induction members with
  | nil => exact .nil parts
  | cons first rest ih =>
      rw [List.forall_mem_cons] at unknown
      have absent : fields.find? (·.key = first.1) = none := by
        simpa using unknown.1.1
      exact .cons (.unknown absent unknown.1.2) (ih unknown.2)

/-- An object with the listed members and others of names that are not known, in any order. -/
def Loosely (known : List String) (listed : List (String × List Char)) (text : List Char) : Prop :=
  ∃ members others, (∀ other ∈ others, other.1 ∉ known ∧ IsValue other.2) ∧
    members.Perm (listed ++ others) ∧ text = objectChars members

theorem loosely_objectChars (known : List String) (members : List (String × List Char)) :
    Loosely known members (objectChars members) :=
  ⟨members, [], List.forall_mem_nil _, by rw [List.append_nil], rfl⟩

section Loosely

variable {known : List String} {listed : List (String × List Char)} {text : List Char}

theorem Loosely.startsValue (loosely : Loosely known listed text) : StartsValue text := by
  obtain ⟨members, _, _, _, rfl⟩ := loosely
  exact startsValue_object members

theorem Loosely.value_lt {name : String} {value : List Char} (loosely : Loosely known listed text)
    (index : Nat) (found : listed[index]? = some (name, value)) : value.length + 1 < text.length := by
  obtain ⟨members, others, _, order, rfl⟩ := loosely
  have inside : (name, value) ∈ listed ++ others :=
    List.mem_append_left _ (List.mem_of_getElem? found)
  exact value_lt_object (order.mem_iff.mpr inside)

theorem Loosely.fits {name : String} {value : List Char} (loosely : Loosely known listed text)
    (fits : text.length ≤ bound) (index : Nat) (found : listed[index]? = some (name, value)) :
    value.length ≤ bound :=
  Nat.le_trans (Nat.le_of_succ_le (Nat.le_of_lt (loosely.value_lt index found))) fits

theorem record_loosely {title : String} (lawful : Lawful fields)
    (loosely : Loosely (fields.map (·.key)) listed text) (fits : text.length ≤ bound + 1)
    (collects : Collects fields listed parts result) :
    Reads (record bound title fields parts) text result := by
  obtain ⟨members, others, unknown, order, rfl⟩ := loosely
  have all := collects.append (collects_unknown unknown result)
  exact record_read (all.perm lawful order.symm) fits

end Loosely

end Order

end Objects

section Choices

variable {variants : List (Variant α)} {variant : Variant α} {name : String} {result : α}

theorem variantName_written (known : variants.find? (·.name = name) = some variant)
    (rest : List Char) : variantName variants (stringChars name ++ rest) = .ok (variant, rest) := by
  rw [variantName, bind_of_ok (string_written name rest), known]
  rfl

theorem choice_bare (known : variants.find? (·.name = name) = some variant)
    (bare : variant.bare = .ok result) : Reads (choice variants) (Value.string name).chars result := by
  intro rest _
  have quote : next? (stringChars name ++ rest) = .ok (some '"', stringChars name ++ rest) := rfl
  simp only [Value.chars, choice, bind_of_ok quote, bind_of_ok (variantName_written known rest), bare]
  rfl

theorem choice_read {text : List Char} (known : variants.find? (·.name = name) = some variant)
    (reads : Reads variant.payload text result) :
    Reads (choice variants) (objectChars [(name, text)]) result := by
  intro rest _
  have named (text : List Char) : variantKey variants (stringChars name ++ text) = .ok (variant, text) :=
    variantName_written known text
  have ends : EndsValue ('}' :: rest) := endsValue_closing .object rest
  have written : objectChars [(name, text)] ++ rest =
      '{' :: (stringChars name ++ ':' :: (text ++ '}' :: rest)) := by
    simp [objectChars, memberChars, Bracket.enclose, Bracket.opening, Bracket.closing]
  rw [written, choice, bind_of_ok (next?_of_notBlank rfl _)]
  simp only [bind_of_ok (advance_cons _ _), bind_of_ok (named _), bind_of_ok (colon_cons _),
    bind_of_ok (reads _ ends)]
  rfl

theorem choice_object {value : Value} (known : variants.find? (·.name = name) = some variant)
    (reads : Reads variant.payload value.chars result) :
    Reads (choice variants) (Value.object [(name, value)]).chars result := by
  rw [Value.chars_object]
  exact choice_read known reads

end Choices

section Written

variable {element : Reader α} {fields : List (RecordField σ)} {parts result : σ}

theorem startsValue_chars (value : Value) : StartsValue value.chars := by
  match value with
  | .number value =>
      obtain ⟨c, text, written, starts⟩ := exists_chars_number value
      exact ⟨c, text, written, isBlank_of_startsNumber starts, ne_of_startsNumber starts rfl⟩
  | .null | .boolean true | .boolean false | .string _ | .list [] | .list (_ :: _) | .object []
  | .object ((_, _) :: _) => exact ⟨_, _, rfl, rfl, by decide⟩

theorem list_written {write : α → Value} {values : List α} (fits : Fits bound (.list (values.map write)))
    (reads : ∀ value ∈ values, Fits bound (write value) → Reads element (write value).chars value) :
    Reads (list bound element) (Value.list (values.map write)).chars values := by
  have each : ReadsEach element ((values.map write).map Value.chars) values := by
    rw [List.map_map, ReadsEach, List.forall₂_map_left_iff, List.forall₂_same]
    exact fun value mem =>
      ⟨startsValue_chars _, reads value mem (fits.element (List.mem_map_of_mem mem))⟩
  rw [Fits, Value.chars_list] at fits
  rw [Value.chars_list]
  exact list_read each fits

theorem pair_written {title : String} {left right : Value} {first second : α}
    (readsLeft : Reads element left.chars first) (readsRight : Reads element right.chars second) :
    Reads (pair title element) (Value.list [left, right]).chars (first, second) := by
  rw [Value.chars_list]
  exact pair_read ⟨startsValue_chars left, readsLeft⟩ ⟨startsValue_chars right, readsRight⟩

inductive Gathers (fields : List (RecordField σ)) : List (String × Value) → σ → σ → Prop
  | nil (parts : σ) : Gathers fields [] parts parts
  | cons {key : String} {value : Value} {members : List (String × Value)} {parts result : σ}
      {field : RecordField σ} {part : field.Value}
      (known : fields.find? (·.key = key) = some field)
      (absent : field.isPresent parts = false)
      (reads : Reads field.read value.chars part)
      (others : Gathers fields members (field.store part parts) result) :
      Gathers fields ((key, value) :: members) parts result

theorem Gathers.collects {members : List (String × Value)}
    (gathers : Gathers fields members parts result) :
    Collects fields (members.map writtenMember) parts result := by
  induction gathers with
  | nil parts => exact .nil parts
  | cons known absent reads _ ih => exact .cons (.known known absent reads) ih

theorem record_written {title : String} {members : List (String × Value)}
    (fits : Fits (bound + 1) (.object members)) (gathers : Gathers fields members parts result) :
    Reads (record bound title fields parts) (Value.object members).chars result := by
  rw [Fits, Value.chars_object] at fits
  rw [Value.chars_object]
  exact record_read gathers.collects fits

end Written

end Reader

end TreeCompiler.Json
