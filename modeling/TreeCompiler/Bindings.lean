import TreeCompiler.Text.Quoted

set_option autoImplicit false

namespace TreeCompiler

/--
Finitely many names, each bound to one value. The entries are kept in the order of their names, so
that equal bindings are listed alike.
-/
structure Bindings (α : Type) where
  entries : List (String × α)
  sorted : entries.Pairwise fun a b => a.1 < b.1

structure DuplicateName where
  name : String
  deriving DecidableEq, Repr

def DuplicateName.message (duplicate : DuplicateName) : String :=
  "`" ++ duplicate.name ++ "` is already defined in this scope"

namespace Bindings

variable {α : Type}

def empty : Bindings α := ⟨[], .nil⟩

def size (bindings : Bindings α) : Nat := bindings.entries.length

def isEmpty (bindings : Bindings α) : Bool := bindings.entries.isEmpty

def get? (bindings : Bindings α) (name : String) : Option α := bindings.entries.lookup name

def contains (bindings : Bindings α) (name : String) : Bool := (bindings.get? name).isSome

def names (bindings : Bindings α) : List String := bindings.entries.map Prod.fst

def insertEntry (name : String) (value : α) : List (String × α) → List (String × α)
  | [] => [(name, value)]
  | (key, held) :: rest =>
      if name = key then (name, value) :: rest
      else if name < key then (name, value) :: (key, held) :: rest
      else (key, held) :: insertEntry name value rest

theorem mem_insertEntry {name : String} {value : α} {entries : List (String × α)}
    {entry : String × α} (member : entry ∈ insertEntry name value entries) :
    entry = (name, value) ∨ entry ∈ entries := by
  induction entries with
  | nil => exact .inl (by simpa [insertEntry] using member)
  | cons head rest ih =>
      obtain ⟨key, held⟩ := head
      simp only [insertEntry] at member
      split at member
      · grind
      · split at member <;> grind

theorem lt_of_not_lt {first second : String} (different : first ≠ second)
    (notBefore : ¬first < second) : second < first :=
  Decidable.byContradiction fun notAfter =>
    different (String.le_antisymm (String.not_lt.mp notAfter) (String.not_lt.mp notBefore))

theorem insertEntry_sorted (name : String) (value : α) {entries : List (String × α)}
    (sorted : entries.Pairwise fun a b => a.1 < b.1) :
    (insertEntry name value entries).Pairwise fun a b => a.1 < b.1 := by
  induction entries with
  | nil => simp [insertEntry]
  | cons head rest ih =>
      obtain ⟨key, held⟩ := head
      obtain ⟨before, restSorted⟩ := List.pairwise_cons.mp sorted
      simp only [insertEntry]
      split
      next same => exact List.pairwise_cons.mpr ⟨same ▸ before, restSorted⟩
      next different =>
        split
        next earlier =>
          refine List.pairwise_cons.mpr ⟨fun entry member => ?_, sorted⟩
          rcases List.mem_cons.mp member with rfl | later
          · exact earlier
          · exact String.lt_trans earlier (before entry later)
        next notEarlier =>
          refine List.pairwise_cons.mpr ⟨fun entry member => ?_, ih restSorted⟩
          rcases mem_insertEntry member with rfl | later
          · exact lt_of_not_lt different notEarlier
          · exact before entry later

def insert (bindings : Bindings α) (name : String) (value : α) : Bindings α :=
  ⟨insertEntry name value bindings.entries, insertEntry_sorted name value bindings.sorted⟩

def insertNew (bindings : Bindings α) (name : String) (value : α) :
    Except DuplicateName (Bindings α) :=
  if bindings.contains name then .error ⟨name⟩ else .ok (bindings.insert name value)

def erase (bindings : Bindings α) (name : String) : Bindings α :=
  if bindings.contains name then
    ⟨bindings.entries.filter fun entry => entry.1 ≠ name, bindings.sorted.filter _⟩
  else bindings

def overlay (inner outer : Bindings α) : Bindings α :=
  if inner.isEmpty then outer
  else inner.entries.foldl (fun bindings entry => bindings.insert entry.1 entry.2) outer

def ofList (entries : List (String × α)) : Bindings α :=
  entries.foldl (fun bindings entry => bindings.insert entry.1 entry.2) empty

def text (textOf : α → String) (bindings : Bindings α) : String :=
  let entries := bindings.entries.map fun (name, value) => Text.quoted name ++ ": " ++ textOf value
  "\x7b" ++ ", ".intercalate entries ++ "\x7d"

@[simp] theorem get?_empty (name : String) : (empty : Bindings α).get? name = none := rfl

theorem lookup_cons_if (name key : String) (held : α) (rest : List (String × α)) :
    ((key, held) :: rest).lookup name = if name = key then some held else rest.lookup name := by
  by_cases same : name = key
  · simp [same]
  · have differs : (name == key) = false := by simpa using same
    simp [List.lookup_cons, differs, same]

theorem lookup_insertEntry (name other : String) (value : α) (entries : List (String × α)) :
    (insertEntry name value entries).lookup other =
      if other = name then some value else entries.lookup other := by
  induction entries with
  | nil => simp [insertEntry, lookup_cons_if]
  | cons head rest ih =>
      obtain ⟨key, held⟩ := head
      simp only [insertEntry]
      split
      next same => grind [lookup_cons_if]
      next different =>
        split
        next => grind [lookup_cons_if]
        next => grind [lookup_cons_if]

@[simp] theorem get?_insert (bindings : Bindings α) (name other : String) (value : α) :
    (bindings.insert name value).get? other =
      if other = name then some value else bindings.get? other :=
  lookup_insertEntry name other value bindings.entries

theorem lookup_filter_ne (name other : String) (entries : List (String × α)) :
    (entries.filter fun entry => entry.1 ≠ name).lookup other =
      if other = name then none else entries.lookup other := by
  induction entries with
  | nil => simp
  | cons head rest ih =>
      obtain ⟨key, held⟩ := head
      by_cases removed : key = name
      · rw [List.filter_cons_of_neg (by simpa using removed), ih, lookup_cons_if]
        grind
      · rw [List.filter_cons_of_pos (by simpa using removed), lookup_cons_if, lookup_cons_if, ih]
        grind

@[simp] theorem get?_erase (bindings : Bindings α) (name other : String) :
    (bindings.erase name).get? other = if other = name then none else bindings.get? other := by
  rw [erase]
  split
  next => exact lookup_filter_ne name other bindings.entries
  next unbound =>
    have absent : bindings.get? name = none := by simpa [contains] using unbound
    split
    next same => rw [same, absent]
    next => rfl

theorem get?_foldl_insert (entries : List (String × α)) (outer : Bindings α) (name : String)
    (distinct : entries.Pairwise fun a b => a.1 ≠ b.1) :
    (entries.foldl (fun bindings entry => bindings.insert entry.1 entry.2) outer).get? name =
      (entries.lookup name).or (outer.get? name) := by
  induction entries generalizing outer with
  | nil => simp
  | cons head rest ih =>
      obtain ⟨key, held⟩ := head
      obtain ⟨others, restDistinct⟩ := List.pairwise_cons.mp distinct
      rw [List.foldl_cons, ih _ restDistinct, get?_insert, lookup_cons_if]
      by_cases same : name = key
      · subst same
        have absent : rest.lookup name = none := by
          rw [List.lookup_eq_none_iff]
          intro entry member
          simpa using others entry member
        simp [absent]
      · simp [same]

@[simp] theorem get?_overlay (inner outer : Bindings α) (name : String) :
    (inner.overlay outer).get? name = (inner.get? name).or (outer.get? name) := by
  rw [overlay]
  split
  next bare =>
    have absent : inner.get? name = none := by
      rw [get?, List.isEmpty_iff.mp bare]
      rfl
    rw [absent, Option.none_or]
  next =>
    exact get?_foldl_insert inner.entries outer name
      (inner.sorted.imp fun {a b} (before : a.1 < b.1) (same : a.1 = b.1) =>
        String.lt_irrefl b.1 (same ▸ before))

theorem ofList_append_singleton (entries : List (String × α)) (entry : String × α) :
    ofList (entries ++ [entry]) = (ofList entries).insert entry.1 entry.2 := by
  simp [ofList]

theorem lookup_of_lt_all {name : String} {entries : List (String × α)}
    (before : ∀ entry ∈ entries, name < entry.1) : entries.lookup name = none := by
  rw [List.lookup_eq_none_iff]
  intro entry member
  have different : name ≠ entry.1 := fun same => String.lt_irrefl _ (same ▸ before entry member)
  simpa using different

theorem entries_eq_of_lookup_eq {first second : List (String × α)}
    (firstSorted : first.Pairwise fun a b => a.1 < b.1)
    (secondSorted : second.Pairwise fun a b => a.1 < b.1)
    (same : ∀ name, first.lookup name = second.lookup name) : first = second := by
  induction first generalizing second with
  | nil =>
      cases second with
      | nil => rfl
      | cons entry rest =>
          have found := same entry.1
          rw [lookup_cons_if] at found
          simp at found
  | cons entry rest ih =>
      obtain ⟨key, held⟩ := entry
      obtain ⟨before, restSorted⟩ := List.pairwise_cons.mp firstSorted
      cases second with
      | nil => simpa [lookup_cons_if] using same key
      | cons entry' rest' =>
          obtain ⟨key', held'⟩ := entry'
          obtain ⟨before', restSorted'⟩ := List.pairwise_cons.mp secondSorted
          have sameKey : key = key' := by
            refine Decidable.byContradiction fun different => ?_
            by_cases earlier : key < key'
            · have absent : ((key', held') :: rest').lookup key = none :=
                lookup_of_lt_all fun entry member => by
                  rcases List.mem_cons.mp member with rfl | later
                  · exact earlier
                  · exact String.lt_trans earlier (before' entry later)
              simpa [lookup_cons_if, absent] using same key
            · have earlier' := lt_of_not_lt different earlier
              have absent : ((key, held) :: rest).lookup key' = none :=
                lookup_of_lt_all fun entry member => by
                  rcases List.mem_cons.mp member with rfl | later
                  · exact earlier'
                  · exact String.lt_trans earlier' (before entry later)
              simpa [lookup_cons_if, absent] using same key'
          subst sameKey
          have sameHeld : held = held' := by simpa [lookup_cons_if] using same key
          subst sameHeld
          refine congrArg _ (ih restSorted restSorted' fun name => ?_)
          by_cases atKey : name = key
          · subst atKey
            rw [lookup_of_lt_all before, lookup_of_lt_all before']
          · simpa [lookup_cons_if, atKey] using same name

theorem ext_get? {first second : Bindings α} (same : ∀ name, first.get? name = second.get? name) :
    first = second := by
  obtain ⟨entries, sorted⟩ := first
  obtain ⟨entries', sorted'⟩ := second
  have sameEntries : entries = entries' := entries_eq_of_lookup_eq sorted sorted' same
  subst sameEntries
  rfl

theorem mem_names (bindings : Bindings α) (name : String) :
    name ∈ bindings.names ↔ bindings.contains name := by
  have same (entry : String × α) : name = entry.1 ↔ entry.1 = name := eq_comm
  simp only [contains, get?, List.lookup_isSome_iff, names, List.mem_map, beq_iff_eq, same]

theorem nodup_names (bindings : Bindings α) : bindings.names.Nodup := by
  rw [names, List.nodup_iff_pairwise_ne, List.pairwise_map]
  refine bindings.sorted.imp fun {first second} before same => ?_
  exact String.lt_irrefl second.1 (same ▸ before)

instance [DecidableEq α] : DecidableEq (Bindings α) := fun first second =>
  decidable_of_iff (first.entries = second.entries)
    ⟨fun same => by cases first; cases second; simp_all, fun same => same ▸ rfl⟩

end Bindings

end TreeCompiler
