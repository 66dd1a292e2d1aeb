import Mathlib.Data.Finmap
import Mathlib.Data.List.Induction
import TreeCompiler.Bindings

set_option autoImplicit false

namespace TreeCompiler

variable {ι T S α : Type}

inductive TableAction (ι α : Type)
  -- Every result is stored under the last name that is given.
  | empty (target : ι)
  | copy (source target : ι)
  | insert (source : ι) (name : String) (value : α) (target : ι)
  | insertNew (source : ι) (name : String) (value : α) (target : ι)
  | erase (source : ι) (name : String) (target : ι)
  | overlay (inner outer target : ι)
  | ofList (entries : List (String × α)) (target : ι)

def TableAction.target : TableAction ι α → ι
  | empty target | copy _ target | insert _ _ _ target | insertNew _ _ _ target
  | erase _ _ target | overlay _ _ target | ofList _ target => target

structure TableOps (T α : Type) where
  empty : T
  insert : T → String → α → T
  insertNew : T → String → α → Except DuplicateName T
  erase : T → String → T
  overlay : T → T → T
  ofList : List (String × α) → T

def TableOps.result (ops : TableOps T α) (tables : ι → T) :
    TableAction ι α → Except DuplicateName T
  | .empty _ => .ok ops.empty
  | .copy source _ => .ok (tables source)
  | .insert source name value _ => .ok (ops.insert (tables source) name value)
  | .insertNew source name value _ => ops.insertNew (tables source) name value
  | .erase source name _ => .ok (ops.erase (tables source) name)
  | .overlay inner outer _ => .ok (ops.overlay (tables inner) (tables outer))
  | .ofList entries _ => .ok (ops.ofList entries)

structure Tables (ι T : Type) where
  held : ι → T
  refusals : List (Option DuplicateName) := []

namespace Tables

variable [DecidableEq ι]

def perform (ops : TableOps T α) (tables : Tables ι T) (action : TableAction ι α) : Tables ι T :=
  match ops.result tables.held action with
  | .ok table =>
      { held := Function.update tables.held action.target table
        refusals := tables.refusals ++ [none] }
  | .error duplicate => { tables with refusals := tables.refusals ++ [some duplicate] }

def run (ops : TableOps T α) (actions : List (TableAction ι α)) : Tables ι T :=
  actions.foldl (perform ops) { held := fun _ => ops.empty }

theorem run_concat (ops : TableOps T α) (actions : List (TableAction ι α))
    (last : TableAction ι α) :
    run ops (actions ++ [last]) = (run ops actions).perform ops last := by
  simp [run]

end Tables

def Bindings.ops : TableOps (Bindings α) α where
  empty := .empty
  insert := .insert
  insertNew := Bindings.insertNew
  erase := .erase
  overlay := .overlay
  ofList := .ofList

def finmapOps : TableOps (Finmap fun _ : String => α) α where
  empty := ∅
  insert map name value := map.insert name value
  insertNew map name value := if name ∈ map then .error ⟨name⟩ else .ok (map.insert name value)
  erase map name := map.erase name
  overlay inner outer := inner ∪ outer
  ofList entries := (entries.reverse.map Prod.toSigma).toFinmap

namespace Bindings

def toFinmap (bindings : Bindings α) : Finmap fun _ : String => α :=
  (bindings.entries.map Prod.toSigma).toFinmap

theorem dlookup_map_toSigma (name : String) (entries : List (String × α)) :
    (entries.map Prod.toSigma).dlookup name = entries.lookup name := by
  induction entries with
  | nil => rfl
  | cons entry rest ih =>
      obtain ⟨key, held⟩ := entry
      rw [lookup_cons_if, List.map_cons, Prod.toSigma_mk]
      by_cases same : name = key
      · subst same
        rw [List.dlookup_cons_eq, if_pos rfl]
      · rw [List.dlookup_cons_ne _ _ same, ih, if_neg same]

@[simp] theorem lookup_toFinmap (bindings : Bindings α) (name : String) :
    bindings.toFinmap.lookup name = bindings.get? name := by
  rw [toFinmap, Finmap.dlookup_list_toFinmap, dlookup_map_toSigma, get?]

theorem mem_toFinmap (bindings : Bindings α) (name : String) :
    name ∈ bindings.toFinmap ↔ bindings.contains name := by
  rw [← Finmap.lookup_isSome, lookup_toFinmap, contains]

theorem toFinmap_injective : Function.Injective (@toFinmap α) := fun first second same =>
  ext_get? fun name => by rw [← lookup_toFinmap, same, lookup_toFinmap]

theorem toFinmap_empty : (empty : Bindings α).toFinmap = ∅ :=
  Finmap.ext_lookup fun name => by rw [lookup_toFinmap, get?_empty, Finmap.lookup_empty]

theorem toFinmap_insert (bindings : Bindings α) (name : String) (value : α) :
    (bindings.insert name value).toFinmap = bindings.toFinmap.insert name value := by
  refine Finmap.ext_lookup fun other => ?_
  rw [lookup_toFinmap, get?_insert]
  by_cases same : other = name
  · rw [same, if_pos rfl, Finmap.lookup_insert]
  · rw [if_neg same, Finmap.lookup_insert_of_ne _ same, lookup_toFinmap]

theorem toFinmap_insertNew (bindings : Bindings α) (name : String) (value : α) :
    (bindings.insertNew name value).map toFinmap =
      finmapOps.insertNew bindings.toFinmap name value := by
  simp only [insertNew, finmapOps, mem_toFinmap]
  split
  · rfl
  · exact congrArg Except.ok (toFinmap_insert bindings name value)

theorem toFinmap_erase (bindings : Bindings α) (name : String) :
    (bindings.erase name).toFinmap = bindings.toFinmap.erase name := by
  refine Finmap.ext_lookup fun other => ?_
  rw [lookup_toFinmap, get?_erase]
  by_cases same : other = name
  · rw [same, if_pos rfl, Finmap.lookup_erase]
  · rw [if_neg same, Finmap.lookup_erase_ne same, lookup_toFinmap]

theorem toFinmap_overlay (inner outer : Bindings α) :
    (inner.overlay outer).toFinmap = inner.toFinmap ∪ outer.toFinmap := by
  refine Finmap.ext_lookup fun name => ?_
  rw [lookup_toFinmap, get?_overlay]
  by_cases bound : name ∈ inner.toFinmap
  · rw [Finmap.lookup_union_left bound, lookup_toFinmap]
    exact Option.or_of_isSome ((inner.mem_toFinmap name).mp bound)
  · have absent := Finmap.lookup_eq_none.mpr bound
    rw [lookup_toFinmap] at absent
    rw [Finmap.lookup_union_right bound, lookup_toFinmap, absent, Option.none_or]

-- The first entry of a name in the reversed list is the last one that was made.
theorem toFinmap_ofList (entries : List (String × α)) :
    (ofList entries).toFinmap = (entries.reverse.map Prod.toSigma).toFinmap := by
  refine Finmap.ext_lookup fun name => ?_
  rw [lookup_toFinmap, Finmap.dlookup_list_toFinmap, dlookup_map_toSigma]
  induction entries using List.reverseRecOn with
  | nil => rfl
  | append_singleton entries last ih =>
      rw [ofList_append_singleton, get?_insert, ih, List.reverse_append, List.reverse_singleton,
        List.singleton_append, lookup_cons_if]

theorem overlay_assoc (inner middle outer : Bindings α) :
    (inner.overlay middle).overlay outer = inner.overlay (middle.overlay outer) := by
  apply toFinmap_injective
  simp only [toFinmap_overlay, Finmap.union_assoc]

theorem overlay_self (bindings : Bindings α) : bindings.overlay bindings = bindings := by
  refine ext_get? fun name => ?_
  rw [get?_overlay, Option.or_self]

theorem empty_overlay (bindings : Bindings α) : empty.overlay bindings = bindings := by
  apply toFinmap_injective
  rw [toFinmap_overlay, toFinmap_empty, Finmap.empty_union]

theorem overlay_empty (bindings : Bindings α) : bindings.overlay empty = bindings := by
  apply toFinmap_injective
  rw [toFinmap_overlay, toFinmap_empty, Finmap.union_empty]

theorem beq_iff_get? [DecidableEq α] (first second : Bindings α) :
    first == second ↔ ∀ name, first.get? name = second.get? name := by
  rw [beq_iff_eq]
  exact ⟨fun same name => same ▸ rfl, ext_get?⟩

theorem mem_entries (bindings : Bindings α) (name : String) (value : α) :
    (name, value) ∈ bindings.entries ↔ bindings.get? name = some value := by
  rw [get?, List.lookup_eq_some_iff]
  constructor
  · intro member
    obtain ⟨before, after, split⟩ := List.append_of_mem member
    refine ⟨before, after, split, fun entry earlier => ?_⟩
    have sorted := bindings.sorted
    rw [split, List.pairwise_append] at sorted
    have smaller : entry.1 < name := sorted.2.2 entry earlier (name, value) List.mem_cons_self
    have different : name ≠ entry.1 := fun same => String.lt_irrefl name (same ▸ smaller)
    simpa using different
  · rintro ⟨before, after, split, _⟩
    rw [split]
    exact List.mem_append_right before List.mem_cons_self

theorem size_eq_card (bindings : Bindings α) : bindings.size = bindings.toFinmap.keys.card := by
  have keys : bindings.names.toFinset = bindings.toFinmap.keys := by
    ext name
    rw [List.mem_toFinset, mem_names, Finmap.mem_keys, mem_toFinmap]
  rw [← keys, List.toFinset_card_of_nodup bindings.nodup_names, names, List.length_map, size]

end Bindings

structure Agrees (table : Bindings α) (map : Finmap fun _ : String => α) : Prop where
  lookup : ∀ name, table.get? name = map.lookup name
  size : table.size = map.keys.card
  increasing : table.entries.Pairwise fun entry later => entry.1 < later.1
  listed : ∀ name value, (name, value) ∈ table.entries ↔ map.lookup name = some value

theorem Bindings.agrees (table : Bindings α) : Agrees table table.toFinmap where
  lookup name := (table.lookup_toFinmap name).symm
  size := table.size_eq_card
  increasing := table.sorted
  listed name value := by rw [lookup_toFinmap, mem_entries]

theorem TableOps.result_toFinmap (tables : ι → Bindings α) (action : TableAction ι α) :
    (Bindings.ops.result tables action).map Bindings.toFinmap =
      finmapOps.result (Bindings.toFinmap ∘ tables) action := by
  cases action with
  | empty target => exact congrArg Except.ok Bindings.toFinmap_empty
  | copy source target => rfl
  | insert source name value target =>
      exact congrArg Except.ok (Bindings.toFinmap_insert (tables source) name value)
  | insertNew source name value target =>
      exact Bindings.toFinmap_insertNew (tables source) name value
  | erase source name target =>
      exact congrArg Except.ok (Bindings.toFinmap_erase (tables source) name)
  | overlay inner outer target =>
      exact congrArg Except.ok (Bindings.toFinmap_overlay (tables inner) (tables outer))
  | ofList entries target => exact congrArg Except.ok (Bindings.toFinmap_ofList entries)

namespace Tables

def map (f : T → S) (tables : Tables ι T) : Tables ι S where
  held := f ∘ tables.held
  refusals := tables.refusals

variable [DecidableEq ι]

theorem perform_toFinmap (tables : Tables ι (Bindings α)) (action : TableAction ι α) :
    (tables.perform Bindings.ops action).map Bindings.toFinmap =
      (tables.map Bindings.toFinmap).perform finmapOps action := by
  have sameResult := TableOps.result_toFinmap tables.held action
  simp only [perform, map, ← sameResult]
  cases Bindings.ops.result tables.held action with
  | error duplicate => rfl
  | ok table => simp only [Except.map, Function.comp_update]

theorem run_toFinmap (actions : List (TableAction ι α)) :
    (run Bindings.ops actions).map Bindings.toFinmap = run finmapOps actions := by
  induction actions using List.reverseRecOn with
  | nil => exact congrArg (fun table => Tables.mk (fun _ => table) []) Bindings.toFinmap_empty
  | append_singleton actions last ih => rw [run_concat, run_concat, perform_toFinmap, ih]

theorem held_perform (ops : TableOps T α) (tables : Tables ι T) (action : TableAction ι α) :
    ∃ table, (tables.perform ops action).held =
      Function.update tables.held action.target table := by
  rw [perform]
  cases ops.result tables.held action with
  | ok table => exact ⟨table, rfl⟩
  | error duplicate => exact ⟨tables.held action.target, (Function.update_eq_self _ _).symm⟩

end Tables

theorem tables_refine_finite_maps [DecidableEq ι] [DecidableEq α]
    (actions : List (TableAction ι α)) :
    (∀ register, Agrees ((Tables.run Bindings.ops actions).held register)
      ((Tables.run finmapOps actions).held register)) ∧
    (Tables.run Bindings.ops actions).refusals = (Tables.run finmapOps actions).refusals ∧
    (∀ action, ∃ table, (Tables.run Bindings.ops (actions ++ [action])).held =
      Function.update (Tables.run Bindings.ops actions).held action.target table) ∧
    (∀ first second : Bindings α, first == second ↔ ∀ name, first.get? name = second.get? name) ∧
    (∀ inner middle outer : Bindings α,
      (inner.overlay middle).overlay outer = inner.overlay (middle.overlay outer)) ∧
    ∀ table : Bindings α, table.overlay table = table ∧
      Bindings.empty.overlay table = table ∧ table.overlay .empty = table := by
  have same := Tables.run_toFinmap actions
  refine ⟨fun register => ?_, congrArg Tables.refusals same, fun action => ?_,
    Bindings.beq_iff_get?, Bindings.overlay_assoc, fun table => ?_⟩
  · have sameTable := congrFun (congrArg Tables.held same) register
    exact sameTable ▸ ((Tables.run Bindings.ops actions).held register).agrees
  · rw [Tables.run_concat]
    exact Tables.held_perform Bindings.ops _ action
  · exact ⟨table.overlay_self, table.empty_overlay, table.overlay_empty⟩

end TreeCompiler
