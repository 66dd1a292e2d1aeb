import Mathlib
import TreeCompiler.Proofs.CodeTemps
import TreeCompiler.Proofs.Lowering

set_option autoImplicit false

namespace TreeCompiler

open Code

namespace Access

def bytes (wordSize : WordSize) : Access → Set Int
  | inFrame offset => Set.Ico offset.toInt (offset.toInt + wordSize.bytes)
  | inReg _ => ∅

def temp? : Access → Option Temp
  | inFrame _ => none
  | inReg temp => some temp

end Access

/-- A frame with what was asked of it: how many formals, and which locals, whether they escape. -/
structure FilledFrame where
  frame : StackFrame
  formalCount : Nat
  locals : List (Bool × Access) := []
  deriving DecidableEq

namespace FilledFrame

variable (filled : FilledFrame)

def wordSize : WordSize := filled.frame.layout.wordSize

def escaping : List Access := (filled.locals.filter fun (escapes, _) => escapes).map Prod.snd

def staying : List Access := (filled.locals.filter fun (escapes, _) => !escapes).map Prod.snd

def registers : List Temp := filled.staying.filterMap Access.temp?

/-- The words on either side of the frame pointer are no more than offsets can tell apart. -/
structure Fits : Prop where
  formals : filled.formalCount + 2 ≤ Int64.maxValue.toInt / filled.wordSize.bytes
  locals : filled.escaping.length ≤ Int64.maxValue.toInt / filled.wordSize.bytes

def LieAt (accesses : List Access) (offsets : List Int) : Prop :=
  ∃ words : List Int64, accesses = words.map .inFrame ∧ words.map Int64.toInt = offsets

/--
Every variable in memory has bytes of its own. The two words from the frame pointer upwards, which
hold the saved frame pointer and the return address, are nobody's; formals lie above and locals
below them, each at its offset without being cut off.
-/
structure KeptApart : Prop where
  formals : LieAt filled.frame.formals
    ((List.range filled.formalCount).map fun index : Nat => (index + 2) * filled.wordSize.bytes)
  locals : LieAt filled.escaping
    ((List.range filled.escaping.length).map fun index : Nat =>
      -((index + 1) * filled.wordSize.bytes))
  disjoint : (filled.frame.formals ++ filled.escaping).Pairwise fun one other =>
    Disjoint (one.bytes filled.wordSize) (other.bytes filled.wordSize)
  reserved : ∀ access ∈ filled.frame.formals ++ filled.escaping,
    Disjoint (access.bytes filled.wordSize) (Set.Ico 0 (2 * filled.wordSize.bytes))
  above : ∀ access ∈ filled.frame.formals,
    access.bytes filled.wordSize ⊆ Set.Ici (2 * filled.wordSize.bytes : Int)
  below : ∀ access ∈ filled.escaping, access.bytes filled.wordSize ⊆ Set.Iio 0

end FilledFrame

inductive StorageRequest
  | reserve (bytes : Int)
  | makeFrame (layout : Nat) (label : Label) (formals : Nat)
  | allocLocal (frame : Nat) (escapes : Bool)
  | drawTemp
  | drawLabel

def StorageRequest.wordSize? : StorageRequest → Option Int
  | reserve bytes => if 1 ≤ bytes ∧ bytes ≤ 1024 then some bytes else none
  | _ => none

structure Storage where
  supply : Supply := {}
  layouts : List StackLayout := []
  frames : List FilledFrame := []
  deriving DecidableEq

namespace Storage

def serve (storage : Storage) : StorageRequest → Storage
  -- A request that names no layout or frame changes nothing.
  | .reserve bytes =>
      match WordSize.check bytes with
      | .ok wordSize =>
          let (layout, supply) := (StackLayout.reserve wordSize).run storage.supply
          { storage with supply, layouts := storage.layouts ++ [layout] }
      | .error _ => storage
  | .makeFrame index label formals =>
      match storage.layouts[index]? with
      | some layout =>
          let (frame, supply) := (layout.maker label formals).run storage.supply
          { storage with supply, frames := storage.frames ++ [{ frame, formalCount := formals }] }
      | none => storage
  | .allocLocal index escapes =>
      match storage.frames[index]? with
      | some filled =>
          let ((access, frame), supply) := (filled.frame.allocLocal escapes).run storage.supply
          let locals := filled.locals ++ [(escapes, access)]
          { storage with supply, frames := storage.frames.set index { filled with frame, locals } }
      | none => storage
  | .drawTemp => { storage with supply := (Supply.freshTemp.run storage.supply).2 }
  | .drawLabel => { storage with supply := (Supply.freshLabel.run storage.supply).2 }

def run (supply : Supply) (requests : List StorageRequest) : Storage :=
  requests.foldl serve { supply }

def wordSizes (storage : Storage) : List Int :=
  storage.layouts.map fun layout => layout.wordSize.bytes

def reserved (storage : Storage) : List Temp :=
  storage.layouts.flatMap fun layout => [layout.framePointer, layout.returnValue]

def registers (storage : Storage) : List Temp :=
  storage.frames.flatMap FilledFrame.registers

end Storage

namespace StackLayout

variable (layout : StackLayout)

def word (place : Int) : Access := .inFrame (.ofIntClamp (place * layout.wordSize.bytes))

def InReach (place : Int) : Prop :=
  -(Int64.maxValue.toInt / layout.wordSize.bytes) ≤ place ∧
    place ≤ Int64.maxValue.toInt / layout.wordSize.bytes

theorem toInt_offset {place : Int} (reach : layout.InReach place) :
    (Int64.ofIntClamp (place * layout.wordSize.bytes)).toInt = place * layout.wordSize.bytes := by
  have positive : (0 : Int) < layout.wordSize.bytes := Int.natCast_pos.mpr layout.wordSize.positive
  have upper := (Int.le_ediv_iff_mul_le positive).mp reach.2
  have lower := (Int.le_ediv_iff_mul_le positive).mp (Int.neg_le_of_neg_le reach.1)
  have symmetric : Int64.minValue.toInt ≤ -Int64.maxValue.toInt := by decide
  rw [Int.neg_mul] at lower
  exact Int64.toInt_ofIntClamp (by omega) upper

theorem bytes_word {place : Int} (reach : layout.InReach place) :
    (layout.word place).bytes layout.wordSize =
      Set.Ico (place * layout.wordSize.bytes) ((place + 1) * layout.wordSize.bytes) := by
  rw [word, Access.bytes, layout.toInt_offset reach, Int.add_mul, Int.one_mul]

theorem disjoint_words {one other : Int} (oneReach : layout.InReach one)
    (otherReach : layout.InReach other) (different : one ≠ other) :
    Disjoint ((layout.word one).bytes layout.wordSize)
      ((layout.word other).bytes layout.wordSize) := by
  rw [layout.bytes_word oneReach, layout.bytes_word otherReach]
  exact Set.pairwise_disjoint_Ico_zsmul (layout.wordSize.bytes : Int) different

theorem word_above {place : Int} (reach : layout.InReach place) (above : 2 ≤ place) :
    (layout.word place).bytes layout.wordSize ⊆ Set.Ici (2 * layout.wordSize.bytes : Int) := by
  rw [layout.bytes_word reach]
  have started : 2 * (layout.wordSize.bytes : Int) ≤ place * layout.wordSize.bytes :=
    Int.mul_le_mul_of_nonneg_right above (Int.natCast_nonneg _)
  exact fun byte within => le_trans started within.1

theorem word_below {place : Int} (reach : layout.InReach place) (below : place < 0) :
    (layout.word place).bytes layout.wordSize ⊆ Set.Iio 0 := by
  rw [layout.bytes_word reach]
  have stopped : (place + 1) * (layout.wordSize.bytes : Int) ≤ 0 :=
    Int.mul_nonpos_of_nonpos_of_nonneg (by omega) (Int.natCast_nonneg _)
  exact fun byte within => lt_of_lt_of_le within.2 stopped

theorem lieAt_words {places : List Int} (reach : ∀ place ∈ places, layout.InReach place) :
    FilledFrame.LieAt (places.map layout.word)
      (places.map fun place => place * layout.wordSize.bytes) := by
  refine ⟨places.map fun place => .ofIntClamp (place * layout.wordSize.bytes), ?_, ?_⟩
  · rw [List.map_map]
    rfl
  · rw [List.map_map]
    exact List.map_congr_left fun place member => layout.toInt_offset (reach place member)

end StackLayout

namespace FilledFrame

def formalPlaces (count : Nat) : List Int := (List.range count).map fun index : Nat => index + 2

def localPlaces (count : Nat) : List Int := (List.range count).map fun index : Nat => -(index + 1)

theorem mem_formalPlaces {count : Nat} {place : Int} :
    place ∈ formalPlaces count ↔ 2 ≤ place ∧ place < count + 2 := by
  simp only [formalPlaces, List.mem_map, List.mem_range]
  constructor
  · rintro ⟨index, within, rfl⟩
    omega
  · exact fun within => ⟨(place - 2).toNat, by omega, by omega⟩

theorem mem_localPlaces {count : Nat} {place : Int} :
    place ∈ localPlaces count ↔ -count ≤ place ∧ place < 0 := by
  simp only [localPlaces, List.mem_map, List.mem_range]
  constructor
  · rintro ⟨index, within, rfl⟩
    omega
  · exact fun within => ⟨(-place - 1).toNat, by omega, by omega⟩

theorem nodup_places (formals escaped : Nat) :
    (formalPlaces formals ++ localPlaces escaped).Nodup := by
  refine List.Nodup.append (List.nodup_range.map ?_) (List.nodup_range.map ?_) ?_
  · exact fun one other same => by omega
  · exact fun one other same => by omega
  · intro place isFormal isLocal
    rw [mem_formalPlaces] at isFormal
    rw [mem_localPlaces] at isLocal
    omega

structure Regular (filled : FilledFrame) : Prop where
  formals : filled.frame.formals =
    (formalPlaces filled.formalCount).map filled.frame.layout.word
  escaping : filled.escaping =
    (localPlaces filled.frame.escaped).map filled.frame.layout.word
  staying : filled.staying = filled.registers.map .inReg

section Apart

variable {filled : FilledFrame} (regular : filled.Regular) (fits : filled.Fits)

theorem Fits.formal_inReach (fits : filled.Fits) {place : Int}
    (taken : place ∈ formalPlaces filled.formalCount) : filled.frame.layout.InReach place := by
  have few := fits.formals
  rw [mem_formalPlaces] at taken
  rw [wordSize] at few
  rw [StackLayout.InReach]
  omega

include regular

theorem Regular.length_escaping : filled.escaping.length = filled.frame.escaped := by
  rw [regular.escaping, localPlaces, List.length_map, List.length_map, List.length_range]

include fits

theorem Regular.local_inReach {place : Int} (taken : place ∈ localPlaces filled.frame.escaped) :
    filled.frame.layout.InReach place := by
  have few := fits.locals
  rw [regular.length_escaping, wordSize] at few
  rw [mem_localPlaces] at taken
  rw [StackLayout.InReach]
  omega

theorem Regular.disjoint : (filled.frame.formals ++ filled.escaping).Pairwise fun one other =>
    Disjoint (one.bytes filled.wordSize) (other.bytes filled.wordSize) := by
  have reach : ∀ place ∈ formalPlaces filled.formalCount ++ localPlaces filled.frame.escaped,
      filled.frame.layout.InReach place :=
    List.forall_mem_append.mpr
      ⟨fun _ taken => fits.formal_inReach taken, fun _ taken => regular.local_inReach fits taken⟩
  rw [regular.formals, regular.escaping, ← List.map_append, List.pairwise_map]
  refine (nodup_places _ _).imp_of_mem fun oneTaken otherTaken different => ?_
  exact filled.frame.layout.disjoint_words (reach _ oneTaken) (reach _ otherTaken) different

theorem Regular.formal_above {access : Access} (member : access ∈ filled.frame.formals) :
    access.bytes filled.wordSize ⊆ Set.Ici (2 * filled.wordSize.bytes : Int) := by
  rw [regular.formals, List.mem_map] at member
  obtain ⟨place, taken, rfl⟩ := member
  exact filled.frame.layout.word_above (fits.formal_inReach taken) (mem_formalPlaces.mp taken).1

theorem Regular.local_below {access : Access} (member : access ∈ filled.escaping) :
    access.bytes filled.wordSize ⊆ Set.Iio 0 := by
  rw [regular.escaping, List.mem_map] at member
  obtain ⟨place, taken, rfl⟩ := member
  exact filled.frame.layout.word_below (regular.local_inReach fits taken)
    (mem_localPlaces.mp taken).2

theorem Regular.keptApart : filled.KeptApart where
  formals := by
    have words := filled.frame.layout.lieAt_words fun _ taken => fits.formal_inReach taken
    rw [← regular.formals, formalPlaces, List.map_map] at words
    exact words
  locals := by
    have words := filled.frame.layout.lieAt_words fun _ taken => regular.local_inReach fits taken
    rw [← regular.escaping, localPlaces, List.map_map, ← regular.length_escaping] at words
    simp only [Function.comp_def, Int.neg_mul] at words
    exact words
  disjoint := regular.disjoint fits
  reserved access member := by
    rcases List.mem_append.mp member with isFormal | isLocal
    · have above := regular.formal_above fits isFormal
      exact (Set.Iio_disjoint_Ici le_rfl).symm.mono above Set.Ico_subset_Iio_self
    · have below := regular.local_below fits isLocal
      exact (Set.Iio_disjoint_Ici le_rfl).mono below Set.Ico_subset_Ici_self
  above _ := regular.formal_above fits
  below _ := regular.local_below fits

end Apart

theorem regular_frame (layout : StackLayout) (label : Label) (count : Nat) :
    Regular { frame := layout.frame label count, formalCount := count } where
  formals := by
    rw [formalPlaces, List.map_map]
    rfl
  escaping := rfl
  staying := rfl

variable (filled : FilledFrame)

def withEscaping : FilledFrame where
  frame := { filled.frame with escaped := filled.frame.escaped + 1 }
  formalCount := filled.formalCount
  locals := filled.locals ++
    [(true, .inFrame (filled.frame.layout.localOffset (filled.frame.escaped + 1)))]

def withRegister (temp : Temp) : FilledFrame where
  frame := filled.frame
  formalCount := filled.formalCount
  locals := filled.locals ++ [(false, .inReg temp)]

theorem escaping_withEscaping : filled.withEscaping.escaping = filled.escaping ++
    [.inFrame (filled.frame.layout.localOffset (filled.frame.escaped + 1))] := by
  simp [escaping, withEscaping]

theorem staying_withEscaping : filled.withEscaping.staying = filled.staying := by
  simp [staying, withEscaping]

theorem escaping_withRegister (temp : Temp) :
    (filled.withRegister temp).escaping = filled.escaping := by
  simp [escaping, withRegister]

theorem staying_withRegister (temp : Temp) :
    (filled.withRegister temp).staying = filled.staying ++ [.inReg temp] := by
  simp [staying, withRegister]

theorem registers_withEscaping : filled.withEscaping.registers = filled.registers := by
  rw [registers, staying_withEscaping, registers]

theorem registers_withRegister (temp : Temp) :
    (filled.withRegister temp).registers = filled.registers ++ [temp] := by
  rw [registers, staying_withRegister, List.filterMap_append, registers]
  rfl

variable {filled}

theorem Regular.withEscaping (regular : filled.Regular) : filled.withEscaping.Regular where
  formals := regular.formals
  escaping := by
    have last : Access.inFrame (filled.frame.layout.localOffset (filled.frame.escaped + 1)) =
        filled.frame.layout.word (-(filled.frame.escaped + 1)) := by
      rw [StackLayout.localOffset, StackLayout.word, Int.neg_mul, Int.natCast_add_one]
    have longer : localPlaces (filled.frame.escaped + 1) =
        localPlaces filled.frame.escaped ++ [(-(filled.frame.escaped + 1) : Int)] := by
      simp [localPlaces, List.range_succ]
    rw [escaping_withEscaping, regular.escaping, last]
    simp only [FilledFrame.withEscaping, longer, List.map_append, List.map_singleton]
  staying := by
    rw [registers_withEscaping, staying_withEscaping, regular.staying]

theorem Regular.withRegister (regular : filled.Regular) (temp : Temp) :
    (filled.withRegister temp).Regular where
  formals := regular.formals
  escaping := (filled.escaping_withRegister temp).trans regular.escaping
  staying := by
    rw [registers_withRegister, staying_withRegister, regular.staying, List.map_append,
      List.map_singleton]

end FilledFrame

structure DrawnApart (temps : List Temp) (bound : Nat) : Prop where
  distinct : temps.Nodup
  below : AllBelow (· ∈ temps) bound

namespace DrawnApart

variable {temps others : List Temp} {bound : Nat}

theorem later (apart : DrawnApart temps bound) : DrawnApart temps (bound + 1) :=
  ⟨apart.distinct, apart.below.raise (Nat.le_succ bound)⟩

theorem draw (apart : DrawnApart temps bound) : DrawnApart (⟨bound⟩ :: temps) (bound + 1) where
  distinct := List.nodup_cons.mpr ⟨apart.below.not_known le_rfl, apart.distinct⟩
  below := List.forall_mem_cons.mpr ⟨Nat.lt_succ_self bound, apart.later.below⟩

theorem perm (apart : DrawnApart temps bound) (same : temps.Perm others) :
    DrawnApart others bound where
  distinct := same.nodup apart.distinct
  below temp member := apart.below temp (same.mem_iff.mpr member)

end DrawnApart

namespace Storage

variable {storage : Storage}

structure Sound (storage : Storage) : Prop where
  regular : ∀ filled ∈ storage.frames, filled.Regular
  shared : ∀ filled ∈ storage.frames, filled.frame.layout ∈ storage.layouts
  apart : DrawnApart (storage.reserved ++ storage.registers) storage.supply.temps

theorem registers_set {frames : List FilledFrame} {index : Nat} {filled grown : FilledFrame}
    (found : frames[index]? = some filled) {temps : List Temp}
    (more : grown.registers = filled.registers ++ temps) :
    (temps ++ frames.flatMap FilledFrame.registers).Perm
      ((frames.set index grown).flatMap FilledFrame.registers) := by
  obtain ⟨within, rfl⟩ := List.getElem?_eq_some_iff.mp found
  obtain ⟨before, after, split, _, replaced⟩ := @List.exists_of_set _ index grown _ within
  have before_set : frames.flatMap FilledFrame.registers =
      before.flatMap FilledFrame.registers ++
        (frames[index].registers ++ after.flatMap FilledFrame.registers) := by
    conv => lhs; rw [split, List.flatMap_append, List.flatMap_cons]
  rw [replaced, List.flatMap_append, List.flatMap_cons, more, before_set, List.append_assoc _ temps]
  refine (List.perm_append_comm_assoc _ _ _).trans (List.Perm.append_left _ ?_)
  exact List.perm_append_comm_assoc _ _ _

theorem Sound.addLayout (sound : storage.Sound) (wordSize : WordSize) :
    Sound { storage with
      supply := storage.supply.afterTemp.afterTemp
      layouts := storage.layouts ++ [.reserved wordSize storage.supply] } where
  regular := sound.regular
  shared filled member := List.mem_append_left _ (sound.shared filled member)
  apart := by
    refine sound.apart.draw.draw.perm ?_
    simp only [reserved, List.flatMap_append, List.flatMap_singleton, List.append_assoc]
    refine (List.perm_append_comm_assoc [_, _] _ _).trans (List.Perm.append_left _ ?_)
    exact List.Perm.swap _ _ _

theorem Sound.addFrame (sound : storage.Sound) {layout : StackLayout}
    (known : layout ∈ storage.layouts) (label : Label) (formals : Nat) :
    Sound { storage with
      frames := storage.frames ++
        [{ frame := layout.frame label formals, formalCount := formals }] } where
  regular := List.forall_mem_append.mpr
    ⟨sound.regular, List.forall_mem_singleton.mpr (FilledFrame.regular_frame layout label formals)⟩
  shared := List.forall_mem_append.mpr ⟨sound.shared, List.forall_mem_singleton.mpr known⟩
  apart := by
    simpa [reserved, registers, FilledFrame.registers, FilledFrame.staying] using sound.apart

-- Only the frame that grows draws a temporary, so the new ones can be counted before all others.
theorem Sound.growFrame (sound : storage.Sound) {index : Nat} {filled grown : FilledFrame}
    (found : storage.frames[index]? = some filled) (regular : grown.Regular)
    (sameLayout : grown.frame.layout = filled.frame.layout) (supply : Supply) (temps : List Temp)
    (more : grown.registers = filled.registers ++ temps)
    (apart : DrawnApart (temps ++ (storage.reserved ++ storage.registers)) supply.temps) :
    Sound { storage with supply, frames := storage.frames.set index grown } where
  regular other member := by
    rcases List.mem_or_eq_of_mem_set member with old | rfl
    · exact sound.regular other old
    · exact regular
  shared other member := by
    rcases List.mem_or_eq_of_mem_set member with old | rfl
    · exact sound.shared other old
    · exact sameLayout ▸ sound.shared filled (List.mem_of_getElem? found)
  apart := by
    refine apart.perm ((List.perm_append_comm_assoc _ _ _).trans (List.Perm.append_left _ ?_))
    exact registers_set found more

theorem Sound.addEscaping (sound : storage.Sound) {index : Nat} {filled : FilledFrame}
    (found : storage.frames[index]? = some filled) :
    Sound { storage with frames := storage.frames.set index filled.withEscaping } := by
  have regular := sound.regular filled (List.mem_of_getElem? found)
  have noMore : filled.withEscaping.registers = filled.registers ++ [] := by
    rw [filled.registers_withEscaping, List.append_nil]
  exact sound.growFrame found regular.withEscaping rfl storage.supply [] noMore sound.apart

theorem Sound.addRegister (sound : storage.Sound) {index : Nat} {filled : FilledFrame}
    (found : storage.frames[index]? = some filled) :
    Sound { storage with
      supply := storage.supply.afterTemp
      frames := storage.frames.set index (filled.withRegister storage.supply.nextTemp) } := by
  have regular := sound.regular filled (List.mem_of_getElem? found)
  exact sound.growFrame found (regular.withRegister _) rfl storage.supply.afterTemp
    [storage.supply.nextTemp] (filled.registers_withRegister _) sound.apart.draw

theorem Sound.serve (sound : storage.Sound) (request : StorageRequest) :
    (storage.serve request).Sound := by
  cases request with
  | reserve bytes =>
      simp only [Storage.serve, StackLayout.run_reserve]
      cases WordSize.check bytes with
      | ok wordSize => exact sound.addLayout wordSize
      | error _ => exact sound
  | makeFrame index label formals =>
      simp only [Storage.serve]
      cases found : storage.layouts[index]? with
      | some layout => exact sound.addFrame (List.mem_of_getElem? found) label formals
      | none => exact sound
  | allocLocal index escapes =>
      simp only [Storage.serve]
      cases found : storage.frames[index]? with
      | some filled =>
          cases escapes with
          | true => exact sound.addEscaping found
          | false => exact sound.addRegister found
      | none => exact sound
  | drawTemp => exact ⟨sound.regular, sound.shared, sound.apart.later⟩
  | drawLabel => exact ⟨sound.regular, sound.shared, sound.apart⟩

theorem sound_run (supply : Supply) (requests : List StorageRequest) :
    (run supply requests).Sound := by
  have begun : ({ supply } : Storage).Sound := {
    regular := by simp
    shared := by simp
    apart := ⟨List.nodup_nil, by simp [reserved, registers, AllBelow]⟩ }
  exact List.foldlRecOn requests serve begun fun storage sound request _ => sound.serve request

theorem wordSizes_serve (storage : Storage) (request : StorageRequest) :
    (storage.serve request).wordSizes = storage.wordSizes ++ request.wordSize?.toList := by
  have unchanged : storage.wordSizes = storage.wordSizes ++ [] := (List.append_nil _).symm
  cases request with
  | reserve bytes =>
      by_cases valid : 1 ≤ bytes ∧ bytes ≤ 1024
      · have exactly : (bytes.toNat : Int) = bytes := by omega
        simp [serve, WordSize.check, valid, StackLayout.run_reserve, StackLayout.reserved,
          wordSizes, StorageRequest.wordSize?, exactly]
      · simp [serve, WordSize.check, valid, StorageRequest.wordSize?]
  | makeFrame index label formals =>
      simp only [serve]
      cases storage.layouts[index]? with
      | some layout => exact unchanged
      | none => exact unchanged
  | allocLocal index escapes =>
      simp only [serve]
      cases storage.frames[index]? with
      | some filled => cases escapes <;> exact unchanged
      | none => exact unchanged
  | drawTemp => exact unchanged
  | drawLabel => exact unchanged

theorem wordSizes_run (supply : Supply) (requests : List StorageRequest) :
    (run supply requests).wordSizes = requests.filterMap StorageRequest.wordSize? := by
  induction requests using List.reverseRecOn with
  | nil => rfl
  | append_singleton requests last ih =>
      have step : run supply (requests ++ [last]) = (run supply requests).serve last := by
        simp [run]
      rw [step, wordSizes_serve, ih, List.filterMap_append]
      cases asked : last.wordSize? <;> simp [asked]

theorem run_keeps_apart (supply : Supply) (requests : List StorageRequest) :
    (run supply requests).wordSizes = requests.filterMap StorageRequest.wordSize? ∧
    (∀ filled ∈ (run supply requests).frames,
      filled.frame.layout ∈ (run supply requests).layouts ∧
      filled.staying = filled.registers.map .inReg ∧
      (filled.Fits → filled.KeptApart)) ∧
    ((run supply requests).reserved ++ (run supply requests).registers).Nodup := by
  have sound := sound_run supply requests
  refine ⟨wordSizes_run supply requests, fun filled member => ?_, sound.apart.distinct⟩
  have regular := sound.regular filled member
  exact ⟨sound.shared filled member, regular.staying, regular.keptApart⟩

def interleaved : List StorageRequest := [
  -- Two layouts, one with the largest words, whose frames are filled in turns.
  .reserve 8, .makeFrame 0 (.function "f") 2, .allocLocal 0 true, .reserve 1025, .reserve 1024,
  .makeFrame 1 .main 1, .allocLocal 1 false, .allocLocal 0 false, .drawTemp, .allocLocal 1 true,
  .allocLocal 0 true, .allocLocal 0 false, .allocLocal 1 true]

def interleavedMain : FilledFrame where
  frame :=
    { label := .main
      formals := [.inFrame 2048]
      layout :=
        { wordSize := ⟨1024, by decide, by decide⟩, framePointer := ⟨2⟩, returnValue := ⟨3⟩ }
      escaped := 2 }
  formalCount := 1
  locals := [(false, .inReg ⟨4⟩), (true, .inFrame (-1024)), (true, .inFrame (-2048))]

theorem run_keeps_apart_interleaved :
    (run {} interleaved).frames[1]? = some interleavedMain ∧
      interleavedMain.Fits ∧ interleavedMain.KeptApart ∧
      ((run {} interleaved).reserved ++ (run {} interleaved).registers).Nodup := by
  have second : (run {} interleaved).frames[1]? = some interleavedMain := rfl
  have fits : interleavedMain.Fits := ⟨by decide, by decide⟩
  obtain ⟨_, frames, distinct⟩ := run_keeps_apart {} interleaved
  obtain ⟨_, _, apart⟩ := frames interleavedMain (List.mem_of_getElem? second)
  exact ⟨second, fits, apart fits, distinct⟩

end Storage

end TreeCompiler
