import Mathlib.Data.List.Induction
import TreeCompiler.Proofs.Flushes
import TreeCompiler.Proofs.Totality

set_option autoImplicit false

namespace TreeCompiler

open Source Code Resolve Lower Diagnostic

namespace Diagnostic

structure LocatedError (diagnostic : Diagnostic) : Prop where
  severity : diagnostic.severity = .error
  pointing : ∃ span, PointsAt diagnostic span

namespace Queue

-- How many errors are kept of so many that are reported.
def room (limit reported : Nat) : Nat := if limit = 0 then reported else min limit reported

theorem errorsIn_presented (queue : Queue) : errorsIn queue.presented = errorsIn queue.kept := by
  obtain ⟨placed, unplaced, warning, arranges, tells, presented⟩ := queue.presented_arranges
  have sorted : errorsIn (placed ++ unplaced) = errorsIn queue.kept := arranges.complete.countP_eq _
  have noError : errorsIn [warning] = 0 := by simp [errorsIn, tells.severity]
  rw [presented, errorsIn_append, sorted]
  split
  · rw [noError, Nat.add_zero]
  · rfl

section Errors

variable {errors : List Diagnostic}

theorem errorsIn_located (located : ∀ error ∈ errors, LocatedError error) :
    errorsIn errors = errors.length := by
  rw [errorsIn, List.countP_eq_length]
  exact fun error member => decide_eq_true (located error member).severity

theorem kept_located (limit : Nat) (located : ∀ error ∈ errors, LocatedError error) :
    (holdingAll limit errors).kept = errors.take (room limit errors.length) := by
  induction errors using List.reverseRecOn with
  | nil => simp [holdingAll]
  | append_singleton errors last ih =>
      obtain ⟨earlier, lastLocated⟩ := List.forall_mem_append.mp located
      have isError := (lastLocated last List.mem_cons_self).severity
      have decision : withinLimit limit errors last = decide (limit = 0 ∨ errors.length < limit) := by
        simp [withinLimit, isError, errorsIn_located earlier]
      rw [← holdingAll_add, add, keeps_holdingAll, decision, ih earlier, List.length_append,
        List.length_singleton]
      by_cases fits : limit = 0 ∨ errors.length < limit
      · have before : room limit errors.length = errors.length := by grind [room]
        have after : room limit (errors.length + 1) = errors.length + 1 := by grind [room]
        simp [fits, before, after, List.take_of_length_le]
      · have before : room limit errors.length = limit := by grind [room]
        have after : room limit (errors.length + 1) = limit := by grind [room]
        have full : limit ≤ errors.length := by omega
        simp [fits, before, after, List.take_append_of_le_length full]

theorem errorsIn_presented_located (limit : Nat)
    (located : ∀ error ∈ errors, LocatedError error) :
    errorsIn (holdingAll limit errors).presented = room limit errors.length := by
  have keptLocated : ∀ error ∈ (holdingAll limit errors).kept, LocatedError error := by
    rw [kept_located limit located]
    exact fun error member => located error (List.mem_of_mem_take member)
  rw [errorsIn_presented, errorsIn_located keptLocated, kept_located limit located,
    List.length_take]
  grind [room]

theorem presented_within {limit : Nat} (located : ∀ error ∈ errors, LocatedError error)
    (within : limit = 0 ∨ errors.length ≤ limit) :
    Arranges errors (holdingAll limit errors).presented [] := by
  obtain ⟨placed, unplaced, warning, arranges, -, presented⟩ :=
    (holdingAll limit errors).presented_arranges
  have all : room limit errors.length = errors.length := by grind [room]
  have noneDropped : ¬0 < (holdingAll limit errors).dropped := by
    rw [dropped_holdingAll, errorsIn_located located]
    grind
  rw [kept_located limit located, all, List.take_length] at arranges
  obtain rfl := arranges.unplaced_eq_nil fun error member => (located error member).pointing
  rwa [presented, if_neg noneDropped, List.append_nil, List.append_nil]

theorem presented_beyond {limit : Nat} (located : ∀ error ∈ errors, LocatedError error)
    (beyond : 0 < limit ∧ limit < errors.length) :
    ∃ sorted warning, Arranges (errors.take limit) sorted [] ∧
      TellsOf warning limit (errors.length - limit) ∧
      (holdingAll limit errors).presented = sorted ++ [warning] := by
  obtain ⟨placed, unplaced, warning, arranges, tells, presented⟩ :=
    (holdingAll limit errors).presented_arranges
  have full : room limit errors.length = limit := by grind [room]
  have dropped : (holdingAll limit errors).dropped = errors.length - limit := by
    rw [dropped_holdingAll, errorsIn_located located, if_neg (by omega)]
  have someDropped : 0 < (holdingAll limit errors).dropped := by omega
  rw [kept_located limit located, full] at arranges
  obtain rfl := arranges.unplaced_eq_nil fun error member =>
    (located error (List.mem_of_mem_take member)).pointing
  rw [dropped] at tells
  rw [if_pos someDropped, List.append_nil] at presented
  exact ⟨placed, warning, arranges, tells, presented⟩

end Errors

end Queue

end Diagnostic

def reported (program : Program) : List Diagnostic :=
  ((resolveVariables program).2 ++ (resolveFunctions program).2).map Report.diagnostic

theorem located_of_mem_reported {program : Program} {diagnostic : Diagnostic}
    (member : diagnostic ∈ reported program) : LocatedError diagnostic := by
  obtain ⟨report, _, rfl⟩ := List.mem_map.mp member
  cases report with
  | duplicate name span => exact ⟨rfl, span, [], _, [], rfl, List.forall_mem_nil _, rfl, rfl⟩
  | undefined name span => exact ⟨rfl, span, [], _, [], rfl, List.forall_mem_nil _, rfl, rfl⟩

theorem code_of_mem_reported {program : Program} {diagnostic : Diagnostic}
    (member : diagnostic ∈ reported program) : diagnostic.code.text ∈ ["E2001", "E2002"] := by
  obtain ⟨report, _, rfl⟩ := List.mem_map.mp member
  cases report with
  | duplicate name span => exact List.mem_cons_self
  | undefined name span => exact List.mem_cons_of_mem _ List.mem_cons_self

theorem reported_eq_nil (program : Program) : reported program = [] ↔ reports program = [] :=
  List.map_eq_nil_iff

theorem resolve_snd (program : Program) (queue : Queue) :
    (resolve program queue).2 = queue.addAll (reported program) := by
  unfold resolve
  dsimp only
  split <;> rfl

theorem CompileError.message_resolution (diagnostics : List Diagnostic) :
    (CompileError.resolution diagnostics).message =
      "resolution failed with " ++ (errorsIn diagnostics).repr ++ " error(s)" := rfl

section Compile

variable {program : Program} {bytes : Int} {wordSize : WordSize}

theorem WordSize.check_of_valid (valid : 1 ≤ bytes ∧ bytes ≤ 1024) :
    ∃ wordSize, WordSize.check bytes = .ok wordSize :=
  ⟨_, dif_pos valid⟩

theorem compile_of_reported (checked : WordSize.check bytes = .ok wordSize)
    (faulty : reported program ≠ []) (limit : Nat) :
    compile program { wordSize := bytes, errorLimit := limit } =
      .error (.resolution (Queue.holdingAll limit (reported program)).presented) := by
  have refused : (resolve program { limit }).1 = .error .reported := by
    rw [resolve_fst, if_neg (mt (reported_eq_nil program).mpr faulty)]
  have queued := resolve_snd program { limit }
  rw [Queue.addAll_eq_holdingAll] at queued
  rw [← queued, compile, checked]
  generalize resolve program { limit } = outcome at refused
  obtain ⟨result, queue⟩ := outcome
  subst refused
  rfl

theorem compile_of_clean (checked : WordSize.check bytes = .ok wordSize)
    (clean : reported program = []) :
    ∃ fragments, ∀ limit,
      compile program { wordSize := bytes, errorLimit := limit } = .ok fragments := by
  have noReports := (reported_eq_nil program).mp clean
  obtain ⟨fragments, final, done⟩ := lowerProgram_stack_ok ((reports_eq_nil program).mp noReports)
    (StackLayout.reserved wordSize {}) (Supply.afterTemp (Supply.afterTemp {}))
  refine ⟨fragments, fun limit => ?_⟩
  have accepted : (resolve program { limit }).1 = .ok (resolution program) := by
    rw [resolve_fst, if_pos noReports]
  rw [compile, checked]
  generalize resolve program { limit } = outcome at accepted
  obtain ⟨result, queue⟩ := outcome
  subst accepted
  simp only [Except.mapError, bind, Except.bind, lowerOnStack_of_run done]

theorem message_of_reported (program : Program) (limit : Nat) :
    (CompileError.resolution (Queue.holdingAll limit (reported program)).presented).message =
      "resolution failed with " ++ (Queue.room limit (reported program).length).repr ++
        " error(s)" := by
  have counted : errorsIn (Queue.holdingAll limit (reported program)).presented =
      Queue.room limit (reported program).length :=
    Queue.errorsIn_presented_located limit fun _ => located_of_mem_reported
  rw [CompileError.message_resolution, counted]

theorem compile_truncates_at_limit (program : Program) {bytes : Int}
    (valid : 1 ≤ bytes ∧ bytes ≤ 1024) (limit : Nat) :
    let outcome errorLimit := compile program { wordSize := bytes, errorLimit }
    let count := (reported program).length
    ((outcome limit).isOk ↔ reported program = []) ∧
    (reported program = [] → ∃ fragments, ∀ other, outcome other = .ok fragments) ∧
    (reported program ≠ [] → ∃ shown, outcome limit = .error (.resolution shown) ∧
      (limit = 0 ∨ count ≤ limit → Arranges (reported program) shown []) ∧
      (0 < limit ∧ limit < count →
        ∃ sorted warning, Arranges ((reported program).take limit) sorted [] ∧
          (∀ diagnostic ∈ sorted, diagnostic.code.text ≠ "E9002") ∧
          TellsOf warning limit (count - limit) ∧ shown = sorted ++ [warning]) ∧
      (CompileError.resolution shown).message =
        "resolution failed with " ++ (if limit = 0 then count else min limit count).repr ++
          " error(s)") := by
  intro outcome count
  obtain ⟨wordSize, checked⟩ := WordSize.check_of_valid valid
  have located : ∀ error ∈ reported program, LocatedError error := fun _ => located_of_mem_reported
  refine ⟨?_, compile_of_clean checked, fun faulty => ?_⟩
  · by_cases clean : reported program = []
    · obtain ⟨fragments, compiled⟩ := compile_of_clean checked clean
      simp [outcome, compiled, clean, Except.isOk, Except.toBool]
    · simp [outcome, compile_of_reported checked clean, clean, Except.isOk, Except.toBool]
  · refine ⟨_, compile_of_reported checked faulty limit, Queue.presented_within located,
      fun beyond => ?_, message_of_reported program limit⟩
    obtain ⟨sorted, warning, arranges, tells, presented⟩ := Queue.presented_beyond located beyond
    refine ⟨sorted, warning, arranges, fun diagnostic member isNotice => ?_, tells, presented⟩
    have among := arranges.complete.mem_iff.mp (List.mem_append_left [] member)
    have coded := code_of_mem_reported (List.mem_of_mem_take among)
    rw [isNotice] at coded
    exact absurd coded (by decide)

end Compile

def threeFaults : Program where
  -- The faults of the variables are reported first, but stand behind that of the call.
  statements := [
    .assign { name := "x", value := .call "g" [] { start := 1, stop := 4 } },
    .assign { name := "y", value := .ident "a" { start := 9, stop := 10 } }]
  print := { exp := .ident "b" { start := 5, stop := 6 } }

theorem compile_truncates_at_limit_threeFaults :
    (1 ≤ (8 : Int) ∧ (8 : Int) ≤ 1024) ∧
      ∃ shown, compile threeFaults { wordSize := 8, errorLimit := 2 } = .error (.resolution shown) ∧
        (∃ sorted warning,
          Arranges [undefinedIdentifier "a" { start := 9, stop := 10 },
            undefinedIdentifier "b" { start := 5, stop := 6 }] sorted [] ∧
          TellsOf warning 2 1 ∧ shown = sorted ++ [warning]) ∧
        (CompileError.resolution shown).message = "resolution failed with 2 error(s)" := by
  have valid : 1 ≤ (8 : Int) ∧ (8 : Int) ≤ 1024 := by decide
  have faults : reported threeFaults = [
      undefinedIdentifier "a" { start := 9, stop := 10 },
      undefinedIdentifier "b" { start := 5, stop := 6 },
      undefinedIdentifier "g" { start := 1, stop := 4 }] := rfl
  obtain ⟨_, _, truncated⟩ := compile_truncates_at_limit threeFaults valid 2
  rw [faults] at truncated
  obtain ⟨shown, compiled, _, beyond, message⟩ := truncated (by simp)
  obtain ⟨sorted, warning, arranges, _, tells, shownIs⟩ := beyond (by decide)
  exact ⟨valid, shown, compiled, ⟨sorted, warning, arranges, tells, shownIs⟩, message⟩

end TreeCompiler
