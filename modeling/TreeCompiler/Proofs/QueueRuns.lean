import Mathlib.Data.List.DropRight
import Mathlib.Data.List.Induction
import TreeCompiler.Diagnostic.Queue
import TreeCompiler.Proofs.Earlier

set_option autoImplicit false

namespace TreeCompiler.Diagnostic

open Source (Span)

inductive Action
  | add (diagnostic : Diagnostic)
  | duplicateDefinition (name : String) (span : Span)
  | undefinedIdentifier (name : String) (span : Span)
  | flush
  deriving DecidableEq

def Action.report? : Action → Option Diagnostic
  | add diagnostic => some diagnostic
  | duplicateDefinition name span => some (Diagnostic.duplicateDefinition name span)
  | undefinedIdentifier name span => some (Diagnostic.undefinedIdentifier name span)
  | flush => none

theorem Action.report?_eq_none {action : Action} : action.report? = none ↔ action = .flush := by
  cases action <;> simp [report?]

/-- A queue, and whether it kept each of the reports made since it was last flushed. -/
structure Session where
  queue : Queue
  answers : List Bool := []

namespace Session

def act (session : Session) (action : Action) : Session :=
  match action.report? with
  | some diagnostic =>
      { queue := session.queue.add diagnostic
        answers := session.answers ++ [session.queue.keeps diagnostic] }
  | none => { queue := session.queue.flush.2 }

def run (limit : Nat) (actions : List Action) : Session :=
  actions.foldl act { queue := { limit } }

theorem run_concat (limit : Nat) (actions : List Action) (last : Action) :
    run limit (actions ++ [last]) = (run limit actions).act last := by
  simp [run]

end Session

def sinceFlush (actions : List Action) : List Diagnostic :=
  (actions.rtakeWhile (· ≠ .flush)).filterMap Action.report?

theorem sinceFlush_concat_flush (actions : List Action) :
    sinceFlush (actions ++ [.flush]) = [] := by
  simp [sinceFlush]

theorem sinceFlush_concat_report (actions : List Action) {last : Action} {diagnostic : Diagnostic}
    (reports : last.report? = some diagnostic) :
    sinceFlush (actions ++ [last]) = sinceFlush actions ++ [diagnostic] := by
  have noFlush : last ≠ .flush := by
    rintro rfl
    cases reports
  simp [sinceFlush, noFlush, reports]

def errorsIn (reported : List Diagnostic) : Nat := reported.countP (·.severity = .error)

theorem errorsIn_append (one other : List Diagnostic) :
    errorsIn (one ++ other) = errorsIn one + errorsIn other :=
  List.countP_append

theorem errorsIn_concat (reported : List Diagnostic) (last : Diagnostic) :
    errorsIn (reported ++ [last]) = errorsIn reported + if last.severity = .error then 1 else 0 := by
  simp [errorsIn, List.countP_singleton]

def withinLimit (limit : Nat) (earlier : List Diagnostic) (diagnostic : Diagnostic) : Bool :=
  diagnostic.severity ≠ .error || limit = 0 || errorsIn earlier < limit

namespace Queue

def holdingAll (limit : Nat) (reported : List Diagnostic) : Queue where
  kept := ((withEarlier reported).filter fun (earlier, diagnostic) =>
    withinLimit limit earlier diagnostic).map Prod.snd
  errorCount := errorsIn reported
  dropped := (withEarlier reported).countP fun (earlier, diagnostic) =>
    !withinLimit limit earlier diagnostic
  limit := limit

-- Every error past the limit is dropped, so what is dropped follows from the number of errors.
theorem dropped_holdingAll (limit : Nat) (reported : List Diagnostic) :
    (holdingAll limit reported).dropped = if limit = 0 then 0 else errorsIn reported - limit := by
  induction reported using List.reverseRecOn with
  | nil => simp [holdingAll, errorsIn]
  | append_singleton reported last ih =>
      simp only [holdingAll] at ih ⊢
      rw [withEarlier_concat, List.countP_append, errorsIn_concat, ih, List.countP_singleton]
      by_cases isError : last.severity = .error
      next => grind [withinLimit]
      next => simp [withinLimit, isError]

theorem dropped_holdingAll_le (limit : Nat) (reported : List Diagnostic) :
    (holdingAll limit reported).dropped ≤ (holdingAll limit reported).errorCount := by
  rw [dropped_holdingAll]
  split
  next => exact Nat.zero_le _
  next => exact Nat.sub_le _ _

theorem keeps_holdingAll (limit : Nat) (reported : List Diagnostic) (diagnostic : Diagnostic) :
    (holdingAll limit reported).keeps diagnostic = withinLimit limit reported diagnostic := by
  by_cases unlimited : limit = 0
  next => simp [keeps, withinLimit, holdingAll, unlimited]
  next =>
    have room : errorsIn reported - (errorsIn reported - limit) < limit ↔
        errorsIn reported < limit := by omega
    have counted : (holdingAll limit reported).errorCount = errorsIn reported := rfl
    have sameLimit : (holdingAll limit reported).limit = limit := rfl
    simp only [keeps, withinLimit, dropped_holdingAll, counted, sameLimit, unlimited, if_false, room,
      isError, decide_not]

theorem holdingAll_add (limit : Nat) (reported : List Diagnostic) (last : Diagnostic) :
    (holdingAll limit reported).add last = holdingAll limit (reported ++ [last]) := by
  have counted : (if last.isError then errorsIn reported + 1 else errorsIn reported) =
      errorsIn (reported ++ [last]) := by
    rw [errorsIn_concat]
    by_cases isError : last.severity = .error <;> simp [Diagnostic.isError, isError]
  rw [add, keeps_holdingAll]
  by_cases kept : withinLimit limit reported last
  next => simp [holdingAll, withEarlier_concat, kept, counted]
  next => simp [holdingAll, withEarlier_concat, kept, counted]

theorem addAll_eq_holdingAll (limit : Nat) (reported : List Diagnostic) :
    ({ limit } : Queue).addAll reported = holdingAll limit reported := by
  -- Whether a report is kept depends on those before it, so the list is built up at its end.
  induction reported using List.reverseRecOn with
  | nil => rfl
  | append_singleton reported last ih =>
      rw [addAll_append, ih]
      exact holdingAll_add limit reported last

end Queue

namespace Session

def holdingAll (limit : Nat) (reported : List Diagnostic) : Session where
  queue := .holdingAll limit reported
  answers := (withEarlier reported).map fun (earlier, diagnostic) =>
    withinLimit limit earlier diagnostic

theorem holdingAll_act_report (limit : Nat) (reported : List Diagnostic) {action : Action}
    {diagnostic : Diagnostic} (reports : action.report? = some diagnostic) :
    (holdingAll limit reported).act action = holdingAll limit (reported ++ [diagnostic]) := by
  simp [act, reports, holdingAll, Queue.holdingAll_add, Queue.keeps_holdingAll, withEarlier_concat]

-- Flushing forgets the reports and leaves the limit.
theorem holdingAll_act_flush (limit : Nat) (reported : List Diagnostic) :
    (holdingAll limit reported).act .flush = holdingAll limit [] := rfl

theorem run_eq_holdingAll (limit : Nat) (actions : List Action) :
    run limit actions = holdingAll limit (sinceFlush actions) := by
  induction actions using List.reverseRecOn with
  | nil => rfl
  | append_singleton actions last ih =>
      rw [run_concat, ih]
      cases reports : last.report? with
      | some diagnostic =>
          rw [sinceFlush_concat_report actions reports, holdingAll_act_report limit _ reports]
      | none =>
          rw [Action.report?_eq_none.mp reports, sinceFlush_concat_flush, holdingAll_act_flush]

end Session

theorem run_accounts_for_reports (limit : Nat) (actions : List Action) :
    (Session.run limit actions).queue.kept =
        ((withEarlier (sinceFlush actions)).filter fun (earlier, diagnostic) =>
          withinLimit limit earlier diagnostic).map Prod.snd ∧
      (Session.run limit actions).answers =
        (withEarlier (sinceFlush actions)).map (fun (earlier, diagnostic) =>
          withinLimit limit earlier diagnostic) ∧
      (Session.run limit actions).queue.errorCount =
        (sinceFlush actions).countP (·.severity = .error) ∧
      (Session.run limit actions).queue.dropped =
        (withEarlier (sinceFlush actions)).countP (fun (earlier, diagnostic) =>
          !withinLimit limit earlier diagnostic) ∧
      (Session.run limit actions).queue.dropped ≤ (Session.run limit actions).queue.errorCount ∧
      (Session.run limit actions).queue.limit = limit := by
  rw [Session.run_eq_holdingAll]
  exact ⟨rfl, rfl, rfl, rfl, Queue.dropped_holdingAll_le limit (sinceFlush actions), rfl⟩

end TreeCompiler.Diagnostic
