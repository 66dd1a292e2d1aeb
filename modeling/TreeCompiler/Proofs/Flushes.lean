import TreeCompiler.Proofs.Presentation
import TreeCompiler.Proofs.QueueRuns

set_option autoImplicit false

namespace TreeCompiler.Diagnostic

open Source (Span)

/-- The span of the first highlight that is primary; secondary ones may stand before it. -/
def PointsAt (diagnostic : Diagnostic) (span : Span) : Prop :=
  ∃ before highlight after, diagnostic.highlights = before ++ highlight :: after ∧
    (∀ other ∈ before, other.isPrimary = false) ∧ highlight.isPrimary = true ∧
    highlight.span = span

def Spanless (diagnostic : Diagnostic) : Prop :=
  ∀ highlight ∈ diagnostic.highlights, highlight.isPrimary = false

theorem primarySpan?_eq_some (diagnostic : Diagnostic) (span : Span) :
    diagnostic.primarySpan? = some span ↔ PointsAt diagnostic span := by
  rw [primarySpan?, Option.map_eq_some_iff]
  constructor
  · rintro ⟨highlight, found, isSpan⟩
    obtain ⟨isPrimary, before, after, split, secondary⟩ := List.find?_eq_some_iff_append.mp found
    exact ⟨before, highlight, after, split, by simpa using secondary, isPrimary, isSpan⟩
  · rintro ⟨before, highlight, after, split, secondary, isPrimary, isSpan⟩
    have found := List.find?_eq_some_iff_append.mpr
      ⟨isPrimary, before, after, split, by simpa using secondary⟩
    exact ⟨highlight, found, isSpan⟩

theorem primarySpan?_eq_none (diagnostic : Diagnostic) :
    diagnostic.primarySpan? = none ↔ Spanless diagnostic := by
  simp [primarySpan?, Spanless]

instance (diagnostic : Diagnostic) (span : Span) : Decidable (PointsAt diagnostic span) :=
  decidable_of_iff _ (primarySpan?_eq_some diagnostic span)

instance (diagnostic : Diagnostic) : Decidable (Spanless diagnostic) :=
  decidable_of_iff _ (primarySpan?_eq_none diagnostic)

/--
The kept diagnostics in the order of reading: first those with a primary span, by where it starts
and then by where it stops, those of one span as they were reported; then those without one.
-/
structure Arranges (kept placed unplaced : List Diagnostic) : Prop where
  complete : (placed ++ unplaced).Perm kept
  pointing : ∀ diagnostic ∈ placed, ∃ span, PointsAt diagnostic span
  ordered : placed.Pairwise fun first second =>
    ∀ earlier later, PointsAt first earlier → PointsAt second later →
      earlier.start < later.start ∨ earlier.start = later.start ∧ earlier.stop ≤ later.stop
  stable : ∀ span, placed.filter (PointsAt · span) = kept.filter (PointsAt · span)
  spanless : unplaced = kept.filter (Spanless ·)

theorem split_of_ordered {sorted : List Diagnostic} (ordered : sorted.Pairwise Ahead) :
    sorted = sorted.filter (¬Spanless ·) ++ sorted.filter (Spanless ·) := by
  induction sorted with
  | nil => rfl
  | cons first rest ih =>
      obtain ⟨ahead, restOrdered⟩ := List.pairwise_cons.mp ordered
      by_cases spanless : Spanless first
      · -- Nothing that has a span follows a diagnostic without one.
        have allSpanless : ∀ later ∈ rest, Spanless later := by
          intro later member
          rw [← primarySpan?_eq_none] at spanless ⊢
          refine Option.eq_none_iff_forall_ne_some.mpr fun span pointed => ?_
          obtain ⟨earlier, pointedFirst, _⟩ := ahead later member span pointed
          rw [spanless] at pointedFirst
          cases pointedFirst
        have every := List.forall_mem_cons.mpr ⟨spanless, allSpanless⟩
        rw [List.filter_eq_nil_iff.mpr (by simpa using every),
          List.filter_eq_self.mpr (by simpa using every), List.nil_append]
      · simpa [spanless] using ih restOrdered

theorem StableSort.arranges {kept sorted : List Diagnostic} (sort : StableSort kept sorted) :
    Arranges kept (sorted.filter (¬Spanless ·)) (sorted.filter (Spanless ·)) where
  complete := split_of_ordered sort.ordered ▸ sort.complete
  pointing diagnostic member := by
    have pointed : ¬Spanless diagnostic := by simpa using (List.mem_filter.mp member).2
    rw [← primarySpan?_eq_none, Option.eq_none_iff_forall_ne_some, not_forall_not] at pointed
    exact pointed.imp fun span isSpan => (primarySpan?_eq_some diagnostic span).mp isSpan
  ordered := by
    refine (sort.ordered.filter _).imp fun {first second} ahead earlier later pointed pointed' => ?_
    rw [← primarySpan?_eq_some] at pointed pointed'
    obtain ⟨span, isSpan, before⟩ := ahead later pointed'
    rw [pointed, Option.some_inj] at isSpan
    exact isSpan ▸ before
  stable span := by
    have pointing (diagnostic : Diagnostic) :
        diagnostic.primarySpan? = some span ∧ ¬Spanless diagnostic ↔
          diagnostic.primarySpan? = some span := by
      rw [← primarySpan?_eq_none]
      grind
    simp only [List.filter_filter, ← primarySpan?_eq_some, ← Bool.decide_and, pointing]
    exact sort.stable (some span)
  spanless := by
    simp only [← primarySpan?_eq_none]
    exact sort.stable none

/-- The warning that the limit was reached, and how many errors it kept back. -/
structure TellsOf (warning : Diagnostic) (limit dropped : Nat) : Prop where
  code : warning.code.text = "E9002"
  severity : warning.severity = .warning
  message : warning.message =
    "stopped reporting after " ++ limit.repr ++ " errors (" ++ dropped.repr ++ " more not shown)"

theorem tooManyErrors_tells (limit dropped : Nat) :
    TellsOf (tooManyErrors limit dropped) limit dropped := ⟨rfl, rfl, rfl⟩

theorem Arranges.unplaced_eq_nil {kept placed unplaced : List Diagnostic}
    (arranges : Arranges kept placed unplaced)
    (pointing : ∀ diagnostic ∈ kept, ∃ span, PointsAt diagnostic span) : unplaced = [] := by
  rw [arranges.spanless, List.filter_eq_nil_iff]
  intro diagnostic member
  obtain ⟨span, pointed⟩ := pointing diagnostic member
  rw [← primarySpan?_eq_some] at pointed
  simp [← primarySpan?_eq_none, pointed]

theorem Queue.presented_arranges (queue : Queue) :
    ∃ placed unplaced warning, Arranges queue.kept placed unplaced ∧
      TellsOf warning queue.limit queue.dropped ∧
      queue.presented = placed ++ unplaced ++ if 0 < queue.dropped then [warning] else [] := by
  have sort := stableSort_mergeSort queue.kept
  refine ⟨_, _, _, sort.arranges, tooManyErrors_tells _ _, ?_⟩
  rw [← split_of_ordered sort.ordered]
  rfl

namespace Session

theorem dropped_run (limit : Nat) (actions : List Action) :
    (run limit actions).queue.dropped = (run limit actions).answers.count false := by
  rw [run_eq_holdingAll]
  simp [holdingAll, Queue.holdingAll, List.count_eq_countP, List.countP_map, Function.comp_def]

theorem limit_run (limit : Nat) (actions : List Action) :
    (run limit actions).queue.limit = limit := by
  rw [run_eq_holdingAll]
  rfl

theorem run_append_flush (limit : Nat) (actions later : List Action) :
    run limit (actions ++ .flush :: later) = run limit later := by
  have flushed : (run limit actions).act .flush = { queue := { limit } } := by
    rw [run_eq_holdingAll]
    rfl
  calc run limit (actions ++ .flush :: later)
      = later.foldl act ((run limit actions).act .flush) := by simp [run]
    _ = run limit later := by rw [flushed, run]

end Session

theorem flush_presents_and_resets (limit : Nat) (actions : List Action) :
    (∃ placed unplaced warning,
      Arranges (Session.run limit actions).queue.kept placed unplaced ∧
      TellsOf warning limit ((Session.run limit actions).answers.count false) ∧
      (Session.run limit actions).queue.flush.1 = placed ++ unplaced ++
        if false ∈ (Session.run limit actions).answers then [warning] else []) ∧
    (Session.run limit actions).queue.flush.2 = { limit } ∧
    ∀ later, Session.run limit (actions ++ .flush :: later) = Session.run limit later := by
  obtain ⟨placed, unplaced, warning, arranges, tells, presented⟩ :=
    (Session.run limit actions).queue.presented_arranges
  rw [Session.limit_run, Session.dropped_run] at tells
  refine ⟨⟨placed, unplaced, warning, arranges, tells, ?_⟩, ?_,
    Session.run_append_flush limit actions⟩
  · simpa only [Queue.flush, Session.dropped_run, List.count_pos_iff] using presented
  · rw [Queue.flush, Session.limit_run]

def ReportsError (actions : List Action) : Prop :=
  ∃ action ∈ actions, ∃ diagnostic, action.report? = some diagnostic ∧ diagnostic.severity = .error

theorem errorsIn_pos (actions : List Action) :
    0 < errorsIn (actions.filterMap Action.report?) ↔ ReportsError actions := by
  simp only [errorsIn, List.countP_pos_iff, List.mem_filterMap, decide_eq_true_eq, ReportsError]
  grind

theorem sinceFlush_subset (actions : List Action) :
    sinceFlush actions ⊆ actions.filterMap Action.report? :=
  ((List.rtakeWhile_suffix _ actions).sublist.filterMap Action.report?).subset

theorem sinceFlush_append_of_flush (earlier : List Action) {later : List Action}
    (flushes : .flush ∈ later) : sinceFlush (earlier ++ later) = sinceFlush later := by
  induction later using List.reverseRecOn with
  | nil => cases flushes
  | append_singleton later last ih =>
      rw [← List.append_assoc]
      cases reports : last.report? with
      | some diagnostic =>
          have before : .flush ∈ later := by
            rcases List.mem_append.mp flushes with before | isLast
            · exact before
            · rw [← List.mem_singleton.mp isLast] at reports
              cases reports
          rw [sinceFlush_concat_report _ reports, sinceFlush_concat_report _ reports, ih before]
      | none =>
          rw [Action.report?_eq_none.mp reports, sinceFlush_concat_flush, sinceFlush_concat_flush]

theorem sinceFlush_append (earlier : List Action) {later : List Action}
    (noFlush : .flush ∉ later) :
    sinceFlush (earlier ++ later) = sinceFlush earlier ++ later.filterMap Action.report? := by
  have reporting : ∀ action ∈ later.reverse, decide (action ≠ .flush) = true := by
    intro action member
    simpa using ne_of_mem_of_not_mem (List.mem_reverse.mp member) noFlush
  simp only [sinceFlush, List.rtakeWhile, List.reverse_append,
    List.takeWhile_append_of_pos reporting, List.reverse_reverse, List.filterMap_append]

section Marks

variable (limit : Nat) (earlier : List Action) {later : List Action}

theorem Session.errorCount_run (actions : List Action) :
    (run limit actions).queue.errorCount = errorsIn (sinceFlush actions) := by
  rw [run_eq_holdingAll]
  rfl

theorem Session.errorsSince_run (actions : List Action) (mark : Nat) :
    ((run limit actions).queue.errorsSince mark).isSome ↔
      mark < errorsIn (sinceFlush actions) := by
  simp only [Queue.errorsSince, errorCount_run, gt_iff_lt, Nat.sub_pos_iff_lt]
  split
  next more => simp [more]
  next noMore => simp [noMore]

theorem errorsSince_of_noFlush (noFlush : .flush ∉ later) :
    ((Session.run limit (earlier ++ later)).queue.errorsSince
      (Session.run limit earlier).queue.errorCount).isSome ↔ ReportsError later := by
  rw [Session.errorsSince_run, Session.errorCount_run, sinceFlush_append earlier noFlush,
    errorsIn_append, Nat.lt_add_right_iff_pos, errorsIn_pos]

-- A flush forgets the errors that the mark counts, so what is above the mark comes after it.
theorem reportsError_of_errorsSince_flush (flushes : .flush ∈ later) {mark : Nat}
    (some_since : ((Session.run limit (earlier ++ later)).queue.errorsSince mark).isSome) :
    ReportsError later := by
  rw [Session.errorsSince_run, sinceFlush_append_of_flush earlier flushes] at some_since
  obtain ⟨error, member, isError⟩ := List.countP_pos_iff.mp (Nat.zero_lt_of_lt some_since)
  rw [← errorsIn_pos, errorsIn, List.countP_pos_iff]
  exact ⟨error, sinceFlush_subset later member, isError⟩

end Marks

theorem errorsSince_honest (limit : Nat) (earlier later : List Action) :
    (((Session.run limit (earlier ++ later)).queue.errorsSince
        (Session.run limit earlier).queue.errorCount).isSome → ReportsError later) ∧
    (.flush ∉ later →
      (((Session.run limit (earlier ++ later)).queue.errorsSince
        (Session.run limit earlier).queue.errorCount).isSome ↔ ReportsError later)) := by
  refine ⟨fun some_since => ?_, errorsSince_of_noFlush limit earlier⟩
  by_cases flushes : .flush ∈ later
  · exact reportsError_of_errorsSince_flush limit earlier flushes some_since
  · exact (errorsSince_of_noFlush limit earlier flushes).mp some_since

def overflowing : List Action := [
  .add { code := .duplicateDefinition, severity := .warning },
  .undefinedIdentifier "y" { start := 4, stop := 5 }]

theorem errorsSince_honest_overflowing :
    .flush ∉ overflowing ∧
      (Session.run 1 (.undefinedIdentifier "x" {} :: overflowing)).answers =
        [true, true, false] ∧
      ((Session.run 1
        (.undefinedIdentifier "x" {} :: overflowing)).queue.errorsSince 1).isSome := by
  have noFlush : .flush ∉ overflowing := by decide
  have reportsError : ReportsError overflowing :=
    ⟨.undefinedIdentifier "y" { start := 4, stop := 5 }, by decide, _, rfl, rfl⟩
  have honest := errorsSince_honest 1 [.undefinedIdentifier "x" {}] overflowing
  exact ⟨noFlush, rfl, (honest.2 noFlush).mpr reportsError⟩

end TreeCompiler.Diagnostic
