import TreeCompiler.Diagnostic.Queue

set_option autoImplicit false

namespace TreeCompiler.Diagnostic

open Source (Span)

/--
The order in which diagnostics are read: by where their primary spans start, then by where these
stop. One without a primary span has nothing to come before it.
-/
def Ahead (first second : Diagnostic) : Prop :=
  ∀ later, second.primarySpan? = some later →
    ∃ earlier, first.primarySpan? = some earlier ∧
      (earlier.start < later.start ∨ earlier.start = later.start ∧ earlier.stop ≤ later.stop)

theorem precedes_iff_ahead (first second : Diagnostic) :
    first.precedes second ↔ Ahead first second := by
  unfold precedes Ahead
  cases first.primarySpan? <;> cases second.primarySpan? <;> simp [Span.precedes_iff]

theorem precedes_total (first second : Diagnostic) :
    first.precedes second || second.precedes first := by
  unfold precedes
  cases first.primarySpan? <;> cases second.primarySpan? <;> simp [Span.precedes_total]

theorem precedes_trans (first second third : Diagnostic) (one : first.precedes second)
    (two : second.precedes third) : first.precedes third := by
  unfold precedes at *
  cases spanOne : first.primarySpan? <;> cases spanTwo : second.primarySpan? <;>
    cases spanThree : third.primarySpan? <;> simp_all
  exact Span.precedes_trans one two

theorem precedes_of_sameSpan {first second : Diagnostic}
    (same : first.primarySpan? = second.primarySpan?) : first.precedes second := by
  unfold precedes
  rw [same]
  cases second.primarySpan? with
  | none => rfl
  | some span => simpa using Span.precedes_total span span

/-- The same diagnostics in the order of reading, where those with one span stay as they were. -/
structure StableSort (given sorted : List Diagnostic) : Prop where
  complete : sorted.Perm given
  ordered : sorted.Pairwise Ahead
  stable : ∀ span?, sorted.filter (·.primarySpan? = span?) = given.filter (·.primarySpan? = span?)

theorem stableSort_mergeSort (given : List Diagnostic) :
    StableSort given (given.mergeSort precedes) where
  complete := List.mergeSort_perm given precedes
  ordered := by
    have sorted := List.pairwise_mergeSort precedes_trans precedes_total given
    exact sorted.imp fun {first second} before => (precedes_iff_ahead first second).mp before
  stable span? := by
    -- Sorting keeps every sublist that is in order, and diagnostics of one span always are.
    have tied : (given.filter (·.primarySpan? = span?)).Pairwise
        fun first second => first.precedes second := by
      apply List.pairwise_of_forall_mem_list
      intro first inFirst second inSecond
      apply precedes_of_sameSpan
      have spanFirst : first.primarySpan? = span? := by
        simpa using (List.mem_filter.mp inFirst).2
      have spanSecond : second.primarySpan? = span? := by
        simpa using (List.mem_filter.mp inSecond).2
      rw [spanFirst, spanSecond]
    have kept := List.sublist_mergeSort precedes_trans precedes_total tied
      (List.filter_sublist (l := given))
    have within : (given.filter (·.primarySpan? = span?)).Sublist
        ((given.mergeSort precedes).filter (·.primarySpan? = span?)) := by
      simpa using kept.filter (·.primarySpan? = span?)
    have sameLength := ((List.mergeSort_perm given precedes).filter
      (·.primarySpan? = span?)).length_eq
    exact (within.eq_of_length sameLength.symm).symm

end TreeCompiler.Diagnostic
