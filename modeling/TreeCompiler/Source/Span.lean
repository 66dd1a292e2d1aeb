set_option autoImplicit false

namespace TreeCompiler.Source

structure Span where
  -- The stop may lie before the start: spans are carried, never checked.
  start : UInt32 := 0
  stop : UInt32 := 0
  deriving DecidableEq, Repr, Inhabited

namespace Span

def precedes (a b : Span) : Bool :=
  a.start < b.start || (a.start == b.start && a.stop ≤ b.stop)

def text (span : Span) : String :=
  span.start.toNat.repr ++ ".." ++ span.stop.toNat.repr

theorem precedes_iff (a b : Span) :
    a.precedes b ↔ a.start < b.start ∨ (a.start = b.start ∧ a.stop ≤ b.stop) := by
  simp [precedes]

theorem precedes_total (a b : Span) : a.precedes b || b.precedes a := by
  simp only [Bool.or_eq_true, precedes_iff, UInt32.lt_iff_toNat_lt, UInt32.le_iff_toNat_le,
    ← UInt32.toNat_inj]
  omega

theorem precedes_trans {a b c : Span} (first : a.precedes b) (second : b.precedes c) :
    a.precedes c := by
  simp only [precedes_iff, UInt32.lt_iff_toNat_lt, UInt32.le_iff_toNat_le,
    ← UInt32.toNat_inj] at *
  omega

end Span

end TreeCompiler.Source
