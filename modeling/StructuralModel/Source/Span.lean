/-! Ranges of bytes in a source text. -/

namespace StructuralModel

/-- The bytes from `start` up to but not including `stop`. -/
structure Span where
  start : Nat
  stop : Nat
  start_le_stop : start ≤ stop
deriving Repr, DecidableEq

namespace Span

/-- A range whose end lies before its start is empty. -/
def between (start stop : Nat) : Span :=
  ⟨start, max start stop, Nat.le_max_left ..⟩

def atStart : Span := between 0 0

instance : Inhabited Span := ⟨atStart⟩

def length (s : Span) : Nat :=
  s.stop - s.start

def isEmpty (s : Span) : Bool :=
  s.start = s.stop

def union (a b : Span) : Span :=
  ⟨min a.start b.start, max a.stop b.stop, by have := a.start_le_stop; have := b.start_le_stop; omega⟩

end Span

/-- A value with the place in the source that it was read from. -/
structure Spanned (α : Type) where
  value : α
  span : Span

end StructuralModel
