/-!
Ranges of byte offsets.

A `Span` is a half-open range `start..stop` of a source text. A range of width zero marks a place
and never widens a union, so the span of a phrase is the union of the spans of its tokens.
-/

namespace TriggerScript

structure Span where
  start : Nat
  stop : Nat
  deriving DecidableEq, Inhabited

namespace Span

def empty : Span := ⟨0, 0⟩

def isEmpty (span : Span) : Bool := span.stop ≤ span.start

def length (span : Span) : Nat := span.stop - span.start

/-- The smallest range that covers both, an empty range counting for nothing. -/
def merge (left right : Span) : Span :=
  if right.isEmpty then left
  else if left.isEmpty then right
  else ⟨min left.start right.start, max left.stop right.stop⟩

def contains (outer inner : Span) : Bool :=
  inner.isEmpty || (outer.start ≤ inner.start && inner.stop ≤ outer.stop)

def shift (span : Span) (distance : Nat) : Span :=
  ⟨span.start + distance, span.stop + distance⟩

end Span

end TriggerScript
