/-! Stretches of a line of source text, counted in bytes of UTF-8. -/

namespace MicroDebug

/-- The bytes from `start` up to `stop`. -/
structure Span where
  start : Nat
  stop : Nat
  start_le_stop : start ≤ stop := by omega
deriving DecidableEq, Repr

namespace Span

/-- The span between two offsets, if they are in order. -/
def ofOffsets? (start stop : Nat) : Option Span :=
  if h : start ≤ stop then some { start := start, stop := stop, start_le_stop := h } else none

/-- The bytes that a text of a length takes up from an offset on. -/
def ofLength (start length : Nat) : Span := { start := start, stop := start + length }

def length (s : Span) : Nat := s.stop - s.start

/-- The least span that covers two. -/
def merge (s t : Span) : Span where
  start := min s.start t.start
  stop := max s.stop t.stop
  start_le_stop := by have := s.start_le_stop; omega

/-- The span moved right. -/
def shift (s : Span) (distance : Nat) : Span where
  start := s.start + distance
  stop := s.stop + distance
  start_le_stop := by have := s.start_le_stop; omega

/-- The empty span at the end of a span. -/
def endpoint (s : Span) : Span := { start := s.stop, stop := s.stop }

end Span
end MicroDebug
