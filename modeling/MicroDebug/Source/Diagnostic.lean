import MicroDebug.Source.Span

/-! Messages about a line of source text. A message is shown under the text with a mark below each place that
    it speaks of. -/

namespace MicroDebug

/-- A message about a place, and what is to be said of other places. -/
structure Diagnostic where
  span : Span
  message : String
  labels : List (Span × String) := []
deriving DecidableEq, Repr

namespace Diagnostic

/-- The same message about a text that starts later in its line. -/
def shift (d : Diagnostic) (distance : Nat) : Diagnostic :=
  { d with span := d.span.shift distance, labels := d.labels.map fun (s, text) => (s.shift distance, text) }

/-- Marks below a span of a line that is shown with a margin of two; an empty span has one mark. -/
def underline (s : Span) (mark : Char) : String :=
  "  " ++ String.ofList (List.replicate s.start ' ' ++ List.replicate (max s.length 1) mark)

/-- The message, the line it is about, and the marks. -/
def render (d : Diagnostic) (source : String) : String :=
  "error: " ++ d.message ++ "\n  " ++ source ++ "\n" ++ underline d.span '^' ++
    String.join (d.labels.map fun (s, text) => "\n" ++ underline s '-' ++ " " ++ text)

end Diagnostic
end MicroDebug
