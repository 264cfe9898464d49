import MicroDebug.Host.FileWriter
import MicroDebug.Trace.Tracer

/-! A trace that is being written into a file. -/

namespace MicroDebug

/-- A tracer and the file its lines go to. -/
structure Recorder where
  tracer : Tracer := {}
  writer : FileWriter

namespace Recorder

/-- Writes a line through a writer into a folder. -/
def writeLine (s : FileWriter × Folder) (line : TraceLine) : Except String Unit × FileWriter × Folder :=
  s.1.writeLine s.2 line.pieces

/-- Writes what an event calls for. -/
def observe (r : Recorder) (f : Folder) (m : Machine) (e : Event) : Except String Unit × Recorder × Folder :=
  let (result, t, w, f) := r.tracer.observe writeLine (r.writer, f) m e
  (result, { tracer := t, writer := w }, f)

/-- Ends the trace. What was held back is put into the file, also if the last line is not taken. -/
def finish (r : Recorder) (f : Folder) : Except String Unit × Recorder × Folder :=
  let (result, t, w, f) := r.tracer.finish writeLine (r.writer, f)
  let (w, f) := w.flush f
  (result, { tracer := t, writer := w }, f)

/-- The watcher of a trace that may be off. -/
def watch : Watcher (Option Recorder × Folder) := fun s p e =>
  match s with
  | (none, f) => (.ok (), none, f)
  | (some r, f) =>
    let (result, r, f) := r.observe f p.toMachine e
    (result, some r, f)

end Recorder
end MicroDebug
