import MicroDebug.Host.Folder

/-! Files that are written piece by piece. A file that is open for writing keeps its own position and holds
    pieces back until enough have gathered, so a file that is open twice holds what was written last at each
    place. -/

namespace MicroDebug

/-- A file that is being written. -/
structure FileWriter where
  path : String
  position : Nat := 0
  /-- What has been written but is not yet in the file. -/
  held : ByteArray := ByteArray.empty
  /-- How much is held back at most. -/
  capacity : Nat := 8192
  /-- How many more lines are taken, if there is a limit. -/
  room : Option Nat := none

namespace FileWriter

/-- Puts what is held back into the file. -/
def flush (w : FileWriter) (f : Folder) : FileWriter × Folder :=
  if w.held.isEmpty then (w, f)
  else
    ({ w with position := w.position + w.held.size, held := ByteArray.empty },
      f.write w.path w.position w.held)

/-- Writes a piece. What is held back makes way for a piece that does not fit beside it, and a piece that could
    not be held back at all is put into the file at once. -/
def writePiece (w : FileWriter) (f : Folder) (piece : String) : FileWriter × Folder :=
  let bytes := piece.toUTF8
  let (w, f) := if w.capacity < w.held.size + bytes.size then w.flush f else (w, f)
  let w := { w with held := w.held ++ bytes }
  if w.capacity ≤ bytes.size then w.flush f else (w, f)

/-- Writes pieces one after another. -/
def writePieces (w : FileWriter) (f : Folder) (pieces : List String) : FileWriter × Folder :=
  pieces.foldl (fun s piece => s.1.writePiece s.2 piece) (w, f)

/-- Writes the pieces of a line, or tells why the line is not taken. -/
def writeLine (w : FileWriter) (f : Folder) (pieces : List String) :
    Except String Unit × FileWriter × Folder :=
  match w.room with
  | some 0 => (.error "trace sink full", w, f)
  | room =>
    (.ok (), { w with room := room.map (· - 1) }.writePieces f pieces)

end FileWriter
end MicroDebug
