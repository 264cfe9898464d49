import MicroDebug.Host.Folder
import MicroDebug.Host.Lines

/-! Files that are read line by line. A reader takes a block of the file at a time, as the file is then, so
    what is written into a file that is being read counts from the next block on. -/

namespace MicroDebug

/-- A file that is being read. -/
structure FileReader where
  path : String
  position : Nat := 0
  /-- What has been taken from the file and not yet been read. -/
  held : List UInt8 := []

namespace FileReader

/-- The number of bytes in a block. -/
def blockSize : Nat := 8192

/-- Takes the next block of a file in place of what is held. -/
def refill (r : FileReader) (contents : ByteArray) : FileReader :=
  { r with
    position := min (r.position + blockSize) contents.size
    held := (contents.extract r.position (r.position + blockSize)).data.toList }

/-- Reads to the end of the next line or of the file, after a part of the line that has been read. -/
def readFrom (contents : ByteArray) (part : List UInt8) (r : FileReader) : List UInt8 × FileReader :=
  match Lines.cut? r.held with
  | some (line, rest) => (part ++ line, { r with held := rest })
  | none =>
    if r.position < contents.size then readFrom contents (part ++ r.held) (r.refill contents)
    else (part ++ r.held, { r with held := [] })
termination_by contents.size - r.position
decreasing_by
  simp only [refill, blockSize]
  omega

/-- The answer that the next line gives. -/
def next (r : FileReader) (f : Folder) : Answer × FileReader :=
  match f.read r.path with
  | .error e => (.failed e.message, r)
  | .ok contents =>
    match readFrom contents [] r with
    | ([], r) => (.ended, r)
    | (line, r) => (Lines.answer line, r)

end FileReader
end MicroDebug
