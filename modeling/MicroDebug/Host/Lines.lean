import MicroDebug.Host.Console
import MicroDebug.Text.Blank

/-! Texts as sequences of lines. The characters that end a line are dropped, and a line that is not text is an
    answer that fails. -/

namespace MicroDebug.Lines

/-- Divides bytes after every line end; what follows the last one is a line if there is anything. -/
def split : List UInt8 → List (List UInt8)
  | [] => []
  | b :: rest =>
    if b = 0x0a then [b] :: split rest
    else
      match split rest with
      | [] => [[b]]
      | line :: lines => (b :: line) :: lines

/-- The bytes up to the first line end, and those after it, if there is a line end. -/
def cut? : List UInt8 → Option (List UInt8 × List UInt8)
  | [] => none
  | b :: rest =>
    if b = 0x0a then some ([b], rest) else (cut? rest).map fun (line, rest) => (b :: line, rest)

/-- The reason for a line that is not text. -/
def notText : String := "stream did not contain valid UTF-8"

/-- The answer that the bytes of a line give. -/
def answer (line : List UInt8) : Answer :=
  match String.fromUTF8? (ByteArray.mk line.toArray) with
  | some text => .line (Text.trimLineEnd text)
  | none => .failed notText

/-- The answers that bytes give line by line. -/
def answers (bytes : ByteArray) : List Answer := (split bytes.data.toList).map answer

end MicroDebug.Lines
