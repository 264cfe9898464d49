import MicroDebug.CommandLine.Invocation
import MicroDebug.Host.KeyLine
import MicroDebug.Host.Lines
import MicroDebug.Host.Signal

/-! Standard input that is all there before a session starts, as the replies that come of it. -/

namespace MicroDebug.CommandLine

/-- Whether an invocation takes commands from standard input. -/
def Invocation.isInteractive : Invocation → Bool
  | .debug r => r.script.isNone
  | .list _ _ _ | .tell _ => false

/-- What there is at standard input. -/
inductive StandardInput where
  | piped (bytes : ByteArray)
  /-- Characters that a terminal has sent for the keys pressed at it. -/
  | typed (chars : List Char)

namespace StandardInput

/-- A reply for each line of some bytes. -/
def lineReplies (bytes : ByteArray) : List Reply := (Lines.answers bytes).map fun a => { answer := a }

/-- The replies that come of all that a terminal has told. -/
def keyReplies (signals : List Signal) : List Reply :=
  match Signal.keys? signals with
  | some keys => KeyLine.replies [] "" keys
  | none => [{ answer := .unreadable }]

/-- The replies of standard input. The lines of a pipe answer for commands and for program input alike. A
    terminal is read key by key for program input, but line by line for commands, and a line ends where a line
    feed was typed. -/
def replies (interactive : Bool) : StandardInput → List Reply
  | piped bytes => lineReplies bytes
  | typed chars =>
    if interactive then lineReplies (String.ofList chars).toUTF8
    else keyReplies (Signal.ofChars [] chars)

end StandardInput
end MicroDebug.CommandLine
