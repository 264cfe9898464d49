/-! The host side of a program: what it is shown, in order, and the answers it will give. Answers are a queue,
    and a host without answers has come to the end of its input. -/

namespace MicroDebug

/-- What the host does when it is asked for a line. -/
inductive Answer where
  | line (text : String)
  | ended
  | cancelled
  | failed (reason : String)
  /-- What was sent for the line makes no sense, and nothing after it can be had. -/
  | unreadable
deriving DecidableEq, Repr

/-- An answer, with the text that typing it shows. -/
structure Reply where
  answer : Answer
  echo : String := ""
deriving DecidableEq, Repr

/-- One thing that the host is shown. -/
inductive Shown where
  /-- Text of the debugger. -/
  | report (text : String)
  /-- A byte of the program's output. -/
  | output (byte : UInt8)
  /-- A request for a line of the program's input. -/
  | request (text : String)
  /-- A line about the program. -/
  | notice (text : String)
  /-- What typing an answer shows. -/
  | echo (text : String)
deriving DecidableEq, Repr

/-- The host: answers to come, what has been shown, and the reasons why it takes no output or no notice, which may
    depend on how much has been shown by then. -/
structure Console where
  replies : List Reply := []
  shown : Array Shown := #[]
  outputFailure : Nat → Option String := fun _ => none
  noticeFailure : Nat → Option String := fun _ => none
  /-- How much had been shown when an answer was asked for and there was none to come. -/
  exhausted : Option Nat := none

namespace Console

def append (c : Console) (x : Shown) : Console := { c with shown := c.shown.push x }

def report (c : Console) (text : String) : Console := c.append (.report text)

/-- Shows a byte of output, or tells why the host refuses it. -/
def writeOutput (c : Console) (b : UInt8) : Except String Unit × Console :=
  match c.outputFailure c.shown.size with
  | some reason => (.error reason, c)
  | none => (.ok (), c.append (.output b))

def notify (c : Console) (text : String) : Except String Unit × Console :=
  match c.noticeFailure c.shown.size with
  | some reason => (.error reason, c)
  | none => (.ok (), c.append (.notice text))

/-- Takes the next answer and shows what typing it shows. -/
def take (c : Console) : Answer × Console :=
  match c.replies with
  | [] => (.ended, { c with exhausted := some c.shown.size })
  | r :: rest =>
    let c := { c with replies := rest }
    (r.answer, if r.echo.isEmpty then c else c.append (.echo r.echo))

/-- What a terminal is sent for the things shown. -/
def bytes (shown : List Shown) : ByteArray :=
  shown.foldl (fun sent x =>
    match x with
    | .report text | .request text | .echo text => sent ++ text.toUTF8
    | .notice text => sent ++ text.toUTF8 ++ "\n".toUTF8
    | .output b => sent.push b) ByteArray.empty

/-- Adds an answer after those that are to come. -/
def enqueue (c : Console) (r : Reply) : Console := { c with replies := c.replies ++ [r] }

end Console
end MicroDebug
