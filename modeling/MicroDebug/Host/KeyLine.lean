import MicroDebug.Host.Console
import MicroDebug.Host.Key

/-! Lines typed key by key. Every key that changes the line shows the change, so that the screen always holds
    the line. -/

namespace MicroDebug

namespace KeyLine

/-- What a key press does to a line: the line goes on, or it ends with an answer. -/
inductive Effect where
  | editing (line : List Char)
  | finished (answer : Answer)
deriving DecidableEq, Repr

/-- The effect of a key press and the text that it shows. -/
def press (line : List Char) : Key → Effect × String
  | .typed c => (.editing (line ++ [c]), String.singleton c)
  | .control c =>
    if c = 'c' then (.finished .cancelled, "^C\r\n")
    else if c = 'd' ∧ line = [] then (.finished .ended, "\r\n")
    else (.editing line, "")
  | .backspace => if line = [] then (.editing line, "") else (.editing line.dropLast, "\x08 \x08")
  | .enter => (.finished (.line (String.ofList line)), "\r\n")
  | .other => (.editing line, "")

/-- Reads one line that has been typed in part: the reply, and the keys left over. Running out of keys ends
    the input. -/
def read (line : List Char) (echo : String) : List Key → Reply × List Key
  | [] => ({ answer := .ended, echo := echo }, [])
  | k :: rest =>
    match press line k with
    | (.editing line, text) => read line (echo ++ text) rest
    | (.finished answer, text) => ({ answer := answer, echo := echo ++ text }, rest)

/-- The replies that a sequence of key presses makes, one after another. -/
def replies (line : List Char) (echo : String) : List Key → List Reply
  | [] => [{ answer := .ended, echo := echo }]
  | k :: rest =>
    match press line k with
    | (.editing line, text) => replies line (echo ++ text) rest
    | (.finished answer, text) => { answer := answer, echo := echo ++ text } :: replies [] "" rest

end KeyLine
end MicroDebug
