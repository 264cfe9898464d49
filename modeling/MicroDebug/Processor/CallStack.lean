/-! The calls that have not returned, kept beside the stack in memory. A program that writes its return
    addresses itself is not followed. -/

namespace MicroDebug

/-- A call: the address of the instruction and the address it called. -/
structure Frame where
  site : UInt16
  function : UInt16
deriving DecidableEq, Repr

/-- The function the program started in, and the calls since, the latest first. -/
structure CallStack where
  entry : UInt16
  frames : List Frame := []
deriving DecidableEq, Repr

namespace CallStack

def push (s : CallStack) (f : Frame) : CallStack := { s with frames := f :: s.frames }

/-- Removes the latest call. -/
def pop (s : CallStack) : CallStack := { s with frames := s.frames.tail }

/-- Removes the latest call and says which it was, if there is one. -/
def takeLatest (s : CallStack) : Option Frame × CallStack := (s.frames.head?, s.pop)

def depth (s : CallStack) : Nat := s.frames.length

/-- The function that is running. -/
def current (s : CallStack) : UInt16 := (s.frames.head?.map Frame.function).getD s.entry

/-- Where each function is and which function it is, from the running one out. A function that waits for
    a call to return is at that call. -/
def backtrace (s : CallStack) (pc : UInt16) : List (UInt16 × UInt16) :=
  List.zip (pc :: s.frames.map Frame.site) (s.frames.map Frame.function ++ [s.entry])

end CallStack
end MicroDebug
