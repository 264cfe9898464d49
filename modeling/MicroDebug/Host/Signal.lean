import MicroDebug.Host.Key
import MicroDebug.Text.Blank
import MicroDebug.Text.Numeral

/-! What a terminal tells by the characters that it sends. A character tells of a key by itself, or it belongs
    to a sequence that starts with an escape. Most sequences tell of keys that type nothing. One kind gives the
    number of a key and what was held down with it, and some give a place on the screen, whose rows and columns
    count from one. -/

namespace MicroDebug

/-- One thing that a terminal tells. -/
inductive Signal where
  | key (k : Key)
  /-- A place in row zero or column zero, which no screen has. -/
  | offScreen
deriving DecidableEq, Repr

namespace Signal

/-- What is told of all that types nothing. -/
def silent : Signal := key .other

/-- The parts of a text between marks. -/
def parts (mark : Char) (text : List Char) : List (List Char) := Text.stretches (· == mark) text

/-- The number below `bound` at a place among some texts. -/
def numberAt? (bound : Nat) (texts : List (List Char)) (i : Nat) : Option Nat :=
  texts[i]?.bind fun text => Numeral.parse? 10 bound (String.ofList text)

/-! ### Keys by number -/

/-- What is held down while a key is pressed. -/
structure Modifiers where
  shift : Bool
  control : Bool
deriving DecidableEq, Repr

/-- The modifiers in a mask, which counts from one, and in the number of a key that is a modifier itself. -/
def Modifiers.ofMask (mask code : Nat) : Modifiers where
  shift := (mask - 1).testBit 0 || code == 57441 || code == 57447
  control := (mask - 1).testBit 2 || code == 57442 || code == 57448

/-- The key of a sequence that gives a number: the number, the numbers of the same key with others held down,
    a mask of modifiers, and whether the key was pressed, held or released. With shift, the second number tells
    what is typed. -/
def keyOfNumbers (text : List Char) : Key :=
  let fields := parts ';' text
  let codes := parts ':' (fields.head?.getD [])
  let state := parts ':' (fields[1]?.getD [])
  let mask := numberAt? 256 state 0
  let motion := if mask.isSome then (numberAt? 256 state 1).getD 1 else 1
  match numberAt? 4294967296 codes 0 with
  | none => .other
  | some code =>
    let held := Modifiers.ofMask (mask.getD 1) code
    match Key.ofCode? held.control code with
    | none => .other
    | some k =>
      if motion = 3 then .other
      else if held.shift then
        (((numberAt? 4294967296 codes 1).bind Key.charOf?).map (Key.typing held.control)).getD k
      else k

/-! ### Places -/

/-- What is told by the two numbers of a place, the first of which stands at `i` among some texts. The second
    counts only if the first is one that a place can have. -/
def ofPlace (texts : List (List Char)) (i : Nat) : Signal :=
  match numberAt? 65536 texts i, numberAt? 65536 texts (i + 1) with
  | some 0, _ | some _, some 0 => offScreen
  | _, _ => silent

/-- Whether a code tells what was done with the pointer: a button, a turn of the wheel, or a move, which has
    the sixth bit set. -/
def isPointerCode (code : Nat) : Bool :=
  let button := code % 4 + 4 * (code / 64 % 4)
  if code.testBit 5 then button < 6 else button < 8

/-- What is told of the pointer by numbers: a code that counts from `base`, and a place. -/
def ofPointer (base : Nat) (texts : List (List Char)) : Signal :=
  match numberAt? 256 texts 0 with
  | some code => if base ≤ code ∧ isPointerCode (code - base) then ofPlace texts 1 else silent
  | none => silent

/-- What is told of the pointer by three bytes. They count from 32, and those below count as zero in a place. -/
def ofPointerBytes : List UInt8 → Signal
  | code :: column :: row :: _ =>
    if 32 ≤ code ∧ isPointerCode (code.toNat - 32) ∧ (column ≤ 32 ∨ row ≤ 32) then offScreen else silent
  | _ => silent

/-! ### Sequences -/

/-- Whether a character ends a sequence that has numbers in it. -/
def isFinal (c : Char) : Bool := '@' ≤ c && c ≤ '~'

/-- The bytes that some characters take. -/
def bytesOf (cs : List Char) : List UInt8 := (String.ofList cs).toUTF8.data.toList

/-- Whether a sequence is complete, given what follows its opening escape and bracket. -/
def isComplete (body : List Char) : Bool :=
  match body, body.getLast? with
  | c :: rest, some last =>
    if c = '[' then !rest.isEmpty
    else if c = 'M' then 3 ≤ (bytesOf rest).length
    else if c = '<' then last == 'm' || last == 'M'
    else if c = '?' then last == 'c' || last == 'u' && 3 ≤ (bytesOf body).length
    else if c.isDigit then
      if ['2', '0', '0', '~'].isPrefixOf body then ['\x1b', '[', '2', '0', '1', '~'].isSuffixOf body
      else isFinal last
    else true
  | _, _ => false

/-- What a complete sequence tells. -/
def ofBody (body : List Char) : Signal :=
  match body with
  | 'M' :: rest => ofPointerBytes (bytesOf rest)
  | '<' :: rest => ofPointer 0 (parts ';' rest.dropLast)
  | c :: _ =>
    if c.isDigit then
      match body.getLast? with
      | some 'u' => key (keyOfNumbers body.dropLast)
      | some 'R' => ofPlace (parts ';' body.dropLast) 0
      | some 'M' => ofPointer 32 (parts ';' body.dropLast)
      | _ => silent
    else silent
  | [] => silent

/-- What characters tell, if they are complete. An escape tells of its own key only if nothing follows it, and
    a key that follows it counts by itself. -/
def ofSequence? (more : Bool) : List Char → Option Signal
  | [] => none
  | ['\x1b'] => if more then none else some silent
  | '\x1b' :: '[' :: body => if isComplete body then some (ofBody body) else none
  | ['\x1b', 'O'] => none
  | '\x1b' :: 'O' :: _ => some silent
  | '\x1b' :: c :: _ => some (key (Key.ofChar c))
  | c :: _ => some (key (Key.ofChar c))

/-- What a terminal tells by characters that are sent at once, after some that are not complete. -/
def ofChars (held : List Char) : List Char → List Signal
  | [] => []
  | c :: rest =>
    match ofSequence? (!rest.isEmpty) (held ++ [c]) with
    | some x => x :: ofChars [] rest
    | none => ofChars (held ++ [c]) rest

/-- The key that a signal tells of. -/
def key? : Signal → Option Key
  | key k => some k
  | offScreen => none

/-- The keys that signals sent at once tell of. There are none if one of the signals is off the screen. -/
def keys? (signals : List Signal) : Option (List Key) := signals.mapM key?

end Signal
end MicroDebug
