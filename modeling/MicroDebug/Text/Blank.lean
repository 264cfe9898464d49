/-! Blank characters, and the words of a line that they divide. -/

namespace MicroDebug.Text

/-- Whether a character is white space. -/
def isBlank (c : Char) : Bool :=
  let n := c.toNat
  0x09 ≤ n && n ≤ 0x0d || n == 0x20 || n == 0x85 || n == 0xa0 || n == 0x1680 || 0x2000 ≤ n && n ≤ 0x200a ||
    n == 0x2028 || n == 0x2029 || n == 0x202f || n == 0x205f || n == 0x3000

/-- A line without its last characters of a kind. -/
def dropLastWhile (p : Char → Bool) (cs : List Char) : List Char := (cs.reverse.dropWhile p).reverse

/-- A line without blanks at its ends. -/
def trim (text : String) : String := String.ofList (dropLastWhile isBlank (text.toList.dropWhile isBlank))

/-- A line without the characters that end it. -/
def trimLineEnd (text : String) : String :=
  String.ofList (dropLastWhile (fun c => c == '\r' || c == '\n') text.toList)

/-- The first word of a line and what follows the blank after it. -/
def splitWord (text : String) : String × String :=
  let cs := text.toList
  (String.ofList (cs.takeWhile fun c => !isBlank c), String.ofList ((cs.dropWhile fun c => !isBlank c).drop 1))

/-- Puts a character in front of the first of some words. -/
def consFirst (c : Char) : List (List Char) → List (List Char)
  | [] => [[c]]
  | w :: ws => (c :: w) :: ws

/-- The stretches between characters of a kind, which may be empty. -/
def stretches (p : Char → Bool) : List Char → List (List Char)
  | [] => [[]]
  | c :: cs => if p c then [] :: stretches p cs else consFirst c (stretches p cs)

/-- The words of a line. -/
def words (text : String) : List String :=
  ((stretches isBlank text.toList).filter fun w => !w.isEmpty).map String.ofList

/-- What stands before and after the first place where `mark` stands. -/
def splitAt? (mark : List Char) : List Char → Option (List Char × List Char)
  | [] => if mark.isEmpty then some ([], []) else none
  | c :: cs =>
    if mark.isPrefixOf (c :: cs) then some ([], (c :: cs).drop mark.length)
    else (splitAt? mark cs).map fun (before, after) => (c :: before, after)

end MicroDebug.Text
