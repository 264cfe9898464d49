import MicroDebug.Source.Diagnostic
import MicroDebug.Text.Numeral

/-! Tokens of expressions. At each place the longest token is taken; spaces, tabs and line ends come between,
    and any character that starts no token is an error of its own. -/

namespace MicroDebug

/-- The signs of the expression language. -/
inductive Sign where
  | amp
  | ampAmp
  | bang
  | bangEq
  | bracketClose
  | bracketOpen
  | eq
  | eqEq
  | gt
  | gtEq
  | lt
  | ltEq
  | minus
  | parenClose
  | parenOpen
  | pipe
  | pipePipe
  | plus
deriving DecidableEq, Repr

namespace Sign

def text : Sign → String
  | amp => "&"
  | ampAmp => "&&"
  | bang => "!"
  | bangEq => "!="
  | bracketClose => "]"
  | bracketOpen => "["
  | eq => "="
  | eqEq => "=="
  | gt => ">"
  | gtEq => ">="
  | lt => "<"
  | ltEq => "<="
  | minus => "-"
  | parenClose => ")"
  | parenOpen => "("
  | pipe => "|"
  | pipePipe => "||"
  | plus => "+"

/-- The sign of two characters. -/
def ofPair? : Char → Char → Option Sign
  | '&', '&' => some ampAmp
  | '!', '=' => some bangEq
  | '=', '=' => some eqEq
  | '>', '=' => some gtEq
  | '<', '=' => some ltEq
  | '|', '|' => some pipePipe
  | _, _ => none

/-- The sign of one character. -/
def ofChar? : Char → Option Sign
  | '&' => some amp
  | '!' => some bang
  | ']' => some bracketClose
  | '[' => some bracketOpen
  | '=' => some eq
  | '>' => some gt
  | '<' => some lt
  | '-' => some minus
  | ')' => some parenClose
  | '(' => some parenOpen
  | '|' => some pipe
  | '+' => some plus
  | _ => none

end Sign

/-- What a token is. -/
inductive Lexeme where
  | sign (s : Sign)
  | name (text : String)
  | number (value : Nat)
deriving DecidableEq, Repr

namespace Lexeme

/-- What a token is called in messages. -/
def kind : Lexeme → String
  | sign s => "'" ++ s.text ++ "'"
  | name _ => "identifier"
  | number _ => "int literal"

end Lexeme

/-- A token and its place. -/
structure Token where
  span : Span
  lexeme : Lexeme
deriving DecidableEq, Repr

namespace Token

/-! ### Reading one token -/

/-- Whether a character may stand between tokens. -/
def isSpace (c : Char) : Bool := c == ' ' || c == '\t' || c == '\r' || c == '\n'

def isNameStart (c : Char) : Bool := c == '_' || c.isAlpha

def isNamePart (c : Char) : Bool := c == '_' || c.isAlphanum

def isHexDigit (c : Char) : Bool := (Numeral.digitIn? 16 c).isSome

/-- A piece of text at the start of a line, with the rest of the line. -/
inductive Piece where
  | space
  | token (lexeme : Lexeme)
  | invalid (c : Char)
deriving DecidableEq, Repr

/-- The number that digits of a base write. -/
def number (base : Nat) (digits : List Char) : Lexeme := .number ((Numeral.value? base digits).getD 0)

/-- Splits the longest first piece off a line that starts with `c`: the piece, its characters after the first,
    and the rest. -/
def split (c : Char) (rest : List Char) : Piece × List Char × List Char :=
  if isSpace c then (.space, [], rest)
  else if isNameStart c then
    let more := rest.takeWhile isNamePart
    (.token (.name (String.ofList (c :: more))), more, rest.dropWhile isNamePart)
  else if c.isDigit then
    match c, rest with
    | '0', x :: d :: after =>
      if (x = 'x' ∨ x = 'X') ∧ isHexDigit d then
        let digits := d :: after.takeWhile isHexDigit
        (.token (number 16 digits), x :: digits, after.dropWhile isHexDigit)
      else decimal c rest
    | _, _ => decimal c rest
  else
    match rest with
    | d :: after =>
      match Sign.ofPair? c d with
      | some s => (.token (.sign s), [d], after)
      | none => (single c, [], rest)
    | [] => (single c, [], rest)
where
  decimal (c : Char) (rest : List Char) : Piece × List Char × List Char :=
    let more := rest.takeWhile Char.isDigit
    (.token (number 10 (c :: more)), more, rest.dropWhile Char.isDigit)
  single (c : Char) : Piece :=
    match Sign.ofChar? c with
    | some s => .token (.sign s)
    | none => .invalid c

/-! ### Reading a line -/

/-- The error for a character that starts no token. -/
def invalid (span : Span) (c : Char) : Diagnostic :=
  { span := span, message := "invalid character: " ++ String.singleton c }

/-- The number of bytes of a text. -/
def byteCount (cs : List Char) : Nat := cs.foldr (fun c n => c.utf8Size + n) 0

/-- The tokens and errors of a line that starts at an offset, at most `fuel` pieces. -/
def scanFrom : (fuel offset : Nat) → List Char → List (Except Diagnostic Token)
  | 0, _, _ | _, _, [] => []
  | fuel + 1, offset, c :: cs =>
    let (piece, more, rest) := split c cs
    let span := Span.ofLength offset (byteCount (c :: more))
    let later := scanFrom fuel span.stop rest
    match piece with
    | .space => later
    | .token lexeme => .ok { span := span, lexeme := lexeme } :: later
    | .invalid c => .error (invalid span c) :: later

/-- The tokens of a text and the errors between them, in order. -/
def scan (source : String) : List (Except Diagnostic Token) :=
  scanFrom source.toList.length 0 source.toList

/-- The tokens before the first error, or that error. -/
def collect : List (Except Diagnostic Token) → Except Diagnostic (List Token)
  | [] => .ok []
  | .error d :: _ => .error d
  | .ok t :: rest => (collect rest).map (t :: ·)

/-- The tokens of a text without errors. -/
def tokenize (source : String) : Except Diagnostic (List Token) := collect (scan source)

/-- The tokens that a text is made of, or the errors in it. -/
def ofSource (source : String) : Except (List Diagnostic) (List Token) := (tokenize source).mapError fun d => [d]

end Token
end MicroDebug
