import MicroDebug.Text.Numeral

/-! Arguments of a command: options by name, some with a value, and operands. No option is given twice. Each
    value is read where it stands, so that what is wrong before a wish for help is told and help is not. -/

namespace MicroDebug.CommandLine

/-- What the value of an option must be. -/
inductive Kind where
  | path
  | address
deriving DecidableEq, Repr

/-- What an option was given with. -/
inductive Value where
  | nothing
  | path (text : String)
  | address (a : UInt16)
deriving DecidableEq, Repr

/-- A path, which must not be empty. -/
def readPath (argument : String) : Except String String :=
  if argument.isEmpty then .error "a value is required but none was supplied" else .ok argument

/-- An address in base 16, which may start with `0x`. -/
def readAddress (argument : String) : Except String UInt16 :=
  let digits :=
    match argument.toList with
    | '0' :: 'x' :: rest => String.ofList rest
    | _ => argument
  match Numeral.hexWord? digits with
  | some a => .ok a
  | none => .error ("invalid address '" ++ argument ++ "'")

/-- Reads a value of a kind. -/
def Kind.read (argument : String) : Kind → Except String Value
  | path => (readPath argument).map .path
  | address => (readAddress argument).map .address

/-- What a command takes: its options, each with the kind of its value if it has one, and the most operands,
    which are paths. -/
structure Shape where
  options : List (String × Option Kind)
  operands : Nat
deriving DecidableEq, Repr

/-- The arguments of a command, sorted. -/
structure Arguments where
  /-- The options that were given, each with its value. -/
  options : List (String × Value) := []
  operands : List String := []
  /-- Whether help was asked for, after which nothing else counts. -/
  help : Bool := false
deriving DecidableEq, Repr

namespace Arguments

/-- Divides an argument at its first equals sign. -/
def splitValue (argument : String) : String × Option String :=
  let cs := argument.toList
  match cs.dropWhile (· != '=') with
  | [] => (argument, none)
  | _ :: value => (String.ofList (cs.takeWhile (· != '=')), some (String.ofList value))

/-- Whether an argument stands for options. -/
def isOption (argument : String) : Bool :=
  match argument.toList with
  | '-' :: _ :: _ => true
  | _ => false

def withOption (xs : Arguments) (name : String) (value : Value) : Except String Arguments :=
  if (xs.options.lookup name).isSome then
    .error ("the argument '" ++ name ++ "' cannot be used multiple times")
  else .ok { xs with options := xs.options ++ [(name, value)] }

def withOperand (shape : Shape) (xs : Arguments) (argument : String) : Except String Arguments :=
  if xs.operands.length < shape.operands then
    (readPath argument).map fun path => { xs with operands := xs.operands ++ [path] }
  else .error ("unexpected argument '" ++ argument ++ "' found")

/-- Takes all arguments as operands. -/
def sortOperands (shape : Shape) (xs : Arguments) : List String → Except String Arguments
  | [] => .ok xs
  | argument :: rest => (xs.withOperand shape argument).bind fun xs => sortOperands shape xs rest

/-- What the next arguments are to the sorting of the rest. -/
inductive Sorted where
  /-- An argument has been taken in, and the rest follows it. -/
  | taken (xs : Arguments)
  /-- An option has been met whose value is the next argument. -/
  | awaiting (name : String) (kind : Kind)
deriving DecidableEq, Repr

/-- Takes in an argument that stands for options. -/
def sortOption (shape : Shape) (xs : Arguments) (argument : String) : Except String Sorted :=
  let (name, value) := splitValue argument
  match shape.options.lookup name, value with
  | none, _ => .error ("unexpected argument '" ++ name ++ "' found")
  | some (some kind), some value => do return .taken (← xs.withOption name (← kind.read value))
  | some (some kind), none => .ok (.awaiting name kind)
  | some none, some _ => .error ("unexpected value for '" ++ name ++ "' found")
  | some none, none => (xs.withOption name .nothing).map .taken

/-- Sorts arguments in turn. After `--` all of them are operands. -/
def sort (shape : Shape) (xs : Arguments) : List String → Except String Arguments
  | [] => .ok xs
  | argument :: rest =>
    if argument = "--" then sortOperands shape xs rest
    else if argument = "--help" ∨ argument.startsWith "-h" then .ok { xs with help := true }
    else if isOption argument then
      match sortOption shape xs argument, rest with
      | .error reason, _ => .error reason
      | .ok (.taken xs), rest => sort shape xs rest
      | .ok (.awaiting name _), [] => .error ("a value is required for '" ++ name ++ "' but none was supplied")
      | .ok (.awaiting name kind), value :: rest =>
        if isOption value then .error ("a value is required for '" ++ name ++ "' but none was supplied")
        else do
          let xs ← xs.withOption name (← kind.read value)
          sort shape xs rest
    else (xs.withOperand shape argument).bind fun xs => sort shape xs rest

/-- Whether an option was given. -/
def has (xs : Arguments) (name : String) : Bool := (xs.options.lookup name).isSome

/-- The path that an option was given with. -/
def path? (xs : Arguments) (name : String) : Option String :=
  match xs.options.lookup name with
  | some (.path text) => some text
  | _ => none

/-- The address that an option was given with. -/
def address? (xs : Arguments) (name : String) : Option UInt16 :=
  match xs.options.lookup name with
  | some (.address a) => some a
  | _ => none

end Arguments
end MicroDebug.CommandLine
