import MicroDebug.Debugger.Command
import MicroDebug.Instruction.Listing

/-! What the debugger shows of a program: the code around the program counter, the registers, and the memory
    around an address. -/

namespace MicroDebug.View

/-- The colours that text is marked with. -/
inductive Colour where
  | red
  | green
  | blue
deriving DecidableEq, Repr

/-- The number of a colour among those of a terminal. -/
def Colour.number : Colour → Nat
  | red => 9
  | green => 10
  | blue => 12

/-- Marks text with a colour where colours are shown. -/
def paint (colours : Bool) (c : Colour) (text : String) : String :=
  if colours then "\x1b[38;5;" ++ toString c.number ++ "m" ++ text ++ "\x1b[39m" else text

/-- How many bytes of code from the program counter on are shown. -/
def codeWindow : Nat := 10

/-- How many bytes before an address, and from it on, are shown. -/
def radius : Nat := 16

/-- One line for each row of a listing. -/
def codeRow (row : UInt16 × String) : String := Hex.short row.1.toNat ++ ": " ++ row.2

/-- The code from an address on. -/
def code (m : Memory) (a : UInt16) : String :=
  String.join ((Listing.lines m a (a.toNat + codeWindow) true).map fun row => codeRow row ++ "\n")

/-- The code around the program counter, with the current instruction marked. -/
def currentCode (p : Processor) (colours : Bool) : String :=
  String.join ((Listing.lines p.memory (min p.blockStart p.pc) (p.pc.toNat + codeWindow) true).map fun row =>
    (if row.1 = p.pc then paint colours .green (codeRow row) else codeRow row) ++ "\n")

/-- The registers, four to a line. -/
def registers (rs : Registers) : String :=
  String.join (rs.named.zipIdx.map fun ((name, w), i) =>
    name ++ ": " ++ Hex.word w ++ (if i % 4 = 3 then "\n" else "\t"))

/-- The first address of the window around `a`. -/
def windowStart (a : UInt16) : Nat := a.toNat - radius

/-- The address after the window around `a`, which never holds the last address. -/
def windowStop (a : UInt16) : Nat := min (a.toNat + radius) 0xffff

/-- The bytes around an address in pairs, with the one at the address marked. -/
def memory (m : Memory) (a : UInt16) (colours : Bool) : String :=
  let start := windowStart a
  Hex.short start ++ ":" ++ String.join ((List.range (windowStop a - start)).map fun i =>
    let byte := Hex.byte (m.readByte (UInt16.ofNat (start + i)))
    (if i % 2 = 0 then " " else "") ++ (if start + i = a.toNat then paint colours .red byte else byte)) ++ "\n"

/-- The memory around the address in a register. -/
def tracked (p : Processor) (colours : Bool) (r : Register) : String :=
  paint colours .blue (r.name ++ " >> ") ++ memory p.memory (p.registers.get r) colours

/-- What is shown at every prompt. -/
def state (p : Processor) (registersTracked : List Register) (colours : Bool) : String :=
  currentCode p colours ++ "\n" ++ registers p.registers ++ "\n" ++
    String.join (registersTracked.map (tracked p colours))

/-- The calls that have not returned. -/
def backtrace (p : Processor) : String :=
  "Backtrace:\n" ++ String.join ((p.calls.backtrace p.pc).zipIdx.map fun ((site, function), i) =>
    "#" ++ toString i ++ "\t" ++ Hex.short site.toNat ++ " in " ++ Hex.short function.toNat ++ "\n") ++ "\n"

/-- A breakpoint with its condition and the hits that are left. -/
def breakpoint (a : UInt16) (b : Breakpoint) : String :=
  "\t" ++ Hex.short a.toNat ++
    (match b.condition with
      | none => ""
      | some c => " if " ++ c.source) ++
    (match b.remaining with
      | none => ""
      | some n => " (" ++ toString n ++ " left)") ++ "\n"

def breakpoints (bs : Breakpoints) : String :=
  "List of breakpoints currently set:\n" ++ String.join (bs.entries.map fun (a, b) => breakpoint a b)

/-- The commands, each with what it does in a second column. -/
def help : String :=
  String.join (Command.summary.map fun (usage, purpose) =>
    String.ofList (usage.toList.rightpad 24 ' ') ++ purpose ++ "\n")

end MicroDebug.View
