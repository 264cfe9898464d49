import MicroDebug.Expression.Compiler

/-! Breakpoints by address. A breakpoint with a condition is hit only where the condition is true, and a
    temporary one is gone after it has been hit as often as was asked for. -/

namespace MicroDebug

/-- A condition and the text it was written as. -/
structure Guard where
  source : String
  test : Postfix
deriving DecidableEq, Repr

/-- Whether a condition is true, if it has a truth value. -/
def Guard.holds? (c : Guard) (p : Processor) : Option Bool :=
  match c.test.evaluate? p with
  | some (.bool b) => some b
  | _ => none

structure Breakpoint where
  /-- How often a temporary breakpoint is still to be hit. -/
  remaining : Option Nat := none
  condition : Option Guard := none
deriving DecidableEq, Repr

/-- Whether a breakpoint stops the program in a state. -/
def Breakpoint.stops? (b : Breakpoint) (p : Processor) : Option Bool :=
  match b.condition with
  | none => some true
  | some c => c.holds? p

/-- Breakpoints in the order of their addresses. -/
structure Breakpoints where
  entries : List (UInt16 × Breakpoint) := []
deriving DecidableEq, Repr

namespace Breakpoints

def find? (bs : Breakpoints) (a : UInt16) : Option Breakpoint := bs.entries.lookup a

/-- Puts an entry at its place among entries in order, instead of one for the same address. -/
def place (a : UInt16) (b : Breakpoint) : List (UInt16 × Breakpoint) → List (UInt16 × Breakpoint)
  | [] => [(a, b)]
  | (c, old) :: rest =>
    if a < c then (a, b) :: (c, old) :: rest
    else if a = c then (a, b) :: rest
    else (c, old) :: place a b rest

def insert (bs : Breakpoints) (a : UInt16) (b : Breakpoint) : Breakpoints := ⟨place a b bs.entries⟩

def erase (bs : Breakpoints) (a : UInt16) : Breakpoints := ⟨bs.entries.filter (·.1 != a)⟩

/-- Sets a breakpoint that stays, instead of any at the address. -/
def setPermanent (bs : Breakpoints) (a : UInt16) (condition : Option Guard) : Breakpoints :=
  bs.insert a { condition := condition }

/-- Sets a breakpoint that is hit a number of times, which must not be zero. The condition of one that is
    already at the address is kept. -/
def setTemporary? (bs : Breakpoints) (a : UInt16) (count : Nat) : Option Breakpoints :=
  if count = 0 then none
  else some (bs.insert a { remaining := some count, condition := (bs.find? a).bind Breakpoint.condition })

/-- Counts a hit of a breakpoint. -/
def hit? (bs : Breakpoints) (a : UInt16) (b : Breakpoint) : Option Breakpoints :=
  match b.remaining with
  | none => some bs
  | some 0 => none
  | some 1 => some (bs.erase a)
  | some (n + 1) => some (bs.insert a { b with remaining := some n })

/-- Whether the program stops at an address, and the breakpoints after that. -/
def check? (bs : Breakpoints) (a : UInt16) (p : Processor) : Option (Bool × Breakpoints) :=
  match bs.find? a with
  | none => some (false, bs)
  | some b =>
    match b.stops? p with
    | none => none
    | some false => some (false, bs)
    | some true => (bs.hit? a b).map fun bs => (true, bs)

end Breakpoints
end MicroDebug
