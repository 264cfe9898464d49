import MicroDebug.Instruction.Text

/-! Listings of the instructions in a stretch of memory, each with its address. -/

namespace MicroDebug.Listing

/-- Whether a listing for a reader at a prompt ends after the instruction, as it always leads away. -/
def endsBlock (i : Instruction) : Bool := i.isReturn || i.operation == .jump .always

/-- The lines from `a` on, at most `fuel` of them. -/
def linesFrom (m : Memory) (limit : Nat) (block : Bool) : (fuel : Nat) → (a : Nat) → List (UInt16 × String)
  | 0, _ => []
  | fuel + 1, a =>
    if a < limit ∧ a < Memory.size then
      let pc := UInt16.ofNat a
      match Instruction.decode m pc with
      | .error _ => [(pc, Instruction.undecodable)]
      | .ok i =>
        (pc, i.text pc block) ::
          (if block && endsBlock i then [] else linesFrom m limit block fuel (a + i.size.toNat))
    else []

/-- The instructions from `start` on that begin below `limit`. The first place without one ends the list with
    a line that says so. With `block` the list also ends where the straight line of code does, and jumps show
    their targets. -/
def lines (m : Memory) (start : UInt16) (limit : Nat) (block : Bool) : List (UInt16 × String) :=
  linesFrom m limit block Memory.size start.toNat

/-- The size and text of the instruction at an address; a place without one counts as two bytes. -/
def line (m : Memory) (a : UInt16) : UInt16 × String :=
  match Instruction.decode m a with
  | .error _ => (2, Instruction.undecodable)
  | .ok i => (i.size, i.text a false)

/-- The rows of a whole-memory listing from `a` up to `stop`, at most `fuel` steps. -/
def rowsFrom (m : Memory) (stop : Nat) : (fuel : Nat) → (a : Nat) → (hidden : Bool) → List String
  | 0, _, _ => []
  | fuel + 1, a, hidden =>
    if a < stop then
      let pc := UInt16.ofNat a
      if m.readWord pc = 0 then
        (if hidden then id else ("*" :: ·)) (rowsFrom m stop fuel (a + 2) true)
      else
        let (size, text) := line m pc
        (Hex.word pc ++ ": " ++ text) :: rowsFrom m stop fuel (a + size.toNat) false
    else []

/-- One row for each instruction from `start` up to `stop`, and one star for each run of zero words. -/
def rows (m : Memory) (start : UInt16) (stop : Nat) : List String :=
  rowsFrom m stop (stop - start.toNat) start.toNat false

end MicroDebug.Listing
