import WordMachine.Instruction.OfMemory
import WordMachine.Program

/-!
# Listings

A listing walks the words of a loaded program from address zero, one instruction at
a time, and gives each with its address.  The walk ends at the first address beyond
the program.
-/

namespace WordMachine

/-- An instruction and the address it stands at. -/
structure Row where
  address : Word
  ins : Instruction Word
  deriving DecidableEq, Repr

namespace Row

/-- The rows from an address on, up to the end of a program of `length` words. -/
def listFrom (memory : Memory) (length address : Nat) : Except Fault (List Row) :=
  if address < length then do
    let ins ← Instruction.ofMemory memory (UInt64.ofNat address)
    return ⟨UInt64.ofNat address, ins⟩ :: (← listFrom memory length (address + ins.wordCount))
  else
    .ok []
termination_by length - address
decreasing_by
  have hpos : 0 < ins.wordCount := ins.wordCount_pos
  omega

end Row

namespace Machine

def listing (m : Machine) : Except Fault (List Row) :=
  Row.listFrom m.memory m.programLength 0

end Machine

/-- The label cell of a row: the names at its address. -/
def SymbolTable.cell (table : SymbolTable) (row : Row) : String :=
  ", ".intercalate (table.namesAt row.address)

end WordMachine
