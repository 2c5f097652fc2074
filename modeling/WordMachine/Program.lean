import WordMachine.SymbolTable
import WordMachine.Machine
import WordMachine.Source

/-!
# Programs

A source text is a program when its labels resolve, its instructions read and their
words fit in memory.  Capacity is checked after each instruction, so of a misread
instruction and a memory that is too small the one that comes first in the source
is reported.
-/

namespace WordMachine

/-- The memory a program gets and the steps it may take. -/
structure Limits where
  memorySize : Nat := Machine.defaultSize
  maxSteps : Option Nat := none
  deriving DecidableEq, Repr

/-- The number of steps after which a run is given up.  A run without a limit of its own is never
given up: it goes on until it halts or fails.  Here it is cut off after `2 ^ 64 - 1` steps, where a
counter of one word is full, and the step-limit error that it then ends with is one that such a run
does not report. -/
def Limits.stepLimit (limits : Limits) : Nat :=
  limits.maxSteps.getD (Word.modulus - 1)

/-- A machine ready to run and the labels of the text it was built from. -/
structure Program where
  machine : Machine
  labels : SymbolTable
  deriving DecidableEq, Repr

/-- The instructions of a stream without labels, behind `used` words of memory. -/
def Instruction.listOfTokens (capacity used : Nat) :
    List Token → Except SourceError (List (Instruction Word))
  | [] => .ok []
  | t :: rest => do
    let ins ← Instruction.ofWindow ⟨t, rest⟩
    let used := used + ins.wordCount
    if capacity < used then
      throw (.outOfMemory used capacity)
    return ins :: (← listOfTokens capacity used (rest.drop (ins.tokenCount - 1)))
termination_by stream => stream.length

def Instruction.encodeAll (code : List (Instruction Word)) : List Word :=
  code.flatMap Instruction.encode

/-- The machine that a stream without labels describes. -/
def Machine.ofTokens (size : Nat) (stream : List Token) : Except SourceError Machine := do
  let code ← Instruction.listOfTokens size 0 stream
  return Machine.loaded size (Instruction.encodeAll code)

/-- The program that a source text describes. -/
def Program.ofSource (source : String) (limits : Limits) : Except SourceError Program := do
  let stream := Source.tokens source
  let labels ← SymbolTable.ofTokens stream
  let resolved ← labels.resolve stream
  let machine ← Machine.ofTokens limits.memorySize resolved
  return { machine, labels }

end WordMachine
