import WordMachine.Error
import WordMachine.Instruction
import WordMachine.Memory

/-!
# Instructions in memory

The instruction at an address starts with its opcode word; the operand words follow
in the next cells.  They are read in order, and the first one that is missing or
does not fit its slot is the fault.  Addresses wrap, as all words do.
-/

namespace WordMachine

namespace Memory

/-- The word that stands `k` cells after the start of the instruction at `ip`. -/
def operand (memory : Memory) (ip k : Word) : Except Fault Word :=
  match memory.read? (ip + k) with
  | some word => .ok word
  | none => .error (.outOfBounds ip (ip + k))

/-- The register whose id stands `k` cells after the start of the instruction. -/
def registerOperand (memory : Memory) (ip k : Word) : Except Fault Register := do
  let word ← memory.operand ip k
  match Register.ofId? word with
  | some r => .ok r
  | none => .error (.illegalRegister ip word)

def opcodeAt (memory : Memory) (ip : Word) : Except Fault Opcode := do
  let word ← memory.operand ip 0
  match Opcode.ofId? word with
  | some op => .ok op
  | none => .error (.illegalInstruction ip word)

end Memory

/-- The instruction whose opcode word stands at address `ip`. -/
def Instruction.ofMemory (memory : Memory) (ip : Word) : Except Fault (Instruction Word) := do
  let register := memory.registerOperand ip
  let value := memory.operand ip
  match ← memory.opcodeAt ip with
  | .je => return .je (← value 1)
  | .jmp => return .jmp (← value 1)
  | .cmp => return .cmp (← register 1) (← value 2)
  | .add => return .add (← register 1) (← register 2) (← value 3)
  | .sub => return .sub (← register 1) (← value 2)
  | .storeRegister => return .storeRegister (← register 1) (← value 2) (← register 3)
  | .storeValue => return .storeValue (← register 1) (← value 2) (← value 3)
  | .load => return .load (← register 1) (← register 2) (← value 3)
  | .copy => return .copy (← register 1) (← register 2)
  | .set => return .set (← register 1) (← value 2)
  | .inc => return .inc (← register 1)
  | .exit => return .exit

end WordMachine
