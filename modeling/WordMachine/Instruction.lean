import WordMachine.Opcode
import WordMachine.Register

/-!
# Instructions

An instruction is an opcode with its operands.  The type is generic in what stands
in a value slot: words in a machine, anything that can be resolved to a word before
that.  Registers are always explicit.  An instruction of words has two written
forms, a list of tokens and a list of memory words.
-/

namespace WordMachine

inductive Instruction (V : Type) where
  | je (target : V)
  | jmp (target : V)
  | cmp (left : Register) (right : V)
  | add (target base : Register) (offset : V)
  | sub (target : Register) (amount : V)
  | storeRegister (base : Register) (offset : V) (source : Register)
  | storeValue (base : Register) (offset value : V)
  | load (target base : Register) (offset : V)
  | copy (target source : Register)
  | set (target : Register) (value : V)
  | inc (target : Register)
  | exit
  deriving DecidableEq, Repr

namespace Instruction

variable {V : Type}

def opcode : Instruction V → Opcode
  | je _ => .je
  | jmp _ => .jmp
  | cmp _ _ => .cmp
  | add _ _ _ => .add
  | sub _ _ => .sub
  | storeRegister _ _ _ => .storeRegister
  | storeValue _ _ _ => .storeValue
  | load _ _ _ => .load
  | copy _ _ => .copy
  | set _ _ => .set
  | inc _ => .inc
  | exit => .exit

abbrev tokenCount (ins : Instruction V) : Nat := ins.opcode.tokenCount

abbrev wordCount (ins : Instruction V) : Nat := ins.opcode.wordCount

theorem wordCount_pos (ins : Instruction V) : 0 < ins.wordCount :=
  ins.opcode.wordCount_pos

/-- A cell reference `[ base + offset ]`. -/
def cellTokens (base : Register) (offset : String) : List String :=
  ["[", base.name, "+", offset, "]"]

/-- The tokens after the mnemonic, given the text of a value. -/
def operandTokens (text : V → String) : Instruction V → List String
  | je target | jmp target => [text target]
  | cmp r v | sub r v | set r v => [r.name, ",", text v]
  | add r base offset | load r base offset => r.name :: "," :: cellTokens base (text offset)
  | storeRegister base offset r => cellTokens base (text offset) ++ [",", r.name]
  | storeValue base offset v => cellTokens base (text offset) ++ [",", text v]
  | copy r source => [r.name, ",", source.name]
  | inc r => [r.name]
  | exit => []

/-- The tokens of an instruction in source text. -/
def tokens (text : V → String) (ins : Instruction V) : List String :=
  ins.opcode.mnemonic :: ins.operandTokens text

/-- The source form of an instruction of words. -/
def text (ins : Instruction Word) : String :=
  " ".intercalate (ins.tokens Word.text)

def operandWords : Instruction Word → List Word
  | je target | jmp target => [target]
  | cmp r v | sub r v | set r v => [r.id, v]
  | add r base offset | load r base offset => [r.id, base.id, offset]
  | storeRegister base offset r => [base.id, offset, r.id]
  | storeValue base offset v => [base.id, offset, v]
  | copy r source => [r.id, source.id]
  | inc r => [r.id]
  | exit => []

def encode (ins : Instruction Word) : List Word :=
  ins.opcode.id :: ins.operandWords

/-- Memory words in decimal, separated by spaces. -/
def wordsText (ins : Instruction Word) : String :=
  " ".intercalate (ins.encode.map Word.text)

@[simp]
theorem length_tokens (text : V → String) (ins : Instruction V) :
    (ins.tokens text).length = ins.tokenCount := by
  cases ins <;> rfl

@[simp]
theorem length_encode (ins : Instruction Word) : ins.encode.length = ins.wordCount := by
  cases ins <;> rfl

end Instruction

end WordMachine
