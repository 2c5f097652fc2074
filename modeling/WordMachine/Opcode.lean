import WordMachine.Word

/-!
# Opcodes

An opcode fixes the shape of an instruction: its mnemonic, the number of tokens it
takes in source text and the number of words it takes in memory.  Five opcodes
share the mnemonic `mov`.  Ids start at one, so a zeroed cell is no opcode.
-/

namespace WordMachine

inductive Opcode where
  | je | jmp | cmp | add | sub
  | storeRegister | storeValue | load | copy | set
  | inc | exit
  deriving DecidableEq, Repr

namespace Opcode

def all : List Opcode :=
  [je, jmp, cmp, add, sub, storeRegister, storeValue, load, copy, set, inc, exit]

/-- The first word of an encoded instruction. -/
def id : Opcode → Word
  | je => 1
  | jmp => 2
  | cmp => 3
  | add => 4
  | sub => 5
  | storeRegister => 6
  | storeValue => 7
  | load => 8
  | copy => 9
  | set => 10
  | inc => 11
  | exit => 12

def ofId? (id : Word) : Option Opcode :=
  all.find? fun op => op.id == id

def mnemonic : Opcode → String
  | je => "je"
  | jmp => "jmp"
  | cmp => "cmp"
  | add => "add"
  | sub => "sub"
  | storeRegister | storeValue | load | copy | set => "mov"
  | inc => "inc"
  | exit => "exit"

/-- Source tokens of an instruction, with the mnemonic and the punctuation. -/
def tokenCount : Opcode → Nat
  | je | jmp | inc => 2
  | cmp | sub | copy | set => 4
  | add | storeRegister | storeValue | load => 8
  | exit => 1

/-- Memory words of an encoded instruction. -/
def wordCount : Opcode → Nat
  | je | jmp | inc => 2
  | cmp | sub | copy | set => 3
  | add | storeRegister | storeValue | load => 4
  | exit => 1

theorem ofId?_id (op : Opcode) : ofId? op.id = some op := by
  cases op <;> decide

theorem ofId?_eq_some_iff {id : Word} {op : Opcode} : ofId? id = some op ↔ op.id = id := by
  constructor
  · intro h
    simpa using List.find?_some h
  · rintro rfl
    exact ofId?_id op

theorem wordCount_pos (op : Opcode) : 0 < op.wordCount := by
  cases op <;> decide

theorem wordCount_le_tokenCount (op : Opcode) : op.wordCount ≤ op.tokenCount := by
  cases op <;> decide

theorem tokenCount_pos (op : Opcode) : 0 < op.tokenCount :=
  Nat.lt_of_lt_of_le op.wordCount_pos op.wordCount_le_tokenCount

end Opcode

end WordMachine
