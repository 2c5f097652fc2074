import Mathlib
import WordMachine.Proofs.Loading

/-!
# Machines for outlines

A source machine carries out the instructions of an outline without ever encoding them.
It counts instructions where a machine counts words, and a jump leads to the
instruction behind the declaration of its label.
-/

namespace WordMachine

namespace Instruction

/-- Whether the instruction is no jump or jumps to a label. -/
def jumpsByName : Instruction Operand → Bool
  | je (.literal _) | jmp (.literal _) => false
  | _ => true

end Instruction

namespace Outline

/-- The index of the first instruction behind a declaration. -/
def entry (outline : Outline) (name : String) : Nat := (outline.before name).code.length

/-- The index that a jump leads to.  Only a reference leads to an instruction. -/
def target (outline : Outline) : Operand → Nat
  | .literal _ => outline.code.length
  | .reference name => outline.entry name

end Outline

structure SourceMachine where
  /-- The index of the next instruction. -/
  pc : Nat := 0
  /-- The instruction pointer in this file plays no role. -/
  registers : RegisterFile
  zeroFlag : Bool
  memory : Memory
  halted : Bool := false

namespace SourceMachine

/-- The source machine that starts where a machine does. -/
def ofMachine (m : Machine) : SourceMachine where
  registers := m.registers
  zeroFlag := m.zeroFlag
  memory := m.memory

def get (s : SourceMachine) (r : Register) : Word := s.registers.get r

def advance (s : SourceMachine) : SourceMachine := { s with pc := s.pc + 1 }

def assign (s : SourceMachine) (r : Register) (w : Word) : SourceMachine :=
  { s.advance with registers := s.registers.set r w }

/-- The word at an address, or the address if there is no cell. -/
def read (s : SourceMachine) (address : Word) : Except Word Word :=
  match s.memory.read? address with
  | some w => .ok w
  | none => .error address

/-- Puts a word in a cell, or gives the address back if there is no cell. -/
def store (s : SourceMachine) (address w : Word) : Except Word SourceMachine :=
  if s.memory.holds address then
    .ok { s.advance with memory := s.memory.write address w }
  else
    .error address

theorem read_eq_error_iff {s : SourceMachine} {a address : Word} :
    s.read a = .error address ↔ s.memory.holds a = false ∧ a = address := by
  rw [read, ← Memory.read?_eq_none_iff]
  cases s.memory.read? a <;> simp

theorem store_eq_ok_iff {s s' : SourceMachine} {a w : Word} :
    s.store a w = .ok s' ↔
      s.memory.holds a = true ∧ { s.advance with memory := s.memory.write a w } = s' := by
  rw [store]
  cases s.memory.holds a <;> simp

theorem store_eq_error_iff {s : SourceMachine} {a w address : Word} :
    s.store a w = .error address ↔ s.memory.holds a = false ∧ a = address := by
  rw [store]
  cases s.memory.holds a <;> simp

def cellAddress (outline : Outline) (s : SourceMachine) (base : Register) (offset : Operand) :
    Word :=
  s.get base + outline.word offset

/-- Carries out an instruction of an outline.  An access outside memory gives its
address. -/
def execute (outline : Outline) (s : SourceMachine) :
    Instruction Operand → Except Word SourceMachine
  | .je v => .ok (if s.zeroFlag then { s with pc := outline.target v } else s.advance)
  | .jmp v => .ok { s with pc := outline.target v }
  | .cmp r v => .ok { s.advance with zeroFlag := s.get r == outline.word v }
  | .add r base offset => do
    let w ← s.read (s.cellAddress outline base offset)
    return s.assign r (s.get r + w)
  | .sub r v => .ok (s.assign r (s.get r - outline.word v))
  | .storeRegister base offset r => s.store (s.cellAddress outline base offset) (s.get r)
  | .storeValue base offset v => s.store (s.cellAddress outline base offset) (outline.word v)
  | .load r base offset => do
    let w ← s.read (s.cellAddress outline base offset)
    return s.assign r w
  | .copy r source => .ok (s.assign r (s.get source))
  | .set r v => .ok (s.assign r (outline.word v))
  | .inc r => .ok (s.assign r (s.get r + 1))
  | .exit => .ok { s with halted := true }

/-- One step.  Nothing happens behind the last instruction or after a halt. -/
def step (outline : Outline) (s : SourceMachine) : Except Word SourceMachine :=
  if s.halted then
    .ok s
  else
    match outline.code[s.pc]? with
    | some ins => s.execute outline ins
    | none => .ok s

/-- The machine after one step.  A step that fails changes nothing. -/
def next (outline : Outline) (s : SourceMachine) : SourceMachine :=
  match s.step outline with
  | .ok s' => s'
  | .error _ => s

def storeAddress? (outline : Outline) (s : SourceMachine) : Option Word :=
  match outline.code[s.pc]? with
  | some (.storeRegister base offset _) | some (.storeValue base offset _) =>
    some (s.cellAddress outline base offset)
  | _ => none

def loadAddress? (outline : Outline) (s : SourceMachine) : Option Word :=
  match outline.code[s.pc]? with
  | some (.load _ base offset) | some (.add _ base offset) =>
    some (s.cellAddress outline base offset)
  | _ => none

end SourceMachine

end WordMachine
