import WordMachine.Error
import WordMachine.Memory
import WordMachine.Register

/-!
# Machines

A machine is a memory, a register file and a zero flag.  It remembers how many
words of its memory were filled with a program.  An access outside memory is a
fault at the current instruction pointer.
-/

namespace WordMachine

structure Machine where
  memory : Memory
  registers : RegisterFile := {}
  zeroFlag : Bool := false
  /-- The number of words that the program took when it was loaded. -/
  programLength : Nat := 0
  deriving DecidableEq, Repr

namespace Machine

/-- The memory size of a machine for which none is asked. -/
def defaultSize : Nat := 1024

def cleared (size : Nat) : Machine := { memory := Memory.cleared size }

/-- A machine about to run a program: the words stand at the start of memory, and
the stack pointer points at the last cell. -/
def loaded (size : Nat) (words : List Word) : Machine where
  memory := Memory.ofWords size words
  registers := { esp := UInt64.ofNat (size - 1) }
  programLength := words.length

def get (m : Machine) (r : Register) : Word := m.registers.get r

def set (m : Machine) (r : Register) (w : Word) : Machine :=
  { m with registers := m.registers.set r w }

def ip (m : Machine) : Word := m.get .eip

def jump (m : Machine) (target : Word) : Machine := m.set .eip target

def setZeroFlag (m : Machine) (flag : Bool) : Machine := { m with zeroFlag := flag }

/-- The fault of an access to an address beyond memory. -/
def outOfBounds (m : Machine) (address : Word) : Fault := .outOfBounds m.ip address

def read (m : Machine) (address : Word) : Except Fault Word :=
  match m.memory.read? address with
  | some w => .ok w
  | none => .error (m.outOfBounds address)

@[inline]
def write (m : Machine) (address value : Word) : Except Fault Machine :=
  if m.memory.holds address then
    .ok { m with memory := m.memory.write address value }
  else
    .error (m.outOfBounds address)

/-- The address of the cell `[ base + offset ]`. -/
def cellAddress (m : Machine) (base : Register) (offset : Word) : Word :=
  m.get base + offset

@[simp]
theorem get_set (m : Machine) (r s : Register) (w : Word) :
    (m.set r w).get s = if s = r then w else m.get s :=
  RegisterFile.get_set m.registers r s w

@[simp]
theorem ip_jump (m : Machine) (target : Word) : (m.jump target).ip = target := by
  simp [ip, jump]

end Machine

end WordMachine
