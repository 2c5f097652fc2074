import WordMachine.Word

/-!
# Memory

Memory is a row of cells of one word each, addressed from zero.  An address beyond
the last cell is no error here: reading there gives nothing and writing there
changes nothing, and the caller says what that means.
-/

namespace WordMachine

abbrev Memory := Array Word

namespace Memory

def cleared (size : Nat) : Memory := Array.replicate size 0

/-- A memory that holds the given words from address zero on, and zeros above. -/
def ofWords (size : Nat) (words : List Word) : Memory :=
  words.toArray ++ Array.replicate (size - words.length) 0

def read? (memory : Memory) (address : Word) : Option Word :=
  memory[address.toNat]?

/-- Whether an address is that of a cell. -/
def holds (memory : Memory) (address : Word) : Bool :=
  address.toNat < memory.size

/-- Puts a word in a cell.  A word for an address beyond the cells is lost. -/
def write (memory : Memory) (address value : Word) : Memory :=
  memory.setIfInBounds address.toNat value

/-- Copies words over the cells from address zero on, as far as there are cells. -/
def overwrite (memory : Memory) (words : List Word) : Memory :=
  (words.take memory.size ++ memory.toList.drop words.length).toArray

@[simp]
theorem size_ofWords {size : Nat} {words : List Word} (h : words.length ≤ size) :
    (ofWords size words).size = size := by
  simp [ofWords, h]

@[simp]
theorem size_write (memory : Memory) (address value : Word) :
    (memory.write address value).size = memory.size := by
  simp [write]

theorem read?_eq_none_iff {memory : Memory} {address : Word} :
    memory.read? address = none ↔ memory.holds address = false := by
  simp [read?, holds]

/-- A write is seen at its address, if there is a cell, and nowhere else. -/
theorem read?_write (memory : Memory) (address value a : Word) :
    (memory.write address value).read? a =
      if a = address ∧ memory.holds address = true then some value else memory.read? a := by
  by_cases ha : a = address
  · subst ha
    by_cases hcell : a.toNat < memory.size <;> simp [read?, write, holds, hcell]
  · have hne : address.toNat ≠ a.toNat := fun heq => ha (UInt64.toNat_inj.mp heq.symm)
    simp [read?, write, ha, hne]

end Memory

end WordMachine
