import Mathlib
import WordMachine.Fibonacci
import WordMachine.Proofs.SourceRuns

/-!
# Runs of the Fibonacci program

In each round of its loop the program moves on by one Fibonacci number.  It leaves the loop
when the counter is the bound, which a counter that wraps reaches from every bound, and it
halts with the number that belongs to it.
-/

namespace WordMachine.Fibonacci

open SourceMachine (Leads Walks)

/-- The program with its structure made plain. -/
def outline (bound : Word) : Outline :=
  [.instruction (.sub .esp (.literal "4")),
   .instruction (.copy .ebp .esp),
   .instruction (.storeValue .ebp (.literal "2") (.literal "0")),
   .instruction (.storeValue .ebp (.literal "3") (.literal "1")),
   .instruction (.storeValue .ebp (.literal "4") (.literal "1")),
   .instruction (.storeValue .ebp (.literal "1") (.literal "1")),
   .instruction (.set .ecx (.literal "1")),
   .declaration "loop",
   .instruction (.cmp .ecx (.literal bound.text)),
   .instruction (.je (.reference "end")),
   .instruction (.load .eax .ebp (.literal "3")),
   .instruction (.add .eax .ebp (.literal "2")),
   .instruction (.storeRegister .ebp (.literal "4") .eax),
   .instruction (.load .eax .ebp (.literal "3")),
   .instruction (.storeRegister .ebp (.literal "2") .eax),
   .instruction (.load .eax .ebp (.literal "4")),
   .instruction (.storeRegister .ebp (.literal "3") .eax),
   .instruction (.load .eax .ebp (.literal "1")),
   .instruction (.inc .ecx),
   .instruction (.jmp (.reference "loop")),
   .declaration "end",
   .instruction (.load .eax .ebp (.literal "4")),
   .instruction .exit]

variable {bound : Word} {size : Nat}

theorem wordCount_outline (bound : Word) : (outline bound).wordCount = 71 := rfl

theorem wellFormed_outline (bound : Word) : (outline bound).WellFormed where
  items := by
    have hbound := Word.isNumeral_text bound
    simp [outline, Item.WellFormed, Operand.WellFormed, Instruction.Named,
      Instruction.registers, Instruction.values, hbound]
    decide
  nodup := by
    change ["loop", "end"].Nodup
    decide

theorem jumpsByName_outline : ∀ ins ∈ (outline bound).code, ins.jumpsByName = true := by
  simp [outline, Instruction.jumpsByName]

theorem lines_eq_outline (bound : Word) :
    lines bound = (outline bound).map fun item => " ".intercalate item.tokens := rfl

/-- The text of the program spells its outline. -/
theorem spells_source (bound : Word) : (outline bound).Spells (source bound) := by
  rw [source, lines_eq_outline]
  apply Outline.spells_intercalate (List.cons_ne_nil _ _) (wellFormed_outline bound)
  change ∀ name ∈ ["loop", "end"], ' ' ∉ name.toList
  decide

/-- The word in the base pointer: four cells stand behind it. -/
def base (size : Nat) : Word := UInt64.ofNat (size - 5)

inductive Slot where
  | one | last | current | next
  deriving DecidableEq

namespace Slot

def offset : Slot → Word
  | one => 1
  | last => 2
  | current => 3
  | next => 4

def digits : Slot → String
  | one => "1"
  | last => "2"
  | current => "3"
  | next => "4"

theorem ofNumeral_digits (slot : Slot) : Word.ofNumeral slot.digits = slot.offset := by
  cases slot <;> decide

theorem offset_injective : Function.Injective offset := by
  intro slot slot'
  cases slot <;> cases slot' <;> decide

end Slot

/-- The words in the registers that the loop changes and in the cells. -/
structure Frame where
  eax : Word
  ecx : Word
  one : Word
  last : Word
  current : Word
  next : Word

namespace Frame

def cell (f : Frame) : Slot → Word
  | .one => f.one
  | .last => f.last
  | .current => f.current
  | .next => f.next

def put (f : Frame) (w : Word) : Slot → Frame
  | .one => { f with one := w }
  | .last => { f with last := w }
  | .current => { f with current := w }
  | .next => { f with next := w }

theorem cell_put (f : Frame) (w : Word) (slot slot' : Slot) :
    (f.put w slot).cell slot' = if slot' = slot then w else f.cell slot' := by
  cases slot <;> cases slot' <;> rfl

theorem eax_put (f : Frame) (w : Word) (slot : Slot) : (f.put w slot).eax = f.eax := by
  cases slot <;> rfl

theorem ecx_put (f : Frame) (w : Word) (slot : Slot) : (f.put w slot).ecx = f.ecx := by
  cases slot <;> rfl

end Frame

/-- A source machine in front of an instruction that has the words of a frame. -/
structure Holds (size : Nat) (f : Frame) (pc : Nat) (s : SourceMachine) : Prop where
  pc : s.pc = pc
  running : s.halted = false
  memory_size : s.memory.size = size
  ebp : s.get .ebp = base size
  eax : s.get .eax = f.eax
  ecx : s.get .ecx = f.ecx
  cells : ∀ slot, s.memory.read? (base size + slot.offset) = some (f.cell slot)

namespace Holds

variable {f : Frame} {pc : Nat} {s : SourceMachine}

theorem assign_eax (h : Holds size f pc s) (w : Word) :
    Holds size { f with eax := w } (pc + 1) (s.assign .eax w) where
  pc := congrArg (· + 1) h.pc
  running := h.running
  memory_size := h.memory_size
  ebp := h.ebp
  eax := rfl
  ecx := h.ecx
  cells := h.cells

theorem assign_ecx (h : Holds size f pc s) (w : Word) :
    Holds size { f with ecx := w } (pc + 1) (s.assign .ecx w) where
  pc := congrArg (· + 1) h.pc
  running := h.running
  memory_size := h.memory_size
  ebp := h.ebp
  eax := h.eax
  ecx := rfl
  cells := h.cells

theorem cellAddress (h : Holds size f pc s) (slot : Slot) :
    s.cellAddress (outline bound) .ebp (.literal slot.digits) = base size + slot.offset := by
  rw [SourceMachine.cellAddress, h.ebp, ← slot.ofNumeral_digits]
  rfl

theorem read (h : Holds size f pc s) (slot : Slot) :
    s.read (s.cellAddress (outline bound) .ebp (.literal slot.digits)) = .ok (f.cell slot) := by
  rw [SourceMachine.read, h.cellAddress, h.cells slot]

variable (hsize : 75 ≤ size) (hmodulus : size < Word.modulus)

include hsize hmodulus

/-- The cells stand behind the program and before the end of memory. -/
theorem toNat_cell (slot : Slot) :
    71 ≤ (base size + slot.offset).toNat ∧ (base size + slot.offset).toNat < size := by
  have hmod : Word.modulus = 2 ^ 64 := rfl
  have hbase : (base size).toNat = size - 5 := Word.toNat_ofNat (by omega)
  have hle : 1 ≤ slot.offset.toNat ∧ slot.offset.toNat ≤ 4 := by cases slot <;> decide
  rw [UInt64.toNat_add, hbase, Nat.mod_eq_of_lt (by omega)]
  omega

theorem holds_cell (h : Holds size f pc s) (slot : Slot) :
    s.memory.holds (base size + slot.offset) = true := by
  simpa [Memory.holds, h.memory_size] using (toNat_cell hsize hmodulus slot).2

theorem write (h : Holds size f pc s) (slot : Slot) (w : Word) :
    Holds size (f.put w slot) (pc + 1)
      { s.advance with memory := s.memory.write (base size + slot.offset) w } where
  pc := congrArg (· + 1) h.pc
  running := h.running
  memory_size := (Memory.size_write _ _ _).trans h.memory_size
  ebp := h.ebp
  eax := h.eax.trans (f.eax_put w slot).symm
  ecx := h.ecx.trans (f.ecx_put w slot).symm
  cells := by
    intro slot'
    rw [Memory.read?_write, h.holds_cell hsize hmodulus slot, h.cells slot', Frame.cell_put]
    simp only [and_true, add_right_inj, Slot.offset_injective.eq_iff]
    split <;> rfl

end Holds

/-! ## Single instructions -/

section

variable {f : Frame} {pc : Nat} {slot : Slot}

/-- An instruction that is no store. -/
theorem leads_single {ins : Instruction Operand} {P : SourceMachine → Prop}
    (hins : (outline bound).code[pc]? = some ins) (hstore : ins.isStore = false)
    (hok : ∀ s, Holds size f pc s → ∃ t, s.execute (outline bound) ins = .ok t ∧ P t) :
    Leads (outline bound) 1 (Holds size f pc) P := by
  intro s h
  obtain ⟨t, hok, ht⟩ := hok s h
  rw [← h.pc] at hins
  exact ⟨t, .single h.running hins hstore hok, ht⟩

theorem leads_set (digits : String)
    (hins : (outline bound).code[pc]? = some (.set .ecx (.literal digits))) :
    Leads (outline bound) 1 (Holds size f pc)
      (Holds size { f with ecx := Word.ofNumeral digits } (pc + 1)) :=
  leads_single hins rfl fun _ h => ⟨_, rfl, h.assign_ecx _⟩

theorem leads_inc (hins : (outline bound).code[pc]? = some (.inc .ecx)) :
    Leads (outline bound) 1 (Holds size f pc)
      (Holds size { f with ecx := f.ecx + 1 } (pc + 1)) := by
  apply leads_single hins rfl
  intro s h
  refine ⟨_, ?_, h.assign_ecx _⟩
  rw [SourceMachine.execute, h.ecx]

/-- A load brings a cell into `eax`. -/
theorem leads_load (slot : Slot)
    (hins : (outline bound).code[pc]? = some (.load .eax .ebp (.literal slot.digits))) :
    Leads (outline bound) 1 (Holds size f pc)
      (Holds size { f with eax := f.cell slot } (pc + 1)) := by
  apply leads_single hins rfl
  intro s h
  refine ⟨_, ?_, h.assign_eax _⟩
  rw [SourceMachine.execute, h.read]
  rfl

theorem leads_add (slot : Slot)
    (hins : (outline bound).code[pc]? = some (.add .eax .ebp (.literal slot.digits))) :
    Leads (outline bound) 1 (Holds size f pc)
      (Holds size { f with eax := f.eax + f.cell slot } (pc + 1)) := by
  apply leads_single hins rfl
  intro s h
  refine ⟨_, ?_, h.assign_eax _⟩
  rw [SourceMachine.execute, h.read, h.eax]
  rfl

theorem leads_jump (hins : (outline bound).code[pc]? = some (.jmp (.reference "loop"))) :
    Leads (outline bound) 1 (Holds size f pc) (Holds size f 7) := by
  apply leads_single hins rfl
  intro s h
  exact ⟨_, rfl, rfl, h.running, h.memory_size, h.ebp, h.eax, h.ecx, h.cells⟩

theorem leads_exit (hins : (outline bound).code[pc]? = some .exit) :
    Leads (outline bound) 1 (Holds size f pc) fun s => s.halted = true ∧ s.get .eax = f.eax :=
  leads_single hins rfl fun _ h => ⟨_, rfl, rfl, h.eax⟩

/-- The loop ends where the counter is the bound. -/
theorem leads_test :
    Leads (outline bound) 2 (Holds size f 7)
      (Holds size f (if f.ecx = bound then 19 else 9)) := by
  intro s h
  have hcmp : (outline bound).code[s.pc]? = some (.cmp .ecx (.literal bound.text)) := by
    rw [h.pc]
    rfl
  have hje : (outline bound).code[s.pc + 1]? = some (.je (.reference "end")) := by
    rw [h.pc]
    rfl
  have hequal : (s.get .ecx == (outline bound).word (.literal bound.text)) =
      decide (f.ecx = bound) := by
    rw [h.ecx, Outline.word, Word.ofNumeral_text]
    rfl
  have hcompare : Walks (outline bound) 1 s
      { s.advance with zeroFlag := decide (f.ecx = bound) } :=
    .single h.running hcmp rfl (by rw [SourceMachine.execute, hequal])
  refine ⟨_, hcompare.trans (.single h.running hje rfl rfl), ?_⟩
  by_cases hbound : f.ecx = bound
  · simp only [hbound, decide_true, if_true]
    exact ⟨rfl, h.running, h.memory_size, h.ebp, h.eax, h.ecx, h.cells⟩
  · simp only [hbound, decide_false, Bool.false_eq_true, if_false]
    have hpc : s.pc + 2 = 9 := by rw [h.pc]
    exact ⟨hpc, h.running, h.memory_size, h.ebp, h.eax, h.ecx, h.cells⟩

variable (hsize : 75 ≤ size) (hmodulus : size < Word.modulus)

include hsize hmodulus

/-- An instruction that stores a word in a cell. -/
theorem leads_put {ins : Instruction Operand} {w : Word}
    (hins : (outline bound).code[pc]? = some ins)
    (hputs : ∀ s, Holds size f pc s →
      s.storeAddress? (outline bound) = some (base size + slot.offset) ∧
      s.execute (outline bound) ins = s.store (base size + slot.offset) w) :
    Leads (outline bound) 1 (Holds size f pc) (Holds size (f.put w slot) (pc + 1)) := by
  intro s h
  obtain ⟨haddress, hok⟩ := hputs s h
  rw [← h.pc] at hins
  refine ⟨_, .step h.running hins ?_ ?_ (.refl _), h.write hsize hmodulus slot w⟩
  · intro address heq
    rw [haddress] at heq
    cases heq
    exact (Holds.toNat_cell hsize hmodulus slot).1
  · rw [hok]
    exact SourceMachine.store_eq_ok_iff.mpr ⟨h.holds_cell hsize hmodulus slot, rfl⟩

theorem leads_storeValue (slot : Slot) (digits : String)
    (hins : (outline bound).code[pc]? =
      some (.storeValue .ebp (.literal slot.digits) (.literal digits))) :
    Leads (outline bound) 1 (Holds size f pc)
      (Holds size (f.put (Word.ofNumeral digits) slot) (pc + 1)) := by
  apply leads_put hsize hmodulus hins
  intro s h
  rw [← h.pc] at hins
  simp only [SourceMachine.storeAddress?, hins, h.cellAddress, SourceMachine.execute]
  exact ⟨trivial, rfl⟩

/-- A store puts `eax` into a cell and leaves the other cells. -/
theorem leads_storeRegister (slot : Slot)
    (hins : (outline bound).code[pc]? =
      some (.storeRegister .ebp (.literal slot.digits) .eax)) :
    Leads (outline bound) 1 (Holds size f pc) (Holds size (f.put f.eax slot) (pc + 1)) := by
  apply leads_put hsize hmodulus hins
  intro s h
  rw [← h.pc] at hins
  simp only [SourceMachine.storeAddress?, hins, h.cellAddress, SourceMachine.execute, h.eax,
    and_self]

end

/-! ## The loop -/

section

variable (hsize : 75 ≤ size) (hmodulus : size < Word.modulus)

include hsize hmodulus

/-- The program first makes room for its cells. -/
theorem exists_frame {start : SourceMachine} (hpc : start.pc = 0)
    (hrunning : start.halted = false) (hmemory : start.memory.size = size)
    (hesp : start.get .esp = UInt64.ofNat (size - 1)) :
    ∃ f t, Walks (outline bound) 2 start t ∧ Holds size f 2 t := by
  have hbase : start.get .esp - 4 = base size := by
    have hadd : size - 1 = size - 5 + 4 := by omega
    rw [hesp, hadd, UInt64.ofNat_add]
    exact add_sub_cancel_right _ _
  have hcells : ∀ slot : Slot, ∃ w, start.memory.read? (base size + slot.offset) = some w := by
    intro slot
    exact ⟨_, Array.getElem?_eq_getElem (hmemory ▸ (Holds.toNat_cell hsize hmodulus slot).2)⟩
  choose cell hcell using hcells
  have hsub : (outline bound).code[start.pc]? = some (.sub .esp (.literal "4")) := by
    rw [hpc]
    rfl
  have hcopy : (outline bound).code[start.pc + 1]? = some (.copy .ebp .esp) := by
    rw [hpc]
    rfl
  have hpush : Walks (outline bound) 1 start (start.assign .esp (base size)) :=
    .single hrunning hsub rfl (by rw [← hbase]; rfl)
  have hmove : Walks (outline bound) 1 (start.assign .esp (base size))
      ((start.assign .esp (base size)).assign .ebp (base size)) :=
    .single hrunning hcopy rfl rfl
  refine ⟨⟨start.get .eax, start.get .ecx, cell .one, cell .last, cell .current, cell .next⟩,
    _, hpush.trans hmove, congrArg (· + 2) hpc, hrunning, hmemory, rfl, rfl, rfl, ?_⟩
  intro slot
  cases slot <;> exact hcell _

/-- It then fills them with the first numbers. -/
theorem leads_setup {f : Frame} :
    Leads (outline bound) 5 (Holds size f 2) (Holds size ⟨f.eax, 1, 1, 0, 1, 1⟩ 7) :=
  calc Leads (outline bound) 1 (Holds size f 2)
        (Holds size ⟨f.eax, f.ecx, f.one, 0, f.current, f.next⟩ 3) :=
      leads_storeValue hsize hmodulus .last "0" rfl
    Leads (outline bound) 1 _ (Holds size ⟨f.eax, f.ecx, f.one, 0, 1, f.next⟩ 4) :=
      leads_storeValue hsize hmodulus .current "1" rfl
    Leads (outline bound) 1 _ (Holds size ⟨f.eax, f.ecx, f.one, 0, 1, 1⟩ 5) :=
      leads_storeValue hsize hmodulus .next "1" rfl
    Leads (outline bound) 1 _ (Holds size ⟨f.eax, f.ecx, 1, 0, 1, 1⟩ 6) :=
      leads_storeValue hsize hmodulus .one "1" rfl
    Leads (outline bound) 1 _ (Holds size ⟨f.eax, 1, 1, 0, 1, 1⟩ 7) := leads_set "1" rfl

/-- A round moves the three numbers on and counts. -/
theorem leads_round {a c u x y z : Word} (hne : c ≠ bound) :
    Leads (outline bound) 12 (Holds size ⟨a, c, u, x, y, z⟩ 7)
      (Holds size ⟨u, c + 1, u, y, y + x, y + x⟩ 7) := by
  have htest : Leads (outline bound) 2 (Holds size ⟨a, c, u, x, y, z⟩ 7)
      (Holds size ⟨a, c, u, x, y, z⟩ (if c = bound then 19 else 9)) := leads_test
  rw [if_neg hne] at htest
  calc Leads (outline bound) 2 (Holds size ⟨a, c, u, x, y, z⟩ 7)
        (Holds size ⟨a, c, u, x, y, z⟩ 9) := htest
    Leads (outline bound) 1 _ (Holds size ⟨y, c, u, x, y, z⟩ 10) :=
      leads_load .current rfl
    Leads (outline bound) 1 _ (Holds size ⟨y + x, c, u, x, y, z⟩ 11) :=
      leads_add .last rfl
    Leads (outline bound) 1 _ (Holds size ⟨y + x, c, u, x, y, y + x⟩ 12) :=
      leads_storeRegister hsize hmodulus .next rfl
    Leads (outline bound) 1 _ (Holds size ⟨y, c, u, x, y, y + x⟩ 13) :=
      leads_load .current rfl
    Leads (outline bound) 1 _ (Holds size ⟨y, c, u, y, y, y + x⟩ 14) :=
      leads_storeRegister hsize hmodulus .last rfl
    Leads (outline bound) 1 _ (Holds size ⟨y + x, c, u, y, y, y + x⟩ 15) :=
      leads_load .next rfl
    Leads (outline bound) 1 _ (Holds size ⟨y + x, c, u, y, y + x, y + x⟩ 16) :=
      leads_storeRegister hsize hmodulus .current rfl
    Leads (outline bound) 1 _ (Holds size ⟨u, c, u, y, y + x, y + x⟩ 17) :=
      leads_load .one rfl
    Leads (outline bound) 1 _ (Holds size ⟨u, c + 1, u, y, y + x, y + x⟩ 18) :=
      leads_inc rfl
    Leads (outline bound) 1 _ (Holds size ⟨u, c + 1, u, y, y + x, y + x⟩ 7) :=
      leads_jump rfl

end

/-- Behind the loop the program halts with the last number. -/
theorem leads_end {a u x y z : Word} :
    Leads (outline bound) 4 (Holds size ⟨a, bound, u, x, y, z⟩ 7)
      fun s => s.halted = true ∧ s.get .eax = z := by
  have htest : Leads (outline bound) 2 (Holds size ⟨a, bound, u, x, y, z⟩ 7)
      (Holds size ⟨a, bound, u, x, y, z⟩ (if bound = bound then 19 else 9)) := leads_test
  rw [if_pos rfl] at htest
  calc Leads (outline bound) 2 (Holds size ⟨a, bound, u, x, y, z⟩ 7)
        (Holds size ⟨a, bound, u, x, y, z⟩ 19) := htest
    Leads (outline bound) 1 _ (Holds size ⟨z, bound, u, x, y, z⟩ 20) := leads_load .next rfl
    Leads (outline bound) 1 _ (fun s => s.halted = true ∧ s.get .eax = z) := leads_exit rfl

/-- The first value of a counter from one on that is the bound.  Zero comes last, where the
counter wraps. -/
def count (bound : Word) : Nat := if bound = 0 then Word.modulus else bound.toNat

theorem count_pos (bound : Word) : 0 < count bound := by
  rw [count]
  split
  · decide
  · next hne => exact Nat.pos_of_ne_zero fun hzero => hne (UInt64.toNat_inj.mp hzero)

theorem ofNat_count (bound : Word) : UInt64.ofNat (count bound) = bound := by
  rw [count]
  split
  · next hzero =>
    rw [hzero]
    rfl
  · exact UInt64.ofNat_toNat

theorem ofNat_ne_of_lt_count {k : Nat} (hpos : 0 < k) (hlt : k < count bound) :
    UInt64.ofNat k ≠ bound := by
  have hle : count bound ≤ Word.modulus := by
    rw [count]
    split
    · exact le_rfl
    · exact bound.toNat_lt.le
  rintro rfl
  have hk : (UInt64.ofNat k).toNat = k := Word.toNat_ofNat (by omega)
  rw [count, hk] at hlt
  split at hlt
  · next hzero =>
    rw [hzero] at hk
    exact hpos.ne hk
  · exact Nat.lt_irrefl _ hlt

/-- A source machine at the test of the loop after a number of rounds. -/
def AtTest (size k : Nat) (s : SourceMachine) : Prop :=
  ∃ a, Holds size ⟨a, UInt64.ofNat (k + 1), 1, UInt64.ofNat (Nat.fib k),
    UInt64.ofNat (Nat.fib (k + 1)), UInt64.ofNat (Nat.fib (k + 1))⟩ 7 s

section

variable (hsize : 75 ≤ size) (hmodulus : size < Word.modulus)

include hsize hmodulus

/-- One round of the loop takes twelve steps and moves the counter on by one. -/
theorem leads_atTest_succ {k : Nat} (hlt : k + 1 < count bound) :
    Leads (outline bound) 12 (AtTest size k) (AtTest size (k + 1)) := by
  intro s ⟨a, h⟩
  obtain ⟨t, hwalks, ht⟩ :=
    leads_round hsize hmodulus (ofNat_ne_of_lt_count (Nat.succ_pos k) hlt) s h
  have hfib : UInt64.ofNat (Nat.fib (k + 1)) + UInt64.ofNat (Nat.fib k) =
      UInt64.ofNat (Nat.fib (k + 2)) := by
    rw [Nat.fib_add_two, Nat.add_comm (Nat.fib k), UInt64.ofNat_add]
  have hcounter : UInt64.ofNat (k + 1) + 1 = UInt64.ofNat (k + 2) :=
    (UInt64.ofNat_add (k + 1) 1).symm
  rw [hfib, hcounter] at ht
  exact ⟨t, hwalks, 1, ht⟩

/-- The source walks to a halt with the Fibonacci number of the count. -/
theorem exists_walks {limits : Limits} (hlimits : limits.memorySize = size) :
    ∃ t, Walks (outline bound) (12 * count bound - 1)
        (.ofMachine ((outline bound).program limits).machine) t ∧
      t.halted = true ∧ t.get .eax = UInt64.ofNat (Nat.fib (count bound)) := by
  obtain ⟨k, hk⟩ := Nat.exists_eq_add_one_of_ne_zero (count_pos bound).ne'
  have hfits : (outline bound).wordCount ≤ limits.memorySize := by
    rw [wordCount_outline]
    omega
  have hmemory : ((outline bound).program limits).machine.memory.size = size :=
    (Outline.size_memory_program hfits).trans hlimits
  have hesp : ((outline bound).program limits).machine.get .esp = UInt64.ofNat (size - 1) := by
    rw [Outline.get_program, if_pos rfl, hlimits]
  have hstart : ∃ f s, Walks (outline bound) 2
      (.ofMachine ((outline bound).program limits).machine) s ∧ Holds size f 2 s :=
    exists_frame hsize hmodulus rfl rfl hmemory hesp
  obtain ⟨f, s₀, hframe, hs₀⟩ := hstart
  obtain ⟨s₁, hsetup, hs₁⟩ := leads_setup hsize hmodulus s₀ hs₀
  have hloop : Leads (outline bound) (12 * k) (AtTest size 0) (AtTest size k) :=
    Leads.iterate fun j hj => leads_atTest_succ hsize hmodulus (by omega)
  obtain ⟨s₂, hrounds, a, hs₂⟩ := hloop s₁ ⟨_, hs₁⟩
  rw [← hk, ofNat_count] at hs₂
  obtain ⟨t, hend, ht⟩ := leads_end s₂ hs₂
  have hsteps : 12 * count bound - 1 = 2 + 5 + 12 * k + 4 := by omega
  rw [hsteps]
  exact ⟨t, ((hframe.trans hsetup).trans hrounds).trans hend, ht⟩

end

/-- The program computes the Fibonacci number of its count, in every memory that has room
for it.  It takes twelve steps for each number, less one, and uses up every smaller budget.
With the bound zero no budget of one word is enough. -/
theorem evaluate_source (bound : Word) {size : Nat} (hsize : 75 ≤ size)
    (hmodulus : size < Word.modulus) (limit : Nat) :
    ∃ p, Program.ofSource (source bound) { memorySize := size, maxSteps := some limit } =
        .ok p ∧
      (12 * count bound - 1 ≤ limit →
        Program.evaluate (source bound) { memorySize := size, maxSteps := some limit } =
            .ok (UInt64.ofNat (Nat.fib (count bound))) ∧
          ((State.start p.machine).runSilently limit).state.steps = 12 * count bound - 1) ∧
      (limit < 12 * count bound - 1 → ∃ ip,
        Program.evaluate (source bound) { memorySize := size, maxSteps := some limit } =
          .error (.stepLimit ip limit)) ∧
      (bound = 0 → limit < Word.modulus → ∃ ip,
        Program.evaluate (source bound) { memorySize := size, maxSteps := some limit } =
          .error (.stepLimit ip limit)) := by
  obtain ⟨limits, hlimits⟩ : ∃ limits : Limits,
      limits = { memorySize := size, maxSteps := some limit } := ⟨_, rfl⟩
  have hmemory : limits.memorySize = size := congrArg Limits.memorySize hlimits
  have hlimit : limits.stepLimit = limit := congrArg Limits.stepLimit hlimits
  have hfits : (outline bound).wordCount ≤ limits.memorySize := by
    rw [wordCount_outline]
    omega
  rw [← hlimits]
  have hsource : Program.ofSource (source bound) limits = .ok ((outline bound).program limits) :=
    (Outline.ofSource_eq_ok_iff_of_spells (spells_source bound) (wellFormed_outline bound)).mpr
      ⟨hfits, rfl⟩
  have hevaluate : Program.evaluate (source bound) limits =
      ((State.start ((outline bound).program limits).machine).runSilently limit).result := by
    simp only [Program.evaluate, hsource, hlimit]
  obtain ⟨t, hwalks, hhalted, heax⟩ := exists_walks hsize hmodulus hmemory
  obtain ⟨henough, hshort⟩ := Outline.run_of_walks (hmemory.trans_lt hmodulus)
    (wellFormed_outline bound) hfits jumpsByName_outline hwalks hhalted limit
  rw [hevaluate, ← heax]
  refine ⟨_, hsource, henough, hshort, ?_⟩
  intro hzero hword
  apply hshort
  rw [count, if_pos hzero]
  omega

/-- The ninety-fourth number is the first that wraps. -/
theorem evaluate_source_wraps :
    Program.evaluate (source 94) { memorySize := 75, maxSteps := some 1127 } =
        .ok 1293530146158671551 ∧
      (∃ ip, Program.evaluate (source 94) { memorySize := 75, maxSteps := some 1126 } =
        .error (.stepLimit ip 1126)) ∧
      ∃ ip, Program.evaluate (source 0) { memorySize := 75, maxSteps := some 1127 } =
        .error (.stepLimit ip 1127) := by
  have hcount : count 94 = 94 := rfl
  have hfib : UInt64.ofNat (Nat.fib 94) = 1293530146158671551 := by
    have hvalue : Nat.fib 94 = 19740274219868223167 := by norm_num
    rw [hvalue]
    rfl
  have hsize : 75 < Word.modulus := by decide
  obtain ⟨_, -, henough, -, -⟩ := evaluate_source 94 le_rfl hsize 1127
  obtain ⟨_, -, -, hshort, -⟩ := evaluate_source 94 le_rfl hsize 1126
  obtain ⟨_, -, -, -, hzero⟩ := evaluate_source 0 le_rfl hsize 1127
  rw [hcount, hfib] at henough
  rw [hcount] at hshort
  exact ⟨(henough (by decide)).1, hshort (by decide), hzero rfl (by decide)⟩

end WordMachine.Fibonacci
