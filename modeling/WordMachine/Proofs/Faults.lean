import Mathlib
import WordMachine.Proofs.Decoding
import WordMachine.Proofs.Stepping

/-!
# Faults

A fetch checks the opcode word and then the operand words in memory order, and the first
word that is missing or does not fit is its fault.  An instruction that has been fetched
fails only at the cell that it accesses.  Either way the machine stays as it was, so the
same fault is met again.
-/

namespace WordMachine

theorem Opcode.ofId?_eq_none_iff {id : Word} :
    ofId? id = none ↔ ¬ (1 ≤ id.toNat ∧ id.toNat ≤ 12) := by
  simp only [ofId?, all, List.find?_eq_none, List.forall_mem_cons, Opcode.id, beq_iff_eq,
    ← UInt64.toNat_inj, UInt64.reduceToNat, List.not_mem_nil, IsEmpty.forall_iff, implies_true,
    and_true]
  constructor
  · intro h
    omega
  · intro h
    omega

theorem Register.ofId?_eq_none_iff {id : Word} : ofId? id = none ↔ 7 ≤ id.toNat := by
  simp only [ofId?, all, named, List.cons_append, List.nil_append, List.find?_eq_none,
    List.forall_mem_cons, Register.id, beq_iff_eq, ← UInt64.toNat_inj, UInt64.reduceToNat,
    List.not_mem_nil, IsEmpty.forall_iff, implies_true, and_true]
  constructor
  · intro h
    omega
  · intro h
    omega

namespace Memory

variable {memory : Memory} {ip k : Word} {fault : Fault}

theorem operand_eq_error_iff : memory.operand ip k = .error fault ↔
    memory.size ≤ (ip + k).toNat ∧ .outOfBounds ip (ip + k) = fault := by
  rw [operand, read?]
  cases hread : memory[(ip + k).toNat]? with
  | none =>
      have hbeyond : memory.size ≤ (ip + k).toNat := Array.getElem?_eq_none_iff.mp hread
      simp only [Except.error.injEq, hbeyond, true_and]
  | some w =>
      have hcell : ¬ memory.size ≤ (ip + k).toNat :=
        not_le.mpr (Array.getElem?_eq_some_iff.mp hread).1
      simp only [reduceCtorEq, hcell, false_and]

theorem registerOperand_eq_error_iff : memory.registerOperand ip k = .error fault ↔
    memory.operand ip k = .error fault ∨
      ∃ w, memory.operand ip k = .ok w ∧ 7 ≤ w.toNat ∧ .illegalRegister ip w = fault := by
  rw [registerOperand, bind_eq_error_iff]
  refine or_congr_right (exists_congr fun w => and_congr_right fun _ => ?_)
  rw [← Register.ofId?_eq_none_iff]
  cases Register.ofId? w <;> simp

theorem opcodeAt_eq_error_iff : memory.opcodeAt ip = .error fault ↔
    memory.operand ip 0 = .error fault ∨
      ∃ w, memory.operand ip 0 = .ok w ∧ ¬ (1 ≤ w.toNat ∧ w.toNat ≤ 12) ∧
        .illegalInstruction ip w = fault := by
  rw [opcodeAt, bind_eq_error_iff]
  refine or_congr_right (exists_congr fun w => and_congr_right fun _ => ?_)
  rw [← Opcode.ofId?_eq_none_iff]
  cases Opcode.ofId? w <;> simp

end Memory

/-- What stands in an operand word. -/
inductive Slot where
  | register | value
  deriving DecidableEq, Repr

/-- The slots that follow an opcode in memory. -/
def Opcode.slots : Opcode → List Slot
  | je | jmp => [.value]
  | cmp | sub | set => [.register, .value]
  | add | load => [.register, .register, .value]
  | storeRegister => [.register, .value, .register]
  | storeValue => [.register, .value, .value]
  | copy => [.register, .register]
  | inc => [.register]
  | exit => []

theorem Opcode.length_slots (op : Opcode) : op.slots.length + 1 = op.wordCount := by
  cases op <;> rfl

namespace Memory

/-- Checks that an operand is there and fits its slot. -/
def checkSlot (memory : Memory) (ip k : Word) : Slot → Except Fault Unit
  | .register => (memory.registerOperand ip k).map fun _ => ()
  | .value => (memory.operand ip k).map fun _ => ()

/-- Checks the operands from the `k`th on, one after the other. -/
def checkSlots (memory : Memory) (ip : Word) : Nat → List Slot → Except Fault Unit
  | _, [] => .ok ()
  | k, slot :: rest => do
    memory.checkSlot ip (UInt64.ofNat k) slot
    memory.checkSlots ip (k + 1) rest

variable {memory : Memory} {ip : Word} {fault : Fault}

/-- The checks fail at the first operand that does not fit. -/
theorem checkSlots_eq_error_iff {slots : List Slot} {k : Nat} :
    memory.checkSlots ip k slots = .error fault ↔ ∃ j slot, slots[j]? = some slot ∧
      memory.checkSlot ip (UInt64.ofNat (k + j)) slot = .error fault ∧
      ∀ i < j, ∀ slot', slots[i]? = some slot' →
        memory.checkSlot ip (UInt64.ofNat (k + i)) slot' = .ok () := by
  induction slots generalizing k with
  | nil => simp [checkSlots]
  | cons slot rest ih =>
      rw [checkSlots, bind_eq_error_iff, ih]
      constructor
      · rintro (hslot | ⟨⟨⟩, hfits, j, slot', hj, hslot', hearlier⟩)
        · exact ⟨0, slot, rfl, hslot, by simp⟩
        · refine ⟨j + 1, slot', hj, ?_, ?_⟩
          · rwa [← Nat.succ_add_eq_add_succ]
          · refine Nat.forall_lt_succ_left.mpr ⟨?_, fun i hi s hs => ?_⟩
            · intro s hs
              cases hs
              exact hfits
            · rw [← Nat.succ_add_eq_add_succ]
              exact hearlier i hi s hs
      · rintro ⟨j, slot', hj, hslot', hearlier⟩
        cases j with
        | zero =>
            cases hj
            exact .inl hslot'
        | succ j =>
            obtain ⟨hfits, hearlier⟩ := Nat.forall_lt_succ_left.mp hearlier
            refine .inr ⟨(), hfits slot rfl, j, slot', hj, ?_, fun i hi s hs => ?_⟩
            · rwa [Nat.succ_add_eq_add_succ]
            · rw [Nat.succ_add_eq_add_succ]
              exact hearlier i hi s hs

end Memory

/-- Reading an instruction checks its opcode and then its operands in order. -/
theorem Instruction.map_ofMemory (memory : Memory) (ip : Word) :
    (ofMemory memory ip).map (fun _ => ()) =
      (memory.opcodeAt ip >>= fun op => memory.checkSlots ip 1 op.slots) := by
  rw [ofMemory, map_of_bind]
  congr 1
  funext op
  cases op <;>
    simp only [Opcode.slots, Memory.checkSlots, Memory.checkSlot, map_of_bind, bind_of_map] <;>
    rfl

/-- Reading an instruction fails at the opcode or else at the first slot that does not hold what it
should. -/
theorem Instruction.ofMemory_eq_error_iff {memory : Memory} {ip : Word} {fault : Fault} :
    ofMemory memory ip = .error fault ↔ memory.opcodeAt ip = .error fault ∨
      ∃ op, memory.opcodeAt ip = .ok op ∧ memory.checkSlots ip 1 op.slots = .error fault := by
  rw [← map_eq_error_iff (f := fun _ => ()), map_ofMemory, bind_eq_error_iff]

namespace Instruction

def cell? {V : Type} : Instruction V → Option (Register × V)
  | add _ base offset | load _ base offset | storeRegister base offset _
  | storeValue base offset _ => some (base, offset)
  | _ => none

end Instruction

namespace Machine

variable {m : Machine} {fault : Fault}

/-- An address is that of an operand word of the instruction at the instruction pointer.
The opcode there says which slots follow it. -/
def HasSlot (m : Machine) (address : Word) (slot : Slot) : Prop :=
  ∃ op j, m.memory.opcodeAt m.ip = .ok op ∧ op.slots[j]? = some slot ∧
    address = m.ip + UInt64.ofNat (1 + j)

/-- The instruction at the instruction pointer accesses the cell at an address. -/
def Accesses (m : Machine) (address : Word) : Prop :=
  ∃ ins base offset, Instruction.ofMemory m.memory m.ip = .ok ins ∧
    ins.cell? = some (base, offset) ∧ address = m.get base + offset

/-- A fault points at the instruction pointer and says what is wrong there. -/
def Bears (m : Machine) : Fault → Prop
  | .outOfBounds ip address =>
    ip = m.ip ∧ m.memory.size ≤ address.toNat ∧
      (address = m.ip ∨ (∃ slot, m.HasSlot address slot) ∨ m.Accesses address)
  | .illegalInstruction ip opcode =>
    ip = m.ip ∧ m.memory.read? m.ip = some opcode ∧ ¬ (1 ≤ opcode.toNat ∧ opcode.toNat ≤ 12)
  | .illegalRegister ip id =>
    ip = m.ip ∧ 7 ≤ id.toNat ∧
      ∃ address, m.HasSlot address .register ∧ m.memory.read? address = some id

theorem bears_of_opcodeAt (h : m.memory.opcodeAt m.ip = .error fault) : m.Bears fault := by
  rcases Memory.opcodeAt_eq_error_iff.mp h with hword | ⟨w, hw, hid, rfl⟩
  · obtain ⟨hbeyond, rfl⟩ := Memory.operand_eq_error_iff.mp hword
    exact ⟨rfl, hbeyond, .inl (UInt64.add_zero _)⟩
  · have hread := Memory.operand_eq_ok_iff.mp hw
    rw [UInt64.add_zero] at hread
    exact ⟨rfl, hread, hid⟩

theorem bears_of_checkSlot {k : Word} {slot : Slot} (hslot : m.HasSlot (m.ip + k) slot)
    (h : m.memory.checkSlot m.ip k slot = .error fault) : m.Bears fault := by
  have hoperand : m.memory.operand m.ip k = .error fault → m.Bears fault := by
    intro h
    obtain ⟨hbeyond, rfl⟩ := Memory.operand_eq_error_iff.mp h
    exact ⟨rfl, hbeyond, .inr (.inl ⟨slot, hslot⟩)⟩
  cases slot with
  | value => exact hoperand (map_eq_error_iff.mp h)
  | register =>
      rcases Memory.registerOperand_eq_error_iff.mp (map_eq_error_iff.mp h) with
        hword | ⟨w, hw, hid, rfl⟩
      · exact hoperand hword
      · exact ⟨rfl, hid, _, hslot, Memory.operand_eq_ok_iff.mp hw⟩

/-- A fetch fails at its opcode or at one of the slots behind it. -/
theorem bears_of_ofMemory (h : Instruction.ofMemory m.memory m.ip = .error fault) :
    m.Bears fault := by
  rcases Instruction.ofMemory_eq_error_iff.mp h with hop | ⟨op, hop, hslots⟩
  · exact bears_of_opcodeAt hop
  · obtain ⟨j, slot, hj, hslot, -⟩ := Memory.checkSlots_eq_error_iff.mp hslots
    exact bears_of_checkSlot ⟨op, j, hop, hj, rfl⟩ hslot

/-! ## Where an instruction fails -/

theorem loadInto_fault {next : Word} {r base : Register} {offset : Word} {f : Word → Word}
    (h : (m.loadInto next r base offset f).fault = some fault) :
    m.loadInto next r base offset f = m.fail fault ∧
      m.memory.size ≤ (m.get base + offset).toNat ∧
      .outOfBounds m.ip (m.get base + offset) = fault := by
  rw [loadInto, Machine.read, Memory.read?] at h ⊢
  cases hread : m.memory[(m.cellAddress base offset).toNat]? with
  | none =>
      rw [hread] at h
      cases h
      exact ⟨rfl, Array.getElem?_eq_none_iff.mp hread, rfl⟩
  | some w =>
      rw [hread] at h
      cases h

theorem store_fault {next : Word} {base : Register} {offset w : Word}
    (h : (m.store next base offset w).fault = some fault) :
    m.store next base offset w = m.fail fault ∧
      m.memory.size ≤ (m.get base + offset).toNat ∧
      .outOfBounds m.ip (m.get base + offset) = fault := by
  rw [store, Machine.write] at h ⊢
  cases hholds : m.memory.holds (m.cellAddress base offset) with
  | false =>
      rw [hholds] at h
      cases h
      have hbeyond : m.memory.size ≤ (m.cellAddress base offset).toNat := by
        simpa only [Memory.holds, decide_eq_false_iff_not, not_lt] using hholds
      exact ⟨rfl, hbeyond, rfl⟩
  | true =>
      rw [hholds] at h
      cases h

/-- An instruction fails only where it accesses a cell beyond memory, and then it has no
other effect. -/
theorem execute_fault {ins : Instruction Word} (h : (m.execute ins).fault = some fault) :
    m.execute ins = m.fail fault ∧ ∃ base offset, ins.cell? = some (base, offset) ∧
      m.memory.size ≤ (m.get base + offset).toNat ∧
      .outOfBounds m.ip (m.get base + offset) = fault := by
  cases ins with
  | add r base offset | load r base offset =>
      obtain ⟨heffect, hfault⟩ := loadInto_fault h
      exact ⟨heffect, base, offset, rfl, hfault⟩
  | storeRegister base offset r =>
      obtain ⟨heffect, hfault⟩ := store_fault h
      exact ⟨heffect, base, offset, rfl, hfault⟩
  | storeValue base offset v =>
      obtain ⟨heffect, hfault⟩ := store_fault h
      exact ⟨heffect, base, offset, rfl, hfault⟩
  | je target =>
      simp only [execute] at h
      split at h <;> cases h
  | jmp target | cmp r v | sub r v | copy r source | set r v | inc r | exit => cases h

end Machine

namespace State

variable {s : State} {fault : Fault}

/-- A step that fails changes no more than the number of steps. -/
theorem state_of_fault (hrunning : s.halted = false) (hfault : s.step.fault = some fault) :
    s.step.state.machine = s.machine ∧ s.step.state.halted = s.halted := by
  cases hfetch : Instruction.ofMemory s.machine.memory s.machine.ip with
  | error cause =>
      rw [step_of_fetch_error hrunning hfetch]
      exact ⟨rfl, rfl⟩
  | ok ins =>
      rw [step_of_fetch hrunning hfetch] at hfault ⊢
      rw [(Machine.execute_fault hfault).1]
      exact ⟨rfl, hrunning.symm⟩

theorem steps_of_fault (hrunning : s.halted = false) (hfault : s.step.fault = some fault) :
    match Instruction.ofMemory s.machine.memory s.machine.ip with
    | .error cause => cause = fault ∧ s.step.state.steps = s.steps
    | .ok ins => ins.cell? ≠ none ∧ s.step.state.steps = s.steps + 1 := by
  cases hfetch : Instruction.ofMemory s.machine.memory s.machine.ip with
  | error cause =>
      rw [step_of_fetch_error hrunning hfetch] at hfault ⊢
      exact ⟨Option.some.inj hfault, rfl⟩
  | ok ins =>
      rw [step_of_fetch hrunning hfetch] at hfault ⊢
      obtain ⟨-, base, offset, hcell, -⟩ := Machine.execute_fault hfault
      exact ⟨by simp [hcell], rfl⟩

/-- The fault of a step says what is wrong at the instruction pointer. -/
theorem bears_of_fault (hrunning : s.halted = false) (hfault : s.step.fault = some fault) :
    s.machine.Bears fault := by
  cases hfetch : Instruction.ofMemory s.machine.memory s.machine.ip with
  | error cause =>
      rw [step_of_fetch_error hrunning hfetch] at hfault
      cases hfault
      exact Machine.bears_of_ofMemory hfetch
  | ok ins =>
      rw [step_of_fetch hrunning hfetch] at hfault
      obtain ⟨-, base, offset, hcell, hbeyond, rfl⟩ := Machine.execute_fault hfault
      exact ⟨rfl, hbeyond, .inr (.inr ⟨ins, base, offset, hfetch, hcell, rfl⟩)⟩

/-- The outcome of a step follows from the machine and whether it has halted. -/
theorem fault_step_congr {s s' : State} (hmachine : s.machine = s'.machine)
    (hhalted : s.halted = s'.halted) : s.step.fault = s'.step.fault := by
  simp only [step, hmachine, hhalted]
  split
  · rfl
  · split <;> rfl

/-- A step that fails fails again. -/
theorem fault_iterate (hrunning : s.halted = false) (hfault : s.step.fault = some fault)
    (n : Nat) : (next^[n] s).step.fault = some fault := by
  induction n generalizing s with
  | zero => exact hfault
  | succ n ih =>
      obtain ⟨hmachine, hhalted⟩ := state_of_fault hrunning hfault
      rw [Function.iterate_succ_apply]
      apply ih (hhalted.trans hrunning)
      rw [fault_step_congr hmachine hhalted, hfault]

/-- A fault leaves the machine as it is, says what is wrong with it and stays.  A step is
counted if its instruction was fetched, and then the fault is an access to a cell. -/
theorem fault_atomic (hrunning : s.halted = false) (hfault : s.step.fault = some fault) :
    s.step.state.machine = s.machine ∧ s.step.state.halted = s.halted ∧
    (match Instruction.ofMemory s.machine.memory s.machine.ip with
      | .error cause => cause = fault ∧ s.step.state.steps = s.steps
      | .ok ins => ins.cell? ≠ none ∧ s.step.state.steps = s.steps + 1) ∧
    s.machine.Bears fault ∧
    ∀ n, (next^[n] s).step.fault = some fault := by
  obtain ⟨hmachine, hhalted⟩ := state_of_fault hrunning hfault
  exact ⟨hmachine, hhalted, steps_of_fault hrunning hfault, bears_of_fault hrunning hfault,
    fault_iterate hrunning hfault⟩

/-- A store at the cell `[ eip + 18446744073709551615 ]` fails again and again. -/
theorem fault_atomic_store :
    (State.start (.loaded 4 [7, 6, 18446744073709551615, 5])).step.state.machine =
        .loaded 4 [7, 6, 18446744073709551615, 5] ∧
      (next^[3] (.start (.loaded 4 [7, 6, 18446744073709551615, 5]))).step.fault =
        some (.outOfBounds 0 18446744073709551615) := by
  have hfault := fault_atomic rfl
    (show (State.start (.loaded 4 [7, 6, 18446744073709551615, 5])).step.fault =
      some (.outOfBounds 0 18446744073709551615) by decide)
  exact ⟨hfault.1, hfault.2.2.2.2 3⟩

end State

end WordMachine
