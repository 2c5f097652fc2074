import Mathlib
import WordMachine.Proofs.Faults

/-!
# The first word that does not fit

A fetch goes through the words of an instruction in the order of their addresses, and the
opcode says how many there are and what they stand for.  The fault is that of the first word
that is missing or does not fit.  So no word behind it has a part in the fault, and none in
front of the instruction.
-/

namespace WordMachine

/-- What a word of an instruction stands for. -/
inductive Part where
  | opcode
  | operand (slot : Slot)
  deriving DecidableEq, Repr

namespace Memory

/-- The parts of the instruction at an address.  Nothing follows a word that is no opcode. -/
def parts (memory : Memory) (ip : Word) : List Part :=
  .opcode :: ((memory.read? ip).bind Opcode.ofId?).elim [] fun op => op.slots.map .operand

/-- The word at an address does not fit a part of the instruction at `ip`, with the fault that
says so. -/
inductive Offends (memory : Memory) (ip : Word) (address : Nat) : Part → Fault → Prop
  | missing {part : Part} {a : Word} (ha : a.toNat = address) (hbeyond : memory.size ≤ address) :
      Offends memory ip address part (.outOfBounds ip a)
  | opcode {w : Word} (hword : memory[address]? = some w)
      (hid : ¬ (1 ≤ w.toNat ∧ w.toNat ≤ 12)) :
      Offends memory ip address .opcode (.illegalInstruction ip w)
  | register {w : Word} (hword : memory[address]? = some w) (hid : 7 ≤ w.toNat) :
      Offends memory ip address (.operand .register) (.illegalRegister ip w)

/-- The word `j` cells behind the address of an instruction is the first one that does not
fit. -/
structure FirstOffence (memory : Memory) (ip : Word) (j : Nat) (fault : Fault) : Prop where
  offends : ∃ part, (memory.parts ip)[j]? = some part ∧
    memory.Offends ip (ip.toNat + j) part fault
  earlier : ∀ i < j, ∀ part, (memory.parts ip)[i]? = some part →
    ∀ cause, ¬ memory.Offends ip (ip.toNat + i) part cause

variable {memory memory' : Memory} {ip : Word} {j : Nat} {fault : Fault}

theorem offends_opcode_iff :
    memory.Offends ip ip.toNat .opcode fault ↔ memory.opcodeAt ip = .error fault := by
  rw [opcodeAt_eq_error_iff, operand_eq_error_iff]
  simp only [operand_eq_ok_iff, UInt64.add_zero]
  constructor
  · rintro (⟨ha, hbeyond⟩ | ⟨hword, hid⟩)
    · exact .inl ⟨hbeyond, by rw [UInt64.toNat_inj.mp ha]⟩
    · exact .inr ⟨_, hword, hid, rfl⟩
  · rintro (⟨hbeyond, rfl⟩ | ⟨w, hword, hid, rfl⟩)
    · exact .missing rfl hbeyond
    · exact .opcode hword hid

/-- An operand is checked at its address, unless the address wraps. -/
theorem offends_operand_iff {slot : Slot}
    (haddress : (ip + UInt64.ofNat j).toNat = ip.toNat + j) :
    memory.Offends ip (ip.toNat + j) (.operand slot) fault ↔
      memory.checkSlot ip (UInt64.ofNat j) slot = .error fault := by
  rw [← haddress]
  cases slot with
  | value =>
      rw [checkSlot, map_eq_error_iff, operand_eq_error_iff]
      constructor
      · rintro ⟨ha, hbeyond⟩
        exact ⟨hbeyond, by rw [UInt64.toNat_inj.mp ha]⟩
      · rintro ⟨hbeyond, rfl⟩
        exact .missing rfl hbeyond
  | register =>
      rw [checkSlot, map_eq_error_iff, registerOperand_eq_error_iff, operand_eq_error_iff]
      simp only [operand_eq_ok_iff]
      constructor
      · rintro (⟨ha, hbeyond⟩ | _ | ⟨hword, hid⟩)
        · exact .inl ⟨hbeyond, by rw [UInt64.toNat_inj.mp ha]⟩
        · exact .inr ⟨_, hword, hid, rfl⟩
      · rintro (⟨hbeyond, rfl⟩ | ⟨w, hword, hid, rfl⟩)
        · exact .missing rfl hbeyond
        · exact .register hword hid

theorem parts_of_opcodeAt {op : Opcode} (h : memory.opcodeAt ip = .ok op) :
    memory.parts ip = .opcode :: op.slots.map .operand := by
  have hread : memory.read? ip = some op.id := by
    rw [opcodeAt_eq_ok_iff, operand_eq_ok_iff, UInt64.add_zero] at h
    exact h
  rw [parts, hread, Option.bind_some, Opcode.ofId?_id]
  rfl

theorem getElem?_parts_succ {op : Opcode} (h : memory.opcodeAt ip = .ok op) (j : Nat) :
    (memory.parts ip)[j + 1]? = op.slots[j]?.map .operand := by
  rw [parts_of_opcodeAt h, List.getElem?_cons_succ, List.getElem?_map]

/-- The operands of an instruction that starts in a memory of this size have addresses that do
not wrap. -/
theorem toNat_operand_address (hsize : memory.size < 2 ^ 63) {op : Opcode}
    (hop : memory.opcodeAt ip = .ok op) {slot : Slot} (hj : op.slots[j]? = some slot) :
    (ip + UInt64.ofNat (1 + j)).toNat = ip.toNat + (1 + j) := by
  have hip : ip.toNat < memory.size := by
    rw [opcodeAt_eq_ok_iff, operand_eq_ok_iff, UInt64.add_zero] at hop
    exact (Array.getElem?_eq_some_iff.mp hop).1
  have hlt : j < op.slots.length := (List.getElem?_eq_some_iff.mp hj).1
  have hlength := op.length_slots
  have hcount := op.wordCount_le
  have hmodulus : Word.modulus = 2 ^ 64 := rfl
  exact Word.toNat_add_ofNat (by omega)

theorem firstOffence_zero_iff :
    memory.FirstOffence ip 0 fault ↔ memory.opcodeAt ip = .error fault := by
  rw [← offends_opcode_iff]
  constructor
  · rintro ⟨⟨part, hpart, hoffends⟩, -⟩
    cases hpart
    exact hoffends
  · intro h
    exact ⟨⟨.opcode, rfl, h⟩, by simp⟩

theorem firstOffence_succ_iff (hsize : memory.size < 2 ^ 63) :
    memory.FirstOffence ip (j + 1) fault ↔ ∃ op slot, memory.opcodeAt ip = .ok op ∧
      op.slots[j]? = some slot ∧ memory.checkSlot ip (UInt64.ofNat (1 + j)) slot = .error fault ∧
      ∀ i < j, ∀ slot', op.slots[i]? = some slot' →
        memory.checkSlot ip (UInt64.ofNat (1 + i)) slot' = .ok () := by
  cases hopcode : memory.opcodeAt ip with
  | error cause =>
      constructor
      · intro h
        exact absurd (offends_opcode_iff.mpr hopcode) (h.earlier 0 j.succ_pos _ rfl cause)
      · rintro ⟨op, slot, ⟨⟩, -⟩
  | ok op =>
      have haddress : ∀ i slot, op.slots[i]? = some slot →
          (ip + UInt64.ofNat (1 + i)).toNat = ip.toNat + (1 + i) :=
        fun i slot => toNat_operand_address hsize hopcode
      constructor
      · rintro ⟨⟨part, hpart, hoffends⟩, hearlier⟩
        rw [getElem?_parts_succ hopcode, Option.map_eq_some_iff] at hpart
        obtain ⟨slot, hslot, rfl⟩ := hpart
        rw [Nat.add_comm j, offends_operand_iff (haddress j slot hslot)] at hoffends
        refine ⟨op, slot, rfl, hslot, hoffends, fun i hi slot' hslot' => ?_⟩
        rw [eq_ok_iff_forall_ne_error]
        intro cause hcause
        rw [← offends_operand_iff (haddress i slot' hslot'), Nat.add_comm 1] at hcause
        refine hearlier (i + 1) (Nat.succ_lt_succ hi) (.operand slot') ?_ cause hcause
        rw [getElem?_parts_succ hopcode, hslot', Option.map_some]
      · rintro ⟨_, slot, ⟨⟩, hslot, hoffends, hearlier⟩
        rw [← offends_operand_iff (haddress j slot hslot), Nat.add_comm 1] at hoffends
        refine ⟨⟨.operand slot, ?_, hoffends⟩, Nat.forall_lt_succ_left.mpr ⟨?_, ?_⟩⟩
        · rw [getElem?_parts_succ hopcode, hslot, Option.map_some]
        · intro part hpart cause hcause
          cases hpart
          rw [Nat.add_zero, offends_opcode_iff, hopcode] at hcause
          cases hcause
        · intro i hi part hpart cause hcause
          rw [getElem?_parts_succ hopcode, Option.map_eq_some_iff] at hpart
          obtain ⟨slot', hslot', rfl⟩ := hpart
          rw [Nat.add_comm i, offends_operand_iff (haddress i slot' hslot'),
            hearlier i hi slot' hslot'] at hcause
          cases hcause

/-- Whether a word fits depends on no other word. -/
theorem Offends.congr {address : Nat} {part : Part} (hsize : memory'.size = memory.size)
    (hword : memory'[address]? = memory[address]?)
    (h : memory.Offends ip address part fault) : memory'.Offends ip address part fault := by
  cases h with
  | missing ha hbeyond => exact .missing ha (hsize.trans_le hbeyond)
  | opcode hw hid => exact .opcode (hword.trans hw) hid
  | register hw hid => exact .register (hword.trans hw) hid

/-- Only the words from the address of the instruction to the first one that does not fit
matter. -/
theorem FirstOffence.congr (hsize : memory'.size = memory.size)
    (hwords : ∀ k, ip.toNat ≤ k → k ≤ ip.toNat + j → memory'[k]? = memory[k]?)
    (h : memory.FirstOffence ip j fault) : memory'.FirstOffence ip j fault := by
  have hparts : memory'.parts ip = memory.parts ip := by
    rw [parts, parts, read?, read?, hwords _ le_rfl (Nat.le_add_right _ _)]
  obtain ⟨part, hpart, hoffends⟩ := h.offends
  refine ⟨⟨part, hparts ▸ hpart, hoffends.congr hsize ?_⟩, ?_⟩
  · exact hwords _ (Nat.le_add_right _ _) le_rfl
  · intro i hi part' hpart' cause hcause
    refine h.earlier i hi part' (hparts ▸ hpart') cause (hcause.congr hsize.symm ?_)
    exact (hwords _ (Nat.le_add_right _ _) (by omega)).symm

end Memory

namespace Instruction

variable {memory : Memory} {ip : Word} {fault : Fault}

/-- Reading fails exactly with the fault of the first word that does not fit. -/
theorem ofMemory_eq_error_iff_firstOffence (hsize : memory.size < 2 ^ 63) :
    ofMemory memory ip = .error fault ↔ ∃ j, memory.FirstOffence ip j fault := by
  rw [ofMemory_eq_error_iff, ← Nat.or_exists_add_one, Memory.firstOffence_zero_iff]
  refine or_congr_right ?_
  simp only [Memory.firstOffence_succ_iff hsize, Memory.checkSlots_eq_error_iff]
  constructor
  · rintro ⟨op, hop, j, slot, hslot⟩
    exact ⟨j, op, slot, hop, hslot⟩
  · rintro ⟨j, op, slot, hop, hslot⟩
    exact ⟨op, hop, j, slot, hslot⟩

/-- A fetch fails with the fault of the first word of the instruction that is missing or does
not fit, and only then.  The words behind that one and those in front of the instruction can be
any others. -/
theorem ofMemory_fails_at_first (memory : Memory) (hsize : memory.size < 2 ^ 63) (ip : Word)
    (fault : Fault) :
    (ofMemory memory ip = .error fault ↔ ∃ j, memory.FirstOffence ip j fault) ∧
    ∀ j, memory.FirstOffence ip j fault → ∀ memory' : Memory, memory'.size = memory.size →
      (∀ k, ip.toNat ≤ k → k ≤ ip.toNat + j → memory'[k]? = memory[k]?) →
      ofMemory memory' ip = .error fault := by
  refine ⟨ofMemory_eq_error_iff_firstOffence hsize, ?_⟩
  intro j h memory' hsize' hwords
  rw [ofMemory_eq_error_iff_firstOffence (hsize'.trans_lt hsize)]
  exact ⟨j, h.congr hsize' hwords⟩

/-- A word that is no register stands in front of one that is missing. -/
theorem ofMemory_fails_at_first_register :
    ofMemory #[0, 6, 7, 1] 1 = .error (.illegalRegister 1 7) ∧
      ofMemory #[5, 6, 7, 9] 1 = .error (.illegalRegister 1 7) := by
  have hfirst : Memory.FirstOffence #[0, 6, 7, 1] 1 1 (.illegalRegister 1 7) := by
    refine ⟨⟨.operand .register, by decide, .register rfl (by decide)⟩, ?_⟩
    intro i hi part hpart cause hcause
    obtain rfl := Nat.lt_one_iff.mp hi
    cases hpart
    have hop : Memory.opcodeAt #[0, 6, 7, 1] 1 = .ok .storeRegister := rfl
    rw [Nat.add_zero, Memory.offends_opcode_iff, hop] at hcause
    cases hcause
  obtain ⟨hfails, hothers⟩ :=
    ofMemory_fails_at_first #[0, 6, 7, 1] (by decide) 1 (.illegalRegister 1 7)
  refine ⟨hfails.mpr ⟨1, hfirst⟩, hothers 1 hfirst #[5, 6, 7, 9] rfl ?_⟩
  intro k hfront hbehind
  obtain rfl | rfl : k = 1 ∨ k = 2 := by
    simp only [UInt64.reduceToNat] at hfront hbehind
    omega
  · rfl
  · rfl

end Instruction

end WordMachine
