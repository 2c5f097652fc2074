import Mathlib
import WordMachine.Instruction.OfMemory
import WordMachine.Proofs.Except
import WordMachine.Proofs.Slots

/-!
# Reading instructions back from memory

An instruction is read back wherever its words stand in memory, and nowhere else.  The
operands are read by offsets from its address, and none of these wraps as long as the
cells have addresses of one word.  A word tells how many words follow it, so no encoding
is the start of another one.
-/

namespace WordMachine

namespace Memory

variable {memory : Memory} {ip k : Word} {words : List Word}

theorem operand_eq_ok_iff {w : Word} :
    memory.operand ip k = .ok w ↔ memory.read? (ip + k) = some w := by
  rw [operand]
  cases memory.read? (ip + k) <;> simp

theorem registerOperand_eq_ok_iff {r : Register} :
    memory.registerOperand ip k = .ok r ↔ memory.operand ip k = .ok r.id := by
  rw [registerOperand, bind_eq_ok_iff]
  constructor
  · intro ⟨w, hw, hr⟩
    cases hid : Register.ofId? w with
    | none =>
        rw [hid] at hr
        cases hr
    | some s =>
        rw [hid] at hr
        cases hr
        rw [hw, Register.ofId?_eq_some_iff.mp hid]
  · intro h
    exact ⟨r.id, h, by rw [Register.ofId?_id]⟩

theorem opcodeAt_eq_ok_iff {op : Opcode} :
    memory.opcodeAt ip = .ok op ↔ memory.operand ip 0 = .ok op.id := by
  rw [opcodeAt, bind_eq_ok_iff]
  constructor
  · intro ⟨w, hw, hop⟩
    cases hid : Opcode.ofId? w with
    | none =>
        rw [hid] at hop
        cases hop
    | some op' =>
        rw [hid] at hop
        cases hop
        rw [hw, Opcode.ofId?_eq_some_iff.mp hid]
  · intro h
    exact ⟨op.id, h, by rw [Opcode.ofId?_id]⟩

/-- The operands from the `k`th on are the given words. -/
def Reads (memory : Memory) (ip : Word) : Nat → List Word → Prop
  | _, [] => True
  | k, w :: rest => memory.operand ip (UInt64.ofNat k) = .ok w ∧ memory.Reads ip (k + 1) rest

theorem reads_iff {k : Nat} : memory.Reads ip k words ↔
    ∀ j w, words[j]? = some w → memory.operand ip (UInt64.ofNat (k + j)) = .ok w := by
  induction words generalizing k with
  | nil => simp [Reads]
  | cons word rest ih =>
      rw [Reads, ih]
      constructor
      · intro ⟨hword, hrest⟩ j w hj
        cases j with
        | zero =>
            cases hj
            exact hword
        | succ j =>
            rw [← Nat.succ_add_eq_add_succ]
            exact hrest j w hj
      · intro h
        refine ⟨h 0 word rfl, ?_⟩
        intro j w hj
        rw [Nat.succ_add_eq_add_succ]
        exact h (j + 1) w hj

theorem reads_zero_iff : memory.Reads ip 0 words ↔
    ∀ j w, words[j]? = some w → memory.read? (ip + UInt64.ofNat j) = some w := by
  simp only [reads_iff, Nat.zero_add, operand_eq_ok_iff]

theorem read?_add {j : Nat} (h : ip.toNat + j < Word.modulus) :
    memory.read? (ip + UInt64.ofNat j) = (memory.toList.drop ip.toNat)[j]? := by
  rw [read?, Word.toNat_add_ofNat h, List.getElem?_drop, Array.getElem?_toList]

/-- Words are read at the address where they stand. -/
theorem reads_of_prefix (hsize : memory.size ≤ Word.modulus)
    (h : words <+: memory.toList.drop ip.toNat) : memory.Reads ip 0 words := by
  have hlength : words.length ≤ memory.size - ip.toNat := by
    simpa using h.length_le
  rw [reads_zero_iff]
  intro j w hj
  obtain ⟨hlt, rfl⟩ := List.getElem?_eq_some_iff.mp hj
  rw [read?_add (by omega)]
  exact List.prefix_iff_getElem?.mp h j hlt

/-- Words that are read at an address stand there. -/
theorem prefix_of_reads (hsize : memory.size + words.length ≤ Word.modulus)
    (hne : words ≠ []) (h : memory.Reads ip 0 words) :
    words <+: memory.toList.drop ip.toNat := by
  rw [reads_zero_iff] at h
  -- The first word stands in the cell at the address itself, so no other address wraps.
  have hip : ip.toNat < memory.size := by
    have hfirst := h 0 _ (List.getElem?_eq_getElem (List.length_pos_iff.mpr hne))
    rw [read?_add (Nat.add_zero _ ▸ ip.toNat_lt)] at hfirst
    have hlt := (List.getElem?_eq_some_iff.mp hfirst).1
    simpa using hlt
  rw [List.prefix_iff_getElem?]
  intro j hj
  rw [← read?_add (by omega)]
  exact h j _ (List.getElem?_eq_getElem hj)

end Memory

theorem Opcode.wordCount_le (op : Opcode) : op.wordCount ≤ 4 := by
  cases op <;> decide

namespace Instruction

variable {memory memory' : Memory} {ip : Word} {ins : Instruction Word}

/-- An instruction is read only where its words stand. -/
theorem reads_of_ofMemory (h : ofMemory memory ip = .ok ins) :
    memory.Reads ip 0 ins.encode := by
  obtain ⟨op, hop, hrest⟩ := bind_eq_ok_iff.mp h
  have h₀ := Memory.opcodeAt_eq_ok_iff.mp hop
  cases op <;> simp only [bind_eq_ok_iff, pure_eq_ok_iff, Memory.registerOperand_eq_ok_iff] at hrest
  case je | jmp =>
    obtain ⟨target, h₁, rfl⟩ := hrest
    exact ⟨h₀, h₁, trivial⟩
  case cmp | sub | set =>
    obtain ⟨r, h₁, v, h₂, rfl⟩ := hrest
    exact ⟨h₀, h₁, h₂, trivial⟩
  case add | load =>
    obtain ⟨r, h₁, base, h₂, offset, h₃, rfl⟩ := hrest
    exact ⟨h₀, h₁, h₂, h₃, trivial⟩
  case storeRegister =>
    obtain ⟨base, h₁, offset, h₂, r, h₃, rfl⟩ := hrest
    exact ⟨h₀, h₁, h₂, h₃, trivial⟩
  case storeValue =>
    obtain ⟨base, h₁, offset, h₂, v, h₃, rfl⟩ := hrest
    exact ⟨h₀, h₁, h₂, h₃, trivial⟩
  case copy =>
    obtain ⟨r, h₁, source, h₂, rfl⟩ := hrest
    exact ⟨h₀, h₁, h₂, trivial⟩
  case inc =>
    obtain ⟨r, h₁, rfl⟩ := hrest
    exact ⟨h₀, h₁, trivial⟩
  case exit =>
    subst hrest
    exact ⟨h₀, trivial⟩

/-- Where the words of an instruction stand, it is read. -/
theorem ofMemory_of_reads (h : memory.Reads ip 0 ins.encode) : ofMemory memory ip = .ok ins := by
  have hop : memory.opcodeAt ip = .ok ins.opcode := Memory.opcodeAt_eq_ok_iff.mpr h.1
  rw [ofMemory, hop, ok_bind]
  cases ins <;> simp only [encode, operandWords, Memory.Reads, Nat.reduceAdd, UInt64.reduceOfNat,
    ← Memory.registerOperand_eq_ok_iff, and_true] at h
  case je target | jmp target =>
    obtain ⟨-, h₁⟩ := h
    simp only [opcode, h₁]
    rfl
  case cmp r v | sub r v | set r v | copy r source =>
    obtain ⟨-, h₁, h₂⟩ := h
    simp only [opcode, h₁, h₂]
    rfl
  case add r base offset | load r base offset | storeRegister base offset r |
      storeValue base offset v =>
    obtain ⟨-, h₁, h₂, h₃⟩ := h
    simp only [opcode, h₁, h₂, h₃]
    rfl
  case inc r =>
    obtain ⟨-, h₁⟩ := h
    simp only [opcode, h₁]
    rfl
  case exit => rfl

/-- The instruction at an address is the one whose words are read there. -/
theorem ofMemory_eq_ok_iff_reads :
    ofMemory memory ip = .ok ins ↔ memory.Reads ip 0 ins.encode :=
  ⟨reads_of_ofMemory, ofMemory_of_reads⟩

/-- An instruction is read back from its words. -/
theorem ofMemory_of_prefix (hsize : memory.size ≤ Word.modulus)
    (hwords : ins.encode <+: memory.toList.drop ip.toNat) :
    ofMemory memory ip = .ok ins :=
  ofMemory_eq_ok_iff_reads.mpr (Memory.reads_of_prefix hsize hwords)

theorem length_encode_le (ins : Instruction Word) : ins.encode.length ≤ 4 := by
  rw [length_encode]
  exact ins.opcode.wordCount_le

theorem ofMemory_eq_ok_iff_encode (hsize : memory.size < 2 ^ 63) :
    ofMemory memory ip = .ok ins ↔ ins.encode <+: memory.toList.drop ip.toNat := by
  have hmodulus : Word.modulus = 2 ^ 64 := rfl
  have hlength := ins.length_encode_le
  rw [ofMemory_eq_ok_iff_reads]
  constructor
  · exact Memory.prefix_of_reads (by omega) (List.cons_ne_nil _ _)
  · exact Memory.reads_of_prefix (by omega)

/-- No encoding is the start of another one. -/
theorem eq_of_encode_prefix {ins other : Instruction Word}
    (h : ins.encode <+: other.encode) : ins = other := by
  have hlength := other.length_encode_le
  have hsize : other.encode.toArray.size < 2 ^ 63 := by
    rw [List.size_toArray]
    omega
  have hself : ofMemory other.encode.toArray 0 = .ok other :=
    (ofMemory_eq_ok_iff_encode hsize).mpr List.prefix_rfl
  have hins : ofMemory other.encode.toArray 0 = .ok ins :=
    (ofMemory_eq_ok_iff_encode hsize).mpr h
  rw [hins] at hself
  exact Except.ok.inj hself

/-- Two memories that agree on the words of an instruction both hold it or both do not. -/
theorem ofMemory_eq_ok_congr (h : ∀ k < ins.wordCount,
      memory'.read? (ip + UInt64.ofNat k) = memory.read? (ip + UInt64.ofNat k)) :
    ofMemory memory' ip = .ok ins ↔ ofMemory memory ip = .ok ins := by
  rw [ofMemory_eq_ok_iff_reads, ofMemory_eq_ok_iff_reads, Memory.reads_zero_iff,
    Memory.reads_zero_iff]
  refine forall_congr' fun k => forall_congr' fun w => imp_congr_right fun hk => ?_
  have hlt : k < ins.wordCount := by
    rw [← length_encode]
    exact (List.getElem?_eq_some_iff.mp hk).1
  rw [h k hlt]

/-- Reading at an address is the exact inverse of encoding.  It gives an instruction if
and only if all words of the instruction stand there, whatever is around them. -/
theorem ofMemory_inverts_encode (hsize : memory.size < 2 ^ 63) (ip : Word)
    (ins : Instruction Word) :
    (ofMemory memory ip = .ok ins ↔
      ip.toNat + ins.wordCount ≤ memory.size ∧
        ins.encode <+: memory.toList.drop ip.toNat) ∧
    ins.encode.length = ins.wordCount ∧
    (∀ other : Instruction Word, ins.encode <+: other.encode → ins = other) ∧
    ∀ memory' : Memory, (∀ k < ins.wordCount,
        memory'.read? (ip + UInt64.ofNat k) = memory.read? (ip + UInt64.ofNat k)) →
      (ofMemory memory' ip = .ok ins ↔ ofMemory memory ip = .ok ins) := by
  refine ⟨?_, ins.length_encode, fun _ => eq_of_encode_prefix, fun _ => ofMemory_eq_ok_congr⟩
  rw [ofMemory_eq_ok_iff_encode hsize]
  constructor
  · intro h
    have hroom : ins.encode.length ≤ memory.size - ip.toNat := by
      simpa using h.length_le
    have hpos := ins.wordCount_pos
    rw [length_encode] at hroom
    exact ⟨by omega, h⟩
  · exact And.right

/-- A store at the end of memory. -/
theorem ofMemory_inverts_encode_store :
    ofMemory #[0, 6, 4, 18446744073709551615, 0] 1 =
      .ok (.storeRegister .ebp 18446744073709551615 .eax) :=
  (ofMemory_inverts_encode (by decide) 1 _).1.mpr (by decide)

end Instruction

end WordMachine
