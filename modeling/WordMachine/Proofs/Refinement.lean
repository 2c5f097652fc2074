import Mathlib
import WordMachine.Proofs.Decoding
import WordMachine.Proofs.Grammar
import WordMachine.Proofs.SourceMachine
import WordMachine.Proofs.Stepping

/-!
# Assembled programs run as their sources

A machine that runs an assembled program and the source machine that runs its outline go
through the same states.  The instruction pointer is always at the words of the
instruction that the source machine has next.  Stores above the program leave these
words alone, and a jump by name leads to the start of an instruction.
-/

namespace WordMachine

namespace Outline

theorem code_before (outline : Outline) (name : String) :
    outline.code.take (outline.entry name) = (outline.before name).code := by
  obtain ⟨rest, hrest⟩ := outline.takeWhile_prefix fun item => item ≠ .declaration name
  have hcode : outline.code = (outline.before name).code ++ code rest := by
    rw [← code_append, before, hrest]
  rw [hcode, entry, List.take_left]

/-- A label stands for the address of its entry. -/
theorem offset_entry (outline : Outline) (name : String) :
    outline.offset (outline.entry name) = outline.address name :=
  calc outline.offset (outline.entry name)
      = ((outline.before name).code.map Instruction.wordCount).sum := by
        rw [offset, code_before]
    _ = outline.address name := (wordCount_eq_sum_code _).symm

theorem toNat_word_reference {outline : Outline} (hsize : outline.wordCount < Word.modulus)
    (name : String) :
    (outline.word (.reference name)).toNat = outline.offset (outline.entry name) := by
  have hle := outline.offset_le (outline.entry name)
  rw [word, ← offset_entry]
  exact Word.toNat_ofNat (by omega)

end Outline

/-- A machine and a source machine hold the same words.  The instruction pointer does
not count. -/
structure Machine.Matches (m : Machine) (ref : SourceMachine) : Prop where
  registers : ∀ r, r ≠ .eip → m.get r = ref.get r
  zeroFlag : m.zeroFlag = ref.zeroFlag
  memory : m.memory = ref.memory

/-- A state of a run and a state of the source machine that stand for each other. -/
structure State.Agrees (outline : Outline) (s : State) (ref : SourceMachine) : Prop
    extends s.machine.Matches ref where
  ip : s.machine.ip.toNat = outline.offset ref.pc
  halted : s.halted = ref.halted

namespace Machine

variable {m m' : Machine} {ref ref' : SourceMachine} {r : Register} {w next : Word}

theorem Matches.jump (h : m.Matches ref) : (m.jump next).Matches ref where
  registers := by
    intro r hr
    rw [Machine.jump, get_set, if_neg hr, h.registers r hr]
  zeroFlag := h.zeroFlag
  memory := h.memory

theorem Matches.assign (h : m.Matches ref) : (m.set r w).Matches (ref.assign r w) where
  registers := by
    intro s hs
    rw [get_set, SourceMachine.get, SourceMachine.assign, RegisterFile.get_set]
    exact if_congr Iff.rfl rfl (h.registers s hs)
  zeroFlag := h.zeroFlag
  memory := h.memory

/-- What an instruction makes of a machine is what it makes of the source machine. -/
def Simulates (outline : Outline) (m : Machine) (e : Effect) :
    Except Word SourceMachine → Prop
  | .ok ref => e.fault = none ∧ e.machine.Matches ref ∧
      e.machine.ip.toNat = outline.offset ref.pc ∧ e.halts = ref.halted
  | .error address =>
      e.fault = some (m.outOfBounds address) ∧ e.machine = m ∧ e.halts = false

variable {outline : Outline} {events : List Event}

theorem simulates_goOn (h : m'.Matches ref) (hnext : next.toNat = outline.offset ref.pc)
    (hrunning : ref.halted = false) :
    m.Simulates outline (m'.goOn next events) (.ok ref) := by
  refine ⟨rfl, h.jump, ?_, hrunning.symm⟩
  rwa [goOn, ip_jump]

theorem simulates_assign (h : m.Matches ref) (hnext : next.toNat = outline.offset (ref.pc + 1))
    (hrunning : ref.halted = false) :
    m.Simulates outline (m.assign next r w) (.ok (ref.assign r w)) :=
  simulates_goOn h.assign hnext hrunning

theorem Matches.cellAddress (h : m.Matches ref) {base : Register} (hbase : base ≠ .eip)
    (offset : Operand) :
    m.cellAddress base (outline.word offset) = ref.cellAddress outline base offset := by
  rw [Machine.cellAddress, SourceMachine.cellAddress, h.registers base hbase]

theorem simulates_loadInto (h : m.Matches ref)
    (hnext : next.toNat = outline.offset (ref.pc + 1)) (hrunning : ref.halted = false)
    {base : Register} (hbase : base ≠ .eip) (offset : Operand) (f : Word → Word) :
    m.Simulates outline (m.loadInto next r base (outline.word offset) f) (do
      let w ← ref.read (ref.cellAddress outline base offset)
      return ref.assign r (f w)) := by
  rw [loadInto, h.cellAddress hbase, Machine.read, SourceMachine.read, h.memory]
  cases ref.memory.read? (ref.cellAddress outline base offset) with
  | none => exact ⟨rfl, rfl, rfl⟩
  | some w => exact simulates_goOn h.assign hnext hrunning

/-- A store goes the same in the source machine, and so does one that leaves memory. -/
theorem simulates_store (h : m.Matches ref)
    (hnext : next.toNat = outline.offset (ref.pc + 1)) (hrunning : ref.halted = false)
    {base : Register} (hbase : base ≠ .eip) (offset : Operand) :
    m.Simulates outline (m.store next base (outline.word offset) w)
      (ref.store (ref.cellAddress outline base offset) w) := by
  rw [store, h.cellAddress hbase, Machine.write, SourceMachine.store, h.memory]
  cases ref.memory.holds (ref.cellAddress outline base offset) with
  | false => exact ⟨rfl, rfl, rfl⟩
  | true => exact simulates_goOn ⟨h.registers, h.zeroFlag, rfl⟩ hnext hrunning

/-- The two machines carry out an instruction alike. -/
theorem simulates_execute (hsize : outline.wordCount < Word.modulus)
    {ins : Instruction Operand} (hnamed : ins.Named) (hjumps : ins.jumpsByName = true)
    (hins : outline.code[ref.pc]? = some ins) (h : m.Matches ref)
    (hip : m.ip.toNat = outline.offset ref.pc) (hrunning : ref.halted = false) :
    m.Simulates outline (m.execute (ins.map outline.word)) (ref.execute outline ins) := by
  have hnext : (m.ip + UInt64.ofNat (ins.map outline.word).wordCount).toNat =
      outline.offset (ref.pc + 1) := by
    have hle := outline.offset_le (ref.pc + 1)
    rw [Outline.offset_succ hins] at hle
    calc (m.ip + UInt64.ofNat (ins.map outline.word).wordCount).toNat
        = m.ip.toNat + ins.wordCount := by
          rw [Instruction.wordCount_map]
          exact Word.toNat_add_ofNat (by omega)
      _ = outline.offset (ref.pc + 1) := by rw [hip, Outline.offset_succ hins]
  have hget : ∀ r ∈ ins.registers, m.get r = ref.get r := fun r hr =>
    h.registers r (hnamed r hr)
  cases ins with
  | je v =>
      cases v with
      | literal digits => cases hjumps
      | reference name =>
          simp only [Instruction.map, execute, SourceMachine.execute, h.zeroFlag]
          by_cases hflag : ref.zeroFlag = true
          · rw [if_pos hflag, if_pos hflag]
            exact simulates_goOn ⟨h.registers, h.zeroFlag, h.memory⟩
              (Outline.toNat_word_reference hsize name) hrunning
          · rw [if_neg hflag, if_neg hflag]
            exact simulates_goOn ⟨h.registers, h.zeroFlag, h.memory⟩ hnext hrunning
  | jmp v =>
      cases v with
      | literal digits => cases hjumps
      | reference name =>
          exact simulates_goOn ⟨h.registers, h.zeroFlag, h.memory⟩
            (Outline.toNat_word_reference hsize name) hrunning
  | cmp r v =>
      have hr := hget r (by simp [Instruction.registers])
      simp only [Instruction.map, execute, SourceMachine.execute, hr]
      exact simulates_goOn ⟨h.registers, rfl, h.memory⟩ hnext hrunning
  | add r base v =>
      have hr := hget r (by simp [Instruction.registers])
      have hbase := hnamed base (by simp [Instruction.registers])
      simp only [Instruction.map, execute, SourceMachine.execute, hr]
      exact simulates_loadInto h hnext hrunning hbase v (ref.get r + ·)
  | sub r v =>
      have hr := hget r (by simp [Instruction.registers])
      simp only [Instruction.map, execute, SourceMachine.execute, hr]
      exact simulates_assign h hnext hrunning
  | storeRegister base v r =>
      have hr := hget r (by simp [Instruction.registers])
      have hbase := hnamed base (by simp [Instruction.registers])
      simp only [Instruction.map, execute, SourceMachine.execute, hr]
      exact simulates_store h hnext hrunning hbase v
  | storeValue base v w =>
      have hbase := hnamed base (by simp [Instruction.registers])
      exact simulates_store h hnext hrunning hbase v
  | load r base v =>
      have hbase := hnamed base (by simp [Instruction.registers])
      exact simulates_loadInto h hnext hrunning hbase v id
  | copy r source =>
      have hsource := hget source (by simp [Instruction.registers])
      simp only [Instruction.map, execute, SourceMachine.execute, hsource]
      exact simulates_assign h hnext hrunning
  | set r v => exact simulates_assign h hnext hrunning
  | inc r =>
      have hr := hget r (by simp [Instruction.registers])
      simp only [Instruction.map, execute, SourceMachine.execute, hr]
      exact simulates_assign h hnext hrunning
  | exit => exact ⟨rfl, ⟨h.registers, h.zeroFlag, h.memory⟩, hip, rfl⟩

end Machine

/-- The words of the outline are still in memory. -/
structure SourceMachine.Intact (outline : Outline) (ref : SourceMachine) : Prop where
  code : Instruction.encodeAll outline.image <+: ref.memory.toList
  size : ref.memory.size < Word.modulus

/-- A write behind some words leaves them alone. -/
theorem Memory.prefix_write {memory : Memory} {words : List Word} {address w : Word}
    (h : words <+: memory.toList) (haddress : words.length ≤ address.toNat) :
    words <+: (memory.write address w).toList := by
  rw [List.prefix_iff_eq_take] at h ⊢
  rw [Memory.write, Array.toList_setIfInBounds, List.take_set_of_le haddress]
  exact h

namespace SourceMachine

variable {outline : Outline} {ref ref' : SourceMachine} {ins : Instruction Operand}

/-- Only a store changes memory, and only at its address. -/
theorem memory_of_execute (hins : outline.code[ref.pc]? = some ins)
    (h : ref.execute outline ins = .ok ref') :
    ref'.memory = ref.memory ∨ ∃ address w, ref.storeAddress? outline = some address ∧
      ref'.memory = ref.memory.write address w := by
  have hstore : ∀ address w, ref.store address w = .ok ref' →
      ref'.memory = ref.memory.write address w := fun _ _ hok =>
    (congrArg memory (store_eq_ok_iff.mp hok).2).symm
  cases ins with
  | storeRegister base v r =>
      exact .inr ⟨_, _, by simp [storeAddress?, hins], hstore _ _ h⟩
  | storeValue base v w =>
      exact .inr ⟨_, _, by simp [storeAddress?, hins], hstore _ _ h⟩
  | add r base v =>
      obtain ⟨w, -, hok⟩ := bind_eq_ok_iff.mp h
      cases hok
      exact .inl rfl
  | load r base v =>
      obtain ⟨w, -, hok⟩ := bind_eq_ok_iff.mp h
      cases hok
      exact .inl rfl
  | je v =>
      simp only [execute] at h
      split at h <;> cases h <;> exact .inl rfl
  | jmp v | cmp r v | sub r v | copy r source | set r v | inc r | exit =>
      cases h
      exact .inl rfl

/-- A step fails only at the address of a load or a store, where there is no cell. -/
theorem address_of_execute (hins : outline.code[ref.pc]? = some ins) {address : Word}
    (h : ref.execute outline ins = .error address) :
    (ref.loadAddress? outline = some address ∨ ref.storeAddress? outline = some address) ∧
      ref.memory.holds address = false := by
  have hload : ∀ a (f : Word → SourceMachine),
      (do let w ← ref.read a; return f w) = Except.error address →
        ref.memory.holds a = false ∧ a = address := by
    intro a f herror
    cases hread : ref.read a with
    | error b =>
        rw [hread] at herror
        cases herror
        exact read_eq_error_iff.mp hread
    | ok w =>
        rw [hread] at herror
        cases herror
  cases ins with
  | add r base v | load r base v =>
      obtain ⟨hholds, rfl⟩ := hload _ _ h
      exact ⟨.inl (by simp [loadAddress?, hins]), hholds⟩
  | storeRegister base v r | storeValue base v w =>
      obtain ⟨hholds, rfl⟩ := store_eq_error_iff.mp h
      exact ⟨.inr (by simp [storeAddress?, hins]), hholds⟩
  | je v | jmp v | cmp r v | sub r v | copy r source | set r v | inc r | exit => cases h

theorem step_of_getElem? (hrunning : ref.halted = false)
    (hins : outline.code[ref.pc]? = some ins) : ref.step outline = ref.execute outline ins := by
  simp only [step, hrunning, hins, Bool.false_eq_true, if_false]

theorem Intact.next (hintact : ref.Intact outline)
    (hstore : ∀ address, ref.storeAddress? outline = some address →
      outline.wordCount ≤ address.toNat) : (ref.next outline).Intact outline := by
  unfold SourceMachine.next
  cases hstep : ref.step outline with
  | error address => exact hintact
  | ok ref' =>
      unfold SourceMachine.step at hstep
      split at hstep
      · cases hstep
        exact hintact
      split at hstep
      · next ins hins =>
          rcases memory_of_execute hins hstep with hmemory | ⟨address, w, haddress, hmemory⟩
          · exact ⟨hmemory ▸ hintact.code, hmemory ▸ hintact.size⟩
          · have hbehind : (Instruction.encodeAll outline.image).length ≤ address.toNat := by
              rw [Outline.length_encodeAll_image]
              exact hstore address haddress
            refine ⟨hmemory ▸ Memory.prefix_write hintact.code hbehind, ?_⟩
            rw [hmemory, Memory.size_write]
            exact hintact.size
      · cases hstep
        exact hintact

end SourceMachine

/-! ## Runs -/

namespace State

variable {outline : Outline} {s : State} {ref : SourceMachine} {ins : Instruction Operand}

/-- The machine fetches the instruction that the source machine has next. -/
theorem Agrees.fetch (h : s.Agrees outline ref) (hintact : ref.Intact outline)
    (hins : outline.code[ref.pc]? = some ins) :
    Instruction.ofMemory s.machine.memory s.machine.ip = .ok (ins.map outline.word) := by
  apply Instruction.ofMemory_of_prefix
  · rw [h.memory]
    exact hintact.size.le
  · rw [h.memory, h.ip]
    exact (Outline.encode_prefix_drop hins).trans (hintact.code.drop _)

variable (hwf : outline.WellFormed) (hsize : outline.wordCount < Word.modulus)
  (hjumps : ∀ ins ∈ outline.code, ins.jumpsByName = true)

include hwf hsize hjumps

/-- What stands in memory for an instruction of the outline does what the instruction does. -/
theorem Agrees.simulates (h : s.Agrees outline ref) (hrunning : ref.halted = false)
    (hins : outline.code[ref.pc]? = some ins) :
    s.machine.Simulates outline (s.machine.execute (ins.map outline.word))
      (ref.execute outline ins) := by
  have hmem := List.mem_of_getElem? hins
  exact Machine.simulates_execute hsize (hwf.instruction hmem).1
    (hjumps ins hmem) hins h.toMatches h.ip hrunning

/-- One step keeps the two machines together. -/
theorem Agrees.next (h : s.Agrees outline ref) (hintact : ref.Intact outline)
    (hins : outline.code[ref.pc]? = some ins) :
    s.next.Agrees outline (ref.next outline) := by
  cases hhalted : ref.halted with
  | true =>
      have hstate : s.next = s := by
        rw [State.next, step_of_halted (h.halted.trans hhalted)]
      have href : ref.next outline = ref := by
        simp only [SourceMachine.next, SourceMachine.step, hhalted, if_true]
      rw [hstate, href]
      exact h
  | false =>
      have hsim := h.simulates hwf hsize hjumps hhalted hins
      rw [State.next, step_of_fetch (h.halted.trans hhalted) (h.fetch hintact hins),
        SourceMachine.next, SourceMachine.step_of_getElem? hhalted hins]
      cases hexecute : ref.execute outline ins with
      | ok ref' =>
          rw [hexecute] at hsim
          obtain ⟨-, hmatches, hip, hhalts⟩ := hsim
          exact ⟨hmatches, hip, hhalts⟩
      | error address =>
          rw [hexecute] at hsim
          obtain ⟨-, hmachine, hhalts⟩ := hsim
          refine ⟨?_, ?_, hhalts.trans hhalted.symm⟩
          · simpa only [hmachine] using h.toMatches
          · simpa only [hmachine] using h.ip

/-- The only fault is an access outside memory by a load or a store. -/
theorem Agrees.fault (h : s.Agrees outline ref) (hintact : ref.Intact outline)
    (hins : outline.code[ref.pc]? = some ins) {fault : Fault}
    (hfault : s.step.fault = some fault) :
    ∃ address, (ref.loadAddress? outline = some address ∨
        ref.storeAddress? outline = some address) ∧
      ref.memory.holds address = false ∧ fault = .outOfBounds s.machine.ip address := by
  cases hhalted : ref.halted with
  | true =>
      rw [step_of_halted (h.halted.trans hhalted)] at hfault
      cases hfault
  | false =>
      have hsim := h.simulates hwf hsize hjumps hhalted hins
      rw [step_of_fetch (h.halted.trans hhalted) (h.fetch hintact hins)] at hfault
      cases hexecute : ref.execute outline ins with
      | ok ref' =>
          rw [hexecute] at hsim
          rw [hsim.1] at hfault
          cases hfault
      | error address =>
          rw [hexecute] at hsim
          rw [hsim.1] at hfault
          cases hfault
          obtain ⟨haddress, hholds⟩ := SourceMachine.address_of_execute hins hexecute
          exact ⟨address, haddress, hholds, rfl⟩

end State

namespace Program

def stateAfter (p : Program) (k : Nat) : State := State.next^[k] (.start p.machine)

def sourceAfter (p : Program) (outline : Outline) (k : Nat) : SourceMachine :=
  (SourceMachine.next outline)^[k] (.ofMachine p.machine)

/-- The source machine stays in front of the end and stores only behind the program. -/
def StaysInside (p : Program) (outline : Outline) (k : Nat) : Prop :=
  ∀ j < k, (p.sourceAfter outline j).pc < outline.code.length ∧
    ∀ address ∈ (p.sourceAfter outline j).storeAddress? outline,
      p.machine.programLength ≤ address.toNat

instance (p : Program) (outline : Outline) (k : Nat) : Decidable (p.StaysInside outline k) :=
  decidable_of_iff (∀ j < k, (p.sourceAfter outline j).pc < outline.code.length ∧
      ((p.sourceAfter outline j).storeAddress? outline).all
        (fun address => p.machine.programLength ≤ address.toNat) = true)
    (by simp only [StaysInside, Option.all_eq_true, decide_eq_true_eq, Option.mem_def])

theorem stateAfter_succ (p : Program) (k : Nat) :
    p.stateAfter (k + 1) = (p.stateAfter k).next :=
  Function.iterate_succ_apply' _ _ _

theorem sourceAfter_succ (p : Program) (outline : Outline) (k : Nat) :
    p.sourceAfter outline (k + 1) = (p.sourceAfter outline k).next outline :=
  Function.iterate_succ_apply' _ _ _

theorem StaysInside.of_succ {p : Program} {outline : Outline} {k : Nat}
    (h : p.StaysInside outline (k + 1)) : p.StaysInside outline k :=
  fun j hj => h j (Nat.lt_succ_of_lt hj)

variable {source : String} {limits : Limits} {outline : Outline}

/-- A run of any length keeps the machines together and the code intact. -/
theorem agrees_after (hsize : limits.memorySize < Word.modulus) (hwf : outline.WellFormed)
    (hfits : outline.wordCount ≤ limits.memorySize)
    (hjumps : ∀ ins ∈ outline.code, ins.jumpsByName = true) {k : Nat}
    (hrun : (outline.program limits).StaysInside outline k) :
    ((outline.program limits).stateAfter k).Agrees outline
        ((outline.program limits).sourceAfter outline k) ∧
      ((outline.program limits).sourceAfter outline k).Intact outline := by
  induction k with
  | zero =>
      refine ⟨⟨⟨fun _ _ => rfl, rfl, rfl⟩, rfl, rfl⟩, ?_, ?_⟩
      · change _ <+: (outline.program limits).machine.memory.toList
        rw [Outline.toList_memory_program]
        exact List.prefix_append _ _
      · change (outline.program limits).machine.memory.size < _
        rwa [Outline.size_memory_program hfits]
  | succ k ih =>
      obtain ⟨hagrees, hintact⟩ := ih hrun.of_succ
      obtain ⟨hpc, hstore⟩ := hrun k (Nat.lt_succ_self k)
      rw [Outline.programLength_program] at hstore
      rw [stateAfter_succ, sourceAfter_succ]
      exact ⟨hagrees.next hwf (by omega) hjumps hintact (List.getElem?_eq_getElem hpc),
        hintact.next hstore⟩

/-- A program runs as its source says.  After each number of steps the machine has the
instruction pointer, the registers, the zero flag, the memory and the halted state of the
source machine.  It has the next instruction of the source in front of it and can fail
only by an access outside memory. -/
theorem refines_source {p : Program} (hsize : limits.memorySize < Word.modulus)
    (h : Program.ofSource source limits = .ok p) (hspells : outline.Spells source)
    (hwf : outline.WellFormed) (hjumps : ∀ ins ∈ outline.code, ins.jumpsByName = true)
    (k : Nat) (hrun : p.StaysInside outline k) :
    (p.stateAfter k).Agrees outline (p.sourceAfter outline k) ∧
    ∀ ins, outline.code[(p.sourceAfter outline k).pc]? = some ins →
      Instruction.ofMemory (p.stateAfter k).machine.memory (p.stateAfter k).machine.ip =
          .ok (ins.map outline.word) ∧
      ∀ fault, (p.stateAfter k).step.fault = some fault →
        ∃ address, ((p.sourceAfter outline k).loadAddress? outline = some address ∨
            (p.sourceAfter outline k).storeAddress? outline = some address) ∧
          (p.sourceAfter outline k).memory.holds address = false ∧
          fault = .outOfBounds (p.stateAfter k).machine.ip address := by
  obtain ⟨hfits, rfl⟩ := (Outline.ofSource_eq_ok_iff_of_spells hspells hwf).mp h
  obtain ⟨hagrees, hintact⟩ := agrees_after hsize hwf hfits hjumps hrun
  refine ⟨hagrees, ?_⟩
  intro ins hins
  refine ⟨hagrees.fetch hintact hins, ?_⟩
  intro fault hfault
  exact hagrees.fault hwf (Nat.lt_of_le_of_lt hfits hsize) hjumps hintact hins hfault

/-- The loop halts in its eighth step. -/
theorem refines_source_loop :
    ((Outline.loop.program { memorySize := 16 }).stateAfter 8).halted = true := by
  have hrefines := refines_source (by decide) Outline.loop_ofSource Outline.loop_spells
    Outline.loop_wellFormed (by decide +kernel) 8 (by decide +kernel)
  rw [hrefines.1.halted]
  decide +kernel

end Program

end WordMachine
