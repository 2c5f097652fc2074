import Mathlib
import WordMachine.Proofs.Changes

/-!
# What an instruction touches

An instruction names at most one register to assign to and at most one cell to store to.
Nothing else in the machine changes, apart from the zero flag, which only a comparison sets,
and the instruction pointer, which only a jump sends anywhere but to the next instruction.
-/

namespace WordMachine

namespace Machine

variable {m m' : Machine} {ins : Instruction Word} {c : Change} {e : Effect}

/-- Two machines differ at most where an instruction says so, and in the instruction
pointer. -/
structure Touches (m : Machine) (ins : Instruction Word) (m' : Machine) : Prop where
  size : m'.memory.size = m.memory.size
  programLength : m'.programLength = m.programLength
  cell : ∀ address, m'.memory.read? address ≠ m.memory.read? address →
    m.storeAddress? ins = some address
  zeroFlag : m'.zeroFlag ≠ m.zeroFlag → ins.opcode = .cmp
  register : ∀ r, r ≠ .eip → m'.get r ≠ m.get r → ins.destination? = some r

theorem Touches.refl (m : Machine) (ins : Instruction Word) : m.Touches ins m where
  size := rfl
  programLength := rfl
  cell _ hne := absurd rfl hne
  zeroFlag hne := absurd rfl hne
  register _ _ hne := absurd rfl hne

theorem Touches.jump (h : m.Touches ins m') (next : Word) : m.Touches ins (m'.jump next) where
  size := h.size
  programLength := h.programLength
  cell := h.cell
  zeroFlag := h.zeroFlag
  register := by
    intro r hr hne
    rw [Machine.jump, get_set, if_neg hr] at hne
    exact h.register r hr hne

theorem Touches.apply (h : m.Touches ins m') (hc : m.Allows ins c) :
    m.Touches ins (m'.apply c) := by
  cases c with
  | register r w =>
      refine ⟨h.size, h.programLength, h.cell, h.zeroFlag, ?_⟩
      intro s hs hne
      by_cases hsr : s = r
      · rw [hsr]
        exact hc
      · rw [Machine.apply, get_set, if_neg hsr] at hne
        exact h.register s hs hne
  | cell address w =>
      refine ⟨?_, h.programLength, ?_, h.zeroFlag, h.register⟩
      · rw [← h.size]
        exact Memory.size_write _ _ _
      · intro a hne
        by_cases ha : a = address
        · rw [ha]
          exact hc
        · rw [Machine.apply, Memory.read?_write, if_neg fun hwritten => ha hwritten.1] at hne
          exact h.cell a hne
  | zeroFlag flag => exact ⟨h.size, h.programLength, h.cell, fun _ => hc, h.register⟩

theorem Touches.applyAll {changes : List Change} (h : m.Touches ins m')
    (hchanges : ∀ c ∈ changes, m.Allows ins c) : m.Touches ins (m'.applyAll changes) := by
  induction changes generalizing m' with
  | nil => exact h
  | cons c rest ih =>
      obtain ⟨hc, hrest⟩ := List.forall_mem_cons.mp hchanges
      exact ih (h.apply hc) hrest

/-- An instruction changes no more than it names. -/
theorem Outcome.touches (h : m.Outcome ins e) : m.Touches ins e.machine := by
  cases h with
  | failed fault => exact .refl m ins
  | exited hins => exact .refl m ins
  | wentOn hins events hrows hallowed => exact ((Touches.refl m ins).applyAll hallowed).jump _

theorem Outcome.halts_iff (h : m.Outcome ins e) (hok : e.fault = none) :
    e.halts = true ↔ ins = .exit := by
  cases h with
  | failed fault => cases hok
  | exited hins => exact iff_of_true rfl hins
  | wentOn hins events hrows hallowed => exact iff_of_false Bool.false_ne_true hins

theorem Outcome.machine_of_exit (h : m.Outcome ins e) (hins : ins = .exit) : e.machine = m := by
  cases h with
  | failed fault => rfl
  | exited _ => rfl
  | wentOn hne events hrows hallowed => exact absurd hins hne

/-- Where an instruction does not end the run, execution goes on at its target or behind
it. -/
theorem Outcome.ip_eq (h : m.Outcome ins e) (hok : e.fault = none) (hins : ins ≠ .exit) :
    e.machine.ip = m.nextIp ins := by
  cases h with
  | failed fault => cases hok
  | exited hexit => exact absurd hexit hins
  | wentOn _ events hrows hallowed => exact ip_jump _ _

/-- A jump names nothing that it could change. -/
theorem not_allows_of_jumpTarget? {target : Word} (hjump : m.jumpTarget? ins = some target)
    (c : Change) : ¬ m.Allows ins c := by
  cases ins with
  | je v | jmp v => cases c <;> simp [Allows, Instruction.destination?, storeAddress?,
      Instruction.opcode]
  | _ => cases hjump

theorem Outcome.machine_of_jump {target : Word} (h : m.Outcome ins e) (hok : e.fault = none)
    (hjump : m.jumpTarget? ins = some target) : e.machine = m.jump target := by
  cases h with
  | failed fault => cases hok
  | exited hins =>
      subst hins
      cases hjump
  | wentOn hins events hrows hallowed =>
      have hnone : Event.changes events = [] := by
        apply List.eq_nil_iff_forall_not_mem.mpr
        exact fun c hc => not_allows_of_jumpTarget? hjump c (hallowed c hc)
      rw [hnone, nextIp, hjump]
      rfl

end Machine

namespace State

variable {s : State} {ins : Instruction Word}

section

variable (hrunning : s.halted = false)
  (hfetch : Instruction.ofMemory s.machine.memory s.machine.ip = .ok ins)

include hrunning hfetch

theorem outcome_step : s.machine.Outcome ins (s.machine.execute ins) ∧
    s.next.machine = (s.machine.execute ins).machine ∧
    s.next.halted = (s.machine.execute ins).halts ∧
    s.step.fault = (s.machine.execute ins).fault := by
  refine ⟨Machine.outcome_execute s.machine ins, ?_⟩
  rw [next, step_of_fetch hrunning hfetch]
  exact ⟨rfl, rfl, rfl⟩

/-- A step changes no more than its instruction names. -/
theorem touches_next : s.machine.Touches ins s.next.machine := by
  obtain ⟨houtcome, hmachine, -, -⟩ := outcome_step hrunning hfetch
  rw [hmachine]
  exact houtcome.touches

theorem machine_next_of_exit (hins : ins = .exit) : s.next.machine = s.machine := by
  obtain ⟨houtcome, hmachine, -, -⟩ := outcome_step hrunning hfetch
  rw [hmachine]
  exact houtcome.machine_of_exit hins

variable (hok : s.step.fault = none)

include hok

theorem halted_next_iff : s.next.halted = true ↔ ins = .exit := by
  obtain ⟨houtcome, -, hhalted, hfault⟩ := outcome_step hrunning hfetch
  rw [hhalted]
  exact houtcome.halts_iff (hfault.symm.trans hok)

/-- A step goes on behind the instruction or where it jumps to. -/
theorem ip_next (hins : ins ≠ .exit) : s.next.machine.ip = s.machine.nextIp ins := by
  obtain ⟨houtcome, hmachine, -, hfault⟩ := outcome_step hrunning hfetch
  rw [hmachine]
  exact houtcome.ip_eq (hfault.symm.trans hok) hins

theorem machine_next_of_jump {target : Word} (hjump : s.machine.jumpTarget? ins = some target) :
    s.next.machine = s.machine.jump target := by
  obtain ⟨houtcome, hmachine, -, hfault⟩ := outcome_step hrunning hfetch
  rw [hmachine]
  exact houtcome.machine_of_jump (hfault.symm.trans hok) hjump

end

/-- A step that succeeds touches no more than its instruction names.  It halts the machine at
`exit`, which changes nothing else.  A jump that is taken changes the instruction pointer
alone, and every other instruction sets it to the next one, also where it has assigned to it.
A machine that has halted is changed by nothing. -/
theorem step_touches (hrunning : s.halted = false) (hok : s.step.fault = none) :
    (∃ ins, Instruction.ofMemory s.machine.memory s.machine.ip = .ok ins ∧
      s.machine.Touches ins s.next.machine ∧
      s.next.steps = s.steps + 1 ∧
      (s.next.halted = true ↔ ins = .exit) ∧
      (ins = .exit → s.next.machine = s.machine) ∧
      (∀ target, s.machine.jumpTarget? ins = some target →
        s.next.machine = s.machine.jump target) ∧
      (ins ≠ .exit → s.machine.jumpTarget? ins = none →
        s.next.machine.ip = s.machine.ip + UInt64.ofNat ins.wordCount)) ∧
    ∀ t : Transcript, t.state.halted = true → ∀ cs, (t.calls cs).state = t.state := by
  refine ⟨?_, fun t hhalted cs => Transcript.state_calls_of_halted hhalted cs⟩
  cases hfetch : Instruction.ofMemory s.machine.memory s.machine.ip with
  | error fault =>
      rw [step_of_fetch_error hrunning hfetch] at hok
      cases hok
  | ok ins =>
      refine ⟨ins, rfl, touches_next hrunning hfetch, steps_step hrunning hok,
        halted_next_iff hrunning hfetch hok, machine_next_of_exit hrunning hfetch,
        fun target hjump => machine_next_of_jump hrunning hfetch hok hjump, ?_⟩
      intro hins hjump
      rw [ip_next hrunning hfetch hok hins, Machine.nextIp, hjump]
      rfl

/-- A load into the instruction pointer from the cell that it points at is followed by the
next instruction. -/
theorem step_touches_load :
    (State.start (.loaded 5 [8, 6, 6, 0, 12])).next.machine.ip = 4 := by
  obtain ⟨⟨ins, hfetch, -, -, -, -, -, hnext⟩, -⟩ :=
    step_touches (s := .start (.loaded 5 [8, 6, 6, 0, 12])) rfl (by decide)
  obtain rfl : .load .eip .eip 0 = ins :=
    Except.ok.inj ((by decide : _ = Except.ok _).symm.trans hfetch)
  exact hnext (by decide) (by decide)

end State

end WordMachine
